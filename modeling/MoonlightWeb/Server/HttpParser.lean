import MoonlightWeb.Qt.Utf8
import MoonlightWeb.Qt.QHash

/-! # The parser of a request

`HttpParser::parse` takes a complete request apart: the request line, the header lines
up to the first empty line, and the rest as body. Where a blank line stands among the
bytes, the head and the body may be read apart from each other. `QUrl` and the case
maps beyond ASCII are the library's and stay parameters.
-/

namespace MoonlightWeb.Server

open Qt Lib Js QString

/-- What `QUrl` and `QUrlQuery` make of a request target. -/
structure RequestTarget where
  path : QString
  queryItems : List (QString × QString)

/-- The functions of Qt that rest on its tables. -/
structure Platform where
  url : QString → RequestTarget
  toLower : QString → QString
  toUpper : QString → QString

structure HttpRequest where
  method : QString
  path : QString
  queryParams : QHash QString QString
  headers : QHash QString QString
  body : QByteArray
  malformed : Bool

namespace HttpParser

def hasControlChars (s : QString) : Bool := s.any fun u => u < 0x20 || u = 0x7F

def blank : HttpRequest := ⟨[], [], JsMap.empty, JsMap.empty, [], false⟩

variable (p : Platform)

def requestLine (line : QString) : HttpRequest :=
  match line.splitOnP (· = unit ' ') with
  | method :: target :: _ =>
      let url := p.url target
      let path := if url.path = [] then qs "/" else url.path
      { blank with
        method := p.toUpper method
        path := path
        queryParams := url.queryItems.foldl (fun m item => m.set item.1 item.2) JsMap.empty
        malformed := hasControlChars path ||
          url.queryItems.any fun item => hasControlChars item.1 || hasControlChars item.2 }
  | _ => blank

/-- The name and the value of a header line, unless its colon is missing or comes first. -/
def header (line : QString) : Option (QString × QString) :=
  let colon := line.idxOf (unit ':')
  if 0 < colon ∧ colon < line.length then
    some (p.toLower (trimmed (line.take colon)), trimmed (line.drop (colon + 1)))
  else none

def headerLines (lines : List QString) : List QString :=
  lines.tail.takeWhile fun line => !line.isEmpty

/-- The headers in the order of their lines, one that is repeated as often as it stands. -/
def headerPairs (lines : List QString) : List (QString × QString) :=
  (headerLines lines).filterMap (header p)

/-- What follows the empty line. -/
def body (lines : List QString) : QByteArray :=
  match lines.tail.dropWhile fun line => !line.isEmpty with
  | [] => []
  | _ :: bodyLines => toUtf8 ([0x0D, 0x0A].intercalate bodyLines)

def parseLines (lines : List QString) : HttpRequest :=
  { requestLine p (lines.headD []) with
    headers := (headerPairs p lines).foldl (fun m member => m.set member.1 member.2) JsMap.empty
    body := body lines }

def parse (raw : QByteArray) : HttpRequest :=
  parseLines p (textLines (fromUtf8 raw))

/-- The end of the headers, `\r\n\r\n`. -/
abbrev blankLine : QByteArray := [0x0D, 0x0A, 0x0D, 0x0A]

section

variable {raw : QByteArray} {headerEnd : Nat}

variable (h : indexOf blankLine raw = some headerEnd)

include h

theorem split_blankLine :
    raw = raw.take headerEnd ++ 0x0D :: 0x0A :: 0x0D :: 0x0A :: raw.drop (headerEnd + 4) := by
  obtain ⟨⟨rest, hrest⟩, _⟩ := indexOf_eq_some h
  have hdrop : raw.drop (headerEnd + 4) = rest := by
    rw [← List.drop_drop, ← hrest]
    rfl
  have hraw := List.take_append_drop headerEnd raw
  rw [← hrest] at hraw
  rw [hdrop]
  exact hraw.symm

/-- The lines of a request: those of the head, the empty one, and those of the body. -/
theorem lines_eq :
    textLines (fromUtf8 raw) =
      textLines (fromUtf8 (raw.take headerEnd)) ++
        [] :: textLines (decode (raw.drop (headerEnd + 4))) := by
  have hbody : textLines (decode (0x0D :: 0x0A :: raw.drop (headerEnd + 4))) =
      [] :: textLines (decode (raw.drop (headerEnd + 4))) := by
    have hcut := decode_break [] (raw.drop (headerEnd + 4))
    rw [List.nil_append, decode_nil, List.nil_append] at hcut
    rw [hcut, textLines, splitLines_break]
  have hsplit := textLines_fromUtf8 (raw.take headerEnd)
    (0x0D :: 0x0A :: raw.drop (headerEnd + 4))
  rw [← split_blankLine h, hbody] at hsplit
  exact hsplit

theorem nonempty_of_mem_tail {line : QString}
    (hmem : line ∈ (textLines (fromUtf8 (raw.take headerEnd))).tail) :
    (!line.isEmpty) = true := by
  have hbytes := not_mem_tail_of_indexOf h
  rw [fromUtf8, textLines_decode, ← List.map_tail,
    tail_byteLines_stripBom] at hmem
  obtain ⟨l, hl, rfl⟩ := List.mem_map.mp hmem
  cases hdecode : decode l with
  | nil =>
    obtain rfl := decode_eq_nil hdecode
    exact absurd hl hbytes
  | cons u rest => rfl

/-- The head is the same read with the body behind it or without. -/
theorem headerLines_eq :
    headerLines (textLines (fromUtf8 raw)) =
      headerLines (textLines (fromUtf8 (raw.take headerEnd))) := by
  have hne := splitLines_ne_nil 0x0D 0x0A (fromUtf8 (raw.take headerEnd))
  rw [lines_eq h, headerLines, headerLines, List.tail_append_of_ne_nil hne,
    List.takeWhile_append_of_pos fun line hline => nonempty_of_mem_tail h hline]
  rw [List.takeWhile_cons_of_neg (by simp), List.append_nil]
  exact (List.takeWhile_eq_self_iff.mpr fun line hline => nonempty_of_mem_tail h hline).symm

theorem body_eq :
    body (textLines (fromUtf8 raw)) =
      toUtf8 (decode (raw.drop (headerEnd + 4))) := by
  have hne := splitLines_ne_nil 0x0D 0x0A (fromUtf8 (raw.take headerEnd))
  have hdrop : (textLines (fromUtf8 raw)).tail.dropWhile
      (fun line => !line.isEmpty) =
        [] :: textLines (decode (raw.drop (headerEnd + 4))) := by
    rw [lines_eq h, List.tail_append_of_ne_nil hne,
      List.dropWhile_append_of_pos fun line hline => nonempty_of_mem_tail h hline,
      List.dropWhile_cons_of_neg (by simp)]
  rw [body, hdrop]
  dsimp only
  rw [textLines, intercalate_splitLines]

omit h

theorem parse_eq (p : Platform) (h : indexOf blankLine raw = some headerEnd) :
    parse p raw = { parseLines p (textLines (fromUtf8 (raw.take headerEnd))) with
        body := toUtf8 (decode (raw.drop (headerEnd + 4))) } := by
  have hhead : (textLines (fromUtf8 raw)).headD [] =
      (textLines (fromUtf8 (raw.take headerEnd))).headD [] := by
    rw [lines_eq h]
    cases hlines : textLines (fromUtf8 (raw.take headerEnd)) with
    | nil => exact absurd hlines (splitLines_ne_nil _ _ _)
    | cons line lines => rfl
  rw [parse, parseLines, parseLines, body_eq h, hhead, headerPairs, headerPairs, headerLines_eq h]

theorem parse_body (p : Platform) (h : indexOf blankLine raw = some headerEnd)
    (hvalid : ValidUtf8 (raw.drop (headerEnd + 4))) :
    (parse p raw).body = raw.drop (headerEnd + 4) := by
  rw [parse_eq p h]
  exact toUtf8_decode hvalid

end

end HttpParser

end MoonlightWeb.Server
