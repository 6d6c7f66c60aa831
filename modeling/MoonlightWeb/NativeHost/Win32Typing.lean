import MoonlightWeb.Lib.Run
import MoonlightWeb.NativeHost.Win32Input
import MoonlightWeb.Qt.QHash

/-! # Keys and characters through SendInput

The record remembers virtual keys; what stands on the keyboard is scancodes, and among
them modifiers that nothing remembers. A run is followed with what its viewer has pressed:
while every release finds what its press left, the keyboard ends with nothing down.
-/

namespace MoonlightWeb.NativeHost.Win32Input

open Lib Js Qt Modifier List

section

variable {layout : HostLayout} (down : Finset ScanCode) (record : Finset Nat) (unit : Nat)
  (code : ScanCode)

variable (m : Modifier)

theorem hostKey_modifier : layout.place (hostKey layout m.vk) = m.left := by
  unfold hostKey
  rw [layout.unsided m]
  cases m <;> rfl

theorem moved_modifiers (modifiers : List Modifier) (press : Bool) :
    (modifiers.map fun m => hostKeyInput layout m.vk press).filterMap layout.moved =
      (modifiers.map left).map fun code => (code, press) := by
  induction modifiers with
  | nil => rfl
  | cons m rest ih =>
    rw [map_cons, filterMap_cons_some (b := (m.left, press)), ih]
    · rfl
    · rw [hostKeyInput, HostLayout.moved, hostKey_modifier]

theorem mem_around_press :
    code ∈ sendBatch layout down (around layout record unit true) ↔
      (code ∈ down ∧ code ∉ (lifted layout record unit).map left) ∨
        code ∈ (brought layout record unit).map left := by
  unfold sendBatch around
  rw [filterMap_append, moved_modifiers, moved_modifiers, flips_append]
  exact (mem_flips_presses _ _ _).trans (or_congr_left (mem_flips_releases _ _ _))

theorem mem_around_release :
    code ∈ sendBatch layout down (around layout record unit false).reverse ↔
      (code ∈ down ∧ code ∉ (brought layout record unit).map left) ∨
        code ∈ (lifted layout record unit).map left := by
  unfold sendBatch around
  rw [reverse_append, filterMap_append, ← map_reverse, ← map_reverse,
    moved_modifiers, moved_modifiers, flips_append]
  refine (mem_flips_presses _ _ _).trans (or_congr ((mem_flips_releases _ _ _).trans ?_) ?_)
  · rw [map_reverse, mem_reverse]
  · rw [map_reverse, mem_reverse]

theorem sendBatch_append (first second : List Input) :
    sendBatch layout down (first ++ second) =
      sendBatch layout (sendBatch layout down first) second := by
  unfold sendBatch
  rw [filterMap_append, flips_append]

theorem sendBatch_text (text : List UInt8) :
    sendBatch layout down (injectText layout text) = down := by
  have hnone : ∀ units : List Nat, (units.flatMap fun unit =>
      [Input.unicode unit true, .unicode unit false]).filterMap layout.moved = [] := by
    intro units
    induction units with
    | nil => rfl
    | cons unit rest ih => simpa [HostLayout.moved] using ih
  unfold sendBatch injectText
  split
  · rfl
  · rw [hnone, flips_nil]

theorem stop_heldKeys {s : Session} (hstopped : s.started = false → s.heldKeys = ∅) :
    (stop layout s).heldKeys = ∅ := by
  unfold stop
  cases hstarted : s.started with
  | false => exact hstopped hstarted
  | true => rfl

theorem mem_releaseAll (s : Session) :
    code ∈ (releaseAll layout s).down ↔
      code ∈ s.down ∧ ∀ vk ∈ s.heldKeys, layout.place (makeKey layout vk false) ≠ code := by
  have hmoved : ((s.heldKeys.sort (· ≤ ·)).map fun vk =>
      makeKeyInput layout vk false false).filterMap layout.moved =
        releases ((s.heldKeys.sort (· ≤ ·)).map fun vk =>
          layout.place (makeKey layout vk false)) := by
    rw [filterMap_map, releases, map_map]
    change List.filterMap (some ∘ _) _ = _
    rw [filterMap_eq_map]
    rfl
  unfold releaseAll sendBatch
  rw [hmoved, mem_flips_releases, mem_map]
  simp only [Finset.mem_sort, not_exists, not_and]

theorem mem_lifted :
    m ∈ lifted layout record unit ↔
      (m = .shift ∧ held record .shift = true ∧ layout.needs unit .shift = false) ∨
        ((m = .control ∨ m = .menu) ∧ held record .control = true ∧ held record .menu = true ∧
          layout.needs unit .control = false ∧ layout.needs unit .menu = false) := by
  unfold lifted
  rw [mem_append]
  refine or_congr ?_ ?_
  · split <;> simp_all
  · split <;> simp_all

theorem mem_brought :
    m ∈ brought layout record unit ↔ layout.needs unit m = true ∧ held record m = false := by
  unfold brought
  rw [mem_filter, Bool.and_eq_true, Bool.not_eq_true', and_iff_right]
  cases m <;> simp

theorem left_injective : Function.Injective left := by
  intro m other h
  cases m <;> cases other <;> first | rfl | cases h

theorem left_mem_map_left (modifiers : List Modifier) :
    m.left ∈ modifiers.map left ↔ m ∈ modifiers := by
  rw [mem_map]
  constructor
  · rintro ⟨other, hother, heq⟩
    exact left_injective heq ▸ hother
  · intro h
    exact ⟨m, h, rfl⟩

theorem right_notMem_map_left (modifiers : List Modifier) :
    m.right ∉ modifiers.map left := by
  rw [mem_map]
  rintro ⟨other, _, heq⟩
  cases m <;> cases other <;> cases heq

end

inductive Event
  | inject (event : InputEvent)
  | stop
deriving DecidableEq, Repr

/-- The session, the keys pressed and not released with the scancode each went down at,
and the units of the characters that are held. -/
structure Typing where
  session : Session
  keys : QHash Nat ScanCode
  chars : Finset Nat

open Typing

namespace Typing

def initial : Typing := ⟨.opened, .empty, ∅⟩

section

variable (layout : HostLayout)

def position (keyCode : Int) (keyFlags : Nat) : ScanCode :=
  layout.place (makeKey layout keyCode.toNat (nonNormalized keyFlags))

def seat (unit : Nat) : ScanCode := layout.place (hostKey layout (layout.keyOf unit))

variable (t : Typing)

def keysAfter : InputEvent → QHash Nat ScanCode
  | .keyDown keyCode keyFlags resync =>
      if acts t.session.heldKeys keyCode resync true then
        t.keys.set keyCode.toNat (position layout keyCode keyFlags)
      else t.keys
  | .keyUp keyCode _ resync =>
      if acts t.session.heldKeys keyCode resync false then t.keys.delete keyCode.toNat else t.keys
  | _ => t.keys

def charsAfter (chars : Finset Nat) : InputEvent → Finset Nat
  | .charDown text =>
      match keyedUnit layout text with
      | some unit => insert unit chars
      | none => chars
  | .charUp text =>
      match keyedUnit layout text with
      | some unit => chars.erase unit
      | none => chars
  | _ => chars

def next : Event → Typing
  | .inject event =>
      if t.session.started then
        ⟨inject layout t.session event, t.keysAfter layout event, charsAfter layout t.chars event⟩
      else t
  | .stop => ⟨stop layout t.session, .empty, ∅⟩

def ViewerHolds (m : Modifier) : Prop :=
  ∃ vk ∈ m.keys, ∃ code, t.keys.get vk = some code

def atKeyDown (unit : Nat) : Finset ScanCode :=
  sendBatch layout t.session.down (around layout t.session.heldKeys unit true)

def Strikes (e : Event) (unit : Nat) : Prop :=
  t.session.started = true ∧ ∃ text, e = .inject (.charDown text) ∧
    keyedUnit layout text = some unit

/-- What the keyboard is to do at a step. -/
structure Faithful (t : Typing) (e : Event) (t' : Typing) : Prop where
  /-- A character's key goes down with Shift exactly if the character needs it. -/
  shift : ∀ unit, Strikes layout t e unit →
    (shift.Down (t.atKeyDown layout unit) ↔ layout.needs unit .shift = true)
  needed : ∀ unit, Strikes layout t e unit → ∀ m, layout.needs unit m = true →
    m.Down (t.atKeyDown layout unit)
  /-- A viewer's Ctrl with Alt that it does not need is up. -/
  pair : ∀ unit, Strikes layout t e unit → t.ViewerHolds .control → t.ViewerHolds .menu →
    layout.needs unit .control = false → layout.needs unit .menu = false →
      ¬ control.Down (t.atKeyDown layout unit) ∧
        ¬ menu.Down (t.atKeyDown layout unit)
  /-- A Ctrl or an Alt the viewer holds alone is left as it is. -/
  alone : ∀ unit, Strikes layout t e unit → ∀ m other,
    (m, other) ∈ [(control, menu), (.menu, .control)] →
      t.ViewerHolds m → ¬ t.ViewerHolds other → ∀ code ∈ [m.left, m.right],
        (code ∈ t.atKeyDown layout unit ↔ code ∈ t.session.down)
  /-- Nothing is down when nothing is pressed. -/
  released : (∀ vk, t'.keys.get vk = none) → t'.chars = ∅ → t'.session.down = ∅
  /-- Nothing is down after the stop. -/
  stopped : e = .stop → t'.session.down = ∅

/-- A scancode a held character stands at: its own, or that of a modifier it needs. -/
def Owns (unit : Nat) (code : ScanCode) : Prop :=
  code = seat layout unit ∨ ∃ m : Modifier, layout.needs unit m = true ∧ code = m.left

def Stands (keys : QHash Nat ScanCode) (chars : Finset Nat) (code : ScanCode) : Prop :=
  (∃ vk, keys.get vk = some code) ∨ ∃ unit ∈ chars, Owns layout unit code

/-- A virtual key on record has the scancode on the US layout. -/
def Recorded (record : Finset Nat) (code : ScanCode) : Prop :=
  ∃ vk ∈ record, layout.place (makeKey layout vk false) = code

/-- The key of a unit is none of a modifier. -/
def Plain (unit : Nat) : Prop := ∀ m : Modifier, layout.keyOf unit ∉ m.keys

/-- Where a character is pressed, what is down of the modifiers is the viewer's, at the
keys the character's surroundings reach. -/
structure Struck (t : Typing) (unit : Nat) : Prop where
  plain : Plain layout unit
  held : ∀ m, layout.needs unit m = true → t.ViewerHolds m → m.Down t.session.down
  /-- A Shift that is down and not needed is the viewer's, at the left key. -/
  shift : layout.needs unit .shift = false →
    shift.right ∉ t.session.down ∧
      (shift.left ∈ t.session.down → t.ViewerHolds .shift)
  /-- A viewer's Ctrl with Alt that is not needed is at the left keys. -/
  pair : t.ViewerHolds .control → t.ViewerHolds .menu →
    layout.needs unit .control = false → layout.needs unit .menu = false →
      control.right ∉ t.session.down ∧ menu.right ∉ t.session.down

/-- Where a character is released, a modifier that is put back or left down is one that
another key or character stands at. -/
structure Unstruck (t : Typing) (unit : Nat) : Prop where
  plain : Plain layout unit
  back : ∀ m ∈ lifted layout t.session.heldKeys unit,
    Stands layout t.keys (t.chars.erase unit) m.left
  kept : ∀ m, layout.needs unit m = true → t.ViewerHolds m → m.left ∈ t.session.down →
    Stands layout t.keys (t.chars.erase unit) m.left

structure Remembered (t : Typing) : Prop where
  keys : ∀ vk code, t.keys.get vk = some code → code ∈ t.session.down →
    Recorded layout t.session.heldKeys code
  chars : ∀ unit ∈ t.chars, ∀ code, Owns layout unit code → code ∈ t.session.down →
    Recorded layout t.session.heldKeys code

/-- A key that is pressed already is pressed again and released at the same scancode. -/
def Steady (keyCode : Int) (keyFlags : Nat) : Prop :=
  ∀ code, t.keys.get keyCode.toNat = some code → code = position layout keyCode keyFlags

/-- The step finds what the ones before it left. -/
def Agreed (e : Event) (_ : Typing) : Prop :=
  match e with
  | .inject (.keyDown keyCode keyFlags resync) =>
      acts t.session.heldKeys keyCode resync true = true → Steady layout t keyCode keyFlags
  | .inject (.keyUp keyCode keyFlags resync) =>
      acts t.session.heldKeys keyCode resync false = true → Steady layout t keyCode keyFlags
  | .inject (.charDown text) => ∀ unit, keyedUnit layout text = some unit → Struck layout t unit
  | .inject (.charUp text) => ∀ unit, keyedUnit layout text = some unit → Unstruck layout t unit
  | .inject (.utf8Text _) => True
  | .stop => Remembered layout t

/-- Every scancode down is one that something pressed stands at, the record has the
modifiers the viewer holds, and a session that stopped has nothing down. -/
structure Accounted (t : Typing) : Prop where
  down : ∀ code ∈ t.session.down, Stands layout t.keys t.chars code
  record : ∀ m : Modifier, ∀ vk ∈ m.keys,
    (vk ∈ t.session.heldKeys ↔ ∃ code, t.keys.get vk = some code)
  closed : t.session.started = false → t.session.down = ∅ ∧ t.session.heldKeys = ∅

end

section

variable {layout : HostLayout} {t : Typing}

theorem next_inject (hstarted : t.session.started = true) (event : InputEvent) :
    t.next layout (.inject event) =
      ⟨⟨true, sendBatch layout t.session.down (injected layout t.session.heldKeys event).1,
        (injected layout t.session.heldKeys event).2⟩,
        t.keysAfter layout event, charsAfter layout t.chars event⟩ := by
  simp [next, inject, hstarted]

theorem next_stopped (hstopped : t.session.started = false) (event : InputEvent) :
    t.next layout (.inject event) = t := by
  simp [next, hstopped]

theorem Accounted.held_iff (h : Accounted layout t) (m : Modifier) :
    held t.session.heldKeys m = true ↔ t.ViewerHolds m := by
  unfold held ViewerHolds
  rw [any_eq_true]
  refine exists_congr fun vk => and_congr_right fun hvk => ?_
  rw [decide_eq_true_eq]
  exact h.record m vk hvk

theorem Accounted.held_eq_false (h : Accounted layout t) (m : Modifier) :
    held t.session.heldKeys m = false ↔ ¬ t.ViewerHolds m := by
  rw [← h.held_iff m, Bool.not_eq_true]

/-- Where a key goes down, the left key of a modifier stands unless it was lifted. -/
theorem left_mem_atKeyDown (t : Typing) (unit : Nat) (m : Modifier) :
    m.left ∈ t.atKeyDown layout unit ↔
      (m.left ∈ t.session.down ∧ m ∉ lifted layout t.session.heldKeys unit) ∨
        m ∈ brought layout t.session.heldKeys unit := by
  unfold atKeyDown
  rw [mem_around_press, left_mem_map_left, left_mem_map_left]

theorem right_mem_atKeyDown (t : Typing) (unit : Nat) (m : Modifier) :
    m.right ∈ t.atKeyDown layout unit ↔ m.right ∈ t.session.down := by
  unfold atKeyDown
  rw [mem_around_press]
  have hlifted := right_notMem_map_left m (lifted layout t.session.heldKeys unit)
  have hbrought := right_notMem_map_left m (brought layout t.session.heldKeys unit)
  tauto

/-- A modifier that is not lifted is down when it was or when it is brought. -/
theorem down_atKeyDown {unit : Nat} {m : Modifier}
    (hkept : m ∉ lifted layout t.session.heldKeys unit) :
    m.Down (t.atKeyDown layout unit) ↔
      m.Down t.session.down ∨ m ∈ brought layout t.session.heldKeys unit := by
  unfold Down
  rw [left_mem_atKeyDown, right_mem_atKeyDown]
  tauto

theorem notMem_lifted {record : Finset Nat} {unit : Nat} {m : Modifier}
    (hneeds : layout.needs unit m = true) : m ∉ lifted layout record unit := by
  intro hlifted
  rcases (mem_lifted record unit m).mp hlifted with
    ⟨rfl, _, hno⟩ | ⟨rfl | rfl, _, _, hcontrol, hmenu⟩
  · rw [hneeds] at hno
    cases hno
  · rw [hneeds] at hcontrol
    cases hcontrol
  · rw [hneeds] at hmenu
    cases hmenu

namespace Accounted

variable {unit : Nat}

theorem needed_down (h : Accounted layout t) (hstruck : Struck layout t unit) {m : Modifier}
    (hneeds : layout.needs unit m = true) : m.Down (t.atKeyDown layout unit) := by
  rw [down_atKeyDown (notMem_lifted hneeds)]
  by_cases hviewer : t.ViewerHolds m
  · exact Or.inl (hstruck.held m hneeds hviewer)
  · exact Or.inr ((mem_brought _ _ _).mpr ⟨hneeds, (h.held_eq_false m).mpr hviewer⟩)

/-- What is held, not needed and not brought is up when it is lifted from its left key. -/
theorem unneeded_up {m : Modifier} (hneeds : layout.needs unit m = false)
    (hright : m.right ∉ t.session.down)
    (hlifted : m.left ∈ t.session.down → m ∈ lifted layout t.session.heldKeys unit) :
    ¬ m.Down (t.atKeyDown layout unit) := by
  unfold Down
  rw [left_mem_atKeyDown, right_mem_atKeyDown, mem_brought, hneeds]
  rintro ((⟨hleft, hkept⟩ | ⟨hno, _⟩) | hdown)
  · exact hkept (hlifted hleft)
  · cases hno
  · exact hright hdown

theorem shift_exactly (h : Accounted layout t) (hstruck : Struck layout t unit) :
    shift.Down (t.atKeyDown layout unit) ↔ layout.needs unit .shift = true := by
  cases hneeds : layout.needs unit .shift with
  | true => exact iff_of_true (h.needed_down hstruck hneeds) rfl
  | false =>
    obtain ⟨hright, hleft⟩ := hstruck.shift hneeds
    refine iff_of_false (unneeded_up hneeds hright fun hdown => ?_) Bool.false_ne_true
    have hheld := (h.held_iff .shift).mpr (hleft hdown)
    exact (mem_lifted _ _ _).mpr (Or.inl ⟨rfl, hheld, hneeds⟩)

theorem pair_up (h : Accounted layout t) (hstruck : Struck layout t unit)
    (hcontrol : t.ViewerHolds .control) (hmenu : t.ViewerHolds .menu)
    (hnoControl : layout.needs unit .control = false) (hnoMenu : layout.needs unit .menu = false) :
    ¬ control.Down (t.atKeyDown layout unit) ∧
      ¬ menu.Down (t.atKeyDown layout unit) := by
  obtain ⟨hright, hright'⟩ := hstruck.pair hcontrol hmenu hnoControl hnoMenu
  have hlifted : ∀ m, (m = .control ∨ m = .menu) → m ∈ lifted layout t.session.heldKeys unit :=
    fun m hm => (mem_lifted _ _ _).mpr (Or.inr ⟨hm, (h.held_iff .control).mpr hcontrol,
      (h.held_iff .menu).mpr hmenu, hnoControl, hnoMenu⟩)
  exact ⟨unneeded_up hnoControl hright fun _ => hlifted _ (Or.inl rfl),
    unneeded_up hnoMenu hright' fun _ => hlifted _ (Or.inr rfl)⟩

theorem alone_kept (h : Accounted layout t) {m other : Modifier}
    (hpair : (m, other) ∈ [(control, menu), (.menu, .control)])
    (hviewer : t.ViewerHolds m) (halone : ¬ t.ViewerHolds other) {code : ScanCode}
    (hcode : code ∈ [m.left, m.right]) :
    code ∈ t.atKeyDown layout unit ↔ code ∈ t.session.down := by
  have hheld := (h.held_iff m).mpr hviewer
  have hfree := (h.held_eq_false other).mpr halone
  have hkept : m ∉ lifted layout t.session.heldKeys unit := by
    intro hlifted
    rcases (mem_lifted _ _ _).mp hlifted with ⟨rfl, _⟩ | ⟨_, hcontrol, hmenu, _⟩
    · simp at hpair
    · simp only [mem_cons, Prod.mk.injEq, not_mem_nil, or_false] at hpair
      rcases hpair with ⟨rfl, rfl⟩ | ⟨rfl, rfl⟩
      · rw [hmenu] at hfree
        cases hfree
      · rw [hcontrol] at hfree
        cases hfree
  have hnone : m ∉ brought layout t.session.heldKeys unit := by
    rw [mem_brought, hheld]
    simp
  rcases mem_pair.mp hcode with rfl | rfl
  · rw [left_mem_atKeyDown]
    tauto
  · exact right_mem_atKeyDown t unit m

end Accounted

end

section

variable {layout : HostLayout} {keys : QHash Nat ScanCode} {chars : Finset Nat} {code : ScanCode}

variable (h : Stands layout keys chars code)

include h

theorem Stands.set {vk : Nat} {pressed : ScanCode}
    (hsteady : ∀ code, keys.get vk = some code → code = pressed) :
    Stands layout (keys.set vk pressed) chars code := by
  refine h.imp_left ?_
  rintro ⟨other, hget⟩
  by_cases hsame : other = vk
  · obtain rfl := hsame
    exact ⟨other, by rw [JsMap.get_set_self, hsteady code hget]⟩
  · exact ⟨other, by rw [JsMap.get_set_of_ne _ _ hsame, hget]⟩

/-- Releasing a key leaves every other scancode standing. -/
theorem Stands.delete {vk : Nat}
    (hother : keys.get vk ≠ some code) : Stands layout (keys.delete vk) chars code := by
  refine h.imp_left ?_
  rintro ⟨other, hget⟩
  have hne : other ≠ vk := by
    rintro rfl
    exact hother hget
  exact ⟨other, by rw [JsMap.get_delete_of_ne _ hne, hget]⟩

theorem Stands.insert (unit : Nat) :
    Stands layout keys (insert unit chars) code := by
  refine h.imp_right ?_
  rintro ⟨other, hother, howns⟩
  exact ⟨other, Finset.mem_insert_of_mem hother, howns⟩

/-- Releasing a character leaves what it does not own standing. -/
theorem Stands.erase {unit : Nat}
    (hother : ¬ Owns layout unit code) : Stands layout keys (chars.erase unit) code := by
  refine h.imp_right ?_
  rintro ⟨other, hin, howns⟩
  have hne : other ≠ unit := by
    rintro rfl
    exact hother howns
  exact ⟨other, Finset.mem_erase.mpr ⟨hne, hin⟩, howns⟩

omit h

end

namespace Accounted

variable {layout : HostLayout} {t : Typing}

theorem initial (layout : HostLayout) : Accounted layout initial where
  down := fun code hcode => absurd hcode (Finset.notMem_empty code)
  record := by
    intro m vk _
    refine iff_of_false (Finset.notMem_empty vk) ?_
    rintro ⟨code, hget⟩
    cases hget
  closed := fun hno => by cases hno

variable (h : Accounted layout t)

include h

theorem keyDown (hstarted : t.session.started = true) {keyCode : Int}
    {keyFlags : Nat} {resync : Bool} (hsteady : acts t.session.heldKeys keyCode resync true = true →
      Steady layout t keyCode keyFlags) :
    Accounted layout (t.next layout (.inject (.keyDown keyCode keyFlags resync))) := by
  rw [next_inject hstarted]
  by_cases hacts : acts t.session.heldKeys keyCode resync true = true
  · simp only [injected, injectKey, keysAfter, charsAfter, hacts, if_true]
    refine ⟨?_, ?_, fun hno => by cases hno⟩
    · intro code hdown
      rcases Finset.mem_insert.mp hdown with rfl | hbefore
      · exact Or.inl ⟨keyCode.toNat, JsMap.get_set_self _ _ _⟩
      · exact (h.down code hbefore).set (hsteady hacts)
    · intro m vk hvk
      rw [Finset.mem_insert, h.record m vk hvk]
      by_cases hsame : vk = keyCode.toNat
      · obtain rfl := hsame
        simp
      · rw [JsMap.get_set_of_ne _ _ hsame]
        simp [hsame]
  · simp only [injected, injectKey, keysAfter, charsAfter, hacts]
    exact ⟨h.down, h.record, fun hno => by cases hno⟩

theorem keyUp (hstarted : t.session.started = true) {keyCode : Int}
    {keyFlags : Nat} {resync : Bool}
    (hsteady : acts t.session.heldKeys keyCode resync false = true →
      Steady layout t keyCode keyFlags) :
    Accounted layout (t.next layout (.inject (.keyUp keyCode keyFlags resync))) := by
  rw [next_inject hstarted]
  by_cases hacts : acts t.session.heldKeys keyCode resync false = true
  · simp only [injected, injectKey, keysAfter, charsAfter, hacts, if_true, Bool.false_eq_true,
      if_false]
    refine ⟨?_, ?_, fun hno => by cases hno⟩
    · intro code hdown
      obtain ⟨hne, hbefore⟩ := Finset.mem_erase.mp hdown
      exact (h.down code hbefore).delete fun hget => hne (hsteady hacts code hget)
    · intro m vk hvk
      rw [Finset.mem_erase, h.record m vk hvk]
      by_cases hsame : vk = keyCode.toNat
      · obtain rfl := hsame
        simp
      · rw [JsMap.get_delete_of_ne _ hsame]
        simp [hsame]
  · simp only [injected, injectKey, keysAfter, charsAfter, hacts]
    exact ⟨h.down, h.record, fun hno => by cases hno⟩

/-- A text leaves keyboard and record as they are. -/
theorem text (text : List UInt8)
    (hstarted : t.session.started = true) {event : InputEvent}
    (hinjected : (injected layout t.session.heldKeys event) =
      (injectText layout text, t.session.heldKeys) ∨
      (injected layout t.session.heldKeys event) = ([], t.session.heldKeys))
    (hkeys : t.keysAfter layout event = t.keys)
    (hchars : charsAfter layout t.chars event = t.chars) :
    Accounted layout (t.next layout (.inject event)) := by
  have hdown : sendBatch layout t.session.down (injected layout t.session.heldKeys event).1 =
      t.session.down := by
    rcases hinjected with heq | heq <;> rw [heq]
    · exact sendBatch_text _ _
    · rfl
  have hrecord : (injected layout t.session.heldKeys event).2 = t.session.heldKeys := by
    rcases hinjected with heq | heq <;> rw [heq]
  rw [next_inject hstarted, hdown, hrecord, hkeys, hchars]
  exact ⟨h.down, h.record, fun hno => by cases hno⟩

theorem charDown (hstarted : t.session.started = true)
    {text : List UInt8} {unit : Nat} (hunit : keyedUnit layout text = some unit)
    (hplain : Plain layout unit) :
    Accounted layout (t.next layout (.inject (.charDown text))) := by
  rw [next_inject hstarted]
  simp only [injected, injectChar, hunit, charsAfter, keysAfter, if_true, sendBatch_append]
  refine ⟨?_, ?_, fun hno => by cases hno⟩
  · intro code hdown
    rcases Finset.mem_insert.mp hdown with rfl | hbefore
    · exact Or.inr ⟨unit, Finset.mem_insert_self _ _, Or.inl rfl⟩
    · rcases (mem_around_press _ _ _ _).mp hbefore with ⟨hstood, _⟩ | hbrought
      · exact (h.down code hstood).insert unit
      · obtain ⟨m, hm, rfl⟩ := mem_map.mp hbrought
        have hneeds := ((mem_brought _ _ _).mp hm).1
        exact Or.inr ⟨unit, Finset.mem_insert_self _ _, Or.inr ⟨m, hneeds, rfl⟩⟩
  · intro m vk hvk
    have hne : vk ≠ layout.keyOf unit := fun heq => hplain m (heq ▸ hvk)
    rw [Finset.mem_insert, h.record m vk hvk]
    simp [hne]

theorem charUp (hstarted : t.session.started = true)
    {text : List UInt8} {unit : Nat} (hunit : keyedUnit layout text = some unit)
    (hunstruck : Unstruck layout t unit) :
    Accounted layout (t.next layout (.inject (.charUp text))) := by
  rw [next_inject hstarted]
  simp only [injected, injectChar, hunit, charsAfter, keysAfter, Bool.false_eq_true, if_false]
  refine ⟨?_, ?_, fun hno => by cases hno⟩
  · intro code hdown
    have hdown : code ∈ sendBatch layout (t.session.down.erase (seat layout unit))
        (around layout t.session.heldKeys unit false).reverse := hdown
    rcases (mem_around_release _ _ _ _).mp hdown with ⟨hbefore, hkept⟩ | hback
    · obtain ⟨hseat, hstood⟩ := Finset.mem_erase.mp hbefore
      by_cases howned : ∃ m : Modifier, layout.needs unit m = true ∧ code = m.left
      · obtain ⟨m, hneeds, rfl⟩ := howned
        refine hunstruck.kept m hneeds ?_ hstood
        rw [← h.held_iff m]
        by_contra hno
        exact hkept (mem_map.mpr
          ⟨m, (mem_brought _ _ _).mpr ⟨hneeds, Bool.eq_false_of_not_eq_true hno⟩, rfl⟩)
      · exact (h.down code hstood).erase fun howns => howns.elim hseat howned
    · obtain ⟨m, hm, rfl⟩ := mem_map.mp hback
      exact hunstruck.back m hm
  · intro m vk hvk
    have hne : vk ≠ layout.keyOf unit := fun heq => hunstruck.plain m (heq ▸ hvk)
    rw [Finset.mem_erase, h.record m vk hvk]
    simp [hne]

theorem stopped (hremembered : Remembered layout t) :
    (stop layout t.session).down = ∅ := by
  unfold stop
  cases hstarted : t.session.started with
  | false => exact (h.closed hstarted).1
  | true =>
    refine Finset.eq_empty_iff_forall_notMem.mpr fun code hcode => ?_
    obtain ⟨hdown, hlost⟩ := (mem_releaseAll code t.session).mp hcode
    have hrecorded : Recorded layout t.session.heldKeys code := by
      rcases h.down code hdown with ⟨vk, hget⟩ | ⟨unit, hin, howns⟩
      · exact hremembered.keys vk code hget hdown
      · exact hremembered.chars unit hin code howns hdown
    obtain ⟨vk, hvk, heq⟩ := hrecorded
    exact hlost vk hvk heq

theorem released (hkeys : ∀ vk, t.keys.get vk = none)
    (hchars : t.chars = ∅) : t.session.down = ∅ := by
  refine Finset.eq_empty_iff_forall_notMem.mpr fun code hdown => ?_
  rcases h.down code hdown with ⟨vk, hget⟩ | ⟨unit, hin, _⟩
  · rw [hkeys vk] at hget
    cases hget
  · rw [hchars] at hin
    exact absurd hin (Finset.notMem_empty unit)

theorem next {e : Event} {t' : Typing} (hagreed : Agreed layout t e t') :
    Accounted layout (t.next layout e) := by
  cases e with
  | stop =>
    have hdown : (t.next layout .stop).session.down = ∅ := h.stopped hagreed
    have hrecord : (t.next layout .stop).session.heldKeys = ∅ :=
      stop_heldKeys fun hstopped => (h.closed hstopped).2
    refine ⟨?_, ?_, fun _ => ⟨hdown, hrecord⟩⟩
    · intro code hcode
      rw [hdown] at hcode
      exact absurd hcode (Finset.notMem_empty code)
    · intro m vk _
      rw [hrecord]
      refine iff_of_false (Finset.notMem_empty vk) ?_
      rintro ⟨code, hget⟩
      cases hget
  | inject event =>
    cases hstarted : t.session.started with
    | false =>
      rw [next_stopped hstarted]
      exact h
    | true =>
      cases event with
      | keyDown keyCode keyFlags resync => exact h.keyDown hstarted hagreed
      | keyUp keyCode keyFlags resync => exact h.keyUp hstarted hagreed
      | charDown text =>
        cases hunit : keyedUnit layout text with
        | some unit => exact h.charDown hstarted hunit (hagreed unit hunit).plain
        | none =>
          refine h.text text hstarted (Or.inl ?_) rfl ?_
          · simp only [injected, injectChar, hunit, if_true]
          · simp only [charsAfter, hunit]
      | charUp text =>
        cases hunit : keyedUnit layout text with
        | some unit => exact h.charUp hstarted hunit (hagreed unit hunit)
        | none =>
          refine h.text text hstarted (Or.inr ?_) rfl ?_
          · simp only [injected, injectChar, hunit, Bool.false_eq_true, if_false]
          · simp only [charsAfter, hunit]
      | utf8Text text => exact h.text _ hstarted (Or.inl rfl) rfl rfl

omit h

end Accounted

/-- Such a step does what the keyboard is to do. -/
theorem faithful_of_agreed {layout : HostLayout} {t : Typing} {e : Event}
    (h : Accounted layout t) (hagreed : Agreed layout t e (t.next layout e)) :
    Faithful layout t e (t.next layout e) := by
  have hnext := h.next hagreed
  have hstruck : ∀ unit, Strikes layout t e unit → Struck layout t unit := by
    rintro unit ⟨_, text, rfl, hunit⟩
    exact hagreed unit hunit
  refine ⟨?_, ?_, ?_, ?_, hnext.released, ?_⟩
  · intro unit hstrikes
    exact h.shift_exactly (hstruck unit hstrikes)
  · intro unit hstrikes m hneeds
    exact h.needed_down (hstruck unit hstrikes) hneeds
  · intro unit hstrikes hcontrol hmenu hnoControl hnoMenu
    exact h.pair_up (hstruck unit hstrikes) hcontrol hmenu hnoControl hnoMenu
  · intro unit _ m other hpair hviewer halone code hcode
    exact h.alone_kept hpair hviewer halone hcode
  · rintro rfl
    exact h.stopped hagreed

end Typing

/-- The keyboard is faithful along every run whose steps find what the ones before them
left. -/
theorem injection_faithful_along (layout : HostLayout) (labels : List Event)
    (hagreed : EachStep (handles (next layout)) (Agreed layout) initial
      labels) :
    EachStep (handles (next layout)) (Faithful layout) initial labels := by
  intro visited e rest t t' hl hrun hstep
  have haccounted : Accounted layout t := by
    refine (hagreed.take hl).invariant ?_ (Accounted.initial layout) hrun
    rintro t e _ h rfl hagree
    exact h.next hagree
  have hagree := hagreed visited e rest t t' hl hrun hstep
  obtain rfl := hstep
  exact faithful_of_agreed haccounted hagree

def oneLetter : HostLayout where
  wide text := text.map UInt8.toNat
  vkKeyScan unit := if unit = 65 then 0x141 else if unit = 97 then 0x41 else 0xFFFF
  mapVirtualKeyEx vk := usScanCode vk
  mapVirtualKey vk := usScanCode vk
  carried vk := ⟨usScanCode vk, false⟩
  unsided m := by cases m <;> rfl

/-- A capital, typed and released. -/
theorem injection_faithful_along_capital :
    EachStep (handles (next oneLetter)) (Faithful oneLetter) initial
      [.inject (.charDown [65]), .inject (.charUp [65]), .stop] := by
  refine injection_faithful_along oneLetter _ ?_
  have hunit : keyedUnit oneLetter [65] = some 65 := by decide
  have hplain : Plain oneLetter 65 := by
    intro m
    cases m <;> decide
  have hnobody : ∀ keys : QHash Nat ScanCode, keys = .empty →
      ∀ vk code, keys.get vk ≠ some code := by
    rintro keys rfl vk code hget
    cases hget
  refine EachStep.cons fun t ht => ⟨?_, ?_⟩
  · rintro unit h
    obtain rfl := Option.some.inj (hunit.symm.trans h)
    refine ⟨hplain, ?_, fun hno => ?_, ?_⟩
    · rintro m _ ⟨vk, _, code, hget⟩
      exact absurd hget (hnobody _ rfl vk code)
    · exact absurd hno (by decide)
    · rintro ⟨vk, _, code, hget⟩
      exact absurd hget (hnobody _ rfl vk code)
  obtain rfl := ht
  refine EachStep.cons fun t ht => ⟨?_, ?_⟩
  · rintro unit h
    obtain rfl := Option.some.inj (hunit.symm.trans h)
    refine ⟨hplain, fun m hm => ?_, ?_⟩
    · have hnone : lifted oneLetter ({0x41} : Finset Nat) 65 = [] := by decide
      rw [show (next oneLetter initial (.inject (.charDown [65]))).session.heldKeys =
        {0x41} by decide +kernel, hnone] at hm
      cases hm
    · rintro m _ ⟨vk, _, code, hget⟩
      exact absurd hget (hnobody _ rfl vk code)
  obtain rfl := ht
  refine EachStep.cons fun t ht => ⟨⟨?_, ?_⟩, EachStep.nil⟩
  · intro vk code hget
    exact absurd hget (hnobody _ rfl vk code)
  · intro unit hunit
    rw [show (next oneLetter (next oneLetter initial
      (.inject (.charDown [65]))) (.inject (.charUp [65]))).chars = ∅ by decide +kernel] at hunit
    exact absurd hunit (Finset.notMem_empty unit)

/-- A capital brings a Shift that the stop does not know of. -/
theorem stop_leaves_shift :
    ¬ ∀ (layout : HostLayout) (labels : List Event),
      EachStep (handles (next layout)) (Faithful layout) initial labels := by
  intro hall
  have hrun : Run (handles (next oneLetter)) initial
      [.inject (.charDown [65])] _ := Run.single rfl
  have hstep := hall oneLetter ([.inject (.charDown [65])] ++ [.stop])
    [.inject (.charDown [65])] .stop [] _ _ rfl hrun rfl
  have hshift : shift.left ∈ (∅ : Finset ScanCode) := by
    rw [← hstep.stopped rfl]
    decide +kernel
  exact absurd hshift (Finset.notMem_empty _)

end MoonlightWeb.NativeHost.Win32Input
