import MoonlightWeb.Backend.NvPairingManager

/-! # When a pairing is reported

`completePairing` calls its callback once for each call of it. It reports
`PAIRED` in two cases only: the pairing secret's signature and the answer to
the challenge have been checked against the certificate it reports, or the
request of stage 2 or 3 failed, which the code takes for the end of a
handshake that was completed before.
-/

namespace MoonlightWeb.Backend.NvPairingManager

open Lib Qt World

variable {p : Platform} {cert : QByteArray} {run : Attempt}

/-- The answer to the challenge, decrypted with the key made of the PIN and the salt. -/
def Platform.challengeResponse (p : Platform) (run : Attempt) (second : Answer) : QByteArray :=
  p.decrypt (p.xmlStringFromHex second.body (qs "challengeresponse")) (p.aesKey run.salt run.pin)

/-- The pairing secret was signed under the certificate, and the answer to the
challenge, where it is as long as a hash, begins with the hash of the challenge,
the certificate's signature and the server's secret. -/
def Authenticated (p : Platform) (cert : QByteArray) (run : Attempt) : Prop :=
  ∃ second third rest, run.answers = second :: third :: rest ∧
    second.error = [] ∧ third.error = [] ∧
    p.verifySignature ((p.xmlStringFromHex third.body (qs "pairingsecret")).take 16)
      ((p.xmlStringFromHex third.body (qs "pairingsecret")).drop 16) cert = true ∧
    (p.hashLength ≤ (p.challengeResponse run second).length →
      (p.challengeResponse run second).take p.hashLength =
        p.hash (run.challenge ++ p.signatureFromPemCert cert ++
          (p.xmlStringFromHex third.body (qs "pairingsecret")).take 16))

/-- The transport failed, or the answer's status is an error. -/
def Platform.breaks (p : Platform) (a : Answer) : Prop :=
  a.error ≠ [] ∨ p.verifyResponseStatus a.body ≠ none

/-- The request of stage 2 or of stage 3 failed. -/
def CutShort (p : Platform) (run : Attempt) : Prop :=
  ∃ front last, run.answers = front ++ [last] ∧ front.length ≤ 1 ∧ p.breaks last

/-- The calls of `completePairing` whose callback was called, in order. -/
def Entry.completed : Entry → Option Nat
  | .reported _ _ run => some run.number
  | _ => none

def completed (log : List Entry) : List Nat := log.filterMap Entry.completed

/-- The call of `completePairing` that waits for an answer. -/
def World.inFlight (w : World) : List Nat :=
  w.waiting.filterMap fun
    | .certificate _ => none
    | .stage _ => some w.current.number

/-- The law of the handshake: one callback for each call, and `PAIRED` only
with a certificate that was vouched for, or for a handshake cut short. -/
structure Vouched (p : Platform) (w : World) : Prop where
  once : completed w.log ++ w.inFlight = List.range w.calls
  one : w.inFlight.length ≤ 1
  paired : ∀ cert run, .reported .paired cert run ∈ w.log →
    Authenticated p cert run ∨ CutShort p run

theorem read_inside {data : QByteArray} {memory : Nat → UInt8} {count : Nat}
    (h : count ≤ data.length) : read data memory 0 count = data.take count := by
  refine List.ext_getElem? fun i => ?_
  unfold read
  by_cases hi : i < count
  · have hlt : i < data.length := by omega
    simp [hi, hlt]
  · simp [List.getElem?_take, hi]

/-- What a stage in flight stands on. -/
def Stage.Evidence (p : Platform) (cert : QByteArray) (run : Attempt) : Stage → Prop
  | .challenge aesKey randomChallenge =>
      run.answers = [] ∧ aesKey = p.aesKey run.salt run.pin ∧ randomChallenge = run.challenge
  | .response randomChallenge _ serverResponse =>
      randomChallenge = run.challenge ∧ ∃ second, run.answers = [second] ∧ second.error = [] ∧
        serverResponse = read (p.challengeResponse run second) second.memory 0 p.hashLength
  | .secret | .pairChallenge => Authenticated p cert run

def Effect.quiet : Effect → Bool
  | .unpair | .reads _ _ => true
  | _ => false

/-- A continuation reports, or goes on to a stage it has the evidence for; once, and last. -/
inductive Settles (p : Platform) (cert : QByteArray) (run : Attempt) : List Effect → Prop
  | report (front : List Effect) {state : PairState} {c : QByteArray}
      (hfront : ∀ e ∈ front, e.quiet = true)
      (hpaired : state = .paired → Authenticated p c run ∨ CutShort p run) :
      Settles p cert run (front ++ [.report state c])
  | goesOn (front : List Effect) {r : Request} {next : Stage}
      (hfront : ∀ e ∈ front, e.quiet = true) (hnext : next.Evidence p cert run) :
      Settles p cert run (front ++ [.request r next])

theorem Settles.alone {state : PairState} {c : QByteArray}
    (h : state = .paired → Authenticated p c run ∨ CutShort p run) :
    Settles p cert run [.report state c] :=
  .report [] (fun _ h => nomatch h) h

theorem Authenticated.answer (h : Authenticated p cert run) (a : Answer) :
    Authenticated p cert { run with answers := run.answers ++ [a] } := by
  obtain ⟨second, third, rest, hanswers, hchecks⟩ := h
  exact ⟨second, third, rest ++ [a], by simp [hanswers], hchecks⟩

variable {a : Answer}

/-- A `try` block, when it throws at its first line or not at all. -/
theorem attempt_verified {body : List Effect} {onError : QString → List Effect}
    (hthrown : ∀ why, p.verifyResponseStatus a.body = some why → Settles p cert run (onError why))
    (hbody : Settles p cert run body) :
    Settles p cert run (attempt (p.verified a.body (body, none)) onError) := by
  unfold Platform.verified
  cases hstatus : p.verifyResponseStatus a.body with
  | some why => exact hthrown why hstatus
  | none => exact hbody

/-- A request of stage 2 or 3 that fails. -/
theorem assumePaired_settles (hfront : run.answers.length ≤ 1) (hbreaks : p.breaks a)
    (why : QString) :
    Settles p cert { run with answers := run.answers ++ [a] } (assumePaired cert why) :=
  .alone fun _ => Or.inr ⟨run.answers, a, rfl, hfront, hbreaks⟩

theorem breaks_of_status {why : QString}
    (h : p.verifyResponseStatus a.body = some why) : p.breaks a := by
  refine Or.inr ?_
  rw [h]
  exact Option.some_ne_none why

theorem stage2_settles {aesKey randomChallenge clientSecretData : QByteArray}
    (h : (Stage.challenge aesKey randomChallenge).Evidence p cert run) :
    Settles p cert { run with answers := run.answers ++ [a] }
      (p.stage2 cert aesKey randomChallenge clientSecretData a) := by
  obtain ⟨hanswers, hkey, hchallenge⟩ := h
  have hfront : run.answers.length ≤ 1 := by simp [hanswers]
  unfold Platform.stage2
  by_cases herror : a.error ≠ []
  · rw [if_pos herror]
    exact assumePaired_settles hfront (Or.inl herror) _
  rw [if_neg herror]
  have hthrown : ∀ why, p.verifyResponseStatus a.body = some why →
      Settles p cert { run with answers := run.answers ++ [a] } (assumePaired cert why) :=
    fun why hwhy => assumePaired_settles hfront (breaks_of_status hwhy) why
  by_cases hpaired : (!p.paired a.body) = true
  · rw [if_pos hpaired]
    exact attempt_verified hthrown (.alone fun h => nomatch h)
  · rw [if_neg hpaired]
    refine attempt_verified hthrown ?_
    refine Settles.goesOn [.reads _ _] (fun e he => ?_) ?_
    · rw [List.mem_singleton.mp he]
      rfl
    · refine ⟨hchallenge, a, by simp [hanswers], not_not.mp herror, ?_⟩
      rw [hkey]
      rfl

theorem stage3_settles {randomChallenge clientSecretData serverResponse : QByteArray}
    (h : (Stage.response randomChallenge clientSecretData serverResponse).Evidence p cert run) :
    Settles p cert { run with answers := run.answers ++ [a] }
      (p.stage3 cert randomChallenge clientSecretData serverResponse a) := by
  obtain ⟨hchallenge, second, hanswers, hsecond, hresponse⟩ := h
  have hfront : run.answers.length ≤ 1 := by simp [hanswers]
  unfold Platform.stage3
  by_cases herror : a.error ≠ []
  · rw [if_pos herror]
    exact assumePaired_settles hfront (Or.inl herror) _
  rw [if_neg herror]
  have hthrown : ∀ why, p.verifyResponseStatus a.body = some why →
      Settles p cert { run with answers := run.answers ++ [a] } (assumePaired cert why) :=
    fun why hwhy => assumePaired_settles hfront (breaks_of_status hwhy) why
  have hrefused : ∀ state, state ≠ .paired →
      Settles p cert { run with answers := run.answers ++ [a] } [.unpair, .report state []] := by
    intro state hstate
    refine Settles.report [.unpair] (fun e he => ?_) fun h => absurd h hstate
    rw [List.mem_singleton.mp he]
    rfl
  by_cases hpaired : (!p.paired a.body) = true
  · rw [if_pos hpaired]
    exact attempt_verified hthrown (.alone fun h => nomatch h)
  rw [if_neg hpaired]
  by_cases hverify : (!p.verifySignature ((p.xmlStringFromHex a.body (qs "pairingsecret")).take 16)
      ((p.xmlStringFromHex a.body (qs "pairingsecret")).drop 16) cert) = true
  · simp only [if_pos hverify]
    exact attempt_verified hthrown (hrefused .failed fun h => nomatch h)
  simp only [if_neg hverify]
  by_cases hhash : p.hash (randomChallenge ++ p.signatureFromPemCert cert ++
      (p.xmlStringFromHex a.body (qs "pairingsecret")).take 16) ≠ serverResponse
  · simp only [if_pos hhash]
    exact attempt_verified hthrown (hrefused .pinWrong fun h => nomatch h)
  simp only [if_neg hhash]
  refine attempt_verified hthrown (Settles.goesOn [] (fun _ h => nomatch h) ?_)
  refine ⟨second, a, [], by simp [hanswers], hsecond, not_not.mp herror, ?_, fun hlong => ?_⟩
  · simpa using hverify
  · have hlong : p.hashLength ≤ (p.challengeResponse run second).length := hlong
    have hsame := not_not.mp hhash
    rw [hresponse, read_inside hlong, hchallenge] at hsame
    exact hsame.symm

theorem stage4_settles (h : Authenticated p cert run) :
    Settles p cert { run with answers := run.answers ++ [a] } (p.stage4 cert a) := by
  have hshown := h.answer a
  unfold Platform.stage4
  by_cases herror : a.error ≠ []
  · rw [if_pos herror]
    exact .alone fun _ => Or.inl hshown
  rw [if_neg herror]
  have hthrown : ∀ why, p.verifyResponseStatus a.body = some why →
      Settles p cert { run with answers := run.answers ++ [a] } (assumePaired cert why) :=
    fun _ _ => .alone fun _ => Or.inl hshown
  by_cases hpaired : (!p.paired a.body) = true
  · rw [if_pos hpaired]
    refine attempt_verified hthrown (Settles.report [.unpair] (fun e he => ?_) fun h =>
      nomatch h)
    rw [List.mem_singleton.mp he]
    rfl
  · rw [if_neg hpaired]
    exact attempt_verified hthrown (Settles.goesOn [] (fun _ h => nomatch h) hshown)

theorem stage5_settles (h : Authenticated p cert run) :
    Settles p cert { run with answers := run.answers ++ [a] } (p.stage5 cert a) := by
  have hreport : Settles p cert { run with answers := run.answers ++ [a] }
      [.report .paired cert] := .alone fun _ => Or.inl (h.answer a)
  unfold Platform.stage5
  by_cases herror : a.error ≠ []
  · rw [if_pos herror]
    exact hreport
  rw [if_neg herror]
  have hrefusal : ∀ refusal : QString, Settles p cert { run with answers := run.answers ++ [a] }
      (if refusal ≠ [] then [.report .failed []] else [.report .paired cert]) := by
    intro refusal
    by_cases hempty : refusal ≠ []
    · rw [if_pos hempty]
      exact .alone fun h => nomatch h
    · rw [if_neg hempty]
      exact hreport
  exact hrefusal _

theorem proceed_settles {s : Stage} {random : QByteArray} (h : s.Evidence p cert run) :
    Settles p cert { run with answers := run.answers ++ [a] } (p.proceed cert random a s) := by
  cases s with
  | challenge aesKey randomChallenge => exact stage2_settles h
  | response randomChallenge clientSecretData serverResponse => exact stage3_settles h
  | secret => exact stage4_settles h
  | pairChallenge => exact stage5_settles h

/-- The manager has no more than one request in flight, and the evidence for it. -/
inductive Flight (p : Platform) (w : World) : Prop
  | idle (h : w.waiting = [])
  | certificate (pin : QString) (h : w.waiting = [.certificate pin])
  | stage (s : Stage) (h : w.waiting = [.stage s]) (hevidence : s.Evidence p w.serverCertPem w.current)

structure Inv (p : Platform) (w : World) : Prop where
  flight : Flight p w
  once : completed w.log ++ w.inFlight = List.range w.calls
  paired : ∀ cert run, .reported .paired cert run ∈ w.log →
    Authenticated p cert run ∨ CutShort p run

theorem completed_append (log : List Entry) (e : Entry) :
    completed (log ++ [e]) = completed log ++ e.completed.toList := by
  cases h : e.completed <;> simp [completed, h]

variable {w : World}

/-- With no request in flight, every call has been answered. -/
theorem Inv.all_completed (h : Inv p w) (hidle : w.inFlight = []) :
    completed w.log = List.range w.calls := by
  simpa [hidle] using h.once

/-- An entry that reports no pairing adds nothing to what was promised. -/
theorem paired_append {log : List Entry} {e : Entry}
    (h : ∀ cert run, .reported .paired cert run ∈ log → Authenticated p cert run ∨ CutShort p run)
    (he : ∀ cert run, e = .reported .paired cert run → Authenticated p cert run ∨ CutShort p run) :
    ∀ cert run, .reported .paired cert run ∈ log ++ [e] →
      Authenticated p cert run ∨ CutShort p run := by
  intro cert run hmem
  rcases List.mem_append.mp hmem with hmem | hmem
  · exact h cert run hmem
  · exact he cert run (List.mem_singleton.mp hmem).symm

structure Idle (p : Platform) (w : World) : Prop where
  waiting : w.waiting = []
  once : completed w.log = List.range w.calls
  paired : ∀ cert run, .reported .paired cert run ∈ w.log →
    Authenticated p cert run ∨ CutShort p run

theorem Idle.inv (h : Idle p w) : Inv p w :=
  ⟨.idle h.waiting, by simp [inFlight, h.waiting, h.once], h.paired⟩

theorem Idle.completePairing (h : Idle p w) (pin : QString) (random : QByteArray) :
    Inv p (w.completePairing p pin random) := by
  refine ⟨.stage (.challenge (p.aesKey w.salt pin) random) ?_ ⟨rfl, rfl, rfl⟩, ?_, ?_⟩
  · simp [World.completePairing, h.waiting]
  · simp [World.completePairing, World.inFlight, h.waiting, completed_append, Entry.completed,
      h.once, List.range_succ]
  · exact paired_append h.paired fun _ _ he => nomatch he

theorem Idle.initiated (h : Idle p w) (pin : QString) (random : QByteArray)
    (result : InitResult) : Inv p (w.initiated p pin random result) := by
  have hnoted : Idle p { w with log := w.log ++ [.initiated result] } := by
    refine ⟨h.waiting, ?_, paired_append h.paired fun _ _ he => nomatch he⟩
    simpa [completed_append, Entry.completed] using h.once
  cases result with
  | ok => exact hnoted.completePairing pin random
  | failed => exact hnoted.inv
  | alreadyInProgress => exact hnoted.inv

theorem Idle.chain (h : Idle p w) (pin : QString) (random : QByteArray) :
    Inv p (w.run p pin random) := by
  unfold run
  by_cases hdone : w.stage1Done = true
  · rw [if_pos hdone]
    exact h.initiated pin random .ok
  · rw [if_neg hdone]
    refine ⟨.certificate pin ?_, ?_, paired_append h.paired fun _ _ he => nomatch he⟩
    · simp [h.waiting]
    · simp [inFlight, h.waiting, completed_append, Entry.completed, h.once]

theorem Idle.stage1 (h : Idle p w) (pin : QString) (a : Answer) (random : QByteArray) :
    Inv p (w.stage1 p pin a random) := by
  unfold World.stage1
  by_cases herror : a.error ≠ []
  · rw [if_pos herror]
    exact h.initiated pin random .failed
  rw [if_neg herror]
  cases hstatus : p.verifyResponseStatus a.body with
  | some why => exact h.initiated pin random .failed
  | none =>
    simp only
    by_cases hpaired : (!p.paired a.body) = true
    · rw [if_pos hpaired]
      exact h.initiated pin random .failed
    rw [if_neg hpaired]
    by_cases hcert : p.xmlStringFromHex a.body (qs "plaincert") = []
    · rw [if_pos hcert]
      have hunpaired : Idle p (w.perform .unpair) := by
        refine ⟨h.waiting, ?_, paired_append h.paired fun _ _ he => nomatch he⟩
        simpa [perform, completed_append, Entry.completed] using h.once
      exact hunpaired.initiated pin random .alreadyInProgress
    · rw [if_neg hcert]
      have hstored : Idle p { w with
          serverCertPem := p.xmlStringFromHex a.body (qs "plaincert"), stage1Done := true } :=
        ⟨h.waiting, h.once, h.paired⟩
      exact hstored.initiated pin random .ok

structure Owing (p : Platform) (w : World) : Prop where
  waiting : w.waiting = []
  once : completed w.log ++ [w.current.number] = List.range w.calls
  paired : ∀ cert run, .reported .paired cert run ∈ w.log →
    Authenticated p cert run ∨ CutShort p run

theorem Owing.quiet (h : Owing p w) {front : List Effect} (hfront : ∀ e ∈ front, e.quiet = true) :
    Owing p (w.performAll front) ∧ (w.performAll front).current = w.current ∧
      (w.performAll front).serverCertPem = w.serverCertPem := by
  induction front generalizing w with
  | nil => exact ⟨h, rfl, rfl⟩
  | cons e rest ih =>
    have hone : Owing p (w.perform e) ∧ (w.perform e).current = w.current ∧
        (w.perform e).serverCertPem = w.serverCertPem := by
      have he := hfront e List.mem_cons_self
      cases e with
      | unpair =>
        refine ⟨⟨h.waiting, ?_, paired_append h.paired fun _ _ he => nomatch he⟩, rfl, rfl⟩
        simpa [perform, completed_append, Entry.completed] using h.once
      | reads size upTo =>
        refine ⟨⟨h.waiting, ?_, paired_append h.paired fun _ _ he => nomatch he⟩, rfl, rfl⟩
        simpa [perform, completed_append, Entry.completed] using h.once
      | report state c => cases he
      | request r next => cases he
    obtain ⟨howing, hcurrent, hcert⟩ := hone
    obtain ⟨hrest, hcurrent', hcert'⟩ := ih howing fun x hx => hfront x (List.mem_cons_of_mem _ hx)
    exact ⟨hrest, hcurrent'.trans hcurrent, hcert'.trans hcert⟩

theorem Owing.settles (h : Owing p w) {effects : List Effect}
    (hsettles : Settles p w.serverCertPem w.current effects) : Inv p (w.performAll effects) := by
  cases hsettles with
  | @report front state c hfront hpaired =>
    obtain ⟨howing, hcurrent, -⟩ := h.quiet hfront
    have hall : w.performAll (front ++ [.report state c]) =
        (w.performAll front).perform (.report state c) := by
      simp [performAll, List.foldl_append]
    rw [hall]
    refine Idle.inv ⟨howing.waiting, ?_, paired_append howing.paired fun cert run he => ?_⟩
    · show completed ((w.performAll front).log ++ [.reported state c _]) = _
      rw [completed_append]
      exact howing.once
    · obtain ⟨rfl, rfl, rfl⟩ := Entry.reported.inj he
      rw [hcurrent]
      exact hpaired rfl
  | @goesOn front r next hfront hnext =>
    obtain ⟨howing, hcurrent, hcert⟩ := h.quiet hfront
    have hall : w.performAll (front ++ [.request r next]) =
        (w.performAll front).perform (.request r next) := by
      simp [performAll, List.foldl_append]
    rw [hall]
    refine ⟨.stage next ?_ ?_, ?_, paired_append howing.paired fun _ _ he => nomatch he⟩
    · simp [perform, howing.waiting]
    · show next.Evidence p (w.performAll front).serverCertPem (w.performAll front).current
      rw [hcurrent, hcert]
      exact hnext
    · simp only [perform, inFlight, howing.waiting, completed_append]
      simpa [Entry.completed] using howing.once

theorem Inv.answer {w w' : World} (h : Inv p w) {random : QByteArray}
    (hanswer : w.answer p a random = some w') : Inv p w' := by
  unfold World.answer at hanswer
  cases h.flight with
  | idle hwaiting => simp [hwaiting] at hanswer
  | certificate pin hwaiting =>
    simp only [hwaiting] at hanswer
    obtain rfl := Option.some.inj hanswer
    have honce := h.all_completed (by simp [inFlight, hwaiting])
    have hidle : Idle p { w with waiting := [] } := ⟨rfl, honce, h.paired⟩
    exact hidle.stage1 pin a random
  | stage s hwaiting hevidence =>
    simp only [hwaiting] at hanswer
    obtain rfl := Option.some.inj hanswer
    have howing : Owing p { w with
        waiting := [], current := { w.current with answers := w.current.answers ++ [a] } } := by
      refine ⟨rfl, ?_, h.paired⟩
      simpa [inFlight, hwaiting] using h.once
    exact howing.settles (proceed_settles hevidence)

theorem inv_step {w w' : World} {e : Event} (h : Inv p w) (hmove : move p w e = some w') :
    Inv p w' := by
  cases e with
  | answered a random => exact h.answer hmove
  | run pin random =>
    simp only [move] at hmove
    obtain ⟨hidle, hmove⟩ := Option.ite_none_right_eq_some.mp hmove
    obtain rfl := Option.some.inj hmove
    have honce := h.all_completed (by simp [inFlight, hidle])
    exact Idle.chain ⟨hidle, honce, h.paired⟩ pin random

theorem inv_start (p : Platform) : Inv p start :=
  Idle.inv ⟨rfl, rfl, fun _ _ h => nomatch h⟩

theorem Inv.vouched (h : Inv p w) : Vouched p w := by
  refine ⟨h.once, ?_, h.paired⟩
  cases h.flight with
  | idle hwaiting => simp [inFlight, hwaiting]
  | certificate pin hwaiting => simp [inFlight, hwaiting]
  | stage s hwaiting hevidence => simp [inFlight, hwaiting]

/-- Whatever a host or a middleman answers, every `completePairing` is answered
once, and reports `PAIRED` only when the certificate was vouched for in its own
run, or when its stage 2 or stage 3 failed. -/
theorem pairing_vouched (p : Platform) (events : List Event) (w : World)
    (hrun : Run (moves (move p)) start events w) : Vouched p w :=
  (hrun.invariant (fun _ _ _ hinv hstep => inv_step hinv hstep) (inv_start p)).vouched

/-- A host of the seventh generation. Its answers are told apart by their first
unit: `c` carries a certificate, `s` accepts a stage and says no more. -/
def toyHost : Platform where
  sha256 data := data.take 32
  sha1 data := data.take 20
  encrypt data _ := data
  decrypt data _ := data
  verifySignature _ _ _ := false
  signatureFromPemCert _ := []
  signMessage _ := []
  ownSignature := []
  certPem := []
  serverMajorVersion := 7
  root _ := none
  elements xml :=
    if xml = qs "c" then [(qs "paired", qs "1"), (qs "plaincert", qs "2d2d")]
    else if xml = qs "s" then [(qs "paired", qs "1")]
    else []

def answered (body error : String) : Event := .answered ⟨qs body, qs error, fun _ => 0⟩ []

/-- `PAIRED`, with one answer or none to `completePairing`. -/
def Entry.unvouched : Entry → Bool
  | .reported .paired _ run => decide (run.answers.length < 2)
  | _ => false

def Entry.overread : Entry → Bool
  | .reads size upTo => decide (size < upTo)
  | _ => false

/-- No answer at all to stage 2 is reported as a pairing that no signature
verified, and an answer without a challenge response is read past its end. -/
theorem paired_without_proof :
    (∃ w cert run, Run (moves (move toyHost)) start
      [.run (qs "1234") [], answered "c" "", answered "" "Operation canceled"] w ∧
        .reported .paired cert run ∈ w.log ∧ ¬Authenticated toyHost cert run) ∧
      ∃ w size upTo, Run (moves (move toyHost)) start
        [.run (qs "1234") [], answered "c" "", answered "s" ""] w ∧
          .reads size upTo ∈ w.log ∧ size < upTo := by
  constructor
  · have hrun : (runMoves (move toyHost) start
        [.run (qs "1234") [], answered "c" "", answered "" "Operation canceled"]).map
          (fun w => w.log.any Entry.unvouched) = some true := by
      decide +kernel
    obtain ⟨w, hw, hany⟩ := Option.map_eq_some_iff.mp hrun
    obtain ⟨e, he, hunvouched⟩ := List.any_eq_true.mp hany
    cases e with
    | reported state cert run =>
        cases state with
        | paired =>
            have hshort : run.answers.length < 2 := of_decide_eq_true hunvouched
            refine ⟨w, cert, run, run_of_runMoves _ hw, he, ?_⟩
            rintro ⟨second, third, rest, hanswers, -⟩
            simp only [hanswers, List.length_cons] at hshort
            omega
        | _ => cases hunvouched
    | _ => cases hunvouched
  · have hrun : (runMoves (move toyHost) start
        [.run (qs "1234") [], answered "c" "", answered "s" ""]).map
          (fun w => w.log.any Entry.overread) = some true := by
      decide +kernel
    obtain ⟨w, hw, hany⟩ := Option.map_eq_some_iff.mp hrun
    obtain ⟨e, he, hoverread⟩ := List.any_eq_true.mp hany
    cases e with
    | reads size upTo => exact ⟨w, size, upTo, run_of_runMoves _ hw, he, of_decide_eq_true hoverread⟩
    | _ => cases hoverread

/-- The pairing is reported by the law, here for a handshake cut short. -/
theorem pairing_vouched_cut_short : ∃ w, Run (moves (move toyHost)) start
    [.run (qs "1234") [], answered "c" "", answered "" "Operation canceled"] w ∧
      Vouched toyHost w ∧ completed w.log = [0] := by
  have hrun : (runMoves (move toyHost) start
      [.run (qs "1234") [], answered "c" "", answered "" "Operation canceled"]).map
        (fun w => completed w.log) = some [0] := by
    decide +kernel
  obtain ⟨w, hw, hcompleted⟩ := Option.map_eq_some_iff.mp hrun
  have hw := run_of_runMoves _ hw
  exact ⟨w, hw, pairing_vouched toyHost _ w hw, hcompleted⟩

end MoonlightWeb.Backend.NvPairingManager
