import MoonlightWeb.Lib.Run
import MoonlightWeb.Qt.QHash
import MoonlightWeb.Qt.QString

/-! # Seats of a MultiSeat host

`MultiSeatBackend` gives each device a seat and remembers it in the settings, under the
device's id; an id has no slash, so it names one key of the host's group. The service
holds the seats and answers each request when it likes, from the seats it has at that
moment; an answer arrives when it likes. A callback runs to its end before another. The
pairing with a seat's Apollo comes after the seat's record was read and is not part of
the model, nor are the texts of the errors.
-/

namespace MoonlightWeb.Backend.MultiSeatBackend

open Lib Js Qt

inductive SeatStatus
  | idle
  | provisioning
  | configuring
  | ready
  | streaming
  | tearingDown
  | error
deriving DecidableEq, Repr

/-- `MultiSeatSeat`, as far as ownership reads it. -/
structure MultiSeatSeat where
  id : QString
  status : SeatStatus
  portBase : Int
deriving DecidableEq, Repr

def MultiSeatSeat.isUsable (seat : MultiSeatSeat) : Bool :=
  seat.portBase > 0 && (seat.status = .ready || seat.status = .streaming)

structure SeatRef where
  id : QString
  busy : Bool
deriving DecidableEq, Repr

def toSeatRef (seat : MultiSeatSeat) : SeatRef where
  id := seat.id
  busy := seat.status = .streaming

/-- What a caller of `listSeats` is given: a seat with an id, that can be streamed. -/
def listed (seats : List MultiSeatSeat) : List SeatRef :=
  ((seats.filter fun seat => seat.id ≠ []).filter MultiSeatSeat.isUsable).map toSeatRef

/-- The host's group in the settings: device and seat. -/
abbrev Owners := QHash QString QString

variable (owners : Owners)

def ownedSeat (device : QString) : QString :=
  if device = [] then [] else (owners.get device).getD []

def claimOwnership (device seat : QString) : Owners :=
  if device = [] then owners else owners.set device seat

def releaseOwnership (device : QString) : Owners :=
  if device = [] then owners else owners.delete device

def ownedSeats : List QString := owners.values.filter fun seat => seat ≠ []

/-- The first seat that is neither busy nor taken. -/
def freeSeat (seats : List SeatRef) : Option SeatRef :=
  seats.find? fun seat => !(seat.busy || seat.id ∈ ownedSeats owners)

def takeFree (device : QString) (seats : List SeatRef) :
    Option SeatRef × Owners :=
  match freeSeat owners seats with
  | some seat => (some seat, claimOwnership owners device seat.id)
  | none => (none, owners)

/-- The seat `allocateSeat` answers with, and the owners after it. -/
def allocateSeat (device : QString) (seats : List SeatRef) :
    Option SeatRef × Owners :=
  if ownedSeat owners device = [] then takeFree owners device seats
  else
    match seats.find? fun seat => seat.id = ownedSeat owners device with
    | some seat => (some seat, owners)
    -- the seat is not in the list, so another one is given
    | none => takeFree (releaseOwnership owners device) device seats

/-- Deliberately does nothing. -/
def releaseSeat (_ : QString) : Owners := owners

def releaseSeatOwner (seat : QString) : Owners :=
  owners.filter fun _ owned => owned ≠ seat

inductive Call
  | launch
  | resume
deriving DecidableEq, Repr

/-- What the service was asked for, and who waits for the answer. -/
inductive Request
  | allocate (device : QString)
  | launchList (call : Call) (device : QString)
  | launchSeat (call : Call) (device seat : QString)
  | teardown (seat : QString)
deriving DecidableEq, Repr

inductive Answer
  | failed
  /-- The service does not have the seat. -/
  | missing
  | seats (seats : List MultiSeatSeat)
  | seat (record : MultiSeatSeat)
  | done
deriving DecidableEq, Repr

structure Pending where
  request : Request
  answer : Option Answer
deriving DecidableEq, Repr

/-- The service's seats, the settings and the requests under way. `lapsed` has the owners
whose seat the service has been without since they came to own it, `torn` the seats that
were torn down with success and are gone. -/
structure World where
  service : QHash QString MultiSeatSeat
  owners : Owners
  pending : QHash Nat Pending
  fresh : Nat
  lapsed : Finset QString
  torn : Finset QString

namespace World

def initial : World := ⟨.empty, .empty, .empty, 0, ∅, ∅⟩

variable (w : World)

def ask (request : Request) : World :=
  { w with
    pending := w.pending.set w.fresh ⟨request, none⟩
    fresh := w.fresh + 1 }

/-- `resolved`: the host is known and has an address. -/
def withSeatBackend (call : Call) (device seat : QString) (resolved : Bool) : World :=
  if resolved then w.ask (.launchSeat call device seat) else w

def withDeviceSeat (call : Call) (device : QString) (resolved : Bool) : World :=
  if ownedSeat w.owners device ≠ [] then
    w.withSeatBackend call device (ownedSeat w.owners device) resolved
  else if resolved then w.ask (.launchList call device)
  else w

def Owns (device seat : QString) : Prop := w.owners.get device = some seat

/-- The devices that own a seat the service has. -/
def lapses (device : QString) (owners : Owners) : Finset QString :=
  if owners.get device = w.owners.get device then w.lapsed
  else if (owners.get device).all fun seat => w.service.contains seat then w.lapsed.erase device
  else insert device w.lapsed

/-- An allocation for the device leaves these owners. -/
def settle (device : QString) (owners : Owners) : World :=
  { w with owners := owners, lapsed := w.lapses device owners }

/-- The service is without the seat. -/
def lose (seat : QString) : World :=
  { w with
    service := w.service.delete seat
    lapsed := w.lapsed ∪
      ((w.owners.entries.filter fun entry => entry.2 = seat).map Prod.fst).toFinset }

def answers (ticket : Nat) (request : Request) (answer : Answer) : World :=
  { w with pending := w.pending.set ticket ⟨request, some answer⟩ }

def serve (ticket : Nat) (request : Request) : World :=
  match request with
  | .allocate _ => w.answers ticket request (.seats w.service.values)
  | .launchList _ _ => w.answers ticket request (.seats w.service.values)
  | .launchSeat _ _ seat =>
      match w.service.get seat with
      | some record => w.answers ticket request (.seat record)
      | none => w.answers ticket request .missing
  | .teardown seat => (w.lose seat).answers ticket request .done

def callback (request : Request) (answer : Answer) (resolved : Bool) : World :=
  match request, answer with
  | .allocate device, .seats seats =>
      w.settle device (allocateSeat w.owners device (listed seats)).2
  | .launchList call device, .seats seats =>
      match (allocateSeat w.owners device (listed seats)).1 with
      | some seat =>
          (w.settle device (allocateSeat w.owners device (listed seats)).2).withSeatBackend call
            device seat.id resolved
      | none => w.settle device (allocateSeat w.owners device (listed seats)).2
  | .teardown seat, .done =>
      { w with
        owners := releaseSeat w.owners seat
        torn := if w.service.contains seat then w.torn else insert seat w.torn }
  -- an error, or a seat's record: the ownership is left as it is
  | _, _ => w

end World

inductive Event
  | allocateSeat (device : QString) (resolved : Bool)
  | launch (call : Call) (device : QString) (resolved : Bool)
  | releaseSeatOwner (seat : QString)
  | teardownSeat (seat : QString)
  /-- The service adds a seat, or reports one anew. -/
  | puts (seat : MultiSeatSeat)
  | removes (seat : QString)
  | serves (ticket : Nat)
  | fails (ticket : Nat)
  | arrives (ticket : Nat) (resolved : Bool)
deriving DecidableEq, Repr

namespace World

variable (w : World)

def next : Event → World
  | .allocateSeat device resolved => if resolved then w.ask (.allocate device) else w
  | .launch call device resolved => w.withDeviceSeat call device resolved
  | .releaseSeatOwner seat => { w with owners := releaseSeatOwner w.owners seat }
  | .teardownSeat seat => w.ask (.teardown seat)
  | .puts seat => { w with service := w.service.set seat.id seat, torn := w.torn.erase seat.id }
  | .removes seat => w.lose seat
  | .serves ticket =>
      match w.pending.get ticket with
      | some ⟨request, none⟩ => w.serve ticket request
      | _ => w
  | .fails ticket =>
      match w.pending.get ticket with
      | some ⟨request, none⟩ => w.answers ticket request .failed
      | _ => w
  | .arrives ticket resolved =>
      match w.pending.get ticket with
      | some ⟨request, some answer⟩ =>
          { w with pending := w.pending.delete ticket }.callback request answer resolved
      | _ => w

def arriving : Event → Option (Request × Answer)
  | .arrives ticket _ =>
      match w.pending.get ticket with
      | some ⟨request, some answer⟩ => some (request, answer)
      | _ => none
  | _ => none

/-- A launch or resume of the device reads the record of a seat that can be streamed: it
goes on to that seat's Apollo. -/
def Reaches (e : Event) (device seat : QString) : Prop :=
  ∃ call asked record, w.arriving e = some (.launchSeat call device asked, .seat record) ∧
    record.isUsable = true ∧ record.id = seat

/-- Nobody owns the seat, and the service has it ready. -/
def Free (seat : QString) : Prop :=
  (∃ record, w.service.get seat = some record ∧ record.isUsable = true ∧
    record.status ≠ .streaming) ∧ ∀ device, ¬ w.Owns device seat

structure Lawful (w : World) (e : Event) (w' : World) : Prop where
  /-- No seat is owned by two devices. -/
  once : ∀ device other seat, w'.Owns device seat → w'.Owns other seat → device = other
  /-- A launch reaches a seat its device owns, and nobody else. -/
  reaches : ∀ device seat, w.Reaches e device seat →
    w.Owns device seat ∧ ∀ other, w.Owns other seat → other = device
  /-- A device goes on owning its seat until it is released or the service is without it. -/
  keeps : ∀ device seat, w.Owns device seat → ¬ w'.Owns device seat →
    e = .releaseSeatOwner seat ∨ w.arriving e = some (.teardown seat, .done) ∨ device ∈ w.lapsed
  torn : ∀ seat ∈ w'.torn, ∀ device, ¬ w'.Owns device seat
  gone : ∀ call device asked, w.arriving e = some (.launchSeat call device asked, .missing) →
    (∃ seat, w.Free seat) → ∃ seat, w.Free seat ∧ w'.Owns device seat
  /-- So does a launch of a device that has none. -/
  first : ∀ call device seats, w.arriving e = some (.launchList call device, .seats seats) →
    (∃ seat ∈ listed seats, seat.busy = false ∧ ∀ other, ¬ w.Owns other seat.id) →
      ∃ seat, w'.Owns device seat

def Awaited (device seat : QString) : Prop :=
  ∃ ticket call answer, w.pending.get ticket = some ⟨.launchSeat call device seat, answer⟩

/-- Where a list arrives for a device whose seat it does not have. -/
structure Unlisted (w : World) (device : QString) (seats : List SeatRef) : Prop where
  /-- A seat is forgotten that the service has been without, and that no launch waits for. -/
  forgets : ∀ seat, w.Owns device seat → device ∈ w.lapsed ∧ ¬ w.Awaited device seat
  /-- The seat taken instead has not been torn down. -/
  takes : device ≠ [] → ∀ seat, freeSeat (releaseOwnership w.owners device) seats = some seat →
    seat.id ∉ w.torn

def Listed (device : QString) (seats : List SeatRef) : Prop :=
  (∀ seat ∈ seats, ¬ w.Owns device seat.id) → w.Unlisted device seats

/-- The step takes none of the branches that lose sight of an owner. -/
def Clear (e : Event) (_ : World) : Prop :=
  match w.arriving e with
  | some (.allocate device, .seats seats) => w.Listed device (listed seats)
  | some (.launchList _ device, .seats seats) =>
      w.Listed device (listed seats) ∧
        (device = [] → freeSeat w.owners (listed seats) = none)
  | some (.launchSeat _ _ _, .missing) => ∀ seat, ¬ w.Free seat
  | some (.teardown seat, .done) => ∀ device, ¬ w.Owns device seat
  | _ =>
      match e with
      | .releaseSeatOwner seat => ∀ device, ¬ w.Awaited device seat
      | _ => True

end World

end MoonlightWeb.Backend.MultiSeatBackend
