import CasualOS.HashText
import CasualOS.Lib.OrderedMap
import CasualOS.Lib.Run

/-! The atoms a client has sent and not yet seen acknowledged, and what the server makes of them. -/

namespace CasualOS.RepoClient

open Run
open Option (some)

variable {T : Type}

/-- One change that `addAtoms` was asked for: `atom` is null for a removal. The number of the call is
not in the source; it tells the operations on one hash apart. -/
structure Operation (T : Type) where
  call : Nat
  hash : JsString
  atom : Option (Atom T)
  deriving DecidableEq, Repr

structure AddAtomsEvent (T : Type) where
  atoms : List (Operation T)
  removedAtoms : List (Operation T)
  deriving DecidableEq, Repr

/-- The order in which the server applies an event: the additions, then the removals. -/
def AddAtomsEvent.operations (event : AddAtomsEvent T) : List (Operation T) :=
  event.atoms ++ event.removedAtoms

/-- The hashes of `ATOMS_RECEIVED`. -/
def AddAtomsEvent.hashes (event : AddAtomsEvent T) : List JsString :=
  event.operations.map Operation.hash

/-- The client that watches one branch, the server, and the channel between them. `issued` and
`processed` are the histories of both ends. -/
structure State (T : Type) where
  connected : Bool
  sentAtoms : OrderedMap JsString (Operation T)
  toServer : List (AddAtomsEvent T)
  toClient : List (List JsString)
  calls : Nat
  issued : List (Operation T)
  processed : List (Operation T)

def init : State T where
  connected := false
  sentAtoms := OrderedMap.empty
  toServer := []
  toClient := []
  calls := 0
  issued := []
  processed := []

inductive Step (T : Type) where
  | addAtoms (atoms : List (Atom T)) (removedAtoms : List JsString)
  | process
  | atomsReceived
  | disconnect
  | connect

def sendAddAtoms (s : State T) (event : AddAtomsEvent T) : State T :=
  if s.connected then { s with toServer := s.toServer ++ [event] } else s

def addAtomsEvent (call : Nat) (atoms : List (Atom T)) (removedAtoms : List JsString) :
    AddAtomsEvent T where
  atoms := atoms.map (fun atom => ⟨call, atom.hash, some atom⟩)
  removedAtoms := removedAtoms.map (fun hash => ⟨call, hash, none⟩)

/-- The additions are put in the list first, then the removals. -/
def saveSent (list : OrderedMap JsString (Operation T)) (event : AddAtomsEvent T) :
    OrderedMap JsString (Operation T) :=
  let list := event.atoms.foldl (fun list op => list.set op.hash op) list
  event.removedAtoms.foldl (fun list op => list.set op.hash op) list

def addAtoms (s : State T) (atoms : List (Atom T)) (removedAtoms : List JsString) : State T :=
  let event := addAtomsEvent s.calls atoms removedAtoms
  sendAddAtoms
    { s with
      sentAtoms := saveSent s.sentAtoms event
      calls := s.calls + 1
      issued := s.issued ++ event.operations } event

/-- The `ADD_ATOMS` handler of the server on the next event. -/
def process (s : State T) : Option (State T) :=
  match s.toServer with
  | [] => none
  | event :: rest =>
    some { s with
      toServer := rest
      toClient := s.toClient ++ [event.hashes]
      processed := s.processed ++ event.operations }

def atomsReceived (s : State T) : Option (State T) :=
  match s.toClient with
  | [] => none
  | hashes :: rest =>
    some { s with
      toClient := rest
      sentAtoms := hashes.foldl (fun list hash => list.delete hash) s.sentAtoms }

/-- What `watchBranchAtoms` sends again when it is connected. -/
def unsent (list : OrderedMap JsString (Operation T)) : AddAtomsEvent T where
  atoms := list.values.filter (fun op => op.atom.isSome)
  removedAtoms := list.values.filter (fun op => op.atom.isNone)

def connect (s : State T) : State T :=
  let s := { s with connected := true }
  if (unsent s.sentAtoms).operations.length > 0 then sendAddAtoms s (unsent s.sentAtoms) else s

/-- Everything in flight is dropped. -/
def disconnect (s : State T) : State T :=
  { s with connected := false, toServer := [], toClient := [] }

def step (s : State T) : Step T → Option (State T)
  | .addAtoms atoms removedAtoms => some (addAtoms s atoms removedAtoms)
  | .process => process s
  | .atomsReceived => atomsReceived s
  | .disconnect => if s.connected then some (disconnect s) else none
  | .connect => if s.connected then none else some (connect s)

/-! ### The last operation on a hash -/

def lastOn (hash : JsString) (log : List (Operation T)) : Option (Operation T) :=
  (log.filter (fun op => op.hash = hash)).getLast?

theorem lastOn_append (hash : JsString) (early late : List (Operation T)) :
    lastOn hash (early ++ late) = (lastOn hash late).or (lastOn hash early) := by
  simp only [lastOn, List.filter_append, List.getLast?_append]

theorem lastOn_none (hash : JsString) (log : List (Operation T)) :
    lastOn hash log = none ↔ ∀ op ∈ log, op.hash ≠ hash := by
  simp [lastOn]

theorem lastOn_some (hash : JsString) (log : List (Operation T)) (op : Operation T)
    (last : lastOn hash log = some op) : op ∈ log ∧ op.hash = hash := by
  have member := List.mem_of_getLast? last
  simpa using member

theorem get_setAll (ops : List (Operation T)) (list : OrderedMap JsString (Operation T)) (hash : JsString) :
    (ops.foldl (fun list op => list.set op.hash op) list).get hash =
      (lastOn hash ops).or (list.get hash) := by
  induction ops generalizing list with
  | nil => simp [lastOn]
  | cons op rest ih =>
    have whole : lastOn hash (op :: rest) = (lastOn hash rest).or (lastOn hash [op]) :=
      lastOn_append hash [op] rest
    rw [List.foldl_cons, ih, whole, Option.or_assoc, OrderedMap.get_set]
    by_cases same : hash = op.hash
    · simp [lastOn, same]
    · simp [lastOn, same, Ne.symm same]

theorem get_deleteAll (hashes : List JsString) (list : OrderedMap JsString (Operation T))
    (hash : JsString) (op : Operation T)
    (found : (hashes.foldl (fun list hash => list.delete hash) list).get hash = some op) :
    list.get hash = some op := by
  induction hashes generalizing list with
  | nil => exact found
  | cons first rest ih =>
    have left := ih (list.delete first) found
    rw [OrderedMap.get_delete] at left
    by_cases same : hash = first
    · simp [same] at left
    · simpa [same] using left

theorem lastOn_unique (hash : JsString) (log : List (Operation T)) (op : Operation T) (member : op ∈ log)
    (named : op.hash = hash) (only : ∀ other ∈ log, other.hash = hash → other = op) :
    lastOn hash log = some op := by
  cases last : lastOn hash log with
  | none => exact absurd named ((lastOn_none hash log).mp last op member)
  | some other =>
    have found := lastOn_some hash log other last
    rw [only other found.1 found.2]

/-! ### The invariant -/

def flight (s : State T) : List (Operation T) := s.toServer.flatMap AddAtomsEvent.operations

/-- What the list of sent atoms holds is the last operation on its hash. A connected client has sent
the last operation on every hash, a disconnected one has it in the list or knows it processed. -/
structure Inv (s : State T) : Prop where
  sent : ∀ hash op, s.sentAtoms.get hash = some op → lastOn hash s.issued = some op
  online : s.connected = true → ∀ hash, lastOn hash (s.processed ++ flight s) = lastOn hash s.issued
  offline : s.connected = false → s.toServer = [] ∧ s.toClient = [] ∧
    ∀ hash, s.sentAtoms.get hash = none → lastOn hash s.processed = lastOn hash s.issued

/-- A lost connection drops only operations on hashes that are still in the list of sent atoms. -/
def DropsSaved (s : State T) : Step T → Prop
  | .disconnect => ∀ op ∈ flight s, s.sentAtoms.get op.hash ≠ none
  | _ => True

theorem inv_init : Inv (init : State T) where
  sent := by simp [init]
  online := by simp [init]
  offline := by simp [init]

theorem get_saveSent (list : OrderedMap JsString (Operation T)) (event : AddAtomsEvent T) (hash : JsString) :
    (saveSent list event).get hash = (lastOn hash event.operations).or (list.get hash) := by
  rw [saveSent, get_setAll, get_setAll, ← Option.or_assoc, ← lastOn_append]
  rfl

theorem inv_sendAddAtoms (s : State T) (event : AddAtomsEvent T) (inv : Inv s) (calls : Nat) : Inv (sendAddAtoms
      { s with
        sentAtoms := saveSent s.sentAtoms event
        calls := calls
        issued := s.issued ++ event.operations } event) := by
  have sent : ∀ hash op, (saveSent s.sentAtoms event).get hash = some op →
      lastOn hash (s.issued ++ event.operations) = some op := by
    intro hash op found
    rw [get_saveSent] at found
    rw [lastOn_append]
    cases named : lastOn hash event.operations with
    | none =>
      rw [named, Option.none_or] at found
      exact inv.sent hash op found
    | some last => rwa [named, Option.some_or] at found
  cases online : s.connected with
  | true =>
    simp only [sendAddAtoms, if_true]
    refine ⟨sent, fun _ hash => ?_, fun offline => (by cases offline)⟩
    have before := inv.online online hash
    calc lastOn hash (s.processed ++ (s.toServer ++ [event]).flatMap AddAtomsEvent.operations)
        = lastOn hash ((s.processed ++ flight s) ++ event.operations) := by simp [flight]
      _ = (lastOn hash event.operations).or (lastOn hash s.issued) := by
          rw [lastOn_append, before]
      _ = lastOn hash (s.issued ++ event.operations) := (lastOn_append ..).symm
  | false =>
    have before := inv.offline online
    simp only [sendAddAtoms, Bool.false_eq_true, if_false]
    refine ⟨sent, fun still => (by cases still), fun _ => ⟨before.1, before.2.1, fun hash absent => ?_⟩⟩
    rw [get_saveSent, Option.or_eq_none_iff] at absent
    rw [lastOn_append, absent.1, Option.none_or]
    exact before.2.2 hash absent.2

theorem inv_process (s next : State T) (inv : Inv s) (ran : process s = some next) : Inv next := by
  unfold process at ran
  cases queue : s.toServer with
  | nil => simp [queue] at ran
  | cons event rest =>
    simp only [queue, some.injEq] at ran
    subst ran
    refine ⟨inv.sent, fun online hash => ?_, fun offline => ?_⟩
    · have before := inv.online online hash
      simpa [flight, queue] using before
    · have before := (inv.offline offline).1
      rw [queue] at before
      cases before

theorem inv_atomsReceived (s next : State T) (inv : Inv s) (ran : atomsReceived s = some next) : Inv next := by
  unfold atomsReceived at ran
  cases queue : s.toClient with
  | nil => simp [queue] at ran
  | cons hashes rest =>
    simp only [queue, some.injEq] at ran
    subst ran
    refine ⟨fun hash op found => ?_, fun online hash => inv.online online hash, fun offline => ?_⟩
    · exact inv.sent hash op (get_deleteAll hashes s.sentAtoms hash op found)
    · have before := (inv.offline offline).2.1
      rw [queue] at before
      cases before

theorem lastOn_unsent (list : OrderedMap JsString (Operation T))
    (keyed : ∀ hash op, list.get hash = some op → op.hash = hash) (hash : JsString) :
    lastOn hash (unsent list).operations = list.get hash := by
  have members : ∀ op, op ∈ (unsent list).operations ↔ list.get op.hash = some op := by
    intro op
    have either : op ∈ (unsent list).operations ↔ op ∈ list.values := by
      simp only [unsent, AddAtomsEvent.operations, List.mem_append, List.mem_filter]
      cases op.atom <;> simp
    rw [either, OrderedMap.mem_values]
    constructor
    · intro ⟨key, found⟩
      rw [keyed key op found]
      exact found
    · intro found
      exact ⟨op.hash, found⟩
  cases found : list.get hash with
  | none =>
    rw [lastOn_none]
    intro op member same
    have present := (members op).mp member
    rw [same, found] at present
    cases present
  | some op =>
    have named := keyed hash op found
    apply lastOn_unique hash _ op ((members op).mpr (named ▸ found)) named
    intro other member same
    have present := (members other).mp member
    rw [same, found, some.injEq] at present
    exact present.symm

theorem inv_connect (s : State T) (inv : Inv s) (offline : s.connected = false) : Inv (connect s) := by
  have before := inv.offline offline
  have keyed : ∀ hash op, s.sentAtoms.get hash = some op → op.hash = hash := fun hash op found =>
    (lastOn_some hash _ op (inv.sent hash op found)).2
  have kept : (connect s).sentAtoms = s.sentAtoms ∧ (connect s).issued = s.issued ∧
      (connect s).processed = s.processed ∧ (connect s).connected = true := by
    simp only [connect, sendAddAtoms, if_true]
    split <;> exact ⟨rfl, rfl, rfl, rfl⟩
  have sent : flight (connect s) = (unsent s.sentAtoms).operations := by
    simp only [connect, sendAddAtoms, if_true]
    split
    · simp [flight, before.1]
    · next empty =>
        have none : (unsent s.sentAtoms).operations = [] := by simpa using empty
        simp [flight, before.1, none]
  refine ⟨fun hash op found => ?_, fun _ hash => ?_, fun still => ?_⟩
  · rw [kept.1] at found
    rw [kept.2.1]
    exact inv.sent hash op found
  · rw [sent, kept.2.1, kept.2.2.1, lastOn_append, lastOn_unsent s.sentAtoms keyed hash]
    cases found : s.sentAtoms.get hash with
    | none => rw [Option.none_or, before.2.2 hash found]
    | some op => rw [Option.some_or, inv.sent hash op found]
  · rw [kept.2.2.2] at still
    cases still

theorem inv_disconnect (s : State T) (inv : Inv s) (online : s.connected = true)
    (saved : ∀ op ∈ flight s, s.sentAtoms.get op.hash ≠ none) : Inv (disconnect s) := by
  refine ⟨inv.sent, fun still => ?_, fun _ => ⟨rfl, rfl, fun hash absent => ?_⟩⟩
  · cases still
  · have before := inv.online online hash
    have unnamed : lastOn hash (flight s) = none := by
      rw [lastOn_none]
      intro op member same
      exact saved op member (same ▸ absent)
    rw [lastOn_append, unnamed, Option.none_or] at before
    exact before

theorem inv_step (s : State T) (label : Step T) (next : State T) (inv : Inv s)
    (saved : DropsSaved s label) (ran : step s label = some next) : Inv next := by
  cases label with
  | addAtoms atoms removedAtoms =>
    simp only [step, some.injEq] at ran
    exact ran ▸ inv_sendAddAtoms s (addAtomsEvent s.calls atoms removedAtoms) inv _
  | process => exact inv_process s next inv ran
  | atomsReceived => exact inv_atomsReceived s next inv ran
  | disconnect =>
    cases online : s.connected with
    | false => simp [step, online] at ran
    | true =>
      simp only [step, online, if_true, some.injEq] at ran
      exact ran ▸ inv_disconnect s inv online saved
  | connect =>
    cases offline : s.connected with
    | true => simp [step, offline] at ran
    | false =>
      simp only [step, offline, Bool.false_eq_true, if_false, some.injEq] at ran
      exact ran ▸ inv_connect s inv offline

/-- The client is connected, has sent its list again and nothing is in flight. -/
def Settled (s : State T) : Prop := s.connected = true ∧ s.toServer = [] ∧ s.toClient = []

/-- In a run that drops only saved operations, a settled state has lost none. -/
theorem last_operation_processed (s : State T) (reached : Reaches step DropsSaved init s)
    (settled : Settled s) (hash : JsString) : lastOn hash s.processed = lastOn hash s.issued := by
  have inv := reached.invariant Inv inv_init inv_step
  have last := inv.online settled.1 hash
  rw [flight, settled.2.1, List.flatMap_nil, List.append_nil] at last
  exact last

/-! ### An operation that is lost -/

def sampleAtom : Atom Unit := newAtom HashText.unitHash (HashText.sampleId 1 .undefined) none ()

/-- The acknowledgement of the addition takes the removal from the list. -/
def lostRemoval : List (Step Unit) :=
  [.connect, .addAtoms [sampleAtom] [], .addAtoms [] [sampleAtom.hash], .process, .atomsReceived,
    .disconnect, .connect]

def ranTo (labels : List (Step Unit)) : State Unit := (runAll step init labels).getD init

theorem ranTo_eq (labels : List (Step Unit)) (ran : (runAll step init labels).isSome = true) :
    runAll step init labels = some (ranTo labels) := by
  cases reached : runAll step init labels with
  | none => simp [reached] at ran
  | some s => simp [ranTo, reached]

/-- The connection is lost while the addition is on its way. -/
def resentAddition : List (Step Unit) :=
  [.connect, .addAtoms [sampleAtom] [], .disconnect, .connect, .process, .atomsReceived]

theorem resentAddition_saved : AllAllowed step DropsSaved init resentAddition := by
  simp [resentAddition, AllAllowed, step, DropsSaved, connect, init, addAtoms, addAtomsEvent,
    saveSent, sendAddAtoms, unsent, flight, AddAtomsEvent.operations, OrderedMap.values,
    OrderedMap.empty, OrderedMap.get_set]

theorem addition_processed : Settled (ranTo resentAddition) ∧
    lastOn sampleAtom.hash (ranTo resentAddition).processed =
      lastOn sampleAtom.hash (ranTo resentAddition).issued := by
  have settled : Settled (ranTo resentAddition) := ⟨by decide, by decide, by decide⟩
  exact ⟨settled, last_operation_processed _
    (reaches_of_runAll resentAddition resentAddition_saved (ranTo_eq resentAddition rfl)) settled _⟩

theorem removal_lost : ∃ s : State Unit, Reaches step (fun _ _ => True) init s ∧ Settled s ∧
    lastOn sampleAtom.hash s.processed ≠ lastOn sampleAtom.hash s.issued := by
  refine ⟨ranTo lostRemoval, reaches_of_runAll lostRemoval (allAllowed_true _ _) (ranTo_eq lostRemoval rfl), ⟨by decide, by decide, by decide⟩, ?_⟩
  decide +kernel

end CasualOS.RepoClient
