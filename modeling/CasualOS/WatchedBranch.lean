import Mathlib.Data.Finset.Basic
import CasualOS.Lib.Run

/-! The devices that watch one loaded branch, and the handlers that change it. A handler is cut at its
awaits, those of one device run one after the other, and atoms are named by their hashes. -/

namespace CasualOS.WatchedBranch

open Run
open List (mem_append mem_singleton)
open Option (some)

variable {D H : Type}

/-- The contents of an `ADD_ATOMS` message, in either direction. -/
structure AddAtomsEvent (H : Type) where
  atoms : Finset H
  removedAtoms : Finset H

inductive Request (H : Type) where
  | watchBranch
  | addAtoms (event : AddAtomsEvent H)

/-- A handler of a device at the await where it stands. -/
inductive Handler (H : Type) where
  | watching
  | loading (event : AddAtomsEvent H)
  | added (event : AddAtomsEvent H) (added : Finset H)
  | removed (added removed : Finset H)

/-- How far a device is with watching the branch. -/
inductive Status where
  | absent
  | requested
  | joined
  | watching
  deriving DecidableEq, Repr

/-- A device with its connection: what it holds, what is on its way to it and from it, and its handler. -/
structure Device (H : Type) where
  held : Finset H
  inbox : List (AddAtomsEvent H)
  requests : List (Request H)
  handler : Option (Handler H)
  status : Status

structure State (D H : Type) where
  repo : Finset H
  devices : D → Device H

/-- A loaded branch before any device is there. -/
def start (repo : Finset H) : State D H where
  repo := repo
  devices := fun _ =>
    { held := ∅
      inbox := []
      requests := []
      handler := none
      status := .absent }

inductive Label (D H : Type) where
  | watchBranch (device : D)
  | send (device : D) (event : AddAtomsEvent H)
  | receive (device : D)
  /-- The handler goes on to its next await; `accepted` is what the filters of the weave let in. -/
  | resume (device : D) (accepted : Finset H)
  | deliver (device : D)

/-- The branch's channel has the device. -/
def Status.inChannel : Status → Bool
  | .joined | .watching => true
  | _ => false

section Steps

variable [DecidableEq H]

def AddAtomsEvent.applyTo (event : AddAtomsEvent H) (held : Finset H) : Finset H :=
  (held ∪ event.atoms) \ event.removedAtoms

variable [DecidableEq D]

def State.update (s : State D H) (device : D) (x : Device H) : State D H :=
  { s with devices := fun other => if other = device then x else s.devices other }

def State.sendToDevices (s : State D H) (message : AddAtomsEvent H) (excludeDevice : D) : State D H :=
  { s with
    devices := fun other =>
      let x := s.devices other
      if x.status.inChannel && other ≠ excludeDevice then { x with inbox := x.inbox ++ [message] }
      else x }

def resume (s : State D H) (device : D) (accepted : Finset H) : Option (State D H) :=
  let x := s.devices device
  match x.handler with
  | none => none
  | some .watching =>
    let atoms : AddAtomsEvent H := { atoms := s.repo, removedAtoms := ∅ }
    some (s.update device
      { x with inbox := x.inbox ++ [atoms], handler := none, status := .watching })
  | some (.loading event) =>
    let added := (event.atoms ∩ accepted) \ s.repo
    some ({ s with repo := s.repo ∪ added }.update device { x with handler := some (.added event added) })
  | some (.added event added) =>
    let removed := (event.removedAtoms ∩ accepted) ∩ s.repo
    some ({ s with repo := s.repo \ removed }.update device
      { x with handler := some (.removed added removed) })
  | some (.removed added removed) =>
    let ended := s.update device { x with handler := none }
    if added ≠ ∅ ∨ removed ≠ ∅ then
      some (ended.sendToDevices { atoms := added, removedAtoms := removed } device)
    else some ended

def step (s : State D H) : Label D H → Option (State D H)
  | .watchBranch device =>
    let x := s.devices device
    if x.status = .absent then
      some (s.update device
        { x with held := ∅, requests := x.requests ++ [.watchBranch], status := .requested })
    else none
  | .send device event =>
    let x := s.devices device
    -- only a device that watches keeps a copy, to which it applies its own changes at once
    some (s.update device
      { x with
        held := if x.status = .absent then x.held else event.applyTo x.held
        requests := x.requests ++ [.addAtoms event] })
  | .receive device =>
    let x := s.devices device
    match x.handler, x.requests with
    | none, .watchBranch :: rest =>
      some (s.update device { x with requests := rest, handler := some .watching, status := .joined })
    | none, .addAtoms event :: rest =>
      some (s.update device { x with requests := rest, handler := some (.loading event) })
    | _, _ => none
  | .resume device accepted => resume s device accepted
  | .deliver device =>
    let x := s.devices device
    match x.inbox with
    | [] => none
    | message :: rest => some (s.update device { x with held := message.applyTo x.held, inbox := rest })

end Steps

/-! ### What is on its way -/

section Outstanding

variable [DecidableEq H]

namespace AddAtomsEvent

/-- What the event makes of a hash. -/
def value (event : AddAtomsEvent H) (h : H) : Option Bool :=
  if h ∈ event.removedAtoms then some false else if h ∈ event.atoms then some true else none

def Touches (event : AddAtomsEvent H) (h : H) : Bool → Prop
  | true => h ∈ event.atoms
  | false => h ∈ event.removedAtoms

end AddAtomsEvent

/-- What the last event that touches a hash makes of it. -/
def lastValue (events : List (AddAtomsEvent H)) (h : H) : Option Bool :=
  (events.filterMap (·.value h)).getLast?

/-- Nothing that was sent before a request to watch counts. -/
def follow (own : List (AddAtomsEvent H)) : Request H → List (AddAtomsEvent H)
  | .watchBranch => []
  | .addAtoms event => own ++ [event]

namespace Device

/-- The part of an event that a handler has yet to process. -/
def handled (x : Device H) : List (AddAtomsEvent H) :=
  match x.handler with
  | some (.loading event) => [event]
  | some (.added event _) => [{ atoms := ∅, removedAtoms := event.removedAtoms }]
  | _ => []

/-- What the handler has processed and not sent yet. -/
def message (x : Device H) : AddAtomsEvent H :=
  match x.handler with
  | some (.added _ added) => { atoms := added, removedAtoms := ∅ }
  | some (.removed added removed) => { atoms := added, removedAtoms := removed }
  | _ => { atoms := ∅, removedAtoms := ∅ }

/-- The own events that the repository has not seen, since the device has asked to watch the branch. -/
def own (x : Device H) : List (AddAtomsEvent H) := x.requests.foldl follow x.handled

/-- What the device holds once it has received what is on its way. -/
def shown (x : Device H) (h : H) : Bool := (lastValue x.inbox h).getD (decide (h ∈ x.held))

/-- Something that the device has sent and that the other devices may not have received. -/
def Outstanding (x : Device H) (h : H) (v : Bool) : Prop :=
  (∃ event, (.addAtoms event ∈ x.requests ∨ event ∈ x.handled) ∧ event.Touches h v) ∨
    x.message.value h = some v

end Device

/-- What a device sends does not go against what other devices have sent and it has not received; it
removes nothing before it has its first copy; and what a watching device sends is let in. -/
def Allowed (s : State D H) : Label D H → Prop
  | .send device event =>
    (∀ h v, event.Touches h v → (∀ other, other ≠ device → ¬ (s.devices other).Outstanding h (!v)) ∧
      ∀ message ∈ (s.devices device).inbox, message.value h ≠ some (!v)) ∧
    ((s.devices device).status = .requested ∨ (s.devices device).status = .joined →
      event.removedAtoms = ∅)
  | .resume device accepted =>
    (s.devices device).status = .watching →
      match (s.devices device).handler with
      | some (.loading event) => ∀ h ∈ event.atoms, h ∈ accepted ∨ h ∈ s.repo
      | some (.added event _) => ∀ h ∈ event.removedAtoms, h ∈ accepted ∨ h ∉ s.repo
      | _ => True
  | _ => True

variable {event : AddAtomsEvent H} {events : List (AddAtomsEvent H)} {x : Device H} {h : H} {v : Bool}

theorem touches_of_value (shown : event.value h = some v) : event.Touches h v := by
  unfold AddAtomsEvent.value at shown
  split at shown
  · next removed => exact some.inj shown ▸ removed
  · split at shown
    · next added => exact some.inj shown ▸ added
    · cases shown

theorem value_ne_none (touches : event.Touches h v) : event.value h ≠ none := by
  unfold AddAtomsEvent.value
  cases v with
  | true =>
    have added : h ∈ event.atoms := touches
    by_cases removed : h ∈ event.removedAtoms
    · simp [removed]
    · simp [removed, added]
  | false =>
    have removed : h ∈ event.removedAtoms := touches
    simp [removed]

theorem mem_applyTo (held : Finset H) : decide (h ∈ event.applyTo held) = (event.value h).getD (decide (h ∈ held)) := by
  unfold AddAtomsEvent.value AddAtomsEvent.applyTo
  by_cases removed : h ∈ event.removedAtoms
  · simp [removed]
  · by_cases added : h ∈ event.atoms
    · simp [removed, added]
    · simp [removed, added]

theorem lastValue_append (late : List (AddAtomsEvent H)) :
    lastValue (events ++ late) h = (lastValue late h).or (lastValue events h) := by
  simp only [lastValue, List.filterMap_append, List.getLast?_append]

theorem lastValue_single : lastValue [event] h = event.value h := by
  cases shown : event.value h <;> simp [lastValue, shown]

theorem mem_of_lastValue (last : lastValue events h = some v) : ∃ event ∈ events, event.value h = some v := by
  have member := List.mem_of_getLast? last
  simpa using member

end Outstanding

/-! ### Own events -/

section Own

variable {x : Device H}

def Request.isWatch : Request H → Bool
  | .watchBranch => true
  | .addAtoms _ => false

def since (requests : List (Request H)) : List (AddAtomsEvent H) := requests.foldl follow []

theorem since_concat (requests : List (Request H)) (request : Request H) :
    since (requests ++ [request]) = follow (since requests) request := by
  rw [since, List.foldl_append]
  rfl

theorem foldl_follow (requests : List (Request H)) (first : List (AddAtomsEvent H)) : requests.foldl follow first =
      (if requests.any Request.isWatch then [] else first) ++ since requests := by
  induction requests using List.reverseRecOn with
  | nil => simp [since]
  | append_singleton requests request ih =>
    rw [List.foldl_append, ih, since_concat]
    cases request with
    | watchBranch => simp [follow, Request.isWatch]
    | addAtoms event => simp [follow, Request.isWatch, List.append_assoc]

theorem own_eq (x : Device H) :
    x.own = (if x.requests.any Request.isWatch then [] else x.handled) ++ since x.requests :=
  foldl_follow x.requests x.handled

theorem mem_since (requests : List (Request H)) (event : AddAtomsEvent H) :
    (event ∈ since requests → .addAtoms event ∈ requests) ∧
      (requests.any Request.isWatch = false → .addAtoms event ∈ requests → event ∈ since requests) := by
  induction requests using List.reverseRecOn with
  | nil => simp [since]
  | append_singleton requests request ih =>
    rw [since_concat]
    cases request with
    | watchBranch => simp [follow, Request.isWatch]
    | addAtoms other =>
      constructor
      · intro member
        rcases mem_append.mp member with before | here
        · exact List.mem_append_left _ (ih.1 before)
        · rw [mem_singleton.mp here]
          simp
      · intro none member
        have before : requests.any Request.isWatch = false := by simpa [Request.isWatch] using none
        rcases mem_append.mp member with old | here
        · exact List.mem_append_left _ (ih.2 before old)
        · have same : event = other := by simpa using here
          exact List.mem_append_right _ (by simp [same])

theorem mem_own (x : Device H) (event : AddAtomsEvent H) :
    (event ∈ x.own → .addAtoms event ∈ x.requests ∨ event ∈ x.handled) ∧
      (x.requests.any Request.isWatch = false →
        .addAtoms event ∈ x.requests ∨ event ∈ x.handled → event ∈ x.own) := by
  have both := mem_since x.requests event
  rw [own_eq]
  constructor
  · intro member
    rcases mem_append.mp member with here | waits
    · split at here
      · cases here
      · exact .inr here
    · exact .inl (both.1 waits)
  · intro none either
    rw [if_neg (by simp [none])]
    exact mem_append.mpr (either.symm.imp id (both.2 none))

end Own

/-! ### What holds in every state -/

section Converging

variable [DecidableEq H]

/-- What holds of a device; the hashes that no other device is about to be told of are quiet. -/
structure Fine (repo : Finset H) (Quiet : H → Prop) (x : Device H) : Prop where
  inbox : ∀ m ∈ x.inbox, ∀ h v v', m.value h = some v → x.Outstanding h v' → v = v'
  done : ∀ h v, x.message.value h = some v → decide (h ∈ repo) = v
  own : x.status ≠ .absent → ∀ h v, lastValue x.own h = some v → x.shown h = v
  watching : x.status = .watching → ∀ h, lastValue x.own h = none → Quiet h →
    x.shown h = decide (h ∈ repo)
  joined : x.status = .joined → ∀ h, lastValue x.own h = none → Quiet h → x.shown h = true → h ∈ repo
  requested : x.status = .requested → ∀ h, lastValue x.own h = none → x.shown h = false
  apart : x.status.inChannel = false → x.inbox = []
  asked : x.requests.any Request.isWatch = true ↔ x.status = .requested
  once : x.requests.countP Request.isWatch ≤ 1
  handler : x.handler = some .watching ↔ x.status = .joined
  adds : x.status = .requested ∨ x.status = .joined → ∀ event ∈ x.own, event.removedAtoms = ∅

/-- Whatever different devices have sent on a hash agrees, and every device is fine. -/
structure Converging (s : State D H) : Prop where
  agree : ∀ d e, d ≠ e → ∀ h v v', (s.devices d).Outstanding h v → (s.devices e).Outstanding h v' →
    v = v'
  fine : ∀ d, Fine s.repo (fun h => ∀ e, e ≠ d → (s.devices e).message.value h = none) (s.devices d)

theorem outstanding_of_own {x : Device H} {h : H} {v : Bool}
    (last : lastValue x.own h = some v) : x.Outstanding h v := by
  have ⟨event, member, shown⟩ := mem_of_lastValue last
  exact .inl ⟨event, (mem_own x event).1 member, touches_of_value shown⟩

variable [DecidableEq D] {s : State D H} {d : D} {x : Device H}

/-- A device changes that says nothing new to the others. -/
theorem Converging.update (c : Converging s) (message : ∀ h, x.message.value h = (s.devices d).message.value h)
    (agree : ∀ e, e ≠ d → ∀ h v v', x.Outstanding h v → (s.devices e).Outstanding h v' → v = v')
    (fine : Fine s.repo (fun h => ∀ e, e ≠ d → (s.devices e).message.value h = none) x) :
    Converging (s.update d x) := by
  have own : (s.update d x).devices d = x := by simp [State.update]
  have others : ∀ e, e ≠ d → (s.update d x).devices e = s.devices e := by
    intro e apart
    simp [State.update, apart]
  have said : ∀ e h, ((s.update d x).devices e).message.value h = (s.devices e).message.value h := by
    intro e h
    by_cases same : e = d
    · rw [same, own, message]
    · rw [others e same]
  refine ⟨fun a b apart h v v' left right => ?_, fun e => ?_⟩
  · by_cases sameA : a = d
    · subst sameA
      rw [own] at left
      rw [others b (Ne.symm apart)] at right
      exact agree b (Ne.symm apart) h v v' left right
    · rw [others a sameA] at left
      by_cases sameB : b = d
      · subst sameB
        rw [own] at right
        exact (agree a sameA h v' v right left).symm
      · rw [others b sameB] at right
        exact c.agree a b apart h v v' left right
  · have repo : (s.update d x).repo = s.repo := rfl
    simp only [said, repo]
    by_cases same : e = d
    · subst same
      rw [own]
      exact fine
    · rw [others e same]
      exact c.fine e

theorem getD_concat (inbox : List (AddAtomsEvent H)) (m : AddAtomsEvent H) (h : H) (b : Bool) :
    (lastValue (inbox ++ [m]) h).getD b = (m.value h).getD ((lastValue inbox h).getD b) := by
  rw [lastValue_append, lastValue_single]
  cases m.value h <;> rfl

theorem eq_of_ne_not {v w : Bool} (differ : w ≠ !v) : w = v := by
  cases v <;> cases w <;> simp_all

theorem watchBranch_converging (c : Converging s) (absent : (s.devices d).status = .absent) : Converging (s.update d
      { s.devices d with
        held := ∅
        requests := (s.devices d).requests ++ [.watchBranch]
        status := .requested }) := by
  have fine := c.fine d
  have empty : (s.devices d).inbox = [] := fine.apart (by simp [absent, Status.inChannel])
  have outstanding : ∀ h v, Device.Outstanding { s.devices d with
        held := ∅
        requests := (s.devices d).requests ++ [.watchBranch]
        status := .requested } h v → (s.devices d).Outstanding h v := by
    intro h v out
    refine out.imp (fun ⟨event, waits, touches⟩ => ⟨event, ?_, touches⟩) id
    exact waits.imp (fun member => by simpa using member) id
  have unasked : (s.devices d).requests.any Request.isWatch = false := by
    rw [Bool.eq_false_iff]
    intro asked
    have status := fine.asked.mp asked
    rw [absent] at status
    cases status
  have own : Device.own { s.devices d with
        held := ∅
        requests := (s.devices d).requests ++ [.watchBranch]
        status := .requested } = [] := by
    rw [own_eq]
    simp [Request.isWatch, since_concat, follow]
  refine c.update (fun _ => rfl) (fun e apart h v v' left right =>
    c.agree d e (Ne.symm apart) h v v' (outstanding h v left) right) ⟨?_, fine.done, ?_, ?_, ?_, ?_, ?_, ?_,
      ?_, ?_, ?_⟩
  · intro m member
    rw [empty] at member
    cases member
  · intro _ h v last
    rw [own] at last
    cases last
  · intro impossible
    cases impossible
  · intro impossible
    cases impossible
  · intro _ h _
    simp [Device.shown, empty, lastValue]
  · intro _
    exact empty
  · simp [Request.isWatch]
  · have none := List.countP_eq_zero.mpr (by simpa using List.any_eq_false.mp unasked)
    simp [List.countP_append, none, Request.isWatch]
  · refine ⟨fun here => ?_, fun impossible => by cases impossible⟩
    have status := fine.handler.mp here
    rw [absent] at status
    cases status
  · intro _ event member
    rw [own] at member
    cases member

theorem send_converging (c : Converging s) (event : AddAtomsEvent H) (allowed : Allowed s (.send d event)) :
    Converging (s.update d
      { s.devices d with
        held := if (s.devices d).status = .absent then (s.devices d).held
          else event.applyTo (s.devices d).held
        requests := (s.devices d).requests ++ [.addAtoms event] }) := by
  have fine := c.fine d
  have ⟨apartOthers, adds⟩ := allowed
  have outstanding : ∀ h v, Device.Outstanding { s.devices d with
        held := if (s.devices d).status = .absent then (s.devices d).held
          else event.applyTo (s.devices d).held
        requests := (s.devices d).requests ++ [.addAtoms event] } h v →
      (s.devices d).Outstanding h v ∨ event.Touches h v := by
    intro h v out
    rcases out with ⟨other, waits, touches⟩ | message
    · rcases waits with member | handled
      · rcases mem_append.mp member with old | new
        · exact .inl (.inl ⟨other, .inl old, touches⟩)
        · have same : other = event := by simpa using new
          exact .inr (same ▸ touches)
      · exact .inl (.inl ⟨other, .inr handled, touches⟩)
    · exact .inl (.inr message)
  have own : Device.own { s.devices d with
        held := if (s.devices d).status = .absent then (s.devices d).held
          else event.applyTo (s.devices d).held
        requests := (s.devices d).requests ++ [.addAtoms event] } = (s.devices d).own ++ [event] := by
    simp only [own_eq, since_concat, follow, List.any_append, List.any_cons, List.any_nil, Request.isWatch,
      Bool.or_false, List.append_assoc]
    rfl
  have untouched : ∀ h, event.value h = none → Device.shown { s.devices d with
        held := if (s.devices d).status = .absent then (s.devices d).held
          else event.applyTo (s.devices d).held
        requests := (s.devices d).requests ++ [.addAtoms event] } h = (s.devices d).shown h := by
    intro h none
    simp only [Device.shown]
    split
    · rfl
    · rw [mem_applyTo, none, Option.getD_none]
  have split : ∀ h, lastValue ((s.devices d).own ++ [event]) h = none →
      event.value h = none ∧ lastValue (s.devices d).own h = none := by
    intro h last
    rw [lastValue_append, lastValue_single, Option.or_eq_none_iff] at last
    exact last
  refine c.update (fun _ => rfl) (fun e apart h v v' left right => ?_) ⟨?_, fine.done, ?_, ?_, ?_, ?_,
    fine.apart, ?_, ?_, fine.handler, ?_⟩
  · rcases outstanding h v left with old | new
    · exact c.agree d e (Ne.symm apart) h v v' old right
    · exact (eq_of_ne_not (fun differ => (apartOthers h v new).1 e apart (differ ▸ right))).symm
  · intro m member h v v' shown out
    rcases outstanding h v' out with old | new
    · exact fine.inbox m member h v v' shown old
    · exact eq_of_ne_not (fun differ => (apartOthers h v' new).2 m member (differ ▸ shown))
  · intro present h v last
    have status : (s.devices d).status ≠ .absent := present
    rw [own, lastValue_append, lastValue_single] at last
    cases touched : event.value h with
    | none =>
      rw [touched, Option.none_or] at last
      rw [untouched h touched]
      exact fine.own present h v last
    | some w =>
      rw [touched, Option.some_or, some.injEq] at last
      subst last
      have touches := touches_of_value touched
      simp only [Device.shown, status, if_false, mem_applyTo, touched, Option.getD_some]
      cases incoming : lastValue (s.devices d).inbox h with
      | none => rfl
      | some u =>
        have ⟨m, member, shown⟩ := mem_of_lastValue incoming
        exact eq_of_ne_not (fun differ => (apartOthers h w touches).2 m member (differ ▸ shown))
  · intro status h last quiet
    rw [own] at last
    have ⟨touched, before⟩ := split h last
    rw [untouched h touched]
    exact fine.watching status h before quiet
  · intro status h last quiet
    rw [own] at last
    have ⟨touched, before⟩ := split h last
    rw [untouched h touched]
    exact fine.joined status h before quiet
  · intro status h last
    rw [own] at last
    have ⟨touched, before⟩ := split h last
    rw [untouched h touched]
    exact fine.requested status h before
  · simpa [Request.isWatch] using fine.asked
  · simpa [List.countP_append, Request.isWatch] using fine.once
  · intro status other member
    rw [own] at member
    rcases mem_append.mp member with old | new
    · exact fine.adds status other old
    · rw [mem_singleton.mp new]
      exact adds status

theorem receiveWatch_converging (c : Converging s) (rest : List (Request H))
    (free : (s.devices d).handler = none) (next : (s.devices d).requests = .watchBranch :: rest) :
    Converging (s.update d
      { s.devices d with requests := rest, handler := some .watching, status := .joined }) := by
  have fine := c.fine d
  have status : (s.devices d).status = .requested := fine.asked.mp (by simp [next, Request.isWatch])
  have unasked : rest.countP Request.isWatch = 0 := by
    have once := fine.once
    rw [next, List.countP_cons] at once
    simp only [Request.isWatch, if_true] at once
    omega
  have unhandled : (s.devices d).handled = [] := by simp [Device.handled, free]
  have said : (s.devices d).message = { atoms := ∅, removedAtoms := ∅ } := by
    simp [Device.message, free]
  have own : Device.own { s.devices d with requests := rest, handler := some .watching, status := .joined } =
        (s.devices d).own := by
    simp only [Device.own, next, unhandled, List.foldl_cons, follow]
    rfl
  have outstanding : ∀ h v, Device.Outstanding
      { s.devices d with requests := rest, handler := some .watching, status := .joined } h v →
      (s.devices d).Outstanding h v := by
    intro h v out
    rcases out with ⟨other, waits, touches⟩ | message
    · refine .inl ⟨other, .inl ?_, touches⟩
      rw [next]
      rcases waits with member | handled
      · exact List.mem_cons_of_mem _ member
      · cases handled
    · exact .inr (by rw [said]; exact message)
  refine c.update (fun h => by rw [said]; rfl) (fun e apart h v v' left right =>
    c.agree d e (Ne.symm apart) h v v' (outstanding h v left) right) ⟨?_, ?_, ?_, ?_, ?_, ?_, ?_, ?_, ?_,
      ?_, ?_⟩
  · exact fun m member h v v' shown out => fine.inbox m member h v v' shown (outstanding h v' out)
  · intro h v shown
    simp [Device.message, AddAtomsEvent.value] at shown
  · intro _ h v last
    rw [own] at last
    exact fine.own (by rw [status]; exact Status.noConfusion) h v last
  · intro impossible
    cases impossible
  · intro _ h last _ shown
    rw [own] at last
    have hidden : (s.devices d).shown h = false := fine.requested status h last
    exact absurd (hidden.symm.trans shown) (by simp)
  · intro impossible
    cases impossible
  · intro impossible
    cases impossible
  · have none : rest.any Request.isWatch = false := by
      simpa [List.any_eq_false] using List.countP_eq_zero.mp unasked
    simp [none]
  · exact unasked.trans_le (Nat.zero_le 1)
  · simp
  · intro _ event member
    rw [own] at member
    exact fine.adds (.inl status) event member

theorem receiveEvent_converging (c : Converging s) (event : AddAtomsEvent H) (rest : List (Request H))
    (free : (s.devices d).handler = none) (next : (s.devices d).requests = .addAtoms event :: rest) :
    Converging (s.update d { s.devices d with requests := rest, handler := some (.loading event) }) := by
  have fine := c.fine d
  have unhandled : (s.devices d).handled = [] := by simp [Device.handled, free]
  have said : (s.devices d).message = { atoms := ∅, removedAtoms := ∅ } := by
    simp [Device.message, free]
  have own : Device.own { s.devices d with requests := rest, handler := some (.loading event) } =
      (s.devices d).own := by
    simp only [Device.own, next, unhandled, List.foldl_cons, follow, List.nil_append]
    rfl
  have outstanding : ∀ h v, Device.Outstanding
      { s.devices d with requests := rest, handler := some (.loading event) } h v →
      (s.devices d).Outstanding h v := by
    intro h v out
    rcases out with ⟨other, waits, touches⟩ | message
    · refine .inl ⟨other, .inl ?_, touches⟩
      rw [next]
      rcases waits with member | handled
      · exact List.mem_cons_of_mem _ member
      · rw [mem_singleton.mp handled]
        exact List.mem_cons_self
    · exact .inr (by rw [said]; exact message)
  refine c.update (fun h => by rw [said]; rfl) (fun e apart h v v' left right =>
    c.agree d e (Ne.symm apart) h v v' (outstanding h v left) right) ⟨?_, ?_, ?_, ?_, ?_, ?_, fine.apart, ?_,
      ?_, ?_, ?_⟩
  · exact fun m member h v v' shown out => fine.inbox m member h v v' shown (outstanding h v' out)
  · intro h v shown
    simp [Device.message, AddAtomsEvent.value] at shown
  · rw [own]
    exact fine.own
  · rw [own]
    exact fine.watching
  · rw [own]
    exact fine.joined
  · rw [own]
    exact fine.requested
  · simpa [next, Request.isWatch] using fine.asked
  · simpa [next, Request.isWatch] using fine.once
  · have other : (s.devices d).status ≠ .joined := by
      intro joined
      have watching := fine.handler.mpr joined
      rw [free] at watching
      cases watching
    simp [other]
  · rw [own]
    exact fine.adds

/-- The first copy adds what the repository holds. -/
theorem value_copy (repo : Finset H) (h : H) : ({ atoms := repo, removedAtoms := ∅ } : AddAtomsEvent H).value h =
      if h ∈ repo then some true else none := by
  simp [AddAtomsEvent.value]

theorem copy_converging (c : Converging s) (watching : (s.devices d).handler = some .watching) : Converging (s.update d
      { s.devices d with
        inbox := (s.devices d).inbox ++ [{ atoms := s.repo, removedAtoms := ∅ }]
        handler := none
        status := .watching }) := by
  have fine := c.fine d
  have status := fine.handler.mp watching
  have unasked : (s.devices d).requests.any Request.isWatch = false := by
    rw [Bool.eq_false_iff]
    intro asked
    have requested := fine.asked.mp asked
    rw [status] at requested
    cases requested
  have unhandled : (s.devices d).handled = [] := by simp [Device.handled, watching]
  have said : (s.devices d).message = { atoms := ∅, removedAtoms := ∅ } := by
    simp [Device.message, watching]
  have own : Device.own { s.devices d with
        inbox := (s.devices d).inbox ++ [{ atoms := s.repo, removedAtoms := ∅ }]
        handler := none
        status := .watching } = (s.devices d).own := by
    simp only [Device.own, unhandled]
    rfl
  have outstanding : ∀ h v, Device.Outstanding { s.devices d with
        inbox := (s.devices d).inbox ++ [{ atoms := s.repo, removedAtoms := ∅ }]
        handler := none
        status := .watching } h v → (s.devices d).Outstanding h v := by
    intro h v out
    rcases out with ⟨other, waits, touches⟩ | message
    · refine .inl ⟨other, waits.imp id (fun handled => ?_), touches⟩
      cases handled
    · exact .inr (by rw [said]; exact message)
  have onlyAdds : ∀ h v, (s.devices d).Outstanding h v → v = true := by
    intro h v out
    rcases out with ⟨event, waits, touches⟩ | message
    · have empty := fine.adds (.inr status) event ((mem_own _ event).2 unasked waits)
      cases v with
      | true => rfl
      | false =>
        have removed : h ∈ event.removedAtoms := touches
        rw [empty] at removed
        simp at removed
    · rw [said] at message
      simp [AddAtomsEvent.value] at message
  have shown : ∀ h, Device.shown { s.devices d with
        inbox := (s.devices d).inbox ++ [{ atoms := s.repo, removedAtoms := ∅ }]
        handler := none
        status := .watching } h = if h ∈ s.repo then true else (s.devices d).shown h := by
    intro h
    simp only [Device.shown, getD_concat, value_copy]
    split <;> rfl
  refine c.update (fun h => by rw [said]; rfl) (fun e apart h v v' left right =>
    c.agree d e (Ne.symm apart) h v v' (outstanding h v left) right) ⟨?_, ?_, ?_, ?_, ?_, ?_, ?_, ?_,
      fine.once, ?_, ?_⟩
  · intro m member h v v' value out
    have before := outstanding h v' out
    rcases mem_append.mp member with old | new
    · exact fine.inbox m old h v v' value before
    · rw [mem_singleton.mp new, value_copy] at value
      split at value
      · exact (some.inj value).symm.trans (onlyAdds h v' before).symm
      · cases value
  · intro h v value
    simp [Device.message, AddAtomsEvent.value] at value
  · intro _ h v last
    rw [own] at last
    have isTrue := onlyAdds h v (outstanding_of_own last)
    have before := fine.own (by rw [status]; exact Status.noConfusion) h v last
    rw [shown, before, isTrue]
    split <;> rfl
  · intro _ h last quiet
    rw [own] at last
    rw [shown]
    by_cases inside : h ∈ s.repo
    · simp [inside]
    · have hidden : (s.devices d).shown h ≠ true :=
        fun isShown => inside (fine.joined status h last quiet isShown)
      simpa [inside] using hidden
  · intro impossible
    cases impossible
  · intro impossible
    cases impossible
  · intro impossible
    cases impossible
  · simp [unasked]
  · simp
  · intro impossible
    rcases impossible with one | two
    · cases one
    · cases two

theorem deliver_converging (c : Converging s) (m : AddAtomsEvent H) (rest : List (AddAtomsEvent H))
    (next : (s.devices d).inbox = m :: rest) :
    Converging (s.update d
      { s.devices d with held := m.applyTo (s.devices d).held, inbox := rest }) := by
  have fine := c.fine d
  have shown : ∀ h, Device.shown { s.devices d with held := m.applyTo (s.devices d).held, inbox := rest } h =
        (s.devices d).shown h := by
    intro h
    have split : lastValue (m :: rest) h = (lastValue rest h).or (m.value h) := by
      rw [← List.singleton_append, lastValue_append, lastValue_single]
    simp only [Device.shown, next, split, mem_applyTo]
    cases lastValue rest h <;> rfl
  refine c.update (fun _ => rfl) (fun e apart h v v' left right =>
    c.agree d e (Ne.symm apart) h v v' left right) ⟨?_, fine.done, ?_, ?_, ?_, ?_, ?_, fine.asked,
      fine.once, fine.handler, fine.adds⟩
  · intro other member
    exact fine.inbox other (by rw [next]; exact List.mem_cons_of_mem _ member)
  · intro present h v last
    rw [shown]
    exact fine.own present h v last
  · intro status h last quiet
    rw [shown]
    exact fine.watching status h last quiet
  · intro status h last quiet
    rw [shown]
    exact fine.joined status h last quiet
  · intro status h last
    rw [shown]
    exact fine.requested status h last
  · intro away
    have empty := fine.apart away
    rw [next] at empty
    cases empty

theorem Converging.process (c : Converging s) (handler : Handler H) (repo : Finset H)
    (busy : (s.devices d).handler ≠ some .watching) (other : handler ≠ .watching)
    (outstanding : ∀ h v, Device.Outstanding { s.devices d with handler := some handler } h v →
      (s.devices d).Outstanding h v)
    (done : ∀ h v, (Device.message { s.devices d with handler := some handler }).value h = some v →
      decide (h ∈ repo) = v)
    (changed : ∀ h, decide (h ∈ repo) ≠ decide (h ∈ s.repo) →
      (Device.message { s.devices d with handler := some handler }).value h = some (decide (h ∈ repo)) ∧
        lastValue (s.devices d).handled h ≠ none)
    (quiet : ∀ h, (Device.message { s.devices d with handler := some handler }).value h = none →
      (s.devices d).message.value h = none)
    (handled : ∀ h, lastValue (Device.handled { s.devices d with handler := some handler }) h =
        lastValue (s.devices d).handled h ∨
      lastValue (Device.handled { s.devices d with handler := some handler }) h = none ∧
        ((s.devices d).status = .watching →
          lastValue (s.devices d).handled h = some (decide (h ∈ repo)))) :
    Converging
      (State.update { s with repo := repo } d { s.devices d with handler := some handler }) := by
  have own : (State.update { s with repo := repo } d { s.devices d with handler := some handler }).devices d =
        { s.devices d with handler := some handler } := by simp [State.update]
  have others : ∀ e, e ≠ d → (State.update { s with repo := repo } d
      { s.devices d with handler := some handler }).devices e = s.devices e := by
    intro e apart
    simp [State.update, apart]
  have isRepo : (State.update { s with repo := repo } d { s.devices d with handler := some handler }).repo = repo := rfl
  have fine := c.fine d
  have apartJoined : (s.devices d).status ≠ .joined := fun joined => busy (fine.handler.mpr joined)
  refine ⟨fun a b apart h v v' left right => ?_, fun e => ?_⟩
  · by_cases sameA : a = d
    · subst sameA
      rw [own] at left
      rw [others b (Ne.symm apart)] at right
      exact c.agree a b apart h v v' (outstanding h v left) right
    · rw [others a sameA] at left
      by_cases sameB : b = d
      · subst sameB
        rw [own] at right
        exact c.agree a b apart h v v' left (outstanding h v' right)
      · rw [others b sameB] at right
        exact c.agree a b apart h v v' left right
  · rw [isRepo]
    by_cases same : e = d
    · subst same
      rw [own]
      have calm : ∀ h, (∀ f, f ≠ e → ((State.update { s with repo := repo } e
          { s.devices e with handler := some handler }).devices f).message.value h = none) →
            ∀ f, f ≠ e → (s.devices f).message.value h = none := by
        intro h isQuiet f apart
        rw [← others f apart]
        exact isQuiet f apart
      refine ⟨?_, done, ?_, ?_, ?_, ?_, fine.apart, fine.asked, fine.once, ?_, ?_⟩
      · exact fun m member h v v' shown out => fine.inbox m member h v v' shown (outstanding h v' out)
      · intro present h v last
        apply fine.own present h v
        rw [own_eq, lastValue_append] at last ⊢
        cases waits : lastValue (since (s.devices e).requests) h with
        | some w => simpa [waits] using last
        | none =>
          simp only [waits, Option.none_or] at last ⊢
          split at last
          · cases last
          · rcases handled h with equal | ⟨none, _⟩
            · rw [if_neg (by assumption), ← equal, last]
            · rw [none] at last
              cases last
      · intro status h last isQuiet
        have unasked : ¬ (s.devices e).requests.any Request.isWatch = true := by
          intro asked
          rw [fine.asked] at asked
          have watching : (s.devices e).status = .watching := status
          rw [asked] at watching
          cases watching
        rw [own_eq, lastValue_append, Option.or_eq_none_iff] at last
        have ⟨waits, nothing⟩ := last
        have whole : lastValue (s.devices e).own h = lastValue (s.devices e).handled h := by
          have sameWaits : lastValue (since (s.devices e).requests) h = none := waits
          rw [own_eq, if_neg unasked, lastValue_append, sameWaits, Option.none_or]
        rw [if_neg unasked] at nothing
        rcases handled h with equal | ⟨_, processed⟩
        · have before : lastValue (s.devices e).handled h = none := equal ▸ nothing
          have shows : (s.devices e).shown h = decide (h ∈ s.repo) :=
            fine.watching status h (whole.trans before) (calm h isQuiet)
          refine shows.trans ?_
          by_contra differ
          exact (changed h (Ne.symm differ)).2 before
        · exact fine.own (by rw [status]; exact Status.noConfusion) h _ (whole.trans (processed status))
      · intro joined
        exact absurd joined apartJoined
      · intro status h last
        have asked := fine.asked.mpr status
        apply fine.requested status h
        rw [own_eq, if_pos asked] at last ⊢
        exact last
      · constructor
        · intro impossible
          exact absurd (some.inj impossible) other
        · intro joined
          exact absurd joined apartJoined
      · intro status event member
        have requested := status.resolve_right apartJoined
        have asked := fine.asked.mpr requested
        apply fine.adds (.inl requested) event
        rw [own_eq, if_pos asked] at member ⊢
        exact member
    · rw [others e same]
      have fineE := c.fine e
      have kept : ∀ h, (∀ f, f ≠ e → ((State.update { s with repo := repo } d
          { s.devices d with handler := some handler }).devices f).message.value h = none) →
            (∀ f, f ≠ e → (s.devices f).message.value h = none) ∧ decide (h ∈ repo) = decide (h ∈ s.repo) := by
        intro h isQuiet
        have silent := isQuiet d (Ne.symm same)
        rw [own] at silent
        constructor
        · intro f apart
          by_cases here : f = d
          · rw [here]
            exact quiet h silent
          · rw [← others f here]
            exact isQuiet f apart
        · by_contra differ
          have told := (changed h differ).1
          rw [silent] at told
          cases told
      refine ⟨fineE.inbox, ?_, fineE.own, ?_, ?_, fineE.requested, fineE.apart, fineE.asked, fineE.once,
        fineE.handler, fineE.adds⟩
      · intro h v shown
        have before := fineE.done h v shown
        by_cases differ : decide (h ∈ repo) = decide (h ∈ s.repo)
        · exact differ.trans before
        · exact c.agree d e (Ne.symm same) h _ v (outstanding h _ (.inr (changed h differ).1))
            (.inr shown)
      · intro status h last isQuiet
        have ⟨calm, equal⟩ := kept h isQuiet
        rw [equal]
        exact fineE.watching status h last calm
      · intro status h last isQuiet shows
        have ⟨calm, equal⟩ := kept h isQuiet
        have inside := fineE.joined status h last calm shows
        simpa [inside] using equal

theorem add_converging (c : Converging s) (event : AddAtomsEvent H) (accepted : Finset H)
    (handler : (s.devices d).handler = some (.loading event))
    (letIn : (s.devices d).status = .watching → ∀ h ∈ event.atoms, h ∈ accepted ∨ h ∈ s.repo) :
    Converging (State.update { s with repo := s.repo ∪ ((event.atoms ∩ accepted) \ s.repo) } d
      { s.devices d with handler := some (.added event ((event.atoms ∩ accepted) \ s.repo)) }) := by
  have handled : (s.devices d).handled = [event] := by simp [Device.handled, handler]
  have silent : ∀ h, (s.devices d).message.value h = none := by
    intro h
    simp [Device.message, handler, AddAtomsEvent.value]
  have told : ∀ h, (Device.message { s.devices d with
      handler := some (.added event ((event.atoms ∩ accepted) \ s.repo)) }).value h =
        if h ∈ (event.atoms ∩ accepted) \ s.repo then some true else none := value_copy _
  have left : ∀ h, lastValue (Device.handled { s.devices d with
      handler := some (.added event ((event.atoms ∩ accepted) \ s.repo)) }) h =
        if h ∈ event.removedAtoms then some false else none := by
    intro h
    simp [Device.handled, lastValue_single, AddAtomsEvent.value]
  apply c.process
  · simp [handler]
  · simp
  · intro h v out
    rcases out with ⟨other, waits, touches⟩ | message
    · rcases waits with member | inHand
      · exact .inl ⟨other, .inl member, touches⟩
      · have same : other = { atoms := ∅, removedAtoms := event.removedAtoms } := by
          simpa [Device.handled] using inHand
        refine .inl ⟨event, .inr (by simp [handled]), ?_⟩
        cases v with
        | true => simp [same, AddAtomsEvent.Touches] at touches
        | false => simpa [same, AddAtomsEvent.Touches] using touches
    · rw [told] at message
      split at message
      · next added =>
          refine .inl ⟨event, .inr (by simp [handled]), ?_⟩
          rw [← some.inj message]
          have inAtoms : h ∈ event.atoms := by simp at added; exact added.1.1
          exact inAtoms
      · cases message
  · intro h v message
    rw [told] at message
    split at message
    · next added =>
        have inside : h ∈ s.repo ∪ ((event.atoms ∩ accepted) \ s.repo) := Finset.mem_union_right _ added
        rw [← some.inj message, decide_eq_true inside]
    · cases message
  · intro h differ
    have added : h ∈ (event.atoms ∩ accepted) \ s.repo := by
      by_contra outside
      exact differ (by simp only [Finset.mem_union, outside, or_false])
    have inAtoms : h ∈ event.atoms := by simp at added; exact added.1.1
    constructor
    · rw [told, if_pos added, decide_eq_true (Finset.mem_union_right _ added)]
    · rw [handled, lastValue_single]
      exact value_ne_none (show event.Touches h true from inAtoms)
  · exact fun h _ => silent h
  · intro h
    rw [left, handled, lastValue_single]
    by_cases removed : h ∈ event.removedAtoms
    · exact .inl (by simp [removed, AddAtomsEvent.value])
    · by_cases inAtoms : h ∈ event.atoms
      · refine .inr ⟨by simp [removed], fun status => ?_⟩
        have inside : h ∈ s.repo ∪ ((event.atoms ∩ accepted) \ s.repo) := by
          have either := letIn status h inAtoms
          by_cases already : h ∈ s.repo
          · exact Finset.mem_union_left _ already
          · simp [already, inAtoms, either.resolve_right already]
        rw [decide_eq_true inside]
        simp [AddAtomsEvent.value, removed, inAtoms]
      · exact .inl (by simp [removed, inAtoms, AddAtomsEvent.value])

theorem remove_converging (c : Converging s) (event : AddAtomsEvent H) (added accepted : Finset H)
    (handler : (s.devices d).handler = some (.added event added))
    (letIn : (s.devices d).status = .watching → ∀ h ∈ event.removedAtoms, h ∈ accepted ∨ h ∉ s.repo) :
    Converging (State.update { s with repo := s.repo \ ((event.removedAtoms ∩ accepted) ∩ s.repo) } d
      { s.devices d with
        handler := some (.removed added ((event.removedAtoms ∩ accepted) ∩ s.repo)) }) := by
  have handled : (s.devices d).handled = [{ atoms := ∅, removedAtoms := event.removedAtoms }] := by
    simp [Device.handled, handler]
  have before : ∀ h, lastValue (s.devices d).handled h =
      if h ∈ event.removedAtoms then some false else none := by
    intro h
    simp [handled, lastValue_single, AddAtomsEvent.value]
  have said : ∀ h, (s.devices d).message.value h = if h ∈ added then some true else none := by
    intro h
    simp [Device.message, handler, value_copy]
  have told : ∀ h, (Device.message { s.devices d with
      handler := some (.removed added ((event.removedAtoms ∩ accepted) ∩ s.repo)) }).value h =
        if h ∈ (event.removedAtoms ∩ accepted) ∩ s.repo then some false
        else if h ∈ added then some true else none := fun h => rfl
  have inEvent : ∀ h, h ∈ (event.removedAtoms ∩ accepted) ∩ s.repo → h ∈ event.removedAtoms := by
    intro h removed
    exact (Finset.mem_inter.mp (Finset.mem_inter.mp removed).1).1
  apply c.process
  · simp [handler]
  · simp
  · intro h v out
    rcases out with ⟨other, waits, touches⟩ | message
    · rcases waits with member | inHand
      · exact .inl ⟨other, .inl member, touches⟩
      · cases inHand
    · rw [told] at message
      split at message
      · next removed =>
          refine .inl ⟨_, .inr (by rw [handled]; exact List.mem_cons_self), ?_⟩
          rw [← some.inj message]
          exact inEvent h removed
      · right
        rw [said]
        exact message
  · intro h v message
    rw [told] at message
    split at message
    · next removed =>
        rw [← some.inj message]
        have outside : h ∉ s.repo \ ((event.removedAtoms ∩ accepted) ∩ s.repo) :=
          fun inside => (Finset.mem_sdiff.mp inside).2 removed
        simp only [outside, decide_false]
    · next kept =>
        have inside := (c.fine d).done h v (by rw [said]; exact message)
        rw [← inside]
        simp only [Finset.mem_sdiff, kept, not_false_eq_true, and_true]
  · intro h differ
    have removed : h ∈ (event.removedAtoms ∩ accepted) ∩ s.repo := by
      by_contra outside
      exact differ (by simp only [Finset.mem_sdiff, outside, not_false_eq_true, and_true])
    have outside : h ∉ s.repo \ ((event.removedAtoms ∩ accepted) ∩ s.repo) :=
      fun inside => (Finset.mem_sdiff.mp inside).2 removed
    constructor
    · rw [told, if_pos removed]
      simp only [outside, decide_false]
    · rw [before, if_pos (inEvent h removed)]
      simp
  · intro h silent
    rw [told] at silent
    rw [said]
    split at silent
    · cases silent
    · exact silent
  · intro h
    by_cases removed : h ∈ event.removedAtoms
    · refine .inr ⟨rfl, fun status => ?_⟩
      have outside : h ∉ s.repo \ ((event.removedAtoms ∩ accepted) ∩ s.repo) := by
        intro inside
        have ⟨inRepo, kept⟩ := Finset.mem_sdiff.mp inside
        have taken := (letIn status h removed).resolve_right (not_not.mpr inRepo)
        exact kept (by simp [removed, taken, inRepo])
      rw [before, if_pos removed]
      simp only [outside, decide_false]
    · refine .inl ?_
      rw [before, if_neg removed]
      rfl

omit [DecidableEq D] in
theorem end_converging (c : Converging s) (added removed : Finset H)
    (handler : (s.devices d).handler = some (.removed added removed)) (Quiet : H → Prop)
    (calm : ∀ h, Quiet h → ∀ e, e ≠ d → (s.devices e).message.value h = none) :
    Fine s.repo Quiet { s.devices d with handler := none } ∧
      ∀ h v, Device.Outstanding { s.devices d with handler := none } h v →
        (s.devices d).Outstanding h v := by
  have fine := c.fine d
  have outstanding : ∀ h v, Device.Outstanding { s.devices d with handler := none } h v →
      (s.devices d).Outstanding h v := by
    intro h v out
    rcases out with ⟨other, waits, touches⟩ | message
    · refine .inl ⟨other, waits.imp id (fun inHand => ?_), touches⟩
      cases inHand
    · simp [Device.message, AddAtomsEvent.value] at message
  have own : Device.own { s.devices d with handler := none } = (s.devices d).own := by
    simp only [Device.own, Device.handled, handler]
  refine ⟨⟨?_, ?_, ?_, ?_, ?_, ?_, fine.apart, fine.asked, fine.once, ?_, ?_⟩, outstanding⟩
  · exact fun m member h v v' shown out => fine.inbox m member h v v' shown (outstanding h v' out)
  · intro h v message
    simp [Device.message, AddAtomsEvent.value] at message
  · rw [own]
    exact fine.own
  · rw [own]
    exact fun status h last isQuiet => fine.watching status h last (calm h isQuiet)
  · rw [own]
    exact fun status h last isQuiet => fine.joined status h last (calm h isQuiet)
  · rw [own]
    exact fine.requested
  · have apartJoined : (s.devices d).status ≠ .joined := by
      intro joined
      have watching := fine.handler.mpr joined
      rw [handler] at watching
      cases watching
    simp [apartJoined]
  · rw [own]
    exact fine.adds

theorem broadcast_converging (c : Converging s) (added removed : Finset H)
    (handler : (s.devices d).handler = some (.removed added removed)) :
    Converging ((s.update d { s.devices d with handler := none }).sendToDevices
      { atoms := added, removedAtoms := removed } d) := by
  let m : AddAtomsEvent H := { atoms := added, removedAtoms := removed }
  let t := (s.update d { s.devices d with handler := none }).sendToDevices m d
  have said : (s.devices d).message = m := by simp [Device.message, handler, m]
  have own : t.devices d = { s.devices d with handler := none } := by
    simp [t, State.sendToDevices, State.update]
  have away : ∀ e, e ≠ d → (s.devices e).status.inChannel = false → t.devices e = s.devices e := by
    intro e apart outside
    simp [t, State.sendToDevices, State.update, apart, outside]
  have told : ∀ e, e ≠ d → (s.devices e).status.inChannel = true →
      t.devices e = { s.devices e with inbox := (s.devices e).inbox ++ [m] } := by
    intro e apart inside
    simp [t, State.sendToDevices, State.update, apart, inside]
  have message : ∀ e, e ≠ d → (t.devices e).message = (s.devices e).message := by
    intro e apart
    cases inside : (s.devices e).status.inChannel with
    | false => rw [away e apart inside]
    | true =>
      rw [told e apart inside]
      rfl
  have outstanding : ∀ e h v, (t.devices e).Outstanding h v → (s.devices e).Outstanding h v := by
    intro e h v out
    by_cases same : e = d
    · subst same
      rw [own] at out
      exact (end_converging c added removed handler (fun h => ∀ f, f ≠ e →
        (s.devices f).message.value h = none) (fun _ isQuiet => isQuiet)).2 h v out
    · cases inside : (s.devices e).status.inChannel with
      | false => rwa [away e same inside] at out
      | true =>
        rw [told e same inside] at out
        exact out
  have silent : (t.devices d).message = { atoms := ∅, removedAtoms := ∅ } := by rw [own]; rfl
  have calm : ∀ h e, (∀ f, f ≠ e → (t.devices f).message.value h = none) → m.value h = none →
      ∀ f, f ≠ e → (s.devices f).message.value h = none := by
    intro h e isQuiet nothing f apart
    by_cases here : f = d
    · rw [here, said]
      exact nothing
    · rw [← message f here]
      exact isQuiet f apart
  refine ⟨fun a b apart h v v' left right =>
    c.agree a b apart h v v' (outstanding a h v left) (outstanding b h v' right), fun e => ?_⟩
  have isRepo : t.repo = s.repo := rfl
  have fine := c.fine e
  change Fine t.repo (fun h => ∀ f, f ≠ e → (t.devices f).message.value h = none) (t.devices e)
  rw [isRepo]
  by_cases same : e = d
  · subst same
    rw [own]
    refine (end_converging c added removed handler _ (fun h isQuiet f apart => ?_)).1
    rw [← message f apart]
    exact isQuiet f apart
  · cases inside : (s.devices e).status.inChannel with
    | false =>
      rw [away e same inside]
      refine ⟨fine.inbox, fine.done, fine.own, fun status => ?_, fun status => ?_, fine.requested,
        fine.apart, fine.asked, fine.once, fine.handler, fine.adds⟩
      · rw [status] at inside
        cases inside
      · rw [status] at inside
        cases inside
    | true =>
      rw [told e same inside]
      have shown : ∀ h, Device.shown { s.devices e with inbox := (s.devices e).inbox ++ [m] } h =
          (m.value h).getD ((s.devices e).shown h) := fun h => getD_concat _ m h _
      have truth : ∀ h v, m.value h = some v → decide (h ∈ s.repo) = v := by
        intro h v value
        exact (c.fine d).done h v (by rw [said]; exact value)
      refine ⟨?_, fine.done, ?_, ?_, ?_, ?_, ?_, fine.asked, fine.once, fine.handler, fine.adds⟩
      · intro other member h v v' value out
        rcases mem_append.mp member with old | new
        · exact fine.inbox other old h v v' value out
        · rw [mem_singleton.mp new] at value
          exact c.agree d e (Ne.symm same) h v v' (.inr (by rw [said]; exact value)) out
      · intro present h v last
        rw [shown]
        cases value : m.value h with
        | none => exact fine.own present h v last
        | some w =>
          exact c.agree d e (Ne.symm same) h w v (.inr (by rw [said]; exact value)) (outstanding_of_own last)
      · intro status h last isQuiet
        rw [shown]
        cases value : m.value h with
        | none => exact fine.watching status h last (calm h e isQuiet value)
        | some w => exact (truth h w value).symm
      · intro status h last isQuiet shows
        rw [shown] at shows
        cases value : m.value h with
        | none =>
          rw [value] at shows
          exact fine.joined status h last (calm h e isQuiet value) shows
        | some w =>
          rw [value] at shows
          exact of_decide_eq_true ((truth h w value).trans shows)
      · intro status
        have requested : (s.devices e).status = .requested := status
        rw [requested] at inside
        cases inside
      · intro outside
        have away' : (s.devices e).status.inChannel = false := outside
        rw [away'] at inside
        cases inside

theorem step_converging (label : Label D H) {next : State D H} (c : Converging s)
    (allowed : Allowed s label) (ran : step s label = some next) : Converging next := by
  cases label with
  | watchBranch device =>
    simp only [step] at ran
    split at ran
    · next absent => exact some.inj ran ▸ watchBranch_converging c absent
    · cases ran
  | send device event => exact some.inj ran ▸ send_converging c event allowed
  | receive device =>
    simp only [step] at ran
    split at ran
    · next rest free waits => exact some.inj ran ▸ receiveWatch_converging c rest free waits
    · next event rest free waits =>
        exact some.inj ran ▸ receiveEvent_converging c event rest free waits
    · cases ran
  | resume device accepted =>
    simp only [step, resume] at ran
    split at ran
    · cases ran
    · next handler => exact some.inj ran ▸ copy_converging c handler
    · next event handler =>
        have letIn : (s.devices device).status = .watching → ∀ h ∈ event.atoms, h ∈ accepted ∨ h ∈ s.repo := by
          intro status
          simpa [handler] using allowed status
        exact some.inj ran ▸ add_converging c event accepted handler letIn
    · next event added handler =>
        have letIn : (s.devices device).status = .watching → ∀ h ∈ event.removedAtoms, h ∈ accepted ∨ h ∉ s.repo := by
          intro status
          simpa [handler] using allowed status
        exact some.inj ran ▸ remove_converging c event added accepted handler letIn
    · next added removed handler =>
        split at ran
        · exact some.inj ran ▸ broadcast_converging c added removed handler
        · next nothing =>
            have ⟨fine, outstanding⟩ := end_converging c added removed handler _ (fun _ isQuiet => isQuiet)
            have ⟨noAdded, noRemoved⟩ : added = ∅ ∧ removed = ∅ := by simpa [not_or] using nothing
            have silent : ∀ h, (s.devices device).message.value h = none := by
              intro h
              simp [Device.message, handler, noAdded, noRemoved, AddAtomsEvent.value]
            rw [← some.inj ran]
            apply c.update
            · intro h
              rw [silent]
              rfl
            · intro e apart h v v' left right
              exact c.agree device e (Ne.symm apart) h v v' (outstanding h v left) right
            · exact fine
  | deliver device =>
    simp only [step] at ran
    split at ran
    · cases ran
    · next message rest waits => exact some.inj ran ▸ deliver_converging c message rest waits

omit [DecidableEq D] in
theorem start_converging (repo : Finset H) : Converging (start repo : State D H) := by
  refine ⟨fun a b _ h v v' left _ => ?_, fun d => ?_⟩
  · rcases left with ⟨event, waits | inHand, _⟩ | message
    · cases waits
    · cases inHand
    · simp [start, Device.message, AddAtomsEvent.value] at message
  · constructor <;> simp [start, Device.message, AddAtomsEvent.value, Status.inChannel]

/-- A device that watches and has received everything holds what the repository holds. -/
theorem watchers_converge (repo : Finset H) (reached : Reaches step Allowed (start repo) s)
    (finished : ∀ e, (s.devices e).handler = none ∧ (s.devices e).requests = [])
    (watching : (s.devices d).status = .watching) (received : (s.devices d).inbox = []) :
    (s.devices d).held = s.repo := by
  have c := reached.invariant Converging (start_converging repo)
    (fun _ label _ c allowed ran => step_converging label c allowed ran)
  ext h
  have nothing : lastValue (s.devices d).own h = none := by
    simp [Device.own, Device.handled, finished d, lastValue]
  have quiet : ∀ e, e ≠ d → (s.devices e).message.value h = none := by
    intro e _
    simp [Device.message, finished e, AddAtomsEvent.value]
  have shows : (s.devices d).shown h = decide (h ∈ s.repo) :=
    (c.fine d).watching watching h nothing quiet
  have holds : (s.devices d).shown h = decide (h ∈ (s.devices d).held) := by
    simp [Device.shown, received, lastValue]
  exact decide_eq_decide.mp (holds.symm.trans shows)

end Converging

/-! ### A broadcast overtakes another -/

section Sample

def watched (device : Bool) : List (Label Bool Nat) :=
  [.watchBranch device, .receive device, .resume device ∅, .deliver device]

/-- An event up to the await before its broadcast. -/
def begun (device : Bool) (event : AddAtomsEvent Nat) : List (Label Bool Nat) :=
  [.send device event, .receive device, .resume device event.atoms]

def ended (device : Bool) (event : AddAtomsEvent Nat) : List (Label Bool Nat) :=
  [.resume device event.removedAtoms, .resume device ∅]

def adding (n : Nat) : AddAtomsEvent Nat := { atoms := {n}, removedAtoms := ∅ }

def removing (n : Nat) : AddAtomsEvent Nat := { atoms := ∅, removedAtoms := {n} }

/-- Every event comes to an end, and to the other device, before the next is sent. -/
def calm (s : State Bool Nat) : Label Bool Nat → Bool
  | .send device event =>
    (s.devices !device).requests.isEmpty && (s.devices !device).handler.isNone &&
      (s.devices device).inbox.isEmpty &&
        ((s.devices device).status = .watching || event.removedAtoms = ∅)
  | .resume device accepted =>
    match (s.devices device).handler with
    | some (.loading event) => event.atoms ⊆ accepted
    | some (.added event _) => event.removedAtoms ⊆ accepted
    | _ => true
  | _ => true

theorem allowed_of_calm (s : State Bool Nat) (label : Label Bool Nat) (still : calm s label = true) :
    Allowed s label := by
  cases label with
  | send device event =>
    simp only [calm, Bool.and_eq_true, Bool.or_eq_true, decide_eq_true_eq, List.isEmpty_iff,
      Option.isNone_iff_eq_none] at still
    have ⟨⟨⟨requests, handler⟩, inbox⟩, keeps⟩ := still
    refine ⟨fun h v _ => ⟨fun other apart out => ?_, fun message member => ?_⟩, fun early => ?_⟩
    · have same : other = !device := Bool.eq_not_of_ne apart
      rw [same] at out
      rcases out with ⟨event, waits | inHand, _⟩ | message
      · rw [requests] at waits
        cases waits
      · simp [Device.handled, handler] at inHand
      · simp [Device.message, handler, AddAtomsEvent.value] at message
    · rw [inbox] at member
      cases member
    · apply keeps.resolve_left
      intro watching
      rw [watching] at early
      rcases early with one | two
      · cases one
      · cases two
  | resume device accepted =>
    intro _
    simp only [calm] at still
    split at still
    · next event handler =>
        rw [handler]
        exact fun h member => .inl (of_decide_eq_true still member)
    · next event added handler =>
        rw [handler]
        exact fun h member => .inl (of_decide_eq_true still member)
    · next neither also =>
        split
        · next event handler => exact absurd handler (neither event)
        · next event added handler => exact absurd handler (also event added)
        · trivial
  | _ => trivial

/-- One after the other, both devices come to hold what the repository holds. -/
def inTurn : List (Label Bool Nat) :=
  watched false ++ watched true ++ begun false (adding 2) ++ ended false (adding 2) ++ [.deliver true] ++
    begun true (removing 1) ++ ended true (removing 1) ++ [.deliver false]

theorem inTurn_converges : ∃ s, runAll step (start {1}) inTurn = some s ∧ 2 ∈ s.repo ∧ 1 ∉ s.repo ∧
    (s.devices true).held = s.repo ∧ (s.devices false).held = s.repo := by
  have run : (runAll step (start {1}) inTurn).map (fun s => decide (2 ∈ s.repo ∧ 1 ∉ s.repo ∧
      ∀ e, ((s.devices e).handler.isNone ∧ (s.devices e).requests.isEmpty) ∧
        (s.devices e).status = .watching ∧ (s.devices e).inbox.isEmpty)) = some true := by decide +kernel
  have quiet : AllAllowed step (fun s label => calm s label = true) (start {1}) inTurn := by
    decide +kernel
  have ⟨s, ran, shown⟩ := Option.map_eq_some_iff.mp run
  simp only [decide_eq_true_eq, List.isEmpty_iff, Option.isNone_iff_eq_none] at shown
  have ⟨added, removed, idle⟩ := shown
  have reached := reaches_of_runAll _ (quiet.weaken _ allowed_of_calm) ran
  exact ⟨s, ran, added, removed,
    watchers_converge {1} reached (fun e => (idle e).1) (idle true).2.1 (idle true).2.2,
    watchers_converge {1} reached (fun e => (idle e).1) (idle false).2.1 (idle false).2.2⟩

/-- The second device takes its copy while the atom is not yet sent to the others, and removes it. -/
def overtaking : List (Label Bool Nat) :=
  watched false ++ begun false (adding 1) ++ watched true ++ begun true (removing 1) ++
    ended true (removing 1) ++ ended false (adding 1) ++ [.deliver true, .deliver false]

theorem removal_overtakes : ∃ s, runAll step (start ∅) overtaking = some s ∧
    (∀ e, (s.devices e).handler = none ∧ (s.devices e).requests = [] ∧
      (s.devices e).status = .watching ∧ (s.devices e).inbox = []) ∧
      1 ∈ (s.devices true).held ∧ (s.devices true).held ≠ s.repo := by
  have run : (runAll step (start ∅) overtaking).map (fun s => decide (
      (∀ e, (s.devices e).handler.isNone ∧ (s.devices e).requests.isEmpty ∧
        (s.devices e).status = .watching ∧ (s.devices e).inbox.isEmpty) ∧
          1 ∈ (s.devices true).held ∧ 1 ∉ s.repo)) = some true := by decide +kernel
  have ⟨s, ran, shown⟩ := Option.map_eq_some_iff.mp run
  simp only [decide_eq_true_eq, List.isEmpty_iff, Option.isNone_iff_eq_none] at shown
  have ⟨idle, held, gone⟩ := shown
  exact ⟨s, ran, idle, held, fun same => gone (same ▸ held)⟩

end Sample

end CasualOS.WatchedBranch
