import CasualOS.MemoryPartition

/-! The states of the bots that a helper puts together from its partitions, and keeps for later reads. -/

namespace CasualOS.PartitionStates

open OrderedMap Run
open Option (some)

/-! ### Objects -/

abbrev Ref := Nat

abbrev Masks := List (JsString × Fields)

/-- A bot of a partition's state; its tags and its masks are objects of their own. -/
structure BotObject where
  id : Option JsString
  space : Option JsString
  tags : Option Ref
  signatures : Option (List (JsString × Option JsString))
  masks : Option Ref

abbrev StateObject := List (JsString × BotObject)

/-- What the objects hold; those that the callers give are there from the start. -/
structure Heap where
  tags : Ref → Fields
  masks : Ref → Masks
  states : Ref → StateObject
  next : Ref

def emptyObject : BotObject := { id := none, space := none, tags := none, signatures := none, masks := none }

def isBot (bot : BotObject) : Bool := (bot.id.any fun id => !id.isEmpty) && bot.tags.isSome

namespace Heap

def valueOf (heap : Heap) (bot : BotObject) : CasualOS.Bot where
  id := bot.id
  space := bot.space
  tags := bot.tags.map heap.tags
  signatures := bot.signatures
  masks := bot.masks.map heap.masks

def setTags (heap : Heap) (tags : Option Ref) (values : Option Fields) : Heap :=
  match tags with
  | none => heap
  | some ref => { heap with tags := Function.update heap.tags ref (values.getD []) }

/-- Masks are changed in place; a bot that has none gets a new object, and one whose masks are gone has none. -/
def setMasks (heap : Heap) (masks : Option Ref) (values : Option Masks) : Heap × Option Ref :=
  match masks, values with
  | none, none => (heap, none)
  | none, some values =>
    ({ heap with masks := Function.update heap.masks heap.next values, next := heap.next + 1 }, some heap.next)
  | some ref, none => ({ heap with masks := Function.update heap.masks ref [] }, none)
  | some ref, some values => ({ heap with masks := Function.update heap.masks ref values }, some ref)

def setState (heap : Heap) (ref : Ref) (state : StateObject) : Heap :=
  { heap with states := Function.update heap.states ref state }

end Heap

/-! ### Batches of a memory partition -/

inductive Event where
  | addBot (id : JsString) (bot : BotObject)
  | removeBot (id : JsString)
  | updateBot (id : JsString) (tags masks : Option Fields) (given : tags.isSome ∨ masks.isSome)

/-- The event gives the partition a new state object, unless the batch has done so already. -/
def Event.renews : Event → Bool
  | .updateBot _ _ _ _ => false
  | _ => true

/-- A partition while a batch is applied: its state object, and whether that is new. -/
structure Applying where
  heap : Heap
  state : Ref
  createdNewState : Bool
  updated : PartialBotsState

namespace Applying

def entries (a : Applying) : StateObject := a.heap.states a.state

/-- `this.state` with other entries: the object of the batch is changed, the one before it is copied. -/
def renew (a : Applying) (state : StateObject) : Applying :=
  if a.createdNewState then { a with heap := a.heap.setState a.state state }
  else { a with
    heap := { a.heap.setState a.heap.next state with next := a.heap.next + 1 }
    state := a.heap.next
    createdNewState := true }

/-- What an update makes of a bot is put into its objects, and the copy of the bot into the state in place. -/
def store (a : Applying) (id : JsString) (bot : CasualOS.Bot) : Applying :=
  let old := (lookup id a.entries).getD emptyObject
  let (heap, masks) := (a.heap.setTags old.tags bot.tags).setMasks old.masks bot.masks
  { a with heap := heap.setState a.state (assign id { old with masks := masks } a.entries) }

/-- Nothing when an update throws. -/
def applyEvent (space : JsString) (a : Applying) : Event → Option Applying
  | .addBot id bot =>
    let added := { bot with id := some id, space := some space }
    let next := a.renew (assign id added a.entries)
    some { next with updated := assign id (some (a.heap.valueOf added)) a.updated }
  | .removeBot id =>
    let next := a.renew (remove id a.entries)
    some { next with updated := assign id none a.updated }
  | .updateBot id tags masks _ =>
    match MemoryPartition.updateEntry space ((lookup id a.entries).map a.heap.valueOf)
      (lookup id a.updated) tags masks with
    | none => none
    | some (bot, updated) =>
      let next := match bot with
        | none => a
        | some bot => a.store id bot
      some { next with
        updated := match updated with
          | none => a.updated
          | some updated => assign id updated a.updated }

end Applying

/-! ### The helper -/

structure Partition where
  isPrivate : Bool
  space : JsString
  state : Ref

inductive View where
  | allBots
  | publicBots
  deriving DecidableEq

abbrev HelperState := List (JsString × Option BotObject)

structure World where
  heap : Heap
  memory : Nat → Partition
  partitions : List (JsString × Nat)
  partitionStates : List (JsString × Ref)
  stateCache : List (View × Option HelperState)

namespace World

variable (s : World)

def everyKey : JsString := [42]

/-- `*` comes first. -/
def sortedKeys : List (JsString × Nat) :=
  (s.partitions.filter fun entry => entry.1 = everyKey) ++ s.partitions.filter fun entry => entry.1 ≠ everyKey

def shows (view : View) (partition : Partition) : Bool :=
  match view with
  | .allBots => true
  | .publicBots => !partition.isPrivate

def shown (view : View) : List (JsString × Ref) :=
  (s.sortedKeys.filter fun entry => shows view (s.memory entry.2)).map fun entry =>
    (entry.1, (s.memory entry.2).state)

def isChanged (view : View) : Bool :=
  (s.shown view).any fun entry => lookup entry.1 s.partitionStates ≠ some entry.2

def getCachedState (view : View) : Option HelperState :=
  match lookup view s.stateCache with
  | some state => if s.isChanged view then none else state
  | none => none

def finalBot (key : JsString) (bots : StateObject) (id : JsString) : Option BotObject :=
  ((lookup id bots).filter isBot).map fun bot => { bot with space := some key }

/-- An id that is there keeps its bot, and one that has no bot is there with nothing. -/
def addBots (state : HelperState) (key : JsString) (bots : StateObject) : HelperState :=
  bots.foldl (fun state entry =>
    if ((lookup entry.1 state).join).isSome then state
    else assign entry.1 (finalBot key bots entry.1) state) state

def firstBots (key : JsString) (bots : StateObject) : HelperState :=
  (bots.map Prod.fst).filterMap fun id => (finalBot key bots id).map fun bot => (id, some bot)

def combined (heap : Heap) : List (JsString × Ref) → Option HelperState → Option HelperState
  | [], state => state
  | (key, ref) :: rest, none => combined heap rest (some (firstBots key (heap.states ref)))
  | (key, ref) :: rest, some state => combined heap rest (some (addBots state key (heap.states ref)))

def rebuild (view : View) : Option HelperState := combined s.heap (s.shown view) none

def getPartitionsState (view : View) : Option HelperState × World :=
  match s.getCachedState view with
  | some state => (some state, s)
  | none =>
    (s.rebuild view, { s with
      partitionStates := (s.shown view).foldl (fun states entry => assign entry.1 entry.2 states) s.partitionStates
      stateCache := assign view (s.rebuild view) s.stateCache })

def addPartition (space : JsString) (partition : Nat) : World :=
  { s with partitions := assign space partition s.partitions }

def setState (partition : Nat) (heap : Heap) (state : Ref) : World :=
  { s with heap := heap, memory := Function.update s.memory partition { s.memory partition with state := state } }

def applying (partition : Nat) : Applying :=
  { heap := s.heap, state := (s.memory partition).state, createdNewState := false, updated := [] }

def applyEvents (partition : Nat) (events : List Event) : Option World :=
  (runAll (Applying.applyEvent (s.memory partition).space) (s.applying partition) events).map fun a =>
    s.setState partition a.heap a.state

def newHelper : World := { s with partitionStates := [], stateCache := [] }

/-- What a reader sees in a state. -/
def seen (state : Option HelperState) : Option (JsString → Option CasualOS.Bot) :=
  state.map fun bots id => (lookup id bots).join.map s.heap.valueOf

/-- A read of either view gives what a new helper gives. -/
def Fresh : Prop :=
  ∀ view, s.seen (s.getPartitionsState view).1 = s.seen (s.newHelper.getPartitionsState view).1

end World

inductive Op where
  | batch (partition : Nat) (events : List Event)
  | addPartition (space : JsString) (partition : Nat)
  | read (view : View)

def World.step (s : World) : Op → Option World
  | .batch partition events => s.applyEvents partition events
  | .addPartition space partition => some (s.addPartition space partition)
  | .read view => some (s.getPartitionsState view).2

/-! ### When the caches hold -/

/-- An update in place leaves a bot its masks object, or leaves it without one. -/
def KeepsMasks (space : JsString) (a : Applying) : Event → Prop
  | .updateBot id _ (some masks) _ => ∀ bot, lookup id a.entries = some bot → isBot bot = true →
      (dropEmpty (setAll setSpace (bot.masks.map a.heap.masks)
        (some [(space, MemoryPartition.cleanAll masks)]))).isSome = bot.masks.isSome
  | _ => True

/-- What is changed in the state object that a batch finds. -/
def KeepsInPlace (space : JsString) (a : Applying) (event : Event) : Prop :=
  a.createdNewState = true ∨ KeepsMasks space a event

def BatchAllowed (s : World) (partition : Nat) (events : List Event) : Prop :=
  AllAllowed (Applying.applyEvent (s.memory partition).space) (KeepsInPlace (s.memory partition).space)
      (s.applying partition) events ∨
    events.any Event.renews = true ∧
      ∀ entry ∈ s.partitions, entry.2 ≠ partition → (s.memory entry.2).state ≠ (s.memory partition).state

/-- A read that builds its view anew does not hide from the other view what has changed there. -/
def ReadAllowed (s : World) (view : View) : Prop :=
  (s.getCachedState view).isSome = true ∨
    ∀ other state, other ≠ view → lookup other s.stateCache = some (some state) → s.isChanged other = true →
      ∃ entry ∈ s.shown other, entry.1 ∉ (s.shown view).map Prod.fst ∧ lookup entry.1 s.partitionStates ≠ some entry.2

/-- A view that is not built anew shows the same partitions after the addition. -/
def AddAllowed (s : World) (space : JsString) (partition : Nat) : Prop :=
  ∀ view state, lookup view s.stateCache = some (some state) →
    (s.addPartition space partition).isChanged view = false →
      (s.addPartition space partition).shown view = s.shown view

def Allowed (s : World) : Op → Prop
  | .batch partition events => BatchAllowed s partition events
  | .addPartition space partition => AddAllowed s space partition
  | .read view => ReadAllowed s view

/-- No cache yet, and the state objects are made. -/
structure Start (s : World) : Prop where
  states : s.partitionStates = []
  caches : s.stateCache = []
  made : ∀ partition, (s.memory partition).state < s.heap.next

/-! ### What a batch does to the state objects -/

def complete (bots : StateObject) (id : JsString) : Option BotObject := (lookup id bots).filter isBot

section Batches

variable {space : JsString} {h : Heap} {r : Ref} {a b : Applying}

/-- A batch that began with the object `r` in the heap `h`. -/
structure Applied (h : Heap) (r : Ref) (a : Applying) : Prop where
  grows : h.next ≤ a.heap.next
  place : a.createdNewState = false ∧ a.state = r ∨
    a.createdNewState = true ∧ h.next ≤ a.state ∧ a.state < a.heap.next
  others : ∀ ref < h.next, ref ≠ r → a.heap.states ref = h.states ref

@[simp] theorem setTags_states (heap : Heap) (tags : Option Ref) (values : Option Fields) :
    (heap.setTags tags values).states = heap.states := by cases tags <;> rfl

@[simp] theorem setTags_next (heap : Heap) (tags : Option Ref) (values : Option Fields) :
    (heap.setTags tags values).next = heap.next := by cases tags <;> rfl

@[simp] theorem setMasks_states (heap : Heap) (masks : Option Ref) (values : Option Masks) :
    (heap.setMasks masks values).1.states = heap.states := by cases masks <;> cases values <;> rfl

theorem setMasks_next (heap : Heap) (masks : Option Ref) (values : Option Masks) :
    heap.next ≤ (heap.setMasks masks values).1.next := by
  cases masks <;> cases values <;> simp [Heap.setMasks]

theorem setMasks_ref (heap : Heap) {masks : Option Ref} {values : Option Masks}
    (same : values.isSome = masks.isSome) : (heap.setMasks masks values).2 = masks := by
  cases masks <;> cases values <;> simp_all [Heap.setMasks]

theorem renew_applied (applied : Applied h r a) (state : StateObject) :
    Applied h r (a.renew state) ∧ (a.renew state).createdNewState = true ∧
      ∀ ref < h.next, (a.renew state).heap.states ref = a.heap.states ref := by
  have grows := applied.grows
  rcases applied.place with ⟨old, same⟩ | ⟨new, above, below⟩
  · have kept : ∀ ref < h.next, (a.renew state).heap.states ref = a.heap.states ref := by
      intro ref low
      simp only [Applying.renew, old, Bool.false_eq_true, if_false, Heap.setState]
      exact Function.update_of_ne (low.trans_le grows).ne _ _
    refine ⟨⟨?_, .inr ?_, ?_⟩, ?_, kept⟩
    · simp only [Applying.renew, old, Bool.false_eq_true, if_false]
      exact Nat.le_succ_of_le grows
    · simp only [Applying.renew, old, Bool.false_eq_true, if_false]
      exact ⟨trivial, grows, Nat.lt_succ_self _⟩
    · intro ref low apart
      rw [kept ref low, applied.others ref low apart]
    · simp [Applying.renew, old]
  · have kept : ∀ ref < h.next, (a.renew state).heap.states ref = a.heap.states ref := by
      intro ref low
      simp only [Applying.renew, new, if_true, Heap.setState]
      exact Function.update_of_ne (low.trans_le above).ne _ _
    refine ⟨⟨?_, .inr ?_, ?_⟩, ?_, kept⟩
    · simpa [Applying.renew, new, Heap.setState] using grows
    · simp only [Applying.renew, new, if_true, Heap.setState]
      exact ⟨trivial, above, below⟩
    · intro ref low apart
      rw [kept ref low, applied.others ref low apart]
    · simp [Applying.renew, new]

theorem store_states (a : Applying) (id : JsString) (bot : CasualOS.Bot) :
    (a.store id bot).heap.states = Function.update a.heap.states a.state (assign id
      { (lookup id a.entries).getD emptyObject with
        masks := ((a.heap.setTags ((lookup id a.entries).getD emptyObject).tags bot.tags).setMasks
          ((lookup id a.entries).getD emptyObject).masks bot.masks).2 } a.entries) := by
  simp [Applying.store, Heap.setState]

@[simp] theorem store_createdNewState (a : Applying) (id : JsString) (bot : CasualOS.Bot) :
    (a.store id bot).createdNewState = a.createdNewState := rfl

theorem store_next (a : Applying) (id : JsString) (bot : CasualOS.Bot) : a.heap.next ≤ (a.store id bot).heap.next :=
  calc
    a.heap.next = (a.heap.setTags ((lookup id a.entries).getD emptyObject).tags bot.tags).next :=
      (setTags_next _ _ _).symm
    _ ≤ _ := setMasks_next _ _ _

theorem store_applied (applied : Applied h r a) (id : JsString) (bot : CasualOS.Bot) :
    Applied h r (a.store id bot) := by
  have grows := store_next a id bot
  refine ⟨applied.grows.trans grows, ?_, ?_⟩
  · rcases applied.place with old | ⟨new, above, below⟩
    · exact .inl old
    · exact .inr ⟨new, above, below.trans_le grows⟩
  · intro ref low apart
    rw [store_states, Function.update_of_ne, applied.others ref low apart]
    rcases applied.place with ⟨_, same⟩ | ⟨_, above, _⟩
    · rwa [same]
    · exact (low.trans_le above).ne

theorem complete_store (a : Applying) (id : JsString) (bot : CasualOS.Bot)
    (same : ∀ old, lookup id a.entries = some old → isBot old = true → bot.masks.isSome = old.masks.isSome)
    (other : JsString) :
    complete ((a.store id bot).heap.states a.state) other = complete a.entries other := by
  rw [store_states, Function.update_self, complete, complete, lookup_assign]
  split
  · next own =>
      subst own
      cases there : lookup other a.entries with
      | none => simp [emptyObject, isBot]
      | some old =>
        rw [Option.getD_some]
        by_cases whole : isBot old = true
        · rw [setMasks_ref _ (same old there whole)]
        · have part : ∀ masks, isBot { old with masks := masks } = false := fun masks => by
            simpa [isBot] using whole
          simp [Option.filter, part]
  · rfl

theorem updateEntry_masks {bot updated : CasualOS.Bot} {last next : Option (Option CasualOS.Bot)}
    {tags masks : Option Fields}
    (ran : MemoryPartition.updateEntry space (some bot) last tags masks = some (some updated, next)) :
    updated.masks = masks.elim bot.masks fun values =>
      dropEmpty (setAll setSpace bot.masks (some [(space, MemoryPartition.cleanAll values)])) := by
  cases tags with
  | none =>
    cases masks with
    | none =>
      obtain ⟨same, _⟩ := Prod.mk.inj (some.inj ran)
      rw [← some.inj same]
      rfl
    | some values =>
      obtain ⟨same, _⟩ := Prod.mk.inj (some.inj ran)
      rw [← some.inj same]
      rfl
  | some given =>
    simp only [MemoryPartition.updateEntry] at ran
    split at ran
    · cases ran
    · obtain ⟨same, _⟩ := Prod.mk.inj (some.inj ran)
      rw [← some.inj same]
      cases masks <;> rfl

theorem event_applied (applied : Applied h r a) (made : r < h.next) {event : Event}
    (ran : a.applyEvent space event = some b) :
    Applied h r b ∧ ((event.renews || a.createdNewState) = true → b.createdNewState = true) ∧
      (KeepsInPlace space a event → ∀ id, complete (b.heap.states r) id = complete (a.heap.states r) id) := by
  cases event with
  | addBot id bot =>
    obtain rfl := some.inj ran
    obtain ⟨next, new, kept⟩ := renew_applied applied
      (assign id { bot with id := some id, space := some space } a.entries)
    refine ⟨⟨next.grows, next.place, next.others⟩, fun _ => new, fun _ other => ?_⟩
    exact congrArg (complete · other) (kept r made)
  | removeBot id =>
    obtain rfl := some.inj ran
    obtain ⟨next, new, kept⟩ := renew_applied applied (remove id a.entries)
    refine ⟨⟨next.grows, next.place, next.others⟩, fun _ => new, fun _ other => ?_⟩
    exact congrArg (complete · other) (kept r made)
  | updateBot id tags masks given =>
    rw [Applying.applyEvent] at ran
    split at ran
    · cases ran
    · next bot updated did =>
        obtain rfl := some.inj ran
        cases bot with
        | none =>
          exact ⟨⟨applied.grows, applied.place, applied.others⟩,
            fun created => by simpa [Event.renews] using created,
            fun _ _ => rfl⟩
        | some bot =>
          have next := store_applied applied id bot
          refine ⟨⟨next.grows, next.place, next.others⟩, fun created => by simpa [Event.renews] using created,
            fun keeps other => ?_⟩
          rcases applied.place with ⟨old, same⟩ | ⟨_, above, _⟩
          · rw [← same]
            refine complete_store a id bot (fun found there whole => ?_) other
            rw [there, Option.map_some] at did
            rw [updateEntry_masks did]
            cases masks with
            | none => simp [Heap.valueOf]
            | some values =>
              rcases keeps with created | keeps
              · rw [old] at created
                cases created
              · exact keeps found there whole
          · refine congrArg (complete · other) ?_
            exact (congrFun (store_states a id bot) r).trans (Function.update_of_ne (made.trans_le above).ne _ _)

/-- A whole batch: other state objects stay as they are, and the one that it found keeps its bots if the updates in
place keep their masks objects. -/
theorem events_applied (applied : Applied h r a) (made : r < h.next) (events : List Event)
    (ran : runAll (Applying.applyEvent space) a events = some b) :
    Applied h r b ∧ ((events.any Event.renews || a.createdNewState) = true → b.createdNewState = true) ∧
      (AllAllowed (Applying.applyEvent space) (KeepsInPlace space) a events →
        ∀ id, complete (b.heap.states r) id = complete (a.heap.states r) id) := by
  induction events generalizing a with
  | nil =>
    obtain rfl := some.inj ran
    exact ⟨applied, fun created => by simpa using created, fun _ _ => rfl⟩
  | cons event rest ih =>
    rw [runAll_cons] at ran
    cases first : a.applyEvent space event with
    | none => simp [first] at ran
    | some middle =>
      rw [first, Option.bind_some] at ran
      obtain ⟨next, created, kept⟩ := event_applied applied made first
      obtain ⟨last, createdLast, keptLast⟩ := ih next ran
      refine ⟨last, fun renews => createdLast ?_, fun allowed id => ?_⟩
      · rw [List.any_cons, Bool.or_assoc, Bool.or_comm, Bool.or_assoc] at renews
        rw [Bool.or_eq_true] at renews ⊢
        refine renews.imp id fun rest => created ?_
        rwa [Bool.or_comm]
      · exact (keptLast (allowed.2 middle first) id).trans (kept allowed.1 id)

end Batches

/-! ### The bots of a view -/

section Views

open World

def botsOf (state : HelperState) (id : JsString) : Option BotObject := (lookup id state).join

theorem finalBot_eq (key : JsString) (bots : StateObject) (id : JsString) :
    finalBot key bots id = (complete bots id).map fun bot => { bot with space := some key } := rfl

theorem botsOf_addBots (state : HelperState) (key : JsString) (bots : StateObject) (id : JsString) :
    botsOf (addBots state key bots) id = (botsOf state id).or (finalBot key bots id) := by
  have each : ∀ (entries : StateObject) (state : HelperState), botsOf (entries.foldl (fun state entry =>
        if ((lookup entry.1 state).join).isSome then state
        else assign entry.1 (finalBot key bots entry.1) state) state) id =
      (botsOf state id).or (if id ∈ entries.map Prod.fst then finalBot key bots id else none) := by
    intro entries
    induction entries with
    | nil => simp
    | cons entry rest ih =>
      intro state
      rw [List.foldl_cons, ih]
      by_cases own : id = entry.1
      · subst own
        cases there : (lookup entry.1 state).join with
        | some bot => simp [botsOf, there]
        | none =>
          simp only [botsOf, there, Option.isSome_none, Bool.false_eq_true, if_false, lookup_assign, if_true,
            Option.none_or, List.map_cons, List.mem_cons, true_or, Option.join_some]
          split <;> simp
      · have kept : botsOf (if ((lookup entry.1 state).join).isSome = true then state
            else assign entry.1 (finalBot key bots entry.1) state) id = botsOf state id := by
          split
          · rfl
          · rw [botsOf, lookup_assign, if_neg own, botsOf]
        rw [kept, List.map_cons]
        simp only [List.mem_cons, own, false_or]
  rw [addBots, each]
  congr 1
  split
  · rfl
  · next absent => rw [finalBot, (lookup_eq_none_iff id bots).mpr absent, Option.filter_none, Option.map_none]

theorem botsOf_firstBots (key : JsString) (bots : StateObject) (id : JsString) :
    botsOf (firstBots key bots) id = finalBot key bots id := by
  have entries : firstBots key bots =
      (bots.map Prod.fst).filterMap fun id => ((finalBot key bots id).map some).map fun bot => (id, bot) := by
    rw [firstBots]
    congr 1
    funext id
    cases finalBot key bots id <;> rfl
  rw [botsOf, entries, lookup_filterMap]
  split
  · cases finalBot key bots id <;> rfl
  · next absent =>
      rw [finalBot, (lookup_eq_none_iff id bots).mpr absent, Option.filter_none, Option.map_none]
      rfl

/-- What a view is put together from is the bots of the state objects that it shows. -/
theorem combined_congr {heap heap' : Heap} (shown : List (JsString × Ref))
    (alike : ∀ entry ∈ shown, ∀ id, complete (heap'.states entry.2) id = complete (heap.states entry.2) id)
    {state state' : Option HelperState} (same : state'.map botsOf = state.map botsOf) :
    (combined heap' shown state').map botsOf = (combined heap shown state).map botsOf := by
  induction shown generalizing state state' with
  | nil => exact same
  | cons entry rest ih =>
    rcases entry with ⟨key, ref⟩
    have final : ∀ id, finalBot key (heap'.states ref) id = finalBot key (heap.states ref) id := by
      intro id
      rw [finalBot_eq, finalBot_eq, alike (key, ref) List.mem_cons_self id]
    have later := fun other (member : other ∈ rest) => alike other (List.mem_cons_of_mem _ member)
    cases state with
    | none =>
      cases state' with
      | some _ => cases same
      | none =>
        refine ih later (congrArg some (funext fun id => ?_))
        rw [botsOf_firstBots, botsOf_firstBots, final]
    | some bots =>
      cases state' with
      | none => cases same
      | some bots' =>
        refine ih later (congrArg some (funext fun id => ?_))
        rw [botsOf_addBots, botsOf_addBots, final, some.inj same]

/-! ### The caches along a run -/

structure Inv (s : World) : Prop where
  made : ∀ partition, (s.memory partition).state < s.heap.next
  recorded : ∀ key ref, lookup key s.partitionStates = some ref → ref < s.heap.next
  current : ∀ view state, s.getCachedState view = some state → some (botsOf state) = (s.rebuild view).map botsOf

variable {s next : World} {view : View} {partition : Nat}

theorem Start.inv (start : Start s) : Inv s where
  made := start.made
  recorded key ref found := by
    rw [start.states] at found
    cases found
  current view state found := by
    rw [getCachedState, start.caches] at found
    cases found

theorem seen_congr {state state' : Option HelperState} (same : state.map botsOf = state'.map botsOf) :
    s.seen state = s.seen state' := by
  cases state with
  | none =>
    cases state' with
    | none => rfl
    | some _ => cases same
  | some bots =>
    cases state' with
    | none => cases same
    | some bots' =>
      refine congrArg some (funext fun id => ?_)
      exact congrArg (Option.map s.heap.valueOf) (congrFun (some.inj same) id)

theorem Inv.fresh (inv : Inv s) : s.Fresh := by
  intro view
  have anew : (s.newHelper.getPartitionsState view).1 = s.rebuild view := rfl
  rw [anew, getPartitionsState]
  cases cached : s.getCachedState view with
  | none => rfl
  | some state => exact seen_congr (inv.current view state cached)

theorem cached_iff {state : HelperState} : s.getCachedState view = some state ↔
    lookup view s.stateCache = some (some state) ∧ s.isChanged view = false := by
  rw [getCachedState]
  cases lookup view s.stateCache with
  | none => simp
  | some cached => cases s.isChanged view <;> simp

theorem isChanged_eq_false :
    s.isChanged view = false ↔ ∀ entry ∈ s.shown view, lookup entry.1 s.partitionStates = some entry.2 := by
  simp [isChanged]

theorem current_kept (inv : Inv s) (states : next.partitionStates = s.partitionStates)
    (caches : next.stateCache = s.stateCache) {state : HelperState}
    (found : next.getCachedState view = some state) (shown : next.shown view = s.shown view)
    (alike : ∀ entry ∈ s.shown view, ∀ id,
      complete (next.heap.states entry.2) id = complete (s.heap.states entry.2) id) :
    some (botsOf state) = (next.rebuild view).map botsOf := by
  obtain ⟨there, unchanged⟩ := cached_iff.mp found
  have before : s.getCachedState view = some state := by
    rw [cached_iff, ← caches]
    refine ⟨there, ?_⟩
    rw [isChanged_eq_false] at unchanged ⊢
    rwa [shown, states] at unchanged
  rw [inv.current view state before, rebuild, rebuild, shown]
  exact (combined_congr (s.shown view) alike rfl).symm

theorem inv_addPartition (inv : Inv s) {space : JsString} (allowed : AddAllowed s space partition) :
    Inv (s.addPartition space partition) where
  made := inv.made
  recorded := inv.recorded
  current view state found := by
    obtain ⟨there, unchanged⟩ := cached_iff.mp found
    exact @current_kept s (s.addPartition space partition) view inv rfl rfl state found
      (allowed view state there unchanged) (fun _ _ _ => rfl)

theorem lookup_foldl_assign (entries : List (JsString × Ref)) (states : List (JsString × Ref)) (key : JsString)
    (ref : Ref)
    (found : lookup key (entries.foldl (fun states entry => assign entry.1 entry.2 states) states) = some ref) :
    (key, ref) ∈ entries ∨ key ∉ entries.map Prod.fst ∧ lookup key states = some ref := by
  induction entries generalizing states with
  | nil => exact .inr ⟨List.not_mem_nil, found⟩
  | cons entry rest ih =>
    rcases ih _ found with inside | ⟨absent, before⟩
    · exact .inl (List.mem_cons_of_mem _ inside)
    · rw [lookup_assign] at before
      split at before
      · next same =>
          rw [same, ← some.inj before]
          exact .inl List.mem_cons_self
      · next apart =>
          refine .inr ⟨?_, before⟩
          rw [List.map_cons, List.mem_cons, not_or]
          exact ⟨apart, absent⟩

theorem shown_made (inv : Inv s) {entry : JsString × Ref} (member : entry ∈ s.shown view) :
    entry.2 < s.heap.next := by
  obtain ⟨partition, _, rfl⟩ := List.mem_map.mp member
  exact inv.made partition.2

/-- A read that builds its view leaves the other one current, or still to be built. -/
theorem inv_read (inv : Inv s) (allowed : ReadAllowed s view) : Inv (s.getPartitionsState view).2 := by
  rw [getPartitionsState]
  cases cached : s.getCachedState view with
  | some state => exact inv
  | none =>
    refine ⟨inv.made, fun key ref found => ?_, fun other state found => ?_⟩
    · rcases lookup_foldl_assign (s.shown view) s.partitionStates key ref found with inside | ⟨_, before⟩
      · exact shown_made inv inside
      · exact inv.recorded key ref before
    · obtain ⟨there, unchanged⟩ := cached_iff.mp found
      by_cases own : other = view
      · subst own
        rw [lookup_assign, if_pos rfl] at there
        exact congrArg (Option.map botsOf) (some.inj there).symm
      · rw [lookup_assign, if_neg own] at there
        have before : s.isChanged other = false := by
          by_contra changed
          rw [Bool.not_eq_false] at changed
          rcases allowed with valid | hidden
          · rw [cached] at valid
            cases valid
          · obtain ⟨entry, member, apart, differs⟩ := hidden other state own there changed
            have recorded := isChanged_eq_false.mp unchanged entry member
            rcases lookup_foldl_assign (s.shown view) s.partitionStates _ _ recorded with inside | ⟨_, kept⟩
            · exact apart (List.mem_map_of_mem inside)
            · exact differs kept
        exact inv.current other state (cached_iff.mpr ⟨there, before⟩)

theorem setState_state (partition other : Nat) (heap : Heap) (state : Ref) :
    ((s.setState partition heap state).memory other).state =
      if other = partition then state else (s.memory other).state := by
  by_cases own : other = partition
  · simp [setState, own]
  · simp [setState, own]

theorem setState_isPrivate (partition other : Nat) (heap : Heap) (state : Ref) :
    ((s.setState partition heap state).memory other).isPrivate = (s.memory other).isPrivate := by
  by_cases own : other = partition
  · simp [setState, own]
  · simp [setState, own]

theorem shows_setState (view : View) (partition other : Nat) (heap : Heap) (state : Ref) :
    shows view ((s.setState partition heap state).memory other) = shows view (s.memory other) := by
  cases view with
  | allBots => rfl
  | publicBots => rw [shows, shows, setState_isPrivate]

/-- A view that need not be built anew shows no partition that has got a new state object. -/
theorem apart_of_new (inv : Inv s) {heap : Heap} {state : Ref}
    (above : s.heap.next ≤ state) (unchanged : (s.setState partition heap state).isChanged view = false)
    {entry : JsString × Nat} (member : entry ∈ s.sortedKeys.filter fun entry => shows view (s.memory entry.2)) :
    entry.2 ≠ partition := by
  intro own
  have keys : (s.setState partition heap state).sortedKeys = s.sortedKeys := rfl
  simp only [isChanged_eq_false, shown, keys, shows_setState] at unchanged
  have recorded := unchanged _ (List.mem_map_of_mem member)
  rw [setState_state, if_pos own] at recorded
  exact absurd (inv.recorded _ _ recorded) (Nat.not_lt.mpr above)

theorem shown_setState (inv : Inv s) {heap : Heap} {state : Ref}
    (place : state = (s.memory partition).state ∨ s.heap.next ≤ state)
    (unchanged : (s.setState partition heap state).isChanged view = false) :
    (s.setState partition heap state).shown view = s.shown view := by
  have keys : (s.setState partition heap state).sortedKeys = s.sortedKeys := rfl
  simp only [shown, keys, shows_setState]
  refine List.map_congr_left fun entry member => ?_
  rw [setState_state]
  split
  · next own =>
      rcases place with old | above
      · rw [old, own]
      · exact absurd own (apart_of_new inv above unchanged member)
  · rfl

theorem inv_batch (inv : Inv s) {events : List Event} (allowed : BatchAllowed s partition events)
    (ran : s.applyEvents partition events = some next) : Inv next := by
  rw [applyEvents, Option.map_eq_some_iff] at ran
  obtain ⟨a, ran, rfl⟩ := ran
  have made := inv.made partition
  have first : Applied s.heap (s.memory partition).state (s.applying partition) :=
    ⟨le_rfl, .inl ⟨rfl, rfl⟩, fun _ _ _ => rfl⟩
  obtain ⟨applied, renewed, kept⟩ := events_applied first made events ran
  have place : a.state = (s.memory partition).state ∨ s.heap.next ≤ a.state :=
    applied.place.imp And.right fun new => new.2.1
  refine ⟨fun other => ?_, fun key ref found => (inv.recorded key ref found).trans_le applied.grows,
    fun view state found => ?_⟩
  · rw [setState_state]
    split
    · rcases applied.place with ⟨_, same⟩ | ⟨_, _, below⟩
      · rw [same]
        exact made.trans_le applied.grows
      · exact below
    · exact (inv.made other).trans_le applied.grows
  · have unchanged := (cached_iff.mp found).2
    have shown := shown_setState inv place unchanged
    refine @current_kept s (s.setState partition a.heap a.state) view inv rfl rfl state found shown
      fun entry member id => ?_
    obtain ⟨pair, inside, rfl⟩ := List.mem_map.mp member
    by_cases own : (s.memory pair.2).state = (s.memory partition).state
    · rcases allowed with keeps | ⟨renews, unshared⟩
      · rw [own]
        exact kept keeps id
      · have created := renewed (by rw [renews, Bool.true_or])
        have above : s.heap.next ≤ a.state := by
          rcases applied.place with ⟨old, _⟩ | ⟨_, above, _⟩
          · rw [created] at old
            cases old
          · exact above
        have listed : pair ∈ s.partitions := by
          rcases List.mem_append.mp (List.mem_of_mem_filter inside) with first | later
          · exact List.mem_of_mem_filter first
          · exact List.mem_of_mem_filter later
        exact absurd own (unshared pair listed (apart_of_new inv above unchanged inside))
    · exact congrArg (complete · id) (applied.others _ (inv.made _) own)

/-- Along a run whose operations are all allowed, every read gives what a new helper gives. -/
theorem reads_fresh (start : Start s) (ops : List Op) (allowed : AllAllowed World.step Allowed s ops) :
    Throughout World.step World.Fresh s ops := by
  have gives : ∀ state, Inv state → World.Fresh state := fun _ => Inv.fresh
  refine throughout_of gives (fun s op next inv allowed ran => ?_) s start.inv ops allowed
  cases op with
  | batch partition events => exact inv_batch inv allowed ran
  | addPartition space partition =>
    obtain rfl := Option.some.inj ran
    exact inv_addPartition inv allowed
  | read view =>
    obtain rfl := Option.some.inj ran
    exact inv_read inv allowed

/-! One public partition, to which a bot is added. -/

def onePartition : World where
  heap := { tags := fun _ => [], masks := fun _ => [], states := fun _ => [], next := 1 }
  memory _ := { isPrivate := false, space := [115], state := 0 }
  partitions := [([115], 0)]
  partitionStates := []
  stateCache := []

def addOne : Op :=
  .batch 0 [.addBot [98] { id := some [98], space := none, tags := some 0, signatures := none, masks := none }]

theorem onePartition_start : Start onePartition := ⟨rfl, rfl, fun _ => Nat.one_pos⟩

theorem reads_of_one_view :
    Throughout World.step World.Fresh onePartition [.read .allBots, addOne, .read .allBots] := by
  refine reads_fresh onePartition_start _ ⟨.inr ?_, fun first ran => ⟨.inl ⟨.inr trivial, ?_⟩, ?_⟩⟩
  · intro other state _ found
    cases found
  · exact fun _ _ => trivial
  · intro second ran'
    obtain rfl := Option.some.inj ran
    obtain rfl := Option.some.inj ran'
    refine ⟨.inr fun other state apart found => ?_, fun _ _ => trivial⟩
    cases other with
    | allBots => exact absurd rfl apart
    | publicBots => cases found

/-- The read of the public bots makes the older state of all bots look current. -/
theorem other_view_stale :
    ∃ s, runAll World.step onePartition [.read .allBots, addOne, .read .publicBots] = some s ∧ ¬ s.Fresh := by
  refine ⟨_, rfl, fun fresh => ?_⟩
  have there := congrArg (Option.map fun bots => (bots [98]).isSome) (fresh .allBots)
  revert there
  decide

end Views

end CasualOS.PartitionStates
