import CasualOS.BotActions

/-! A partition that keeps its bots in the local storage of the browser. -/

namespace CasualOS.LocalStoragePartition

open OrderedMap TagEdit Run BotActions
open MemoryPartition (clean cleanAll emptyBot lookup_cleanAll maskOf name sampleBot tagOf throws updateEntry)
open JsString (lit)

/-- The storage has a bot under its id, which is what follows the namespace in the key. -/
structure State where
  state : BotsState
  storage : BotsState

structure Batch where
  state : BotsState
  storage : BotsState
  updatedState : PartialBotsState

def storeBot (id : JsString) (bot : Option Bot) (storage : BotsState) : BotsState :=
  match bot with
  | some bot => assign id bot storage
  | none => remove id storage

/-- A bot without tags gets a record of them for the first tag that is set. -/
def withTags (tags : Option Fields) (bot : Bot) : Bot :=
  if (tags.getD []).isEmpty then bot else { bot with tags := some (bot.tags.getD []) }

section Steps

variable (space : JsString)

def updateBot (bot : Option Bot) (updated : Option (Option Bot)) (tags masks : Option Fields) :
    Option (Option Bot × Option (Option Bot)) :=
  if Readable bot tags masks then updateEntry space (bot.map (withTags tags)) updated tags masks else none

def applyEvent (updateStorage : Bool) (batch : Batch) : BotAction → Option Batch
  | .addBot id bot =>
    let added := { bot with id := some id, space := some space }
    some
      { state := assign id added batch.state
        storage := if updateStorage then storeBot id (some added) batch.storage else batch.storage
        updatedState := assign id (some added) batch.updatedState }
  | .removeBot id =>
    some
      { state := remove id batch.state
        storage := if updateStorage then storeBot id none batch.storage else batch.storage
        updatedState := assign id none batch.updatedState }
  | .updateBot id tags masks =>
    (updateBot space (lookup id batch.state) (lookup id batch.updatedState) tags masks).map fun made =>
      { state := setBot id batch.state made.1
        storage := batch.storage
        updatedState := setUpdated id batch.updatedState made.2 }

/-- The bots that `stateUpdatedEvent` calls neither added nor removed. -/
def updatedBots (updatedState : PartialBotsState) : List JsString :=
  updatedState.filterMap fun entry => entry.2.bind fun bot =>
    if bot.id = some entry.1 then none else some entry.1

def storeUpdated (state storage : BotsState) (ids : List JsString) : BotsState :=
  ids.foldl (fun stored id => storeBot id (lookup id state) stored) storage

/-- `_applyEvents` with `updateStorage`. -/
def applyEvents (s : State) (events : List BotAction) : Option State :=
  (runAll (applyEvent space true) { state := s.state, storage := s.storage, updatedState := [] } events).map
    fun batch =>
      { state := batch.state
        storage := storeUpdated batch.state batch.storage (updatedBots batch.updatedState) }

/-- Masks of another space beside those of the partition's own make the loading throw. -/
def loadEvent (id : JsString) (stored : Bot) : Option BotAction :=
  match stored.id with
  | some (c :: rest) => some (.addBot (c :: rest) stored)
  | _ =>
    let own := stored.masks.bind (lookup space)
    if own.isSome && (stored.masks.getD []).any (fun masks => masks.1 != space) then none
    else some (.updateBot id stored.tags own)

def loadExistingBots (keys : List JsString) (storage : BotsState) : Option BotsState :=
  (keys.mapM fun id => (lookup id storage).bind (loadEvent space id)).bind fun events =>
    (runAll (applyEvent space false) { state := [], storage := storage, updatedState := [] } events).map
      (·.state)

inductive Label where
  | applyEvents (events : List BotAction)
  | connect (keys : List JsString)

/-- Batches of a partition, and new partitions that take the place of it. -/
def step (s : State) : Label → Option State
  | .applyEvents events => applyEvents space s events
  | .connect keys =>
    (loadExistingBots space keys s.storage).map fun state => { state := state, storage := s.storage }

end Steps

def start : State := { state := [], storage := [] }

/-- The same id, tags, signatures and masks; what is empty is as good as what is missing. -/
structure SameRecord (first second : Option Bot) : Prop where
  id : first.bind (·.id) = second.bind (·.id)
  space : first.bind (·.space) = second.bind (·.space)
  tags : ∀ tag, tagOf first tag = tagOf second tag
  signatures : ∀ hash, lookup hash ((first.bind (·.signatures)).getD []) =
    lookup hash ((second.bind (·.signatures)).getD [])
  masks : ∀ space tag, maskOf space first tag = maskOf space second tag

/-- The keys of the storage, in the order in which it gives them. -/
def Lists (keys : List JsString) (storage : BotsState) : Prop :=
  keys.Nodup ∧ ∀ id, id ∈ keys ↔ (lookup id storage).isSome = true

/-- A new partition comes to have the records of this one. -/
def Reloads (space : JsString) (s : State) : Prop :=
  ∀ keys, Lists keys s.storage → ∃ loaded, loadExistingBots space keys s.storage = some loaded ∧
    ∀ id, SameRecord (lookup id loaded) (lookup id s.state)

/-! ### The batches that are stored whole -/

/-- The storage gets what becomes of the bot at once. -/
def Stores (id : JsString) : BotAction → Prop
  | .addBot other _ => other = id
  | .removeBot other => other = id
  | .updateBot _ _ _ => False

def StoredLater (id : JsString) (rest : List BotAction) : Prop := ∃ event ∈ rest, Stores id event

/-- The batch has not added the bot, or the update is none. -/
def Storable (bot : Option Bot) (last : Option Bot) (id : JsString) (tags masks : Option Fields) : Prop :=
  last.bind (·.id) ≠ some id ∨ (tags = none ∨ bot = none) ∧ masks = none

/-- No tag is set on a record that is no bot. -/
def SetsNothing (tags : Option Fields) : Prop :=
  ∀ tag v, lookup tag (tags.getD []) = some v → setTag none (some (clean v)) = none

structure UpdateAllowed (bot last : Option Bot) (id : JsString) (tags masks : Option Fields)
    (rest : List BotAction) : Prop where
  readable : Readable bot tags masks
  quiet : ∀ known ∈ bot, ∀ values ∈ tags, throws (withTags tags known) last values = false
  stored : StoredLater id rest ∨
    Storable bot last id tags masks ∧ ∀ known ∈ bot, known.id = none → SetsNothing tags

def EventAllowed (batch : Batch) (rest : List BotAction) : BotAction → Prop
  | .addBot id _ => id ≠ [] ∨ StoredLater id rest
  | .removeBot _ => True
  | .updateBot id tags masks =>
    UpdateAllowed (lookup id batch.state) (lookup id batch.updatedState).join id tags masks rest

/-- Every event of the batch is allowed where it is applied. -/
def BatchAllowed (space : JsString) (batch : Batch) : List BotAction → Prop
  | [] => True
  | event :: rest =>
    EventAllowed batch rest event ∧
      ∀ next, applyEvent space true batch event = some next → BatchAllowed space next rest

def Allowed (space : JsString) (s : State) : Label → Prop
  | .applyEvents events =>
    BatchAllowed space { state := s.state, storage := s.storage, updatedState := [] } events
  | .connect keys => Lists keys s.storage

/-! ### One bot -/

section Bots

variable (space : JsString)

theorem changedTags_withTags (old : Bot) (tags : Option Fields) :
    changedTags (withTags tags old).tags tags = changedTags old.tags tags := by
  cases tags with
  | none => rfl
  | some values =>
    simp only [withTags, changedTags, Option.getD_some]
    split <;> rfl

theorem changed_withTags (bot : Option Bot) (tags masks : Option Fields) :
    changed space (bot.map (withTags tags)) tags masks = changed space bot tags masks := by
  cases bot with
  | none => rfl
  | some old =>
    simp only [Option.map_some, changed, changedTags_withTags]
    unfold withTags
    split <;> rfl

theorem updateBot_spec {bot : Option Bot} {updated : Option (Option Bot)} {tags masks : Option Fields}
    (readable : Readable bot tags masks)
    (quiet : ∀ known ∈ bot, ∀ values ∈ tags, throws (withTags tags known) updated.join values = false) :
    ∃ updated', updateBot space bot updated tags masks = some (changed space bot tags masks, updated') ∧
      (Idle bot tags masks → updated' = updated) ∧
        (¬ Idle bot tags masks → ∃ u, updated' = some (some u) ∧ u.id = updated.join.bind (·.id)) := by
  have calm : ∀ known ∈ bot.map (withTags tags), ∀ values ∈ tags, throws known updated.join values = false := by
    intro known found
    obtain ⟨old, isOld, same⟩ := Option.map_eq_some_iff.mp found
    rw [← same]
    exact quiet old isOld
  have idle : Idle (bot.map (withTags tags)) tags masks ↔ Idle bot tags masks := by
    simp only [Idle, Option.map_eq_none_iff]
  rw [updateBot, if_pos readable, ← idle, ← changed_withTags]
  exact updateEntry_spec space calm

end Bots

/-! ### Batches -/

section Batches

theorem SameRecord.refl (bot : Option Bot) : SameRecord bot bot :=
  ⟨rfl, rfl, fun _ => rfl, fun _ => rfl, fun _ _ => rfl⟩

theorem SameRecord.symm {first second : Option Bot} (same : SameRecord first second) : SameRecord second first :=
  ⟨same.id.symm, same.space.symm, fun tag => (same.tags tag).symm, fun hash => (same.signatures hash).symm,
    fun space tag => (same.masks space tag).symm⟩

theorem SameRecord.trans {first second third : Option Bot} (same : SameRecord first second)
    (next : SameRecord second third) : SameRecord first third :=
  ⟨same.id.trans next.id, same.space.trans next.space, fun tag => (same.tags tag).trans (next.tags tag),
    fun hash => (same.signatures hash).trans (next.signatures hash),
    fun space tag => (same.masks space tag).trans (next.masks space tag)⟩

variable (space : JsString)

/-- Masks for a bot that the partition does not have. -/
structure MasksOnly (bot : Option Bot) : Prop where
  id : bot.bind (·.id) = none
  unplaced : bot.bind (·.space) = none
  signatures : bot.bind (·.signatures) = none
  tags : ∀ tag, tagOf bot tag = none
  spaces : ∀ entry ∈ (bot.bind (·.masks)).getD [], entry.1 = space
  steady : ∀ tag v, maskOf space bot tag = some v → Steady v
  readable : ReadableTags ((lookup space ((bot.bind (·.masks)).getD [])).getD [])

def Shaped (id : JsString) (bot : Option Bot) : Prop :=
  (bot.bind (·.id) = some id ∧ id ≠ [] ∧ bot.bind (·.space) = some space) ∨ MasksOnly space bot

theorem masksOnly_none : MasksOnly space none where
  id := rfl
  unplaced := rfl
  signatures := rfl
  tags _ := rfl
  spaces _ member := by cases member
  steady _ _ found := by cases found
  readable _ member := by cases member

theorem readable_changedMasks {old : Option (List (JsString × Fields))} (masks : Option Fields)
    (readable : ReadableTags ((lookup space (old.getD [])).getD []))
    (steady : ∀ tag v, lookup tag ((lookup space (old.getD [])).getD []) = some v → Steady v) :
    ReadableTags ((lookup space ((changedMasks space old masks).getD [])).getD []) := by
  cases masks with
  | none => exact readable
  | some values =>
    rw [spaces_changedMasks, if_pos rfl, Option.map_some, setSpace, getD_dropEmpty, Option.getD_some]
    intro tag member edit
    have made : setTag (lookup tag.1 ((lookup space (old.getD [])).getD []))
        (lookup tag.1 (cleanAll values)) = some tag.2 := mem_combine member
    have left : Steady tag.2 := by
      rw [lookup_cleanAll] at made
      cases given : lookup tag.1 values with
      | none =>
        rw [given] at made
        exact steady _ _ made
      | some v =>
        rw [given] at made
        exact steady_of_setTag made
    rw [left.2.2] at edit
    cases edit

variable {tags masks : Option Fields} {id : JsString} {event : BotAction} {rest : List BotAction}
  {batch : Batch}

theorem masksOnly_changed {bot : Option Bot} (only : MasksOnly space bot)
    (nothing : bot.isSome = true → SetsNothing tags) : MasksOnly space (changed space bot tags masks) where
  id := (other_changed space bot tags masks).1.trans only.id
  unplaced := (other_changed space bot tags masks).2.1.trans only.unplaced
  signatures := (other_changed space bot tags masks).2.2.trans only.signatures
  tags tag := by
    rw [tagOf_changed, only.tags tag]
    cases known : bot.isSome with
    | false => rfl
    | true =>
      rw [if_pos rfl]
      cases found : lookup tag (tags.getD []) with
      | none => rfl
      | some v => exact nothing known tag v found
  spaces := spaces_changed space only.spaces
  steady tag v found := by
    rw [maskOf_changed, if_pos rfl] at found
    cases given : lookup tag (masks.getD []) with
    | none =>
      rw [given] at found
      exact only.steady tag v found
    | some value =>
      rw [given] at found
      exact steady_of_setTag found
  readable := by
    cases bot with
    | none =>
      cases masks with
      | none => exact only.readable
      | some values =>
        exact readable_changedMasks space (some values) only.readable (fun _ _ found => by cases found)
    | some old => exact readable_changedMasks space masks only.readable only.steady

theorem shaped_changed {bot : Option Bot}
    (shaped : Shaped space id bot) (nothing : ∀ known ∈ bot, known.id = none → SetsNothing tags) :
    Shaped space id (changed space bot tags masks) := by
  have others := other_changed space bot tags masks
  rcases shaped with ⟨named, filled, placed⟩ | only
  · exact .inl ⟨others.1.trans named, filled, others.2.1.trans placed⟩
  · apply Or.inr
    apply masksOnly_changed space only
    intro isSome
    have ⟨known, found⟩ := Option.isSome_iff_exists.mp isSome
    apply nothing known found
    have missing := only.id
    rwa [found] at missing

/-- At the end of the batch the bot will be stored. -/
def Pending (id : JsString) (updatedState : PartialBotsState) : Prop :=
  ∃ bot, lookup id updatedState = some (some bot) ∧ bot.id ≠ some id

/-- The storage has the record, or it will get it. -/
def Kept (batch : Batch) (rest : List BotAction) (id : JsString) : Prop :=
  StoredLater id rest ∨ Shaped space id (lookup id batch.state) ∧ (Pending id batch.updatedState ∨
    Shaped space id (lookup id batch.storage) ∧ SameRecord (lookup id batch.storage) (lookup id batch.state))

theorem storedLater_cons (later : StoredLater id (event :: rest)) : Stores id event ∨ StoredLater id rest := by
  obtain ⟨other, member, stores⟩ := later
  rcases List.mem_cons.mp member with first | inside
  · exact .inl (first ▸ stores)
  · exact .inr ⟨other, inside, stores⟩

theorem kept_other {next : Batch} (kept : Kept space batch (event :: rest) id) (other : ¬ Stores id event)
    (state : lookup id next.state = lookup id batch.state)
    (storage : lookup id next.storage = lookup id batch.storage)
    (updated : lookup id next.updatedState = lookup id batch.updatedState) : Kept space next rest id := by
  rcases kept with later | ⟨shaped, stored⟩
  · exact .inl ((storedLater_cons later).resolve_left other)
  · rw [Kept, Pending, state, storage, updated]
    exact .inr ⟨shaped, stored⟩

theorem kept_stored (shaped : Shaped space id (lookup id batch.state))
    (same : lookup id batch.storage = lookup id batch.state) : Kept space batch rest id := by
  refine .inr ⟨shaped, .inr ?_⟩
  rw [same]
  exact ⟨shaped, .refl _⟩

theorem applyEvent_update (updateStorage : Bool) (batch : Batch) (id : JsString)
    (readable : Readable (lookup id batch.state) tags masks)
    (quiet : ∀ known ∈ lookup id batch.state, ∀ values ∈ tags,
      throws (withTags tags known) (lookup id batch.updatedState).join values = false) :
    ∃ next, applyEvent space updateStorage batch (.updateBot id tags masks) = some next ∧ next.storage = batch.storage ∧
      (∀ other, lookup other next.state =
        if other = id then changed space (lookup id batch.state) tags masks else lookup other batch.state) ∧
      (∀ other, other ≠ id → lookup other next.updatedState = lookup other batch.updatedState) ∧
      (Idle (lookup id batch.state) tags masks →
        lookup id next.updatedState = lookup id batch.updatedState) ∧
      (¬ Idle (lookup id batch.state) tags masks → ∃ u, lookup id next.updatedState = some (some u) ∧
        u.id = (lookup id batch.updatedState).join.bind (·.id)) := by
  have ⟨updated, made, idle, busy⟩ := updateBot_spec space readable quiet
  have gone : updated = none → lookup id batch.updatedState = none := by
    intro isNone
    by_cases quietly : Idle (lookup id batch.state) tags masks
    · rw [← idle quietly, isNone]
    · obtain ⟨u, some', _⟩ := busy quietly
      rw [isNone] at some'
      cases some'
  refine ⟨{ state := setBot id batch.state (changed space (lookup id batch.state) tags masks)
            storage := batch.storage
            updatedState := setUpdated id batch.updatedState updated }, ?_, rfl, ?_, ?_, ?_, ?_⟩
  · rw [applyEvent, made]
    rfl
  · intro other
    exact lookup_setBot id other batch.state _ (changed_eq_none space)
  · intro other apart
    rw [lookup_setUpdated id other _ _ gone, if_neg apart]
  · intro quietly
    rw [lookup_setUpdated id id _ _ gone, if_pos rfl, idle quietly]
  · intro acts
    obtain ⟨u, shown, same⟩ := busy acts
    exact ⟨u, by rw [lookup_setUpdated id id _ _ gone, if_pos rfl, shown], same⟩

theorem applyEvent_kept (kept : ∀ id, Kept space batch (event :: rest) id) (allowed : EventAllowed batch rest event) :
    ∃ next, applyEvent space true batch event = some next ∧ ∀ id, Kept space next rest id := by
  cases event with
  | addBot id bot =>
    refine ⟨_, rfl, fun other => ?_⟩
    by_cases same : id = other
    · subst same
      rcases allowed with filled | later
      · apply kept_stored
        · simp only [lookup_assign, if_true]
          exact .inl ⟨rfl, filled, rfl⟩
        · simp only [storeBot, lookup_assign, if_true]
      · exact .inl later
    · have apart : other ≠ id := fun equal => same equal.symm
      refine kept_other space (kept other) same ?_ ?_ ?_ <;>
        simp only [storeBot, if_true, lookup_assign, if_neg apart]
  | removeBot id =>
    refine ⟨_, rfl, fun other => ?_⟩
    by_cases same : id = other
    · subst same
      apply kept_stored
      · simp only [lookup_remove, if_true]
        exact .inr (masksOnly_none space)
      · simp only [storeBot, lookup_remove, if_true]
    · have apart : other ≠ id := fun equal => same equal.symm
      refine kept_other space (kept other) same ?_ ?_ ?_ <;>
        simp only [storeBot, if_true, lookup_remove, lookup_assign, if_neg apart]
  | updateBot id tags masks =>
    obtain ⟨next, made, storage, state, others, idle, busy⟩ :=
      applyEvent_update space true batch id allowed.readable allowed.quiet
    refine ⟨next, made, fun other => ?_⟩
    by_cases same : other = id
    · subst same
      rcases allowed.stored with later | ⟨storable, nothing⟩
      · exact .inl later
      · rcases kept other with later | ⟨shaped, stored⟩
        · exact .inl ((storedLater_cons later).resolve_left id)
        · have here := state other
          rw [if_pos rfl] at here
          by_cases quietly : Idle (lookup other batch.state) tags masks
          · rw [changed_idle space quietly] at here
            rw [Kept, Pending, here, storage, idle quietly]
            exact .inr ⟨shaped, stored⟩
          · have named := storable.resolve_right quietly
            obtain ⟨u, shown, sameId⟩ := busy quietly
            refine .inr ⟨?_, .inl ⟨u, shown, ?_⟩⟩
            · rw [here]
              exact shaped_changed space shaped nothing
            · rw [sameId]
              exact named
    · refine kept_other space (kept other) (by exact False.elim) ?_ ?_ (others other same)
      · rw [state, if_neg same]
      · rw [storage]

theorem batch_kept (events : List BotAction) (batch : Batch) (kept : ∀ id, Kept space batch events id)
    (allowed : BatchAllowed space batch events) :
    ∃ last, runAll (applyEvent space true) batch events = some last ∧ ∀ id, Kept space last [] id := by
  induction events generalizing batch with
  | nil => exact ⟨batch, rfl, kept⟩
  | cons event rest ih =>
    have ⟨next, made, after⟩ := applyEvent_kept space kept allowed.1
    have ⟨last, ran, whole⟩ := ih next after (allowed.2 next made)
    refine ⟨last, ?_, whole⟩
    rw [runAll_cons, made]
    exact ran

theorem lookup_storeBot (id other : JsString) (bot : Option Bot) (storage : BotsState) :
    lookup other (storeBot id bot storage) = if other = id then bot else lookup other storage := by
  cases bot with
  | none => exact lookup_remove id other storage
  | some known => exact lookup_assign id other known storage

theorem lookup_storeUpdated (state storage : BotsState) (ids : List JsString) (id : JsString) :
    lookup id (storeUpdated state storage ids) =
      if id ∈ ids then lookup id state else lookup id storage := by
  induction ids generalizing storage with
  | nil => rfl
  | cons first rest ih =>
    rw [storeUpdated, List.foldl_cons]
    have later := ih (storeBot first (lookup first state) storage)
    rw [storeUpdated] at later
    rw [later, lookup_storeBot]
    by_cases inside : id ∈ rest
    · simp [inside]
    · by_cases same : id = first
      · simp [same]
      · simp [inside, same]

theorem mem_updatedBots {updatedState : PartialBotsState}
    (pending : Pending id updatedState) : id ∈ updatedBots updatedState := by
  obtain ⟨bot, found, named⟩ := pending
  apply List.mem_filterMap.mpr
  refine ⟨(id, some bot), mem_of_lookup id _ _ found, ?_⟩
  simp only [Option.bind_some, if_neg named]

/-- Between batches the storage has the records, and each is one that a new partition takes. -/
def Stored (s : State) : Prop := ∀ id, Shaped space id (lookup id s.state) ∧
  Shaped space id (lookup id s.storage) ∧ SameRecord (lookup id s.storage) (lookup id s.state)

theorem applyEvents_stored (s : State) (events : List BotAction) (stored : Stored space s)
    (allowed : Allowed space s (.applyEvents events)) :
    ∃ next, step space s (.applyEvents events) = some next ∧ Stored space next := by
  have first : ∀ id, Kept space { state := s.state, storage := s.storage, updatedState := [] } events id :=
    fun id => .inr ⟨(stored id).1, .inr (stored id).2⟩
  have ⟨batch, ran, kept⟩ := batch_kept space events _ first allowed
  refine ⟨{ state := batch.state
            storage := storeUpdated batch.state batch.storage (updatedBots batch.updatedState) }, ?_, ?_⟩
  · rw [step, applyEvents, ran]
    rfl
  · intro id
    rcases kept id with later | ⟨shaped, whole⟩
    · obtain ⟨event, member, _⟩ := later
      cases member
    · rw [lookup_storeUpdated]
      by_cases written : id ∈ updatedBots batch.updatedState
      · rw [if_pos written]
        exact ⟨shaped, shaped, .refl _⟩
      · rw [if_neg written]
        exact ⟨shaped, whole.resolve_left fun pending => written (mem_updatedBots pending)⟩

end Batches

/-! ### Loading -/

section Loading

variable (space : JsString)

theorem lookup_other {masks : List (JsString × Fields)} (spaces : ∀ entry ∈ masks, entry.1 = space)
    {other : JsString} (apart : other ≠ space) : lookup other masks = none := by
  cases found : lookup other masks with
  | none => rfl
  | some fields => exact absurd (spaces _ (mem_of_lookup other fields masks found)) apart

theorem loaded_masks {bot : Bot} (only : MasksOnly space (some bot)) (tags : Option Fields) :
    SameRecord (changed space none tags (bot.masks.bind (lookup space))) (some bot) where
  id := (other_changed space none tags _).1.trans only.id.symm
  space := (other_changed space none tags _).2.1.trans only.unplaced.symm
  tags tag := by
    rw [tagOf_changed, only.tags]
    rfl
  signatures hash := by
    rw [(other_changed space none tags _).2.2, only.signatures]
    rfl
  masks other tag := by
    rw [maskOf_changed]
    by_cases own : other = space
    · subst own
      have given : lookup tag ((bot.masks.bind (lookup other)).getD []) = maskOf other (some bot) tag := by
        simp only [maskOf, Option.bind_some]
        cases bot.masks <;> rfl
      rw [if_pos rfl, given]
      cases found : maskOf other (some bot) tag with
      | none => rfl
      | some v => exact set_steady (only.steady tag v found) _
    · have nothing : maskOf other (some bot) tag = none := by
        rw [maskOf, lookup_other space only.spaces own]
        rfl
      rw [if_neg own, nothing]
      rfl

def Loaded (id : JsString) (loaded stored : Option Bot) : Prop :=
  SameRecord loaded stored ∧ Shaped space id loaded

theorem loadEvent_spec {id : JsString} {bot : Bot} (shaped : Shaped space id (some bot)) (batch : Batch)
    (state : lookup id batch.state = none) :
    ∃ event, loadEvent space id bot = some event ∧ ∃ next, applyEvent space false batch event = some next ∧
        Loaded space id (lookup id next.state) (some bot) ∧
          ∀ other, other ≠ id → lookup other next.state = lookup other batch.state := by
  rcases shaped with ⟨named, filled, placed⟩ | only
  · have ⟨c, rest, isId⟩ := List.exists_cons_of_ne_nil filled
    have stored : bot.id = some (c :: rest) := isId ▸ named
    have event : loadEvent space id bot = some (.addBot id bot) := by
      rw [loadEvent, stored, isId]
    refine ⟨_, event, _, rfl, ?_, ?_⟩
    · rw [lookup_assign, if_pos rfl]
      exact ⟨⟨named.symm, placed.symm, fun _ => rfl, fun _ => rfl, fun _ _ => rfl⟩, .inl ⟨rfl, filled, rfl⟩⟩
    · intro other apart
      rw [lookup_assign, if_neg apart]
  · have stored : bot.id = none := only.id
    have alone : (bot.masks.getD []).any (fun masks => masks.1 != space) = false := by
      apply List.any_eq_false.mpr
      intro masks member
      have same : masks.1 = space := only.spaces masks member
      simp [same]
    have event : loadEvent space id bot = some (.updateBot id bot.tags (bot.masks.bind (lookup space))) := by
      simp only [loadEvent, stored, alone, Bool.and_false, Bool.false_eq_true, if_false]
    have own : (bot.masks.bind (lookup space)).getD [] = (lookup space (bot.masks.getD [])).getD [] := by
      cases bot.masks <;> rfl
    have readable : Readable (lookup id batch.state) bot.tags (bot.masks.bind (lookup space)) := by
      rw [state]
      refine ⟨fun known => absurd known Bool.false_ne_true, ?_⟩
      rw [own]
      exact only.readable
    obtain ⟨next, made, _, states, _⟩ := applyEvent_update space false batch id readable
      (fun known found => by rw [state] at found; cases found)
    refine ⟨_, event, next, made, ?_, ?_⟩
    · rw [states id, if_pos rfl, state]
      have empty : MasksOnly space (changed space none bot.tags (bot.masks.bind (lookup space))) :=
        masksOnly_changed space (masksOnly_none space) fun known => absurd known Bool.false_ne_true
      exact ⟨loaded_masks space only bot.tags, .inr empty⟩
    · intro other apart
      rw [states other, if_neg apart]

theorem load_keys (storage : BotsState) (keys : List JsString) (batch : Batch) (distinct : keys.Nodup)
    (shaped : ∀ id ∈ keys, ∃ bot, lookup id storage = some bot ∧ Shaped space id (some bot))
    (fresh : ∀ id ∈ keys, lookup id batch.state = none) :
    ∃ events, (keys.mapM fun id => (lookup id storage).bind (loadEvent space id)) = some events ∧
      ∃ last, runAll (applyEvent space false) batch events = some last ∧
        (∀ id ∈ keys, Loaded space id (lookup id last.state) (lookup id storage)) ∧
          ∀ id, id ∉ keys → lookup id last.state = lookup id batch.state := by
  induction keys generalizing batch with
  | nil => exact ⟨[], rfl, batch, rfl, fun _ member => absurd member List.not_mem_nil, fun _ _ => rfl⟩
  | cons id rest ih =>
    have ⟨outside, apart⟩ := List.nodup_cons.mp distinct
    have ⟨bot, found, form⟩ := shaped id List.mem_cons_self
    have ⟨event, made, next, ran, same, others⟩ :=
      loadEvent_spec space form batch (fresh id List.mem_cons_self)
    have later : ∀ other ∈ rest, lookup other next.state = none := by
      intro other member
      rw [others other (fun equal => outside (equal ▸ member))]
      exact fresh other (List.mem_cons_of_mem _ member)
    have ⟨events, listed, last, ends, loaded, left⟩ :=
      ih next apart (fun other member => shaped other (List.mem_cons_of_mem _ member)) later
    refine ⟨event :: events, ?_, last, ?_, ?_, ?_⟩
    · rw [List.mapM_cons, found, Option.bind_some, made, listed]
      rfl
    · rw [runAll_cons, ran]
      exact ends
    · intro other member
      rcases List.mem_cons.mp member with first | inside
      · rw [first, left id outside, found]
        exact same
      · exact loaded other inside
    · intro other gone
      rw [List.mem_cons, not_or] at gone
      rw [left other gone.2, others other gone.1]

theorem load_stored {s : State} (stored : Stored space s) (keys : List JsString) (lists : Lists keys s.storage) :
    ∃ loaded, loadExistingBots space keys s.storage = some loaded ∧
      ∀ id, Loaded space id (lookup id loaded) (lookup id s.storage) := by
  have shaped : ∀ id ∈ keys, ∃ bot, lookup id s.storage = some bot ∧ Shaped space id (some bot) := by
    intro id member
    have ⟨bot, found⟩ := Option.isSome_iff_exists.mp ((lists.2 id).mp member)
    exact ⟨bot, found, found ▸ (stored id).2.1⟩
  have ⟨events, listed, last, ran, loaded, left⟩ := load_keys space s.storage keys
    { state := [], storage := s.storage, updatedState := [] } lists.1 shaped (fun _ _ => rfl)
  refine ⟨last.state, ?_, fun id => ?_⟩
  · rw [loadExistingBots, listed, Option.bind_some, ran]
    rfl
  · by_cases member : id ∈ keys
    · exact loaded id member
    · have missing : lookup id s.storage = none := by
        have absent := fun isSome => member ((lists.2 id).mpr isSome)
        simpa using absent
      rw [left id member, missing]
      exact ⟨.refl _, .inr (masksOnly_none space)⟩

theorem step_stored (s : State) (label : Label) (stored : Stored space s) (allowed : Allowed space s label) :
    ∃ next, step space s label = some next ∧ Stored space next := by
  cases label with
  | applyEvents events => exact applyEvents_stored space s events stored allowed
  | connect keys =>
    have ⟨loaded, ran, same⟩ := load_stored space stored keys allowed
    refine ⟨{ state := loaded, storage := s.storage }, ?_, fun id => ?_⟩
    · rw [step, ran]
      rfl
    · exact ⟨(same id).2, (stored id).2.1, (same id).1.symm⟩

/-- After every batch a new partition loads what this one holds, and no batch throws. -/
theorem reloads_to_state {s : State} (reached : Reaches (step space) (Allowed space) start s) :
    Reloads space s ∧ ∀ label, Allowed space s label → (step space s label).isSome = true := by
  have stored : Stored space s := by
    apply reached.invariant (Stored space)
    · exact fun id => ⟨.inr (masksOnly_none space), .inr (masksOnly_none space), .refl _⟩
    · intro state label next holds allowed ran
      have ⟨other, made, after⟩ := step_stored space state label holds allowed
      have same := Option.some.inj (made.symm.trans ran)
      exact same ▸ after
  constructor
  · intro keys lists
    have ⟨loaded, ran, same⟩ := load_stored space stored keys lists
    exact ⟨loaded, ran, fun id => (same id).1.trans (stored id).2.2⟩
  · intro label allowed
    have ⟨next, made, _⟩ := step_stored space s label stored allowed
    rw [made]
    rfl

end Loading

/-! ### A tag that is set in the batch that adds its bot -/

section Sample

def adding : BotAction := .addBot name (sampleBot (lit ['x']))

def setting : BotAction := .updateBot name (some [(name, .string (lit ['y']))]) none

def storedAs (text : JsString) : BotsState := [(name, MemoryPartition.storedBot text)]

/-- In a batch of its own the tag is stored. -/
theorem set_tag_reloads :
    ∃ s, runAll (step name) start [.applyEvents [adding], .applyEvents [setting]] = some s ∧
      tagOf (lookup name s.state) name = some (.string (lit ['y'])) ∧ Reloads name s := by
  let first : State :=
    { state := storedAs (lit ['x']), storage := storedAs (lit ['x']) }
  let last : State :=
    { state := storedAs (lit ['y']), storage := storedAs (lit ['y']) }
  have added : step name start (.applyEvents [adding]) = some first := by rfl
  have tagSet : step name first (.applyEvents [setting]) = some last := by rfl
  have addAllowed : Allowed name start (.applyEvents [adding]) :=
    ⟨.inl (by simp [name, lit]), fun _ _ => trivial⟩
  have setAllowed : Allowed name first (.applyEvents [setting]) := by
    refine ⟨⟨⟨fun _ => by decide +kernel, by decide +kernel⟩, ?_, .inr ⟨.inl ?_, ?_⟩⟩, fun _ _ => trivial⟩
    · intro known found values given
      rw [← Option.some.inj found, ← Option.some.inj given]
      rfl
    · exact fun impossible => by cases impossible
    · intro known found named
      rw [← Option.some.inj found] at named
      cases named
  have reached : Reaches (step name) (Allowed name) start last :=
    .step (.applyEvents [setting]) (.step (.applyEvents [adding]) .start addAllowed added) setAllowed tagSet
  refine ⟨last, ?_, rfl, (reloads_to_state name reached).1⟩
  rw [runAll_cons, added, Option.bind_some, runAll_cons, tagSet]
  rfl

/-- In the batch that adds the bot it is not. -/
theorem tag_of_added_bot_lost :
    ∃ s, step name start (.applyEvents [adding, setting]) = some s ∧ ¬ Reloads name s := by
  let s : State :=
    { state := storedAs (lit ['y']), storage := storedAs (lit ['x']) }
  refine ⟨s, by rfl, fun reloads => ?_⟩
  have lists : Lists [name] s.storage := by
    refine ⟨List.nodup_singleton name, fun id => ?_⟩
    by_cases same : id = name <;> simp [s, storedAs, lookup, same]
  obtain ⟨loaded, ran, same⟩ := reloads [name] lists
  have shown : loadExistingBots name [name] s.storage = some (storedAs (lit ['x'])) := by rfl
  have isLoaded := Option.some.inj (shown.symm.trans ran)
  have tags := (same name).tags name
  rw [← isLoaded] at tags
  have texts : some (Json.string (lit ['x'])) = some (Json.string (lit ['y'])) := tags
  simp [lit] at texts

end Sample

end CasualOS.LocalStoragePartition
