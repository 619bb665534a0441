import CasualOS.MemoryPartition

/-! Actions on bots, and what a memory partition makes of one of them. -/

namespace CasualOS.BotActions

open OrderedMap TagEdit Run
open MemoryPartition (applyEvent clean cleanAll clean_edit clean_plain emptyBot lookup_cleanAll maskOf tagOf
  throws updateEntry)
open Option (getD_some map_some)

/-- The masks of an update are those of the space of the partition that it is sent to. -/
inductive BotAction where
  | addBot (id : JsString) (bot : Bot)
  | removeBot (id : JsString)
  | updateBot (id : JsString) (tags masks : Option Fields)

/-- The lists of operations are read of every edit that is applied. -/
def Readable (bot : Option Bot) (tags masks : Option Fields) : Prop :=
  (bot.isSome = true → ReadableTags (tags.getD [])) ∧ ReadableTags (masks.getD [])

instance (bot : Option Bot) (tags masks : Option Fields) : Decidable (Readable bot tags masks) :=
  inferInstanceAs (Decidable (_ ∧ _))

def setBot (id : JsString) (state : BotsState) : Option Bot → BotsState
  | none => state
  | some bot => assign id bot state

def setUpdated (id : JsString) (updatedState : PartialBotsState) : Option (Option Bot) → PartialBotsState
  | none => updatedState
  | some updated => assign id updated updatedState

/-- `_applyEvents` of a memory partition for one action. -/
def applyAction (space : JsString) (batch : MemoryPartition.Batch) : BotAction → Option MemoryPartition.Batch
  | .addBot id bot =>
    let added := { bot with id := some id, space := some space }
    some { state := assign id added batch.state, updated := assign id (some added) batch.updated }
  | .removeBot id =>
    some { state := remove id batch.state, updated := assign id none batch.updated }
  | .updateBot id tags masks =>
    if Readable (lookup id batch.state) tags masks then
      (updateEntry space (lookup id batch.state) (lookup id batch.updated) tags masks).map fun made =>
        { state := setBot id batch.state made.1, updated := setUpdated id batch.updated made.2 }
    else none

section Bots

variable (space : JsString)

def changedTags (old tags : Option Fields) : Option Fields :=
  match tags with
  | none => old
  | some values =>
    (if values.isEmpty then old else some (old.getD [])).map fun before =>
      combine setTag before (cleanAll values)

def changedMasks (old : Option (List (JsString × Fields))) (masks : Option Fields) :
    Option (List (JsString × Fields)) :=
  match masks with
  | none => old
  | some values => dropEmpty (setAll setSpace old (some [(space, cleanAll values)]))

/-- What becomes of the bot, whatever the batch has updated before. -/
def changed (bot : Option Bot) (tags masks : Option Fields) : Option Bot :=
  match bot, masks with
  | some old, _ =>
    some { old with tags := changedTags old.tags tags, masks := changedMasks space old.masks masks }
  | none, some _ => some { emptyBot with masks := changedMasks space none masks }
  | none, none => none

/-- An update that names nothing of what the record has. -/
def Idle (bot : Option Bot) (tags masks : Option Fields) : Prop := (tags = none ∨ bot = none) ∧ masks = none

theorem not_idle_masks (bot : Option Bot) (tags : Option Fields) (values : Fields) : ¬ Idle bot tags (some values) := by
  intro idle
  cases idle.2

theorem not_idle_tags (old : Bot) (values : Fields) (masks : Option Fields) :
    ¬ Idle (some old) (some values) masks := by
  intro idle
  rcases idle.1 with none' | none' <;> cases none'

theorem changedTags_map {old : Option Fields} {values : Fields} (tagged : values.isEmpty = true ∨ old.isSome = true) :
    old.map (fun before => combine setTag before (cleanAll values)) = changedTags old (some values) := by
  simp only [changedTags]
  split
  · rfl
  · next filled =>
      obtain ⟨before, known⟩ := Option.isSome_iff_exists.mp (tagged.resolve_left filled)
      rw [known]
      rfl

theorem tagged_of_quiet {bot : Bot} {last : Option Bot} {values : Fields}
    (quiet : throws bot last values = false) : values.isEmpty = true ∨ bot.tags.isSome = true := by
  cases empty : values.isEmpty with
  | true => exact .inl rfl
  | false =>
    cases tags : bot.tags with
    | some fields => exact .inr rfl
    | none =>
      rw [throws, empty, tags] at quiet
      cases quiet

variable {bot : Option Bot} {tags masks : Option Fields} {w v : Json}

theorem updateEntry_spec {updated : Option (Option Bot)}
    (quiet : ∀ known ∈ bot, ∀ values ∈ tags, throws known updated.join values = false) :
    ∃ updated', updateEntry space bot updated tags masks = some (changed space bot tags masks, updated') ∧
      (Idle bot tags masks → updated' = updated) ∧
        (¬ Idle bot tags masks → ∃ u, updated' = some (some u) ∧ u.id = updated.join.bind (·.id)) := by
  have lastId : (updated.join.getD emptyBot).id = updated.join.bind (·.id) := by
    cases updated.join <;> rfl
  cases bot with
  | none =>
    cases masks with
    | none =>
      refine ⟨updated, ?_, fun _ => rfl, fun busy => absurd ⟨.inr rfl, rfl⟩ busy⟩
      cases tags <;> rfl
    | some values =>
      have made : ∃ u : Bot, updateEntry space none updated tags (some values) =
          some (changed space none tags (some values), some (some u)) ∧
            u.id = (updated.join.getD emptyBot).id := by
        cases tags <;> exact ⟨_, rfl, rfl⟩
      obtain ⟨u, shown, same⟩ := made
      refine ⟨_, shown, ?_, fun _ => ⟨u, rfl, same.trans lastId⟩⟩
      exact fun idle => absurd idle (not_idle_masks none tags values)
  | some old =>
    cases tags with
    | none =>
      cases masks with
      | none => exact ⟨updated, rfl, fun _ => rfl, fun busy => absurd ⟨.inl rfl, rfl⟩ busy⟩
      | some values =>
        refine ⟨_, rfl, ?_, fun _ => ⟨_, rfl, lastId⟩⟩
        exact fun idle => absurd idle (not_idle_masks (some old) none values)
    | some values =>
      have calm := quiet old rfl values rfl
      have made : ∃ u : Bot, updateEntry space (some old) updated (some values) masks =
          some (changed space (some old) (some values) masks, some (some u)) ∧
            u.id = (updated.join.getD emptyBot).id := by
        simp only [updateEntry, calm, Bool.false_eq_true, if_false, changedTags_map (tagged_of_quiet calm), changed]
        cases masks <;> exact ⟨_, rfl, rfl⟩
      obtain ⟨u, shown, same⟩ := made
      refine ⟨_, shown, ?_, fun _ => ⟨u, rfl, same.trans lastId⟩⟩
      exact fun idle => absurd idle (not_idle_tags old values masks)

theorem lookup_changedTags (old tags : Option Fields) (tag : JsString) : lookup tag ((changedTags old tags).getD []) =
      setTag (lookup tag (old.getD [])) ((lookup tag (tags.getD [])).map clean) := by
  cases tags with
  | none => rfl
  | some values =>
    rw [changedTags, getD_some]
    split
    · next isEmpty =>
        rw [List.isEmpty_iff.mp isEmpty]
        cases old with
        | none => rfl
        | some before => exact lookup_combine (setTag_none none) tag before []
    · rw [map_some, getD_some, lookup_combine (setTag_none none), lookup_cleanAll]

theorem isSome_changedTags (old tags : Option Fields) :
    (changedTags old tags).isSome = (old.isSome || !(tags.getD []).isEmpty) := by
  cases tags with
  | none => simp [changedTags]
  | some values =>
    rw [changedTags, getD_some]
    cases values.isEmpty <;> cases old <;> rfl

theorem lookup_setSpace (old : Option Fields) (values : Fields) (tag : JsString) :
    lookup tag ((setSpace old (some values)).getD []) =
      setTag (lookup tag (old.getD [])) (lookup tag values) := by
  rw [setSpace, getD_dropEmpty, getD_some, lookup_combine (setTag_none none)]

theorem spaces_changedMasks (old : Option (List (JsString × Fields))) (masks : Option Fields)
    (other : JsString) : lookup other ((changedMasks space old masks).getD []) =
      setSpace (lookup other (old.getD [])) (if other = space then masks.map cleanAll else none) := by
  cases masks with
  | none =>
    rw [changedMasks, Option.map_none, ite_self]
    rfl
  | some values =>
    rw [changedMasks, getD_dropEmpty, lookup_setAll setSpace_none]
    simp only [getD_some, lookup, map_some]

theorem lookup_changedMasks (old : Option (List (JsString × Fields))) (masks : Option Fields) (other tag : JsString) :
    lookup tag ((lookup other ((changedMasks space old masks).getD [])).getD []) =
      setTag (lookup tag ((lookup other (old.getD [])).getD []))
        (if other = space then (lookup tag (masks.getD [])).map clean else none) := by
  rw [spaces_changedMasks]
  by_cases own : other = space
  · rw [if_pos own, if_pos own]
    cases masks with
    | none => rfl
    | some values => rw [map_some, lookup_setSpace, lookup_cleanAll, getD_some]
  · rw [if_neg own, if_neg own]
    rfl

theorem tagOf_changed (bot : Option Bot) (tags masks : Option Fields) (tag : JsString) :
    tagOf (changed space bot tags masks) tag =
      setTag (tagOf bot tag) (if bot.isSome then (lookup tag (tags.getD [])).map clean else none) := by
  cases bot with
  | none => cases masks <;> rfl
  | some old => exact lookup_changedTags old.tags tags tag

theorem maskOf_changed (bot : Option Bot) (tags masks : Option Fields) (other tag : JsString) :
    maskOf other (changed space bot tags masks) tag = setTag (maskOf other bot tag)
      (if other = space then (lookup tag (masks.getD [])).map clean else none) := by
  cases bot with
  | none =>
    cases masks with
    | none =>
      simp only [changed, Option.getD_none, lookup, Option.map_none, ite_self, setTag_none]
    | some values => exact lookup_changedMasks space none (some values) other tag
  | some old => exact lookup_changedMasks space old.masks masks other tag

theorem other_changed (bot : Option Bot) (tags masks : Option Fields) :
    (changed space bot tags masks).bind (·.id) = bot.bind (·.id) ∧
      (changed space bot tags masks).bind (·.space) = bot.bind (·.space) ∧
        (changed space bot tags masks).bind (·.signatures) = bot.bind (·.signatures) := by
  cases bot with
  | none => cases masks <;> exact ⟨rfl, rfl, rfl⟩
  | some old => exact ⟨rfl, rfl, rfl⟩

theorem spaces_changed (own : ∀ entry ∈ (bot.bind (·.masks)).getD [], entry.1 = space) :
    ∀ entry ∈ ((changed space bot tags masks).bind (·.masks)).getD [], entry.1 = space := by
  have grown : ∀ old : Option (List (JsString × Fields)), (∀ entry ∈ old.getD [], entry.1 = space) →
      ∀ entry ∈ (changedMasks space old masks).getD [], entry.1 = space := by
    intro old inside entry member
    cases masks with
    | none => exact inside entry member
    | some values =>
      rw [changedMasks, getD_dropEmpty] at member
      have made : setSpace (lookup entry.1 (old.getD [])) (lookup entry.1 [(space, cleanAll values)]) =
          some entry.2 := mem_combine member
      by_contra apart
      have nothing : lookup entry.1 [(space, cleanAll values)] = none := by
        simp [lookup, apart]
      rw [nothing, setSpace_none] at made
      exact apart (inside _ (mem_of_lookup _ _ _ made))
  cases bot with
  | none =>
    cases masks with
    | none => exact own
    | some values => exact grown none (fun _ member => by cases member)
  | some old => exact grown old.masks own

/-- A value that an update leaves, and that it sets to what it is. -/
def Steady (v : Json) : Prop := present v = some v ∧ clean v = v ∧ isTagEdit v = false

theorem clean_clean (v : Json) : clean (clean v) = clean v := by
  by_cases empty : v = .string []
  · rw [empty]
    rfl
  · have kept : clean v = v := by
      unfold clean
      split
      · exact absurd rfl empty
      · rfl
    rw [kept, kept]

theorem steady_text {old : Option Json} {lists : List (List TagEditOp)}
    (made : present (applyTagEdit old lists) = some w) : Steady w := by
  unfold applyTagEdit at made
  cases text : applyEdit old lists with
  | nil =>
    rw [text] at made
    cases made
  | cons c rest =>
    rw [text] at made
    cases made
    exact ⟨rfl, rfl, rfl⟩

theorem steady_clean (plain : isTagEdit v = false) (made : present (clean v) = some w) : Steady w := by
  have kept : clean v = w := by
    unfold present at made
    split at made
    · cases made
    · exact Option.some.inj made
  subst kept
  exact ⟨made, clean_clean v, clean_plain plain⟩

theorem steady_of_setTag {old : Option Json} (made : setTag old (some (clean v)) = some w) : Steady w := by
  by_cases edit : isTagEdit v = true
  · rw [clean_edit edit, setTag, if_pos edit] at made
    exact steady_text made
  · have plain := Bool.eq_false_iff.mpr edit
    rw [setTag, clean_plain plain] at made
    exact steady_clean plain made

theorem set_steady (steady : Steady v) (old : Option Json) : setTag old (some (clean v)) = some v := by
  obtain ⟨shown, kept, plain⟩ := steady
  rw [kept, setTag, plain]
  exact shown

theorem lookup_setBot (id other : JsString) (state : BotsState) (bot : Option Bot)
    (gone : bot = none → lookup id state = none) :
    lookup other (setBot id state bot) = if other = id then bot else lookup other state := by
  cases bot with
  | none =>
    by_cases same : other = id
    · rw [if_pos same, same]
      exact gone rfl
    · rw [if_neg same]
      rfl
  | some known => exact lookup_assign id other known state

theorem lookup_setUpdated (id other : JsString) (updatedState : PartialBotsState)
    (updated : Option (Option Bot)) (gone : updated = none → lookup id updatedState = none) :
    lookup other (setUpdated id updatedState updated) =
      if other = id then updated else lookup other updatedState := by
  cases updated with
  | none =>
    by_cases same : other = id
    · rw [if_pos same, same]
      exact gone rfl
    · rw [if_neg same]
      rfl
  | some known => exact lookup_assign id other known updatedState

theorem changed_eq_none (nothing : changed space bot tags masks = none) : bot = none := by
  cases bot with
  | none => rfl
  | some old => cases nothing

/-- What an update makes of the state and of what has been updated. -/
theorem changed_idle (idle : Idle bot tags masks) : changed space bot tags masks = bot := by
  obtain ⟨unnamed, noMasks⟩ := idle
  rw [noMasks]
  cases bot with
  | none => rfl
  | some old =>
    rcases unnamed with noTags | missing
    · rw [noTags]
      rfl
    · cases missing

end Bots

theorem applyAction_update (space : JsString) (batch : MemoryPartition.Batch) (id : JsString)
    {tags masks : Option Fields} (readable : Readable (lookup id batch.state) tags masks)
    (quiet : ∀ known ∈ lookup id batch.state, ∀ values ∈ tags,
      throws known (lookup id batch.updated).join values = false) :
    ∃ next, applyAction space batch (.updateBot id tags masks) = some next ∧ ∀ other, lookup other next.state =
        if other = id then changed space (lookup id batch.state) tags masks else lookup other batch.state := by
  obtain ⟨updated, made, _⟩ := updateEntry_spec space quiet
  refine ⟨{ state := setBot id batch.state (changed space (lookup id batch.state) tags masks)
            updated := setUpdated id batch.updated updated }, ?_, ?_⟩
  · rw [applyAction, if_pos readable, made]
    rfl
  · intro other
    exact lookup_setBot id other batch.state _ (changed_eq_none space)

/-! ### One record -/

section Records

variable (space : JsString)

def effect (id : JsString) (record : Option Bot) : BotAction → Option Bot
  | .addBot other bot =>
    if other = id then some { bot with id := some other, space := some space } else record
  | .removeBot other => if other = id then none else record
  | .updateBot other tags masks => if other = id then changed space record tags masks else record

theorem quiet_of_made {bot : Option Bot} {updated : Option (Option Bot)} {tags masks : Option Fields}
    {made : Option Bot × Option (Option Bot)}
    (isMade : updateEntry space bot updated tags masks = some made) :
    ∀ known ∈ bot, ∀ values ∈ tags, throws known updated.join values = false := by
  intro known isKnown values isTags
  cases isKnown
  cases isTags
  by_contra throwing
  have thrown : throws known updated.join values = true := by simpa using throwing
  simp only [updateEntry, thrown, if_true] at isMade
  cases isMade

theorem applyAction_effect {batch next : MemoryPartition.Batch} {action : BotAction}
    (made : applyAction space batch action = some next) (id : JsString) :
    lookup id next.state = effect space id (lookup id batch.state) action := by
  cases action with
  | addBot other bot =>
    cases made
    rw [lookup_assign, effect]
    by_cases same : id = other
    · rw [if_pos same, if_pos same.symm]
    · rw [if_neg same, if_neg (fun equal => same equal.symm)]
  | removeBot other =>
    cases made
    rw [lookup_remove, effect]
    by_cases same : id = other
    · rw [if_pos same, if_pos same.symm]
    · rw [if_neg same, if_neg (fun equal => same equal.symm)]
  | updateBot other tags masks =>
    have readable : Readable (lookup other batch.state) tags masks := by
      by_contra unreadable
      rw [applyAction, if_neg unreadable] at made
      cases made
    have entry := made
    rw [applyAction, if_pos readable] at entry
    obtain ⟨pair, isMade, _⟩ := Option.map_eq_some_iff.mp entry
    obtain ⟨after, ran, states⟩ :=
      applyAction_update space batch other readable (quiet_of_made space isMade)
    have same := Option.some.inj (ran.symm.trans made)
    rw [← same, states, effect]
    by_cases here : id = other
    · rw [if_pos here, if_pos here.symm, here]
    · rw [if_neg here, if_neg (fun equal => here equal.symm)]

theorem runAll_effect {last : MemoryPartition.Batch} (actions : List BotAction)
    (batch : MemoryPartition.Batch) (ran : runAll (applyAction space) batch actions = some last)
    (id : JsString) : lookup id last.state = actions.foldl (effect space id) (lookup id batch.state) := by
  induction actions generalizing batch with
  | nil =>
    cases ran
    rfl
  | cons action rest ih =>
    rw [runAll_cons] at ran
    obtain ⟨next, made, later⟩ := Option.bind_eq_some_iff.mp ran
    rw [ih next later, applyAction_effect space made id]
    rfl

def Names (id : JsString) : BotAction → Prop
  | .addBot other _ => other = id
  | .removeBot other => other = id
  | .updateBot other _ _ => other = id

theorem effect_of_not_names {id : JsString} {action : BotAction} (apart : ¬ Names id action) (record : Option Bot) :
    effect space id record action = record := by
  cases action with
  | addBot other bot => exact if_neg apart
  | removeBot other => exact if_neg apart
  | updateBot other tags masks => exact if_neg apart

end Records

end CasualOS.BotActions
