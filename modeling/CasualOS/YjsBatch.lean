import CasualOS.YjsPartition

/-! What a batch of actions makes of a shared document, and what its actions make of it one at a time. -/

namespace CasualOS.YjsBatch

open OrderedMap TagEdit Run
open MemoryPartition (clean tagOf)
open YjsPartition
open Option (isSome_iff_exists map_eq_some_iff)

structure PlainValue where
  value : Json
  plain : isTagEdit value = false

abbrev Values := OrderedMap JsString PlainValue

/-- The masks are those of the partition's space. -/
inductive Action where
  | addBot (id : JsString) (tags masks : Values)
  | removeBot (id : JsString)
  | updateBot (id : JsString) (tags masks : Option Values)

/-- Whether the value of a tag is the very object that the state has of it cannot be told by the value. -/
structure Sent where
  action : Action
  inBatch : JsString → Bool
  alone : JsString → Bool

structure Written where
  doc : Doc
  names : Nat

/-- A map while its values are set, and the names that are taken. -/
structure Made where
  values : List (JsString × MapValue)
  names : Nat

def hasValue : Json → Bool
  | .null => false
  | .string [] => false
  | _ => true

def mapValue (name : Nat) : PlainValue → MapValue
  | ⟨.string text, _⟩ => .text name text
  | ⟨value, plain⟩ => .plain value plain

def setValue (made : Made) (key : JsString) (v : PlainValue) : Made :=
  { values := assign key (mapValue made.names v) made.values, names := made.names + 1 }

def updateValueInMap (made : Made) (key : JsString) (v : PlainValue) : Made :=
  if hasValue v.value then setValue made key v else { made with values := remove key made.values }

def setValues (made : Made) (entries : List (JsString × PlainValue)) : Made :=
  entries.foldl (fun made entry => if hasValue entry.2.value then setValue made entry.1 entry.2 else made) made

/-- `newVal === oldVal`, and no array: an object is the one that the state has when it is its own. -/
def skips (own : Bool) (v : PlainValue) (old : Option Json) : Bool :=
  match v.value, old with
  | .null, some .null => true
  | .boolean new, some (.boolean value) => new == value
  | .integer new, some (.integer value) => new == value
  | .decimal new, some (.decimal value) => new == value
  | .string new, some (.string value) => new == value
  | .object _, some (.object _) => own
  | _, _ => false

def updateTags (old : Fields) (own : JsString → Bool) (made : Made) (entries : List (JsString × PlainValue)) :
    Made :=
  entries.foldl (fun made entry =>
    if skips (own entry.1) entry.2 (lookup entry.1 old) then made
    else updateValueInMap made entry.1 entry.2) made

def updateMasks (made : Made) (entries : List (JsString × PlainValue)) : Made :=
  entries.foldl (fun made entry => updateValueInMap made entry.1 entry.2) made

def maskEntries (id : JsString) (masks : Values) : List (JsString × PlainValue) :=
  masks.entries.map fun entry => (tagMaskId id entry.1, entry.2)

def updateBotTags (state : BotsState) (own : JsString → Bool) (written : Written) (id : JsString)
    (tags : Values) : Option Written :=
  match lookup id state, lookup id written.doc.bots with
  | some bot, some map =>
    if tags.entries.isEmpty then some written
    else bot.tags.map fun old =>
      let made := updateTags old own { values := map.tags, names := written.names } tags.entries
      { doc := { written.doc with bots := assign id { map with tags := made.values } written.doc.bots }
        names := made.names }
  | _, _ => some written

def updateBotMasks (written : Written) (id : JsString) (masks : Values) : Written :=
  let made := updateMasks { values := written.doc.masks, names := written.names } (maskEntries id masks)
  { doc := { written.doc with masks := made.values }, names := made.names }

/-- One event of `_applyEvents`, checked against the state. -/
def applyEvent (state : BotsState) (own : JsString → Bool) (written : Written) : Action → Option Written
  | .addBot id tags masks =>
    let map := setValues { values := [], names := written.names } tags.entries
    let set := setValues { values := written.doc.masks, names := map.names } (maskEntries id masks)
    some
      { doc :=
          { bots := assign id { name := set.names, tags := map.values } written.doc.bots
            masks := set.values }
        names := set.names + 1 }
  | .removeBot id =>
    some { written with doc := { written.doc with bots := remove id written.doc.bots } }
  | .updateBot id tags masks =>
    let updated := match tags with
      | none => some written
      | some tags => updateBotTags state own written id tags
    updated.map fun written => match masks with
      | none => written
      | some masks => updateBotMasks written id masks

def applyEvents (state : BotsState) (written : Written) (events : List Sent) : Option Written :=
  runAll (fun written sent => applyEvent state sent.inBatch written sent.action) written events

structure Local where
  written : Written
  partition : BotsState

def Action.id : Action → JsString
  | .addBot id _ _ => id
  | .removeBot id => id
  | .updateBot id _ _ => id

/-- A call edits no text, and sets no masks but those of its bot. -/
structure Caused (action : Action) (t : Transaction) : Prop where
  noTexts : ∀ id tag delta, .text id tag delta ∉ t.bots
  masks : ∀ event ∈ t.masks, ∀ key, MaskKey event key → ∃ tag, key = tagMaskId action.id tag

/-- An object that is the state's own is as the state has it. -/
def Identical (state : BotsState) (own : JsString → Bool) : Action → Prop
  | .updateBot id (some tags) _ => ∀ tag v, lookup tag tags.entries = some v → own tag = true →
      v.value.isObject = true → tagOf (lookup id state) tag = some v.value
  | _ => True

/-- Calls with one action each, and what the transaction of each reports. -/
inductive OneAtATime (space : JsString) : Local → List Sent → Local → Prop where
  | done (s : Local) : OneAtATime space s [] s
  | call {s last : Local} {sent : Sent} {rest : List Sent} {written : Written} {partition : BotsState}
      (t : Transaction) (own : Identical s.partition sent.alone sent.action)
      (applied : applyEvent s.partition sent.alone s.written sent.action = some written)
      (after : t.after = written.doc) (reports : Reports s.written.doc t) (caused : Caused sent.action t)
      (followed : processTransaction space s.partition t = some partition)
      (later : OneAtATime space { written := written, partition := partition } rest last) :
      OneAtATime space s (sent :: rest) last

/-- The same bots, tags and masks; an empty text is no value. -/
structure SameContents (first second : Doc) : Prop where
  bots : ∀ id, (lookup id first.bots).isSome = (lookup id second.bots).isSome
  tags : ∀ id map other, lookup id first.bots = some map → lookup id second.bots = some other →
    ∀ tag, shown (lookup tag map.tags) = shown (lookup tag other.tags)
  masks : ∀ key, shown (lookup key first.masks) = shown (lookup key second.masks)

/-! ### What the actions say of one bot -/

/-- The tags that the bot had last by an add, or before the list, and the updates since. -/
structure Tale where
  tags : Option (JsString → Option Json)
  updates : List (Values × Sent)
  renewed : Bool

def written (v : PlainValue) : Option Json := present (clean v.value)

def tell (id : JsString) (tale : Tale) (sent : Sent) : Tale :=
  match sent.action with
  | .addBot other tags _ =>
    if other = id then
      { tags := some fun tag => (lookup tag tags.entries).bind written, updates := [], renewed := tale.tags.isSome }
    else tale
  | .removeBot other => if other = id then { tags := none, updates := [], renewed := false } else tale
  | .updateBot other (some tags) _ =>
    if other = id then { tale with updates := tale.updates ++ [(tags, sent)] } else tale
  | .updateBot _ none _ => tale

def tale (doc : Doc) (id : JsString) (events : List Sent) : Tale :=
  events.foldl (tell id)
    { tags := (lookup id doc.bots).map fun map tag => shown (lookup tag map.tags), updates := [], renewed := false }

def named (tag : JsString) (updates : List (Values × Sent)) : List (PlainValue × Sent) :=
  updates.filterMap fun update => (lookup tag update.1.entries).map (·, update.2)

def lastOf (base : Option Json) (values : List (PlainValue × Sent)) : Option Json :=
  values.foldl (fun _ v => written v.1) base

/-- An update sets the value: the state has the bot, and the value is not its own. -/
def Applies (state : BotsState) (own : JsString → Bool) (id tag : JsString) (v : PlainValue) : Bool :=
  ((lookup id state).bind (·.tags)).any fun old => !skips (own tag) v (lookup tag old)

def Sets (state : BotsState) (id tag : JsString) (v : PlainValue × Sent) : Bool :=
  Applies state v.2.inBatch id tag v.1

/-! ### The batches that mean their actions in order -/

/-- An update, that names tags, of a bot that the actions before leave in the document. -/
def Updates (doc : Doc) (events first : List Sent) (id : JsString) : Prop :=
  ∃ sent rest tags masks, events = first ++ sent :: rest ∧ sent.action = .updateBot id (some tags) masks ∧
    tags.entries ≠ [] ∧ (tale doc id first).tags.isSome = true

/-- No tags are updated of a bot that has been added over another one. -/
def Renewed (doc : Doc) (events : List Sent) : Prop :=
  ∀ first id, Updates doc events first id → (tale doc id first).renewed = false

/-- No record without tags is updated. -/
def Calm (state : BotsState) (doc : Doc) (events : List Sent) : Prop :=
  ∀ first id, Updates doc events first id → ∀ bot, lookup id state = some bot → bot.tags.isSome = true

/-- The last of the values that each tag is given since the bot was last added is the last of those that
are not the state's own. -/
structure Judged (state : BotsState) (doc : Doc) (events : List Sent) : Prop where
  calm : Calm state doc events
  last : ∀ id base, (tale doc id events).tags = some base → ∀ tag,
    lastOf (base tag) ((named tag (tale doc id events).updates).filter (Sets state id tag)) =
      lastOf (base tag) (named tag (tale doc id events).updates)

/-- The state has the tags of the bots of the document. -/
def InStep (s : Local) : Prop :=
  ∀ id map, lookup id s.written.doc.bots = some map →
    ((lookup id s.partition).bind (·.tags)).isSome = true ∧
      ∀ tag, valued (tagOf (lookup id s.partition) tag) = shown (lookup tag map.tags)

/-! ### Values of a map -/

section Values

theorem written_eq (v : PlainValue) : written v = if hasValue v.value then some v.value else none := by
  rcases v with ⟨value, plain⟩
  cases value with
  | string text => cases text <;> rfl
  | _ => rfl

variable {v : PlainValue}

theorem shown_mapValue (name : Nat) (full : hasValue v.value = true) :
    shown (some (mapValue name v)) = written v := by
  rcases v with ⟨value, plain⟩
  cases value with
  | string text =>
    cases text with
    | nil => cases full
    | cons c rest => rfl
  | null => cases full
  | boolean value => rfl
  | integer value => rfl
  | decimal text => rfl
  | array items => rfl
  | object fields => rfl

theorem shown_updateValueInMap (made : Made) (key : JsString) (v : PlainValue) (other : JsString) :
    shown (lookup other (updateValueInMap made key v).values) =
      if other = key then written v else shown (lookup other made.values) := by
  rw [updateValueInMap]
  split
  · next full =>
      rw [setValue, lookup_assign]
      split
      · exact shown_mapValue made.names full
      · rfl
  · next empty =>
      rw [lookup_remove]
      split
      · rw [written_eq, if_neg empty]
        rfl
      · rfl

theorem shown_setValue (made : Made) (key : JsString) (full : hasValue v.value = true)
    (other : JsString) : shown (lookup other (setValue made key v).values) =
      if other = key then written v else shown (lookup other made.values) := by
  have same := shown_updateValueInMap made key v other
  rw [updateValueInMap, if_pos full] at same
  exact same

theorem shown_fold {set : Made → JsString × PlainValue → Made} {keeps : JsString → PlainValue → Bool}
    (sets : ∀ made entry other, shown (lookup other (set made entry).values) =
      if other = entry.1 ∧ keeps entry.1 entry.2 = false then written entry.2
      else shown (lookup other made.values))
    (entries : List (JsString × PlainValue)) (distinct : (entries.map Prod.fst).Nodup) (made : Made)
    (key : JsString) : shown (lookup key (entries.foldl set made).values) =
      match lookup key entries with
      | none => shown (lookup key made.values)
      | some v => if keeps key v then shown (lookup key made.values) else written v := by
  induction entries generalizing made with
  | nil => rfl
  | cons entry rest ih =>
    obtain ⟨outside, later⟩ := List.nodup_cons.mp distinct
    rw [List.foldl_cons, ih later, sets]
    by_cases same : key = entry.1
    · have missing : lookup key rest = none := by
        apply (lookup_eq_none_iff _ _).mpr
        rw [same]
        exact outside
      rw [missing, lookup, if_pos same]
      cases kept : keeps entry.1 entry.2 with
      | true => simp [same, kept]
      | false => simp [same, kept]
    · rw [lookup, if_neg same, if_neg (fun both => same both.1)]

theorem shown_updateTags (old : Fields) (own : JsString → Bool) (made : Made) (tags : Values) (tag : JsString) :
    shown (lookup tag (updateTags old own made tags.entries).values) =
      match lookup tag tags.entries with
      | none => shown (lookup tag made.values)
      | some v => if skips (own tag) v (lookup tag old) then shown (lookup tag made.values) else written v := by
  apply @shown_fold _ (fun tag v => skips (own tag) v (lookup tag old)) _ tags.entries tags.distinct
  intro made entry other
  cases skipped : skips (own entry.1) entry.2 (lookup entry.1 old) with
  | true => simp
  | false => simp [shown_updateValueInMap]

theorem distinct_maskEntries (id : JsString) (masks : Values) : ((maskEntries id masks).map Prod.fst).Nodup := by
  have keys : (maskEntries id masks).map Prod.fst = (masks.entries.map Prod.fst).map (tagMaskId id) := by
    rw [maskEntries, List.map_map, List.map_map]
    rfl
  rw [keys]
  exact masks.distinct.map fun _ _ same => tagMaskId_inj same

theorem shown_updateMasks (made : Made) (id : JsString) (masks : Values) (key : JsString) :
    shown (lookup key (updateMasks made (maskEntries id masks)).values) =
      match lookup key (maskEntries id masks) with
      | none => shown (lookup key made.values)
      | some v => written v := by
  have folded := @shown_fold (fun made entry => updateValueInMap made entry.1 entry.2) (fun _ _ => false)
    (by intro made entry other; simp [shown_updateValueInMap]) _ (distinct_maskEntries id masks) made key
  rw [updateMasks, folded]
  cases lookup key (maskEntries id masks) <;> rfl

theorem shown_setValues (made : Made) (entries : List (JsString × PlainValue))
    (distinct : (entries.map Prod.fst).Nodup) (key : JsString) :
    shown (lookup key (setValues made entries).values) =
      match lookup key entries with
      | none => shown (lookup key made.values)
      | some v => if hasValue v.value then written v else shown (lookup key made.values) := by
  have folded := @shown_fold (fun made entry => if hasValue entry.2.value then setValue made entry.1 entry.2 else made)
    (fun _ v => !hasValue v.value) (by
      intro made entry other
      cases full : hasValue entry.2.value with
      | true => simp [shown_setValue _ _ full]
      | false => simp) entries distinct made key
  rw [setValues, folded]
  cases lookup key entries with
  | none => rfl
  | some v => cases full : hasValue v.value <;> simp [full]

theorem eq_of_skips {own : Bool} {old : Option Json} (skipped : skips own v old = true)
    (identical : own = true → v.value.isObject = true → old = some v.value) : old = some v.value := by
  rcases v with ⟨value, plain⟩
  cases old with
  | none => cases value <;> cases skipped
  | some before =>
    cases value with
    | null => cases before <;> first | rfl | cases skipped
    | boolean new =>
      cases before with
      | boolean value => rw [eq_of_beq skipped]
      | _ => cases skipped
    | integer new =>
      cases before with
      | integer value => rw [eq_of_beq skipped]
      | _ => cases skipped
    | decimal new =>
      cases before with
      | decimal value => rw [eq_of_beq skipped]
      | _ => cases skipped
    | string new =>
      cases before with
      | string value => rw [eq_of_beq skipped]
      | _ => cases skipped
    | array items => cases before <;> cases skipped
    | object fields =>
      cases before with
      | object others => exact identical skipped rfl
      | _ => cases skipped

end Values

/-! ### One action -/

section Events

variable {state : BotsState} {own : JsString → Bool} {w w' : Written} {id : JsString}

structure TagsUpdated (state : BotsState) (own : JsString → Bool) (id : JsString) (tags : Values)
    (map after : TagsMap) : Prop where
  name : after.name = map.name
  named : ∀ tag v, lookup tag tags.entries = some v → shown (lookup tag after.tags) =
    if Applies state own id tag v then written v else shown (lookup tag map.tags)
  others : ∀ tag, lookup tag tags.entries = none → shown (lookup tag after.tags) = shown (lookup tag map.tags)

variable {tags : Values}

theorem tagsUpdated_same {map : TagsMap}
    (none' : ∀ tag v, lookup tag tags.entries = some v → Applies state own id tag v = false) :
    TagsUpdated state own id tags map map :=
  ⟨rfl, fun tag v found => by rw [none' tag v found, if_neg Bool.false_ne_true], fun _ _ => rfl⟩

structure BotUpdated (w w' : Written) (state : BotsState) (own : JsString → Bool) (id : JsString)
    (tags : Values) : Prop where
  masks : w'.doc.masks = w.doc.masks
  others : ∀ other, other ≠ id → lookup other w'.doc.bots = lookup other w.doc.bots
  missing : lookup id w.doc.bots = none → lookup id w'.doc.bots = none
  known : ∀ map, lookup id w.doc.bots = some map →
    ∃ after, lookup id w'.doc.bots = some after ∧ TagsUpdated state own id tags map after

theorem botUpdated_same (none' : ∀ map, lookup id w.doc.bots = some map →
      ∀ tag v, lookup tag tags.entries = some v → Applies state own id tag v = false) :
    BotUpdated w w state own id tags :=
  ⟨rfl, fun _ _ => rfl, fun missing => missing,
    fun map found => ⟨map, found, tagsUpdated_same (none' map found)⟩⟩

theorem updateBotTags_spec (made : updateBotTags state own w id tags = some w') :
    BotUpdated w w' state own id tags := by
  rw [updateBotTags] at made
  cases known : lookup id state with
  | none =>
    rw [known] at made
    cases made
    apply botUpdated_same
    intro _ _ tag v _
    rw [Applies, known]
    rfl
  | some bot =>
    cases found : lookup id w.doc.bots with
    | none =>
      rw [known, found] at made
      cases made
      apply botUpdated_same
      intro map impossible
      rw [found] at impossible
      cases impossible
    | some map =>
      simp only [known, found] at made
      split at made
      · next empty =>
          cases made
          apply botUpdated_same
          intro _ _ tag v member
          rw [List.isEmpty_iff.mp empty] at member
          cases member
      · obtain ⟨old, hasTags, same⟩ := map_eq_some_iff.mp made
        subst same
        have applies : ∀ tag v, Applies state own id tag v = !skips (own tag) v (lookup tag old) := by
          intro tag v
          rw [Applies, known, Option.bind_some, hasTags]
          rfl
        refine ⟨rfl, fun other apart => ?_, fun missing => ?_, fun other isMap => ?_⟩
        · rw [lookup_assign, if_neg apart]
        · rw [found] at missing
          cases missing
        · rw [found] at isMap
          cases isMap
          refine ⟨_, (lookup_assign id id _ w.doc.bots).trans (if_pos rfl), rfl, ?_, ?_⟩
          · intro tag v member
            simp only [shown_updateTags, member, applies]
            cases skips (own tag) v (lookup tag old) <;> simp
          · intro tag member
            simp only [shown_updateTags, member]

theorem updateBotTags_isSome (calm : tags.entries ≠ [] → (lookup id w.doc.bots).isSome = true →
      ∀ bot, lookup id state = some bot → bot.tags.isSome = true) :
    ∃ next, updateBotTags state own w id tags = some next := by
  rw [updateBotTags]
  cases known : lookup id state with
  | none => exact ⟨_, rfl⟩
  | some bot =>
    cases found : lookup id w.doc.bots with
    | none => exact ⟨_, rfl⟩
    | some map =>
      simp only
      split
      · exact ⟨_, rfl⟩
      · next filled =>
          rw [found] at calm
          obtain ⟨old, hasTags⟩ := isSome_iff_exists.mp
            (calm (fun empty => filled (List.isEmpty_iff.mpr empty)) rfl bot known)
          rw [hasTags]
          exact ⟨_, rfl⟩

/-- It throws where it comes to tags of a record that has none. -/
theorem tags_of_updateBotTags (made : updateBotTags state own w id tags = some w')
    (filled : tags.entries ≠ []) (isBot : (lookup id w.doc.bots).isSome = true) {bot : Bot}
    (known : lookup id state = some bot) : bot.tags.isSome = true := by
  obtain ⟨map, found⟩ := isSome_iff_exists.mp isBot
  rw [updateBotTags] at made
  simp only [known, found] at made
  split at made
  · next empty => exact absurd (List.isEmpty_iff.mp empty) filled
  · obtain ⟨old, hasTags, _⟩ := map_eq_some_iff.mp made
    rw [hasTags]
    rfl

def maskAfter (key : JsString) (value : Option Json) : Action → Option Json
  | .addBot id _ masks => match lookup key (maskEntries id masks) with
      | none => value
      | some v => if hasValue v.value then written v else value
  | .removeBot _ => value
  | .updateBot _ _ none => value
  | .updateBot id _ (some masks) => match lookup key (maskEntries id masks) with
      | none => value
      | some v => written v

theorem applyEvent_masks {action : Action} (made : applyEvent state own w action = some w') (key : JsString) :
    shown (lookup key w'.doc.masks) = maskAfter key (shown (lookup key w.doc.masks)) action := by
  cases action with
  | addBot id tags masks =>
    cases made
    exact shown_setValues _ _ (distinct_maskEntries id masks) key
  | removeBot id =>
    cases made
    rfl
  | updateBot id tags masks =>
    obtain ⟨middle, updated, same⟩ := map_eq_some_iff.mp made
    have kept : middle.doc.masks = w.doc.masks := by
      cases tags with
      | none =>
        cases updated
        rfl
      | some values => exact (updateBotTags_spec updated).masks
    subst same
    cases masks with
    | none =>
      rw [kept]
      rfl
    | some masks =>
      rw [maskAfter, ← kept]
      exact shown_updateMasks _ id masks key

end Events

/-! ### A list of actions -/

section Tales

variable {doc : Doc} {id tag : JsString} {events : List Sent} {sent : Sent} {w w' : Written}
  {state : BotsState} {own : JsString → Bool}

theorem tale_append (doc : Doc) (id : JsString) (events : List Sent) (sent : Sent) :
    tale doc id (events ++ [sent]) = tell id (tale doc id events) sent := by
  rw [tale, List.foldl_append]
  rfl

theorem lastOf_append (base : Option Json) (first second : List (PlainValue × Sent)) :
    lastOf base (first ++ second) = lastOf (lastOf base first) second := List.foldl_append

theorem named_append (tag : JsString) (updates : List (Values × Sent)) (tags : Values) (sent : Sent) :
    named tag (updates ++ [(tags, sent)]) =
      named tag updates ++ ((lookup tag tags.entries).map (·, sent)).toList := by
  rw [named, List.filterMap_append]
  cases found : lookup tag tags.entries <;> simp [named, found]

/-- The document has the bots that the actions say, with the values that count of those they give. -/
structure Told (doc : Doc) (counts : JsString → JsString → PlainValue × Sent → Bool) (events : List Sent)
    (w : Written) : Prop where
  bots : ∀ id, (lookup id w.doc.bots).isSome = (tale doc id events).tags.isSome
  tags : ∀ id base map, (tale doc id events).tags = some base → lookup id w.doc.bots = some map → ∀ tag,
    shown (lookup tag map.tags) =
      lastOf (base tag) ((named tag (tale doc id events).updates).filter (counts id tag))

theorem told_start (counts : JsString → JsString → PlainValue × Sent → Bool) (w : Written) :
    Told w.doc counts [] w := by
  refine ⟨fun id => ?_, fun id base map isBase found tag => ?_⟩
  · rw [tale, List.foldl_nil, Option.isSome_map]
  · rw [tale, List.foldl_nil, found] at isBase
    cases isBase
    rfl

variable {counts : JsString → JsString → PlainValue × Sent → Bool}

theorem tell_other (tale : Tale) (apart : sent.action.id ≠ id) : tell id tale sent = tale := by
  rw [tell]
  cases shape : sent.action with
  | addBot other tags masks =>
    rw [shape] at apart
    exact if_neg apart
  | removeBot other =>
    rw [shape] at apart
    exact if_neg apart
  | updateBot other tags masks =>
    rw [shape] at apart
    cases tags with
    | none => rfl
    | some tags => exact if_neg apart

theorem applyEvent_other {action : Action} (made : applyEvent state own w action = some w')
    (apart : action.id ≠ id) : lookup id w'.doc.bots = lookup id w.doc.bots := by
  have away : id ≠ action.id := fun same => apart same.symm
  cases action with
  | addBot other tags masks =>
    cases made
    exact (lookup_assign _ _ _ _).trans (if_neg away)
  | removeBot other =>
    cases made
    exact (lookup_remove _ _ _).trans (if_neg away)
  | updateBot other tags masks =>
    obtain ⟨middle, updated, same⟩ := map_eq_some_iff.mp made
    have kept : lookup id middle.doc.bots = lookup id w.doc.bots := by
      cases tags with
      | none =>
        cases updated
        rfl
      | some values => exact (updateBotTags_spec updated).others id away
    subst same
    cases masks <;> exact kept

variable {tags : Values} {masks : Option Values}

theorem applyEvent_add {masks : Values} (made : applyEvent state own w (.addBot id tags masks) = some w') :
    ∃ map, lookup id w'.doc.bots = some map ∧
      ∀ tag, shown (lookup tag map.tags) = (lookup tag tags.entries).bind written := by
  cases made
  refine ⟨_, (lookup_assign id id _ w.doc.bots).trans (if_pos rfl), fun tag => ?_⟩
  have values := shown_setValues { values := [], names := w.names } tags.entries tags.distinct tag
  cases found : lookup tag tags.entries with
  | none =>
    simp only [found] at values
    exact values
  | some v =>
    simp only [found] at values
    refine values.trans ?_
    rw [Option.bind_some, written_eq]
    cases full : hasValue v.value <;> rfl

theorem applyEvent_remove (made : applyEvent state own w (.removeBot id) = some w') : lookup id w'.doc.bots = none := by
  cases made
  exact (lookup_remove _ _ _).trans (if_pos rfl)

theorem applyEvent_update (made : applyEvent state own w (.updateBot id (some tags) masks) = some w') :
    (lookup id w.doc.bots = none → lookup id w'.doc.bots = none) ∧
      ∀ map, lookup id w.doc.bots = some map →
        ∃ after, lookup id w'.doc.bots = some after ∧ TagsUpdated state own id tags map after := by
  obtain ⟨middle, updated, same⟩ := map_eq_some_iff.mp made
  have spec := updateBotTags_spec updated
  have bots : w'.doc.bots = middle.doc.bots := by
    subst same
    cases masks <;> rfl
  rw [bots]
  exact ⟨spec.missing, spec.known⟩

theorem applyEvent_masksOnly
    (made : applyEvent state own w (.updateBot id none masks) = some w') : w'.doc.bots = w.doc.bots := by
  cases masks <;> cases made <;> rfl

theorem told_step (told : Told doc counts events w) (made : applyEvent state own w sent.action = some w')
    (judged : ∀ id tags masks, sent.action = .updateBot id (some tags) masks → ∀ map,
      lookup id w.doc.bots = some map → ∀ tag v, lookup tag tags.entries = some v →
        Applies state own id tag v = counts id tag (v, sent) ∨ shown (lookup tag map.tags) = written v) :
    Told doc counts (events ++ [sent]) w' := by
  have each : ∀ id, (lookup id w'.doc.bots).isSome = (tell id (tale doc id events) sent).tags.isSome ∧
      ∀ base map, (tell id (tale doc id events) sent).tags = some base → lookup id w'.doc.bots = some map →
        ∀ tag, shown (lookup tag map.tags) = lastOf (base tag)
          ((named tag (tell id (tale doc id events) sent).updates).filter (counts id tag)) := by
    intro id
    by_cases own : sent.action.id = id
    · cases shape : sent.action with
      | addBot other tags masks =>
        rw [shape] at made own
        have same : other = id := own
        subst same
        obtain ⟨map, isMap, values⟩ := applyEvent_add made
        have told' : tell other (tale doc other events) sent =
            { tags := some fun tag => (lookup tag tags.entries).bind written, updates := [],
              renewed := (tale doc other events).tags.isSome } := by
          rw [tell, shape]
          exact if_pos rfl
        rw [told', isMap]
        refine ⟨rfl, fun base other' isBase isOther tag => ?_⟩
        cases isBase
        cases isOther
        exact values tag
      | removeBot other =>
        rw [shape] at made own
        have same : other = id := own
        subst same
        have told' : tell other (tale doc other events) sent = { tags := none, updates := [], renewed := false } := by
          rw [tell, shape]
          exact if_pos rfl
        rw [told', applyEvent_remove made]
        exact ⟨rfl, fun _ _ impossible => by cases impossible⟩
      | updateBot other tags masks =>
        rw [shape] at made own
        have same : other = id := own
        subst same
        cases tags with
        | none =>
          have told' : tell other (tale doc other events) sent = tale doc other events := by
            rw [tell, shape]
          rw [told', applyEvent_masksOnly made]
          exact ⟨told.bots other, told.tags other⟩
        | some tags =>
          have told' : tell other (tale doc other events) sent = { tale doc other events with
                updates := (tale doc other events).updates ++ [(tags, sent)] } := by
            rw [tell, shape]
            exact if_pos rfl
          obtain ⟨missing, known⟩ := applyEvent_update made
          rw [told']
          cases found : lookup other w.doc.bots with
          | none =>
            rw [missing found, ← told.bots other, found]
            exact ⟨rfl, fun _ _ _ impossible => by cases impossible⟩
          | some map =>
            obtain ⟨after, isAfter, _, set', others⟩ := known map found
            rw [isAfter, ← told.bots other, found]
            refine ⟨rfl, fun base map' isBase isMap tag => ?_⟩
            cases isMap
            have before := told.tags other base map isBase found tag
            rw [named_append, List.filter_append, lastOf_append, ← before]
            cases given : lookup tag tags.entries with
            | none => exact others tag given
            | some v =>
              rw [set' tag v given]
              rcases judged other tags masks shape map found tag v given with counted | idle
              · rw [counted]
                cases counting : counts other tag (v, sent) <;> simp [counting, lastOf]
              · rw [idle, ite_self]
                cases counting : counts other tag (v, sent) <;> simp [counting, lastOf]
    · rw [tell_other (tale doc id events) own, applyEvent_other made own]
      exact ⟨told.bots id, told.tags id⟩
  refine ⟨fun id => ?_, fun id base map isBase found tag => ?_⟩
  · rw [tale_append]
    exact (each id).1
  · rw [tale_append] at isBase ⊢
    exact (each id).2 base map isBase found tag

theorem updates_append {first : List Sent} (updates : Updates doc (events ++ [sent]) first id) :
    Updates doc events first id ∨ (first = events ∧ ∃ tags masks,
      sent.action = .updateBot id (some tags) masks ∧ tags.entries ≠ [] ∧ (tale doc id events).tags.isSome = true) := by
  obtain ⟨other, rest, tags, masks, whole, shape, filled, isBot⟩ := updates
  rcases List.eq_nil_or_concat rest with nothing | ⟨rest', last, same⟩
  · rw [nothing] at whole
    obtain ⟨isFirst, isLast⟩ := List.append_inj' whole rfl
    cases isLast
    subst isFirst
    exact .inr ⟨rfl, tags, masks, shape, filled, isBot⟩
  · rw [same, List.concat_eq_append, ← List.cons_append, ← List.append_assoc] at whole
    obtain ⟨isEvents, _⟩ := List.append_inj' whole rfl
    exact .inl ⟨other, rest', tags, masks, isEvents, shape, filled, isBot⟩

theorem updates_of_append {first : List Sent} (updates : Updates doc events first id) :
    Updates doc (events ++ [sent]) first id := by
  obtain ⟨other, rest, tags, masks, whole, shape, filled, isBot⟩ := updates
  refine ⟨other, rest ++ [sent], tags, masks, ?_, shape, filled, isBot⟩
  rw [whole, List.append_assoc]
  rfl

theorem updates_last (shape : sent.action = .updateBot id (some tags) masks)
    (filled : tags.entries ≠ []) (isBot : (tale doc id events).tags.isSome = true) :
    Updates doc (events ++ [sent]) events id := ⟨sent, [], tags, masks, rfl, shape, filled, isBot⟩

end Tales

/-! ### The batch -/

section Batches

variable {state : BotsState} {w : Written}

theorem applyEvents_append (events : List Sent) (sent : Sent) :
    applyEvents state w (events ++ [sent]) = (applyEvents state w events).bind fun middle =>
      applyEvent state sent.inBatch middle sent.action := by
  rw [applyEvents, runAll_append, applyEvents]
  congr 1
  funext middle
  rw [runAll_cons]
  cases applyEvent state sent.inBatch middle sent.action <;> rfl

theorem batch_told {after : Written} (events : List Sent) (ran : applyEvents state w events = some after) :
    Told w.doc (Sets state) events after ∧ Calm state w.doc events := by
  induction events using List.reverseRecOn generalizing after with
  | nil =>
    cases ran
    refine ⟨told_start _ _, fun first id updates => ?_⟩
    obtain ⟨other, rest, _, _, whole, _⟩ := updates
    cases first <;> cases whole
  | append_singleton events sent ih =>
    rw [applyEvents_append] at ran
    obtain ⟨middle, first, made⟩ := Option.bind_eq_some_iff.mp ran
    obtain ⟨told, calm⟩ := ih first
    refine ⟨told_step told made (fun _ _ _ _ _ _ _ _ _ => .inl rfl), fun start id updates => ?_⟩
    rcases updates_append updates with earlier | ⟨_, tags, masks, shape, filled, isBot⟩
    · exact calm start id earlier
    · rw [shape] at made
      obtain ⟨next, updated, _⟩ := map_eq_some_iff.mp made
      rw [← told.bots id] at isBot
      exact fun bot known => tags_of_updateBotTags updated filled isBot known

theorem batch_runs (events : List Sent) (calm : Calm state w.doc events) :
    ∃ after, applyEvents state w events = some after := by
  induction events using List.reverseRecOn with
  | nil => exact ⟨w, rfl⟩
  | append_singleton events sent ih =>
    obtain ⟨middle, ran⟩ := ih (fun first id updates => calm first id (updates_of_append updates))
    have told := (batch_told events ran).1
    have made : ∃ next, applyEvent state sent.inBatch middle sent.action = some next := by
      cases shape : sent.action with
      | addBot id tags masks => exact ⟨_, rfl⟩
      | removeBot id => exact ⟨_, rfl⟩
      | updateBot id tags masks =>
        cases tags with
        | none => exact ⟨_, rfl⟩
        | some tags =>
          obtain ⟨next, updated⟩ := @updateBotTags_isSome state sent.inBatch middle id tags (by
            intro filled isBot
            rw [told.bots id] at isBot
            exact calm events id (updates_last shape filled isBot))
          exact ⟨_, map_eq_some_iff.mpr ⟨next, updated, rfl⟩⟩
    obtain ⟨next, isNext⟩ := made
    exact ⟨next, by rw [applyEvents_append, ran]; exact isNext⟩

theorem batch_masks {after : Written} (events : List Sent) (ran : applyEvents state w events = some after)
    (key : JsString) : shown (lookup key after.doc.masks) =
      events.foldl (fun value sent => maskAfter key value sent.action) (shown (lookup key w.doc.masks)) := by
  induction events using List.reverseRecOn generalizing after with
  | nil =>
    cases ran
    rfl
  | append_singleton events sent ih =>
    rw [applyEvents_append] at ran
    obtain ⟨middle, first, made⟩ := Option.bind_eq_some_iff.mp ran
    rw [applyEvent_masks made, ih first, List.foldl_append]
    rfl

end Batches

/-! ### One at a time -/

section Calls

variable {space : JsString} {doc : Doc} {events : List Sent} {sent : Sent} {s : Local}

/-- After some of the calls: all values count, and the state has the tags of every bot that has not
been added over another one. -/
structure Aligned (doc : Doc) (events : List Sent) (s : Local) : Prop where
  told : Told doc (fun _ _ _ => true) events s.written
  tagged : ∀ id, (lookup id s.written.doc.bots).isSome = true →
    ((lookup id s.partition).bind (·.tags)).isSome = true
  tags : ∀ id map, lookup id s.written.doc.bots = some map → (tale doc id events).renewed = false →
    ∀ tag, valued (tagOf (lookup id s.partition) tag) = shown (lookup tag map.tags)

theorem aligned_start (inStep : InStep s) : Aligned s.written.doc [] s := by
  refine ⟨told_start _ _, fun id known => ?_, fun id map found _ => (inStep id map found).2⟩
  obtain ⟨map, found⟩ := isSome_iff_exists.mp known
  exact (inStep id map found).1

theorem parsed_of_caused {action : Action} {t : Transaction} (caused : Caused action t) :
    ∀ event ∈ t.masks, ∀ key, MaskKey event key → colon ∈ key := by
  intro event member key isKey
  obtain ⟨tag, same⟩ := caused.masks event member key isKey
  rw [same, tagMaskId]
  exact List.mem_append_right _ List.mem_cons_self

theorem name_kept {written : Written} {id : JsString} {old new : TagsMap} (told : (tale doc id events).tags.isSome = true)
    (applied : applyEvent s.partition sent.alone s.written sent.action = some written)
    (isOld : lookup id s.written.doc.bots = some old) (isNew : lookup id written.doc.bots = some new)
    (kept : (tale doc id (events ++ [sent])).renewed = false) :
    old.name = new.name ∧ (tale doc id events).renewed = false := by
  rw [tale_append] at kept
  by_cases own : sent.action.id = id
  · cases shape : sent.action with
    | addBot other tags masks =>
      rw [shape] at own
      rw [tell, shape] at kept
      simp only [if_pos (show other = id from own), told] at kept
      cases kept
    | removeBot other =>
      rw [shape] at applied own
      have same : other = id := own
      subst same
      rw [applyEvent_remove applied] at isNew
      cases isNew
    | updateBot other tags masks =>
      rw [shape] at applied own
      rw [tell, shape] at kept
      have same : other = id := own
      subst same
      cases tags with
      | none =>
        rw [applyEvent_masksOnly applied, isOld] at isNew
        cases isNew
        exact ⟨rfl, kept⟩
      | some tags =>
        obtain ⟨after, isAfter, updated⟩ := (applyEvent_update applied).2 old isOld
        rw [isAfter] at isNew
        cases isNew
        simp only [if_true] at kept
        exact ⟨updated.name.symm, kept⟩
  · rw [applyEvent_other applied own, isOld] at isNew
    rw [tell_other _ own] at kept
    cases isNew
    exact ⟨rfl, kept⟩

theorem call_aligned (aligned : Aligned doc events s) {written : Written} {partition : BotsState} {t : Transaction}
    (own : Identical s.partition sent.alone sent.action)
    (applied : applyEvent s.partition sent.alone s.written sent.action = some written)
    (after : t.after = written.doc) (reports : Reports s.written.doc t) (caused : Caused sent.action t)
    (followed : processTransaction space s.partition t = some partition)
    (renewed : ∀ id tags masks, sent.action = .updateBot id (some tags) masks → tags.entries ≠ [] →
      (tale doc id events).tags.isSome = true → (tale doc id events).renewed = false) :
    Aligned doc (events ++ [sent]) { written := written, partition := partition } := by
  obtain ⟨masks, told, records⟩ := processTransaction_spec space (parsed_of_caused caused) followed
  refine ⟨told_step aligned.told applied ?_, fun id known => ?_, fun id map found kept tag => ?_⟩
  · intro id tags masks shape map found tag v given
    have isBot : (tale doc id events).tags.isSome = true := by
      rw [← aligned.told.bots id, found]
      rfl
    have filled : tags.entries ≠ [] := by
      intro empty
      rw [empty] at given
      cases given
    have same := aligned.tags id map found (renewed id tags masks shape filled isBot) tag
    have tagged := aligned.tagged id (by rw [found]; rfl)
    cases applies : Applies s.partition sent.alone id tag v with
    | true => exact .inl rfl
    | false =>
      obtain ⟨old, isTags⟩ := isSome_iff_exists.mp tagged
      rw [Applies, isTags, Option.any_some, Bool.not_eq_false'] at applies
      rw [shape] at own
      have current : tagOf (lookup id s.partition) tag = lookup tag old := by
        rw [tagOf, isTags]
        rfl
      have identical : lookup tag old = some v.value := by
        apply eq_of_skips applies
        intro isOwn isObject
        rw [← current]
        exact own tag v given isOwn isObject
      rw [current, identical] at same
      exact .inr same.symm
  · obtain ⟨new, isNew⟩ := isSome_iff_exists.mp known
    rw [records id]
    apply tagged_after space told reports (after ▸ isNew)
    exact aligned.tagged id
  · rw [records id]
    apply tags_after space told reports (after ▸ found)
    · intro old isOld
      have isBot : (tale doc id events).tags.isSome = true := by
        rw [← aligned.told.bots id, isOld]
        rfl
      refine ⟨?_, aligned.tags id old isOld (name_kept isBot applied isOld found kept).2⟩
      have tagged := aligned.tagged id (by rw [isOld]; rfl)
      cases record : lookup id s.partition with
      | none =>
        rw [record] at tagged
        cases tagged
      | some bot => rfl
    · intro old isOld apart
      have isBot : (tale doc id events).tags.isSome = true := by
        rw [← aligned.told.bots id, isOld]
        rfl
      exact absurd (name_kept isBot applied isOld found kept).1 apart

theorem calls_aligned {last : Local} {rest : List Sent} (ran : OneAtATime space s rest last)
    (aligned : Aligned doc events s) (renewed : Renewed doc (events ++ rest)) :
    Aligned doc (events ++ rest) last := by
  induction ran generalizing events with
  | done s => exact (List.append_nil events).symm ▸ aligned
  | @call s last sent rest written partition t own applied after reports caused followed later ih =>
    have here : ∀ id tags masks, sent.action = .updateBot id (some tags) masks → tags.entries ≠ [] →
        (tale doc id events).tags.isSome = true → (tale doc id events).renewed = false :=
      fun id tags masks shape filled isBot => renewed events id ⟨sent, rest, tags, masks, rfl, shape, filled, isBot⟩
    have next := call_aligned aligned own applied after reports caused followed here
    rw [List.append_cons] at renewed ⊢
    exact ih next renewed

theorem calls_masks {last : Local} {rest : List Sent} (ran : OneAtATime space s rest last) (key : JsString) :
    shown (lookup key last.written.doc.masks) =
      rest.foldl (fun value sent => maskAfter key value sent.action) (shown (lookup key s.written.doc.masks)) := by
  induction ran with
  | done s => rfl
  | call t own applied after reports caused followed later ih => rw [ih, applyEvent_masks applied]; rfl

end Calls

/-! ### Both -/

section Both

variable {space : JsString} {s last : Local} {events : List Sent}

end Both

/-! ### A bot that is added and updated -/

section Sample

def texted (text : List Char) : Values :=
  ⟨[(name, { value := .string (JsString.lit text), plain := rfl })], List.nodup_singleton _⟩

def empty : Values := ⟨[], List.nodup_nil⟩

def sentAs (action : Action) : Sent := { action := action, inBatch := fun _ => false, alone := fun _ => false }

def adding : Sent := sentAs (.addBot name empty empty)

def setting (text : List Char) : Sent := sentAs (.updateBot name (some (texted text)) none)

def docWith (tags : List (JsString × MapValue)) : Doc :=
  { bots := [(name, { name := 0, tags := tags })], masks := [] }

def textAt (taken : Nat) (text : List Char) : List (JsString × MapValue) :=
  [(name, .text taken (JsString.lit text))]

def tagReport (tags : List (JsString × MapValue)) (change : KeyChange) : Transaction :=
  { after := docWith tags, bots := [.tags name (keyed change)], masks := [], masksFirst := false }

theorem reports_tag {old new : List (JsString × MapValue)} {change : KeyChange}
    (changed : ValueReported (lookup name old) (lookup name new) [.key change])
    (others : ∀ tag, tag ≠ name → lookup tag old = none ∧ lookup tag new = none) :
    Reports (docWith old) (tagReport new change) := by
  refine ⟨fun id => ?_, fun id first second isOld isNew same tag => ?_, ?_, fun _ => .missing⟩
  · by_cases same : id = name
    · subst same
      exact .kept _ _ rfl
    · simp only [docWith, tagReport, botChanges, List.flatMap_singleton, lookup, if_neg same]
      exact .missing
  · have one := mem_of_lookup id first _ isOld
    have two := mem_of_lookup id second _ isNew
    cases List.mem_singleton.mp one
    cases List.mem_singleton.mp two
    by_cases here : tag = name
    · subst here
      exact changed
    · obtain ⟨noOld, noNew⟩ := others tag here
      simp only [tagReport, List.flatMap_singleton, tagChanges, keyed, lookup, if_neg here, noOld, noNew]
      exact .missing
  · intro event member id fromBot
    rw [List.mem_singleton.mp member] at fromBot
    cases fromBot
    exact ⟨_, _, rfl, rfl, rfl⟩

theorem caused_tag {action : Action} {tags : List (JsString × MapValue)} {change : KeyChange} :
    Caused action (tagReport tags change) := by
  refine ⟨fun id tag delta member => ?_, fun _ member => absurd member List.not_mem_nil⟩
  cases List.mem_singleton.mp member

def bare : Transaction :=
  { after := docWith [], bots := [.bots (keyed .add)], masks := [], masksFirst := false }

theorem reports_bare : Reports { bots := [], masks := [] } bare := by
  refine ⟨fun id => ?_, fun _ _ _ impossible => (by cases impossible), ?_, fun _ => .missing⟩
  · by_cases same : id = name
    · subst same
      exact .added _
    · simp only [bare, docWith, botChanges, keyed, List.flatMap_singleton, lookup, if_neg same]
      exact .missing
  · intro event member id fromBot
    rw [List.mem_singleton.mp member] at fromBot
    cases fromBot

theorem caused_bare : Caused adding.action bare := by
  refine ⟨fun id tag delta member => ?_, fun _ member => absurd member List.not_mem_nil⟩
  cases List.mem_singleton.mp member

theorem apart_textAt {tag : JsString} (apart : tag ≠ name) (taken : Nat) (text : List Char) :
    lookup tag (textAt taken text) = none := if_neg apart

def localWith (taken : Nat) (text : List Char) (names : Nat) : Local :=
  { written := { doc := docWith (textAt taken text), names := names }
    partition := [(name, { mapToBot name { name := 0, tags := textAt taken text } with space := some name })] }

theorem inStep_local (taken : Nat) (text : List Char) (names : Nat) : InStep (localWith taken text names) := by
  intro id map found
  cases List.mem_singleton.mp (mem_of_lookup id map _ found)
  refine ⟨rfl, fun tag => ?_⟩
  exact congrArg valued (tags_mapToBot name { name := 0, tags := textAt taken text } tag)

end Sample

end CasualOS.YjsBatch
