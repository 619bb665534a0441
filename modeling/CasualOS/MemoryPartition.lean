import CasualOS.MergedUpdates
import CasualOS.Lib.Run

/-! A memory partition, and a listener that applies the updates that it emits. -/

namespace CasualOS.MemoryPartition

open OrderedMap TagEdit Run
open JsString (lit)
open MergedUpdates (readableTag_of_lookup setTag_edit)
open Option (some)

/-- The masks of an update are those of the partition's space. -/
inductive Event where
  | addBot (id : JsString) (bot : Bot)
  | removeBot (id : JsString)
  | updateBot (id : JsString) (tags masks : Option Fields) (given : tags.isSome ∨ masks.isSome)
      (readable : ReadableTags (tags.getD []) ∧ ReadableTags (masks.getD []))

/-- `state` and `updatedState` while a batch is applied. -/
structure Batch where
  state : BotsState
  updated : PartialBotsState

def emptyBot : Bot :=
  { id := none, space := none, tags := none, signatures := none, masks := none }

/-- Only the empty text and `null` are no values. -/
def clean : Json → Json
  | .string [] => .null
  | value => value

def cleanAll (tags : Fields) : Fields := tags.map fun tag => (tag.1, clean tag.2)

def rawOperations (edit : Json) : List Json :=
  match edit.field operationsName with
  | some (.array lists) => lists
  | _ => []

/-- `edits` of the next version, which nothing reads that is modelled here. -/
def edits (lists : List Json) : Json :=
  .object [(tagEditName, .boolean true), (versionName, .object []), (operationsName, .array lists)]

def combinedEdits : Option Json → List Json
  | some last => if isTagEdit last then rawOperations last else []
  | none => []

def updatedTag (last : Option Json) (value : Json) : Json :=
  if isTagEdit value then edits (combinedEdits last ++ rawOperations value) else clean value

def setUpdatedTag (last : Option Json) : Option Json → Option Json
  | none => last
  | some value => some (updatedTag last value)

/-- The update is merged once more for its masks: an edit meets the edit that was made of it, every
other value meets itself, save for the empty text, which comes back. -/
def mergedAgain (updated : Option Json) : Option Json → Option Json
  | none => updated
  | some value =>
    some (if isTagEdit value then Json.merge (updated.getD value) value else value)

/-- `merge` keeps the objects of a side that stands alone, so tags that were not there before are the
update's own, and merging them with the update changes nothing. -/
def updatedTags (last tags : Option Fields) (again : Bool) : Option Fields :=
  match last with
  | none => setAll setUpdatedTag none tags
  | some lastTags =>
    let updated := setAll setUpdatedTag (some lastTags) tags
    if again then setAll mergedAgain updated tags else updated

def mergedMask (last : Option Json) (value : Json) : Json :=
  match last with
  | none => value
  | some before => Json.merge before value

/-- A plain value is left as `merge` made it; merging it twice is merging it once. -/
def updatedMask (merged : Bool) (last : Option Json) (value : Json) : Json :=
  if isTagEdit value then
    edits (combinedEdits (if merged then some (mergedMask last value) else last) ++ rawOperations value)
  else match clean value with
    | .null => .null
    | _ => mergedMask last value

def setUpdatedMask (merged : Bool) (last : Option Json) : Option Json → Option Json
  | none => last
  | some value => some (updatedMask merged last value)

def setUpdatedSpace (merged : Bool) (last : Option Fields) : Option Fields → Option Fields
  | none => last
  | some masks => some (combine (setUpdatedMask merged) (last.getD []) masks)

def throws (bot : Bot) (last : Option Bot) (tags : Fields) : Bool :=
  (!tags.isEmpty && bot.tags.isNone) ||
    (tags.any fun tag => isTagEdit tag.2) && last.any fun updated => updated.tags.isNone

section Steps

variable (space : JsString)

def updateEntry (bot : Option Bot) (updated : Option (Option Bot)) (tags masks : Option Fields) :
    Option (Option Bot × Option (Option Bot)) :=
  let last := updated.join
  let lastBot := last.getD emptyBot
  let spaced := masks.map fun values => [(space, values)]
  let cleaned := masks.map fun values => [(space, cleanAll values)]
  match bot, tags, masks with
  | some old, some values, _ =>
    if throws old last values then none
    else some
      (some { old with
        tags := old.tags.map fun before => combine setTag before (cleanAll values)
        masks := match masks with
          | none => old.masks
          | some _ => dropEmpty (setAll setSpace old.masks cleaned) },
        some (some { lastBot with
          tags := dropEmpty (updatedTags lastBot.tags tags masks.isSome)
          masks := setAll (setUpdatedSpace true) lastBot.masks spaced }))
  | some old, none, some _ =>
    some (some { old with masks := dropEmpty (setAll setSpace old.masks cleaned) },
      some (some { lastBot with
        tags := dropEmpty lastBot.tags
        masks := setAll (setUpdatedSpace false) lastBot.masks spaced }))
  | none, _, some _ =>
    some (some { emptyBot with masks := dropEmpty (setAll setSpace none cleaned) },
      some (some { lastBot with
        tags := dropEmpty (both (combine (both Json.merge)) lastBot.tags tags)
        masks := setAll (setUpdatedSpace false) lastBot.masks spaced }))
  | bot, _, none => some (bot, updated)

def applyEvent (batch : Batch) : Event → Option Batch
  | .addBot id bot =>
    let added := { bot with id := some id, space := some space }
    some { state := assign id added batch.state, updated := assign id (some added) batch.updated }
  | .removeBot id =>
    some { state := remove id batch.state, updated := assign id none batch.updated }
  | .updateBot id tags masks _ _ =>
    match updateEntry space (lookup id batch.state) (lookup id batch.updated) tags masks with
    | none => none
    | some (bot, updated) =>
      some
        { state := match bot with
            | none => batch.state
            | some bot => assign id bot batch.state
          updated := match updated with
            | none => batch.updated
            | some updated => assign id updated batch.updated }

structure State where
  partition : BotsState
  listener : BotsState

def start (initial : BotsState) : State := { partition := initial, listener := initial }

/-- `_applyEvents`, and the listener applies the update unless it is empty. -/
def step (s : State) (events : List Event) : Option State :=
  match runAll (applyEvent space) { state := s.partition, updated := [] } events with
  | none => none
  | some batch =>
    if batch.updated.isEmpty then some { partition := batch.state, listener := s.listener }
    else (apply s.listener batch.updated).map fun listener =>
      { partition := batch.state, listener := listener }

end Steps

/-! ### The batches that are emitted whole -/

/-- An edit follows an edit of the same batch, or the text is still that of the state before. -/
def Editable (before last current : Option Json) : Prop :=
  last.any isTagEdit = true ∨ Json.convertToString before = Json.convertToString current

/-- A bot as it stays when it is applied to a state without it. -/
structure Settled (bot : Bot) : Prop where
  tags : ∀ tag ∈ bot.tags.getD [], present tag.2 = some tag.2 ∧ isTagEdit tag.2 = false
  signatures : bot.signatures ≠ some [] ∧ ∀ signature ∈ bot.signatures.getD [], signature.2.isSome
  masks : bot.masks ≠ some [] ∧ ∀ tags ∈ bot.masks.getD [], tags.2 ≠ [] ∧
    ∀ tag ∈ tags.2, present tag.2 = some tag.2 ∧ isTagEdit tag.2 = false

def tagOf (bot : Option Bot) (tag : JsString) : Option Json :=
  lookup tag ((bot.bind (·.tags)).getD [])

def maskOf (space : JsString) (bot : Option Bot) (tag : JsString) : Option Json :=
  lookup tag ((lookup space ((bot.bind (·.masks)).getD [])).getD [])

structure TagsAllowed (before last : Option Bot) (bot : Bot) (tags : Fields) (again : Bool) : Prop where
  known : tags = [] ∨ bot.tags.isSome = true
  edits : ∀ tag ∈ tags, isTagEdit tag.2 = true →
    (last.all fun updated => updated.tags.isSome) = true ∧
      Editable (tagOf before tag.1) (tagOf last tag.1) (tagOf (some bot) tag.1)
  again : again = true → (last.bind (·.tags)).isSome = true → ∀ tag ∈ tags,
    clean tag.2 = tag.2 ∧ (isTagEdit tag.2 = true → (tagOf last tag.1).any isTagEdit = false)

/-- `alone` when the tags of the bot are not updated by the same event. -/
structure MasksAllowed (space : JsString) (before last bot : Option Bot) (masks : Fields) (alone : Bool) :
    Prop where
  edits : ∀ tag ∈ masks, isTagEdit tag.2 = true →
    alone = true ∧ Editable (maskOf space before tag.1) (maskOf space last tag.1) (maskOf space bot tag.1)
  objects : ∀ tag ∈ masks, isTagEdit tag.2 = false →
    tag.2.isObject = false ∨ (maskOf space last tag.1).any Json.isObject = false

/-- What an update may do to a bot, given the state before the batch and what the batch has done. -/
structure UpdateAllowed (space : JsString) (before bot last : Option Bot) (tags masks : Option Fields) :
    Prop where
  settled : ∀ old ∈ before, old.masks ≠ some [] ∧ old.signatures ≠ some []
  onTags : ∀ known ∈ bot, ∀ values ∈ tags, TagsAllowed before last known values masks.isSome
  onMasks : ∀ values ∈ masks, MasksAllowed space before last bot values (tags.isNone || bot.isNone)
  missing : bot = none → masks.isSome = true → before = none ∧ tags.getD [] = []
  fresh : (before.bind (·.tags)) = none → (last.bind (·.tags)) = some [] → tags.getD [] ≠ []

def EventAllowed (space : JsString) (before : BotsState) (batch : Batch) : Event → Prop
  | .addBot id bot => lookup id before = none ∧ Settled bot
  | .removeBot _ => True
  | .updateBot id tags masks _ _ =>
    UpdateAllowed space (lookup id before) (lookup id batch.state) (lookup id batch.updated).join tags masks

/-- Every event of the batch is allowed where it is applied. -/
def Allowed (space : JsString) (s : State) (events : List Event) : Prop :=
  AllAllowed (applyEvent space) (EventAllowed space s.listener) { state := s.partition, updated := [] }
    events

/-! ### One tag -/

section Tag

variable {before last current : Option Json} {v w : Json}

theorem operations_edits (lists : List Json) :
    isTagEdit (edits lists) = true ∧ operations (edits lists) = lists.mapM readOps := ⟨rfl, rfl⟩

theorem operations_raw (lists : List (List TagEditOp)) (read : operations v = some lists) :
    (rawOperations v).mapM readOps = some lists := by
  unfold operations at read
  unfold rawOperations
  split at read
  · next raw found => simpa [found] using read
  · cases read

/-- The value that the batch updates to makes of the value before what the event makes of the current. -/
def Follows (before current : Option Json) (v w : Json) : Prop :=
  MergedUpdates.ReadableTag w ∧ setTag before (some w) = setTag current (some (clean v))

theorem clean_edit (edit : isTagEdit v = true) : clean v = v := by
  cases v with
  | string text => simp [isTagEdit, Json.field, TagEdit.isTrue] at edit
  | _ => rfl

theorem clean_plain (plain : isTagEdit v = false) : isTagEdit (clean v) = false := by
  unfold clean
  split
  · rfl
  · exact plain

theorem applyTagEdit_congr {value other : Option Json} (lists : List (List TagEditOp))
    (same : Json.convertToString value = Json.convertToString other) :
    applyTagEdit value lists = applyTagEdit other lists := by
  simp only [applyTagEdit, applyEdit, same]

theorem follows_plain (plain : isTagEdit v = false) : Follows before current v (clean v) := by
  refine ⟨fun edit => ?_, ?_⟩
  · rw [clean_plain plain] at edit
    cases edit
  · simp only [setTag, clean_plain plain]
    rfl

theorem follows_ops (edit : isTagEdit v = true) (editW : isTagEdit w = true)
    {a b : List (List TagEditOp)} (readV : operations v = some b) (readW : operations w = some (a ++ b))
    (text : Json.convertToString (some (applyTagEdit before a)) = Json.convertToString current) :
    Follows before current v w := by
  refine ⟨fun _ => by rw [readW]; rfl, ?_⟩
  rw [clean_edit edit, setTag_edit before editW readW, setTag_edit current edit readV,
    applyTagEdit_append, applyTagEdit_congr b text]

theorem combined_ops (fits : setTag before last = current)
    (readable : ∀ l ∈ last, MergedUpdates.ReadableTag l) (editable : Editable before last current) :
    ∃ a, (combinedEdits last).mapM readOps = some a ∧
      Json.convertToString (some (applyTagEdit before a)) = Json.convertToString current := by
  have plain : Json.convertToString before = Json.convertToString current →
      Json.convertToString (some (applyTagEdit before [])) = Json.convertToString current := by
    intro same
    rw [convertToString_applyTagEdit, ← same]
    rfl
  cases last with
  | none => exact ⟨[], rfl, plain (by rw [← fits]; rfl)⟩
  | some l =>
    by_cases edit : isTagEdit l = true
    · have ⟨a, found⟩ := Option.isSome_iff_exists.mp (readable l rfl edit)
      refine ⟨a, by simp only [combinedEdits, edit, if_true]; exact operations_raw a found, ?_⟩
      rw [← fits, setTag_edit before edit found]
      rcases applyTagEdit_text before a with nothing | ⟨text, shown⟩
      · rw [nothing]
        rfl
      · rw [shown]
        rfl
    · have same := editable.resolve_left (by simpa using edit)
      refine ⟨[], ?_, plain same⟩
      simp [combinedEdits, edit]

theorem follows_edits (fits : setTag before last = current)
    (readable : ∀ l ∈ last, MergedUpdates.ReadableTag l) (editable : Editable before last current)
    (edit : isTagEdit v = true) (readV : MergedUpdates.ReadableTag v) :
    Follows before current v (edits (combinedEdits last ++ rawOperations v)) := by
  have ⟨a, foundA, text⟩ := combined_ops fits readable editable
  have ⟨b, foundB⟩ := Option.isSome_iff_exists.mp (readV edit)
  have ⟨isEdit, read⟩ := operations_edits (combinedEdits last ++ rawOperations v)
  refine follows_ops edit isEdit foundB ?_ text
  rw [read, List.mapM_append, foundA, operations_raw b foundB]
  rfl

theorem follows_updatedTag (fits : setTag before last = current)
    (readable : ∀ l ∈ last, MergedUpdates.ReadableTag l) (readV : MergedUpdates.ReadableTag v)
    (editable : isTagEdit v = true → Editable before last current) :
    Follows before current v (updatedTag last v) := by
  unfold updatedTag
  by_cases edit : isTagEdit v = true
  · rw [if_pos edit]
    exact follows_edits fits readable (editable edit) edit readV
  · rw [if_neg edit]
    exact follows_plain (Bool.eq_false_iff.mpr edit)

/-- The second merge does no harm to a value that is no empty text and follows no edit. -/
theorem follows_mergedAgain (readV : MergedUpdates.ReadableTag v)
    (editable : isTagEdit v = true → Editable before last current) (value : clean v = v)
    (first : isTagEdit v = true → last.any isTagEdit = false) :
    ∃ w, mergedAgain (some (updatedTag last v)) (some v) = some w ∧ Follows before current v w := by
  by_cases edit : isTagEdit v = true
  · have ⟨b, foundB⟩ := Option.isSome_iff_exists.mp (readV edit)
    have ⟨isEdit, found⟩ := merge_edit (updatedTag last v) edit (readV edit)
    have same := (editable edit).resolve_left (by simp [first edit])
    refine ⟨_, by simp only [mergedAgain, edit, if_true, Option.getD_some]; rfl, ?_⟩
    apply follows_ops edit isEdit foundB (show _ = some ([] ++ b) from found.trans foundB)
    rw [convertToString_applyTagEdit, ← same]
    rfl
  · refine ⟨v, by simp [mergedAgain, edit], ?_⟩
    have plain := @follows_plain before current v (Bool.eq_false_iff.mpr edit)
    rwa [value] at plain

theorem follows_updatedMask (merged : Bool) (fits : setTag before last = current)
    (readable : ∀ l ∈ last, MergedUpdates.ReadableTag l) (readV : MergedUpdates.ReadableTag v)
    (editable : isTagEdit v = true → merged = false ∧ Editable before last current)
    (plainly : isTagEdit v = false → v.isObject = false ∨ last.any Json.isObject = false) :
    Follows before current v (updatedMask merged last v) := by
  unfold updatedMask
  by_cases edit : isTagEdit v = true
  · have ⟨once, follows⟩ := editable edit
    simp only [edit, if_true, once, Bool.false_eq_true, if_false]
    exact follows_edits fits readable follows edit readV
  · have plain := Bool.eq_false_iff.mpr edit
    have alone : mergedMask last v = v := by
      cases last with
      | none => rfl
      | some l =>
        apply Json.merge_other
        rcases plainly plain with simple | simple
        · exact .inr simple
        · exact .inl (by simpa using simple)
    have cleaned := @follows_plain before current v plain
    rw [if_neg edit, alone]
    split
    · next nothing => rwa [nothing] at cleaned
    · next valued =>
        have same : clean v = v := by
          unfold clean at valued ⊢
          split
          · exact absurd rfl valued
          · rfl
        rwa [same] at cleaned

end Tag

/-! ### Tags and masks -/

section Maps

theorem lookup_cleanAll (key : JsString) (values : Fields) :
    lookup key (cleanAll values) = (lookup key values).map clean := by
  induction values with
  | nil => rfl
  | cons entry rest ih =>
    have shape : cleanAll (entry :: rest) = (entry.1, clean entry.2) :: cleanAll rest := rfl
    rw [shape]
    by_cases same : key = entry.1
    · simp [lookup, same]
    · simp [lookup, same, ih]

/-- Every value that is updated follows its event, and the others stay what they are. -/
theorem follows_combine {old last known updated values : Fields}
    (fits : ∀ key, setTag (lookup key old) (lookup key last) = lookup key known)
    (kept : ∀ key, lookup key values = none → lookup key updated = lookup key last)
    (set : ∀ key v, lookup key values = some v → ∃ w, lookup key updated = some w ∧
      Follows (lookup key old) (lookup key known) v w) :
    Agree Eq (combine setTag old updated) (combine setTag known (cleanAll values)) := by
  intro key
  rw [lookup_combine (setTag_none none), lookup_combine (setTag_none none), lookup_cleanAll]
  cases found : lookup key values with
  | none =>
    rw [kept key found, fits]
    exact rel_refl (fun _ => rfl) _
  | some v =>
    have ⟨w, isUpdated, follows⟩ := set key v found
    rw [isUpdated, follows.2]
    exact rel_refl (fun _ => rfl) _

theorem readable_combine {f : Option Json → Option Json → Option Json} {left right : Fields}
    (readable : ∀ key w, f (lookup key left) (lookup key right) = some w → MergedUpdates.ReadableTag w) :
    ReadableTags (combine f left right) := by
  rintro ⟨key, w⟩ member
  exact readable key w (mem_combine member)

theorem readable_mem {tags : Fields} (readable : ReadableTags tags) (key : JsString) :
    ∀ l ∈ lookup key tags, MergedUpdates.ReadableTag l := fun _ found =>
  readableTag_of_lookup readable found

variable {old last known : Option Fields} {values : Fields}

theorem updatedTags_spec (again : Bool) (fits : ∀ key, setTag (lookup key (old.getD [])) (lookup key (last.getD [])) =
      lookup key (known.getD [])) (readLast : ReadableTags (last.getD [])) (readV : ReadableTags values)
    (editable : ∀ key v, lookup key values = some v → isTagEdit v = true →
      Editable (lookup key (old.getD [])) (lookup key (last.getD [])) (lookup key (known.getD [])))
    (harmless : again = true → last.isSome = true → ∀ key v, lookup key values = some v →
      clean v = v ∧ (isTagEdit v = true → (lookup key (last.getD [])).any isTagEdit = false)) :
    ∃ updated, updatedTags last (some values) again = some updated ∧ ReadableTags updated ∧
      (∀ key, lookup key values = none → lookup key updated = lookup key (last.getD [])) ∧
        ∀ key v, lookup key values = some v → ∃ w, lookup key updated = some w ∧
          Follows (lookup key (old.getD [])) (lookup key (known.getD [])) v w := by
  have once : ∀ key v, lookup key values = some v → Follows (lookup key (old.getD [])) (lookup key (known.getD [])) v
        (updatedTag (lookup key (last.getD [])) v) := fun key v found =>
    follows_updatedTag (fits key) (readable_mem readLast key)
      (readableTag_of_lookup readV found) (editable key v found)
  have lookups : ∀ key, lookup key (combine setUpdatedTag (last.getD []) values) =
      setUpdatedTag (lookup key (last.getD [])) (lookup key values) := fun key => lookup_combine rfl key _ _
  have readFirst : ReadableTags (combine setUpdatedTag (last.getD []) values) := by
    apply readable_combine
    intro key w made
    cases found : lookup key values with
    | none =>
      rw [found] at made
      exact readable_mem readLast key w made
    | some v =>
      rw [found] at made
      exact some.inj made ▸ (once key v found).1
  by_cases twice : again = true ∧ last.isSome = true
  · have ⟨isAgain, isSome⟩ := twice
    have ⟨l, isLast⟩ := Option.isSome_iff_exists.mp isSome
    have values' : ∀ key v, lookup key values = some v → ∃ w,
        mergedAgain (some (updatedTag (lookup key (last.getD [])) v)) (some v) = some w ∧
          Follows (lookup key (old.getD [])) (lookup key (known.getD [])) v w := by
      intro key v found
      have ⟨value, first⟩ := harmless isAgain isSome key v found
      exact follows_mergedAgain (readableTag_of_lookup readV found) (editable key v found) value first
    refine ⟨combine mergedAgain (combine setUpdatedTag (last.getD []) values) values, ?_, ?_, ?_, ?_⟩
    · rw [isLast, isAgain]
      rfl
    · apply readable_combine
      intro key w made
      rw [lookups] at made
      cases found : lookup key values with
      | none =>
        rw [found] at made
        exact readable_mem readLast key w made
      | some v =>
        rw [found] at made
        have ⟨x, shown, follows⟩ := values' key v found
        have same : some x = some w := shown.symm.trans made
        exact some.inj same ▸ follows.1
    · intro key found
      rw [lookup_combine rfl, lookups, found]
      rfl
    · intro key v found
      rw [lookup_combine rfl, lookups, found]
      exact values' key v found
  · refine ⟨combine setUpdatedTag (last.getD []) values, ?_, readFirst, ?_, ?_⟩
    · cases last with
      | none => rfl
      | some l =>
        have single : again = false := by simpa using twice
        rw [single]
        rfl
    · intro key found
      rw [lookups, found]
      rfl
    · intro key v found
      exact ⟨_, by rw [lookups, found]; rfl, once key v found⟩

/-- Tags that are left out when they are empty are not missed. -/
theorem dropped_fits {result : Option Fields} (updated : Option Fields) (kept : old = none → updated ≠ some [])
    (fits : Option.Rel (Agree Eq) (setAll setTag old updated) result) :
    Option.Rel (Agree Eq) (setAll setTag old (dropEmpty updated)) result := by
  match updated, old, kept, fits with
  | none, _, _, fits => exact fits
  | some (_ :: _), _, _, fits => exact fits
  | some [], none, kept, _ => exact absurd rfl (kept rfl)
  | some [], some tags, _, fits =>
    cases fits with
    | some agree =>
      apply Option.Rel.some
      intro key
      have value := agree key
      rw [lookup_combine (setTag_none none)] at value
      exact value

theorem tags_fit (again : Bool) (fits : Option.Rel (Agree Eq) (setAll setTag old last) known)
    (readLast : ReadableTags (last.getD [])) (readV : ReadableTags values)
    (hasTags : values = [] ∨ known.isSome = true)
    (editable : ∀ key v, lookup key values = some v → isTagEdit v = true →
      Editable (lookup key (old.getD [])) (lookup key (last.getD [])) (lookup key (known.getD [])))
    (harmless : again = true → last.isSome = true → ∀ key v, lookup key values = some v →
      clean v = v ∧ (isTagEdit v = true → (lookup key (last.getD [])).any isTagEdit = false))
    (fresh : old = none → last = some [] → values ≠ []) :
    Option.Rel (Agree Eq) (setAll setTag old (dropEmpty (updatedTags last (some values) again)))
        (known.map fun before => combine setTag before (cleanAll values)) ∧
      ReadableTags ((dropEmpty (updatedTags last (some values) again)).getD []) := by
  have lookups : ∀ key, setTag (lookup key (old.getD [])) (lookup key (last.getD [])) = lookup key (known.getD []) := by
    intro key
    rw [← lookup_setAll setTag_none]
    exact eq_of_rel (rel_getD fits key)
  have ⟨updated, made, readable, kept, follow⟩ :=
    updatedTags_spec again lookups readLast readV editable harmless
  rw [made]
  refine ⟨?_, by rw [getD_dropEmpty]; exact readable⟩
  cases known with
  | none =>
    have empty : values = [] := by simpa using hasTags
    have ⟨noOld, noLast⟩ : old = none ∧ last = none := by
      match old, last, fits with
      | none, none, _ => exact ⟨rfl, rfl⟩
    have nothing : updated = [] := by
      apply (eq_nil_iff updated).mpr
      intro key
      rw [kept key (by rw [empty]; rfl), noLast]
      rfl
    rw [nothing, noOld]
    exact .none
  | some before =>
    apply dropped_fits
    · intro noOld isEmpty
      have nothing := some.inj isEmpty
      match last, fits with
      | none, fits =>
        rw [noOld] at fits
        cases fits
      | some l, _ =>
        have noValues : values = [] := by
          apply (eq_nil_iff values).mpr
          intro key
          by_contra some'
          have ⟨v, found⟩ := Option.ne_none_iff_exists'.mp some'
          have ⟨w, isUpdated, _⟩ := follow key v found
          rw [nothing] at isUpdated
          cases isUpdated
        have noLast : l = [] := by
          apply (eq_nil_iff l).mpr
          intro key
          have same := kept key (by rw [noValues]; rfl)
          rw [nothing] at same
          exact same.symm
        exact fresh noOld (by rw [noLast]) noValues
    · exact .some (follows_combine lookups kept follow)

def ReadableSpaces (masks : Option (List (JsString × Fields))) : Prop :=
  ∀ space ∈ masks.getD [], ReadableTags space.2

theorem readable_space {masks : Option (List (JsString × Fields))} (readable : ReadableSpaces masks)
    (space : JsString) : ReadableTags ((lookup space (masks.getD [])).getD []) := by
  cases found : lookup space (masks.getD []) with
  | none => exact fun _ member => by cases member
  | some tags => exact readable _ (mem_of_lookup _ _ _ found)

theorem masks_fit (space : JsString) (merged : Bool) {old last known : Option (List (JsString × Fields))}
    (fits : ∀ space, Option.Rel (Agree Eq) (setSpace (lookup space (old.getD [])) (lookup space (last.getD [])))
      (lookup space (known.getD []))) (readLast : ReadableSpaces last) (readV : ReadableTags values)
    (editable : ∀ key v, lookup key values = some v → isTagEdit v = true → merged = false ∧
      Editable (lookup key ((lookup space (old.getD [])).getD []))
        (lookup key ((lookup space (last.getD [])).getD []))
        (lookup key ((lookup space (known.getD [])).getD [])))
    (plainly : ∀ key v, lookup key values = some v → isTagEdit v = false →
      v.isObject = false ∨ (lookup key ((lookup space (last.getD [])).getD [])).any Json.isObject = false) :
    Option.Rel (Agree (Agree Eq))
        (dropEmpty (setAll setSpace old (setAll (setUpdatedSpace merged) last (some [(space, values)]))))
        (dropEmpty (setAll setSpace known (some [(space, cleanAll values)]))) ∧
      ReadableSpaces (setAll (setUpdatedSpace merged) last (some [(space, values)])) := by
  have inSpace : ∀ key, setTag (lookup key ((lookup space (old.getD [])).getD []))
      (lookup key ((lookup space (last.getD [])).getD [])) =
        lookup key ((lookup space (known.getD [])).getD []) := by
    intro key
    have value := eq_of_rel (rel_getD (fits space) key)
    rw [← value]
    cases lookup space (last.getD []) with
    | none => rfl
    | some tags =>
      simp only [setSpace, getD_dropEmpty, Option.getD_some]
      exact (lookup_combine (setTag_none none) key _ _).symm
  have follow : ∀ key v, lookup key values = some v → Follows (lookup key ((lookup space (old.getD [])).getD []))
        (lookup key ((lookup space (known.getD [])).getD [])) v
        (updatedMask merged (lookup key ((lookup space (last.getD [])).getD [])) v) := by
    intro key v found
    exact follows_updatedMask merged (inSpace key) (readable_mem (readable_space readLast space) key)
      (readableTag_of_lookup readV found) (editable key v found) (plainly key v found)
  have lookups : ∀ key, lookup key (combine (setUpdatedMask merged) ((lookup space (last.getD [])).getD []) values) =
        setUpdatedMask merged (lookup key ((lookup space (last.getD [])).getD [])) (lookup key values) :=
    fun key => lookup_combine rfl key _ _
  constructor
  · apply agree_dropEmpty_iff.mpr
    intro other
    rw [lookup_combine (setSpace_none none), lookup_combine (f := setUpdatedSpace merged) rfl,
      lookup_combine (setSpace_none none)]
    by_cases same : other = space
    · subst other
      simp only [lookup, if_true, setUpdatedSpace, setSpace]
      apply agree_dropEmpty_iff.mpr
      apply follows_combine inSpace
      · intro key found
        rw [lookups, found]
        rfl
      · intro key v found
        exact ⟨_, by rw [lookups, found]; rfl, follow key v found⟩
    · have away : lookup other [(space, values)] = none := by simp [lookup, same]
      have away' : lookup other [(space, cleanAll values)] = none := by simp [lookup, same]
      rw [away, away']
      exact fits other
  · rintro ⟨other, tags⟩ member
    have made := mem_combine member
    by_cases same : other = space
    · subst other
      simp only [lookup, if_true, setUpdatedSpace, some.injEq] at made
      subst made
      apply readable_combine
      intro key w set
      cases found : lookup key values with
      | none =>
        rw [found] at set
        exact readable_mem (readable_space readLast space) key w set
      | some v =>
        rw [found] at set
        exact some.inj set ▸ (follow key v found).1
    · have away : lookup other [(space, values)] = none := by simp [lookup, same]
      rw [away] at made
      exact readLast _ (mem_of_lookup _ _ _ made)

end Maps

/-! ### A bot -/

section Bots

/-- The bots agree in everything but the order of their keys. -/
structure Alike (first second : Bot) : Prop where
  id : first.id = second.id
  space : first.space = second.space
  tags : Option.Rel (Agree Eq) first.tags second.tags
  signatures : Option.Rel (Agree Eq) first.signatures second.signatures
  masks : Option.Rel (Agree (Agree Eq)) first.masks second.masks

theorem Alike.refl (bot : Bot) : Alike bot bot where
  id := rfl
  space := rfl
  tags := rel_refl (agree_refl fun _ => rfl) _
  signatures := rel_refl (agree_refl fun _ => rfl) _
  masks := rel_refl (agree_refl (agree_refl fun _ => rfl)) _

theorem Alike.symm {first second : Bot} (alike : Alike first second) : Alike second first where
  id := alike.id.symm
  space := alike.space.symm
  tags := rel_symm (fun _ _ => agree_symm fun _ _ => Eq.symm) alike.tags
  signatures := rel_symm (fun _ _ => agree_symm fun _ _ => Eq.symm) alike.signatures
  masks := rel_symm (fun _ _ => agree_symm fun _ _ => agree_symm fun _ _ => Eq.symm) alike.masks

theorem Alike.trans {first second third : Bot} (alike : Alike first second) (next : Alike second third) :
    Alike first third where
  id := alike.id.trans next.id
  space := alike.space.trans next.space
  tags := rel_trans (fun _ _ _ => agree_eq_trans) alike.tags next.tags
  signatures := rel_trans (fun _ _ _ => agree_eq_trans) alike.signatures next.signatures
  masks := by
    apply rel_trans _ alike.masks next.masks
    intro _ _ _ same other
    apply agree_trans _ same other
    exact fun _ _ _ => agree_eq_trans

theorem Alike.same {first second : Bot} (alike : Alike first second) : first.Same second where
  id := alike.id
  space := alike.space
  tags := rel_mono (fun _ _ => agree_mono fun v _ same => same ▸ .refl v) alike.tags
  signatures := alike.signatures
  masks := rel_mono (fun _ _ => agree_mono fun _ _ => agree_mono fun v _ same => same ▸ .refl v) alike.masks

/-- The bot after what the batch has updated, field by field. -/
structure Fits (old : Option Bot) (last bot : Bot) : Prop where
  id : ∀ update : Bot, update.id = last.id → (old.getD update).id = bot.id
  space : ∀ update : Bot, update.space = last.space → (old.getD update).space = bot.space
  tags : Option.Rel (Agree Eq) (setAll setTag (old.bind (·.tags)) last.tags) bot.tags
  signatures : Option.Rel (Agree Eq)
    (dropEmpty (setAll setSignature (old.bind (·.signatures)) last.signatures)) bot.signatures
  masks : Option.Rel (Agree (Agree Eq)) (dropEmpty (setAll setSpace (old.bind (·.masks)) last.masks)) bot.masks

variable {old : Option Bot} {bot : Bot} {updated : Option (Option Bot)} {values : Fields}

theorem dropEmpty_eq {V : Type} {entries : Option (List (JsString × V))} (some' : entries ≠ some []) :
    dropEmpty entries = entries := by
  match entries, some' with
  | none, _ | some (_ :: _), _ => rfl
  | some [], isEmpty => exact absurd rfl isEmpty

theorem fits_of_alike (alike : Option.Rel Alike (applyEntry old updated) (some bot))
    (settled : ∀ o ∈ old, o.masks ≠ some [] ∧ o.signatures ≠ some []) :
    Fits old (updated.join.getD emptyBot) bot := by
  match updated, old, alike with
  | none, some o, .some alike =>
    have ⟨noMasks, noSignatures⟩ := settled o rfl
    refine ⟨fun _ _ => alike.id, fun _ _ => alike.space, alike.tags, ?_, ?_⟩
    · have same : dropEmpty o.signatures = o.signatures := dropEmpty_eq noSignatures
      change Option.Rel _ (dropEmpty o.signatures) _
      rw [same]
      exact alike.signatures
    · have same : dropEmpty o.masks = o.masks := dropEmpty_eq noMasks
      change Option.Rel _ (dropEmpty o.masks) _
      rw [same]
      exact alike.masks
  | some (some p), none, .some alike =>
    exact ⟨fun _ same => same.trans alike.id, fun _ same => same.trans alike.space, alike.tags,
      alike.signatures, alike.masks⟩
  | some (some p), some o, .some alike =>
    exact ⟨fun _ _ => alike.id, fun _ _ => alike.space, alike.tags, alike.signatures, alike.masks⟩

theorem Fits.space_lookup {last : Bot} (fits : Fits old last bot) (space : JsString) :
    Option.Rel (Agree Eq) (setSpace (lookup space ((old.bind (·.masks)).getD []))
      (lookup space (last.masks.getD []))) (lookup space (bot.masks.getD [])) := by
  have value := rel_getD fits.masks space
  rwa [getD_dropEmpty, lookup_setAll setSpace_none] at value

theorem bind_tags (last : Option Bot) : last.bind (·.tags) = (last.getD emptyBot).tags := by
  cases last <;> rfl

theorem bind_masks (last : Option Bot) : last.bind (·.masks) = (last.getD emptyBot).masks := by
  cases last <;> rfl

theorem readable_last (readable : ∀ p, updated = some (some p) → p.Readable) :
    (updated.join.getD emptyBot).Readable := by
  match updated, readable with
  | none, _ | some none, _ =>
    exact ⟨fun _ member => (by cases member), fun _ member => (by cases member)⟩
  | some (some p), readable => exact readable p rfl

theorem masks_of_allowed (space : JsString) (alone : Bool) {last : Option Bot}
    (fits : Fits old (last.getD emptyBot) bot) (readLast : (last.getD emptyBot).Readable)
    (readV : ReadableTags values) (ok : MasksAllowed space old last (some bot) values alone) :
    Option.Rel (Agree (Agree Eq))
        (dropEmpty (setAll setSpace (old.bind (·.masks))
          (setAll (setUpdatedSpace !alone) (last.getD emptyBot).masks (some [(space, values)]))))
        (dropEmpty (setAll setSpace bot.masks (some [(space, cleanAll values)]))) ∧
      ReadableSpaces (setAll (setUpdatedSpace !alone) (last.getD emptyBot).masks
        (some [(space, values)])) := by
  apply masks_fit space (!alone) fits.space_lookup readLast.2 readV
  · intro key v found edit
    have ⟨isAlone, editable⟩ := ok.edits (key, v) (mem_of_lookup key v values found) edit
    simp only [maskOf, bind_masks last] at editable
    exact ⟨by rw [isAlone]; rfl, editable⟩
  · intro key v found plain
    have either := ok.objects (key, v) (mem_of_lookup key v values found) plain
    simpa only [maskOf, bind_masks last] using either

theorem updateMasks_fits (space : JsString) (alike : Option.Rel Alike (applyEntry old updated) (some bot))
    (readable : ∀ p, updated = some (some p) → p.Readable) (readV : ReadableTags values)
    (ok : UpdateAllowed space old (some bot) updated.join none (some values)) :
    ∃ bot' updated', updateEntry space (some bot) updated none (some values) = some (some bot', some (some updated')) ∧
      Alike (applyBot old updated') bot' ∧ updated'.Readable := by
  have fits := fits_of_alike alike ok.settled
  have readLast := readable_last readable
  have ⟨masks, readMasks⟩ := masks_of_allowed space true fits readLast readV (ok.onMasks values rfl)
  refine ⟨_, _, rfl, ⟨fits.id _ rfl, fits.space _ rfl, ?_, fits.signatures, masks⟩, ?_, readMasks⟩
  · apply dropped_fits _ _ fits.tags
    intro noOld isEmpty
    rw [← bind_tags] at isEmpty
    exact ok.fresh noOld isEmpty rfl
  · rw [getD_dropEmpty]
    exact readLast.1

theorem throws_of_allowed {last : Option Bot} {again : Bool}
    (ok : TagsAllowed old last bot values again) : throws bot last values = false := by
  simp only [throws, Bool.or_eq_false_iff, Bool.and_eq_false_imp]
  constructor
  · intro some'
    rcases ok.known with isEmpty | known
    · simp [isEmpty] at some'
    · simpa using known
  · intro hasEdit
    have ⟨tag, member, edit⟩ := List.any_eq_true.mp hasEdit
    have known := (ok.edits tag member edit).1
    cases last with
    | none => rfl
    | some p => simpa using known

theorem updateEntry_tags (space : JsString) (masks : Option Fields) (quiet : throws bot updated.join values = false) :
    updateEntry space (some bot) updated (some values) masks = some
      (some { bot with
        tags := bot.tags.map fun before => combine setTag before (cleanAll values)
        masks := match masks with
          | none => bot.masks
          | some _ =>
            dropEmpty (setAll setSpace bot.masks (masks.map fun values => [(space, cleanAll values)])) },
        some (some { updated.join.getD emptyBot with
          tags := dropEmpty (updatedTags (updated.join.getD emptyBot).tags (some values) masks.isSome)
          masks := setAll (setUpdatedSpace true) (updated.join.getD emptyBot).masks
            (masks.map fun values => [(space, values)]) })) := by
  simp only [updateEntry, quiet, Bool.false_eq_true, if_false]

theorem updateTags_fits (space : JsString) {masks : Option Fields}
    (alike : Option.Rel Alike (applyEntry old updated) (some bot))
    (readable : ∀ p, updated = some (some p) → p.Readable) (readV : ReadableTags values)
    (readM : ReadableTags (masks.getD []))
    (ok : UpdateAllowed space old (some bot) updated.join (some values) masks) :
    ∃ bot' updated', updateEntry space (some bot) updated (some values) masks = some (some bot', some (some updated')) ∧
      Alike (applyBot old updated') bot' ∧ updated'.Readable := by
  have fits := fits_of_alike alike ok.settled
  have readLast := readable_last readable
  have onTags := ok.onTags bot rfl values rfl
  obtain ⟨tags, readTags⟩ := tags_fit masks.isSome fits.tags readLast.1 readV onTags.known (fun key v found edit => by
      have editable := (onTags.edits (key, v) (mem_of_lookup key v values found) edit).2
      simpa only [tagOf, bind_tags updated.join, Option.bind_some] using editable)
    (fun again some' key v found => by
      have harmless := onTags.again again (by rw [bind_tags]; exact some') (key, v) (mem_of_lookup key v values found)
      simpa only [tagOf, bind_tags updated.join] using harmless)
    (fun noOld isEmpty => ok.fresh noOld (by rw [bind_tags]; exact isEmpty))
  refine ⟨_, _, updateEntry_tags space masks (throws_of_allowed onTags), ?_⟩
  cases masks with
  | none =>
    exact ⟨⟨fits.id _ rfl, fits.space _ rfl, tags, fits.signatures, fits.masks⟩, readTags, readLast.2⟩
  | some set =>
    obtain ⟨masks, readMasks⟩ := masks_of_allowed space false fits readLast readM (ok.onMasks set rfl)
    exact ⟨⟨fits.id _ rfl, fits.space _ rfl, tags, fits.signatures, masks⟩, readTags, readMasks⟩

/-- Masks of a bot that is not there make a bot that has nothing else. -/
theorem missing_fits (space : JsString) {tags : Option Fields}
    (alike : Option.Rel Alike (applyEntry old updated) none) (readV : ReadableTags values)
    (ok : UpdateAllowed space old none updated.join tags (some values)) :
    ∃ bot' updated', updateEntry space none updated tags (some values) = some (some bot', some (some updated')) ∧
      Alike (applyBot old updated') bot' ∧ updated'.Readable := by
  have ⟨noOld, noTags⟩ := ok.missing rfl rfl
  have last : updated.join = none := by
    match updated, alike with
    | none, _ | some none, _ => rfl
    | some (some p), alike => cases alike
  have onMasks := ok.onMasks values rfl
  rw [last] at onMasks
  rw [noOld] at onMasks
  have fits : Fits none emptyBot emptyBot :=
    ⟨fun _ same => same, fun _ same => same, .none, .none, .none⟩
  have readEmpty : emptyBot.Readable :=
    ⟨fun _ member => (by cases member), fun _ member => (by cases member)⟩
  have here : MasksAllowed space none none (some emptyBot) values true :=
    ⟨fun tag member edit => ⟨rfl, (onMasks.edits tag member edit).2⟩, onMasks.objects⟩
  have ⟨masks, readMasks⟩ := @masks_of_allowed none emptyBot values space true none fits readEmpty readV here
  have gone : dropEmpty (both (combine (both Json.merge)) none tags) = none := by
    match tags, noTags with
    | none, _ => rfl
    | some t, noTags =>
      have isEmpty : t = [] := noTags
      rw [isEmpty]
      rfl
  rw [noOld]
  refine ⟨_, _, rfl, ?_⟩
  rw [last]
  refine ⟨⟨rfl, rfl, ?_, .none, masks⟩, ?_, readMasks⟩
  · change Option.Rel _ (setAll setTag none (dropEmpty (both (combine (both Json.merge)) none tags))) none
    rw [gone]
    exact .none
  · change ReadableTags ((dropEmpty (both (combine (both Json.merge)) none tags)).getD [])
    rw [gone]
    exact fun _ member => by cases member

end Bots

/-! ### Batches -/

section Batches

/-- What has been updated makes the state of the state before the batch. -/
structure Emitted (before : BotsState) (batch : Batch) : Prop where
  bots : ∀ id, Option.Rel Alike (applyEntry (lookup id before) (lookup id batch.updated))
    (lookup id batch.state)
  readable : ReadableUpdate batch.updated

theorem settled_tags {tags : Fields} (settled : ∀ tag ∈ tags, present tag.2 = some tag.2 ∧ isTagEdit tag.2 = false) :
    Agree Eq (combine setTag [] tags) tags := by
  intro key
  rw [lookup_combine (setTag_none none)]
  cases found : lookup key tags with
  | none => exact .none
  | some v =>
    have ⟨kept, plain⟩ := settled (key, v) (mem_of_lookup key v tags found)
    rw [MergedUpdates.setTag_plain _ plain, kept]
    exact .some rfl

theorem settled_alike {bot : Bot} (settled : Settled bot) : Alike (applyBot none bot) bot where
  id := rfl
  space := rfl
  tags := by
    have tags := settled.tags
    simp only [applyBot, Option.bind_none]
    cases shape : bot.tags with
    | none => exact .none
    | some values =>
      rw [shape] at tags
      exact .some (settled_tags tags)
  signatures := by
    obtain ⟨some', values⟩ := settled.signatures
    simp only [applyBot, Option.bind_none]
    cases shape : bot.signatures with
    | none => exact .none
    | some signatures =>
      rw [shape] at values some'
      have agree : Agree Eq (combine setSignature [] signatures) signatures := by
        intro hash
        rw [lookup_combine (setSignature_none none)]
        cases found : lookup hash signatures with
        | none => exact .none
        | some value =>
          cases value with
          | none => exact absurd (values _ (mem_of_lookup _ _ _ found)) (by simp)
          | some signature => exact .some rfl
      have related := agree_dropEmpty_iff.mpr agree
      rwa [dropEmpty_eq some'] at related
  masks := by
    obtain ⟨some', values⟩ := settled.masks
    simp only [applyBot, Option.bind_none]
    cases shape : bot.masks with
    | none => exact .none
    | some masks =>
      rw [shape] at values some'
      have agree : Agree (Agree Eq) (combine setSpace [] masks) masks := by
        intro space
        rw [lookup_combine (setSpace_none none)]
        cases found : lookup space masks with
        | none => exact .none
        | some tags =>
          obtain ⟨filled, settledTags⟩ := values _ (mem_of_lookup _ _ _ found)
          have inSpace := agree_dropEmpty_iff.mpr (settled_tags settledTags)
          have whole : dropEmpty (some tags) = some tags := dropEmpty_eq (by simpa using filled)
          rw [whole] at inSpace
          exact inSpace
      have related := agree_dropEmpty_iff.mpr agree
      rwa [dropEmpty_eq some'] at related

theorem readable_assign {updated : PartialBotsState} {id : JsString} {entry : Option Bot}
    (readable : ReadableUpdate updated) (new : ∀ bot ∈ entry, bot.Readable) :
    ReadableUpdate (assign id entry updated) := by
  intro other member
  rcases mem_assign member with here | old
  · rw [here]
    exact new
  · exact readable other old

theorem Emitted.update {before : BotsState} {batch : Batch} (emitted : Emitted before batch)
    (id : JsString) (bot updated : Bot) (alike : Alike (applyBot (lookup id before) updated) bot)
    (readable : updated.Readable) :
    Emitted before
      { state := assign id bot batch.state, updated := assign id (some updated) batch.updated } where
  bots other := by
    simp only [lookup_assign]
    by_cases same : other = id
    · subst other
      simp only [if_true]
      exact .some alike
    · simp only [same, if_false]
      exact emitted.bots other
  readable := readable_assign emitted.readable (fun known found => by
    rw [← some.inj found]
    exact readable)

variable (space : JsString)

theorem readable_settled {bot : Bot} (settled : Settled bot) : bot.Readable := by
  constructor
  · intro tag member edit
    rw [(settled.tags tag member).2] at edit
    cases edit
  · intro tags member tag inTags edit
    rw [((settled.masks.2 tags member).2 tag inTags).2] at edit
    cases edit

theorem applyEvent_emitted {before : BotsState} {batch : Batch} (emitted : Emitted before batch)
    (event : Event) (allowed : EventAllowed space before batch event) :
    ∃ next, applyEvent space batch event = some next ∧ Emitted before next := by
  cases event with
  | addBot id bot =>
    obtain ⟨unknown, settled⟩ := allowed
    have also : Settled { bot with id := some id, space := some space } :=
      ⟨settled.tags, settled.signatures, settled.masks⟩
    refine ⟨_, rfl, emitted.update id _ _ ?_ (readable_settled also)⟩
    rw [unknown]
    exact settled_alike also
  | removeBot id =>
    refine ⟨_, rfl, fun other => ?_, readable_assign emitted.readable (fun bot none => by cases none)⟩
    simp only [lookup_assign, lookup_remove]
    by_cases same : other = id
    · simp only [same, if_true, applyEntry]
      exact .none
    · simp only [same, if_false]
      exact emitted.bots other
  | updateBot id tags masks given readable =>
    have alike := emitted.bots id
    have known : ∀ p, lookup id batch.updated = some (some p) → p.Readable := fun p found =>
      MergedUpdates.readable_of_lookup emitted.readable found
    have ok : UpdateAllowed space (lookup id before) (lookup id batch.state)
      (lookup id batch.updated).join tags masks := allowed
    simp only [applyEvent]
    cases found : lookup id batch.state with
    | some bot =>
      rw [found] at alike ok
      cases tags with
      | some values =>
        have readV : ReadableTags values := readable.1
        obtain ⟨bot', updated', made, alike', read⟩ :=
          updateTags_fits space alike known readV readable.2 ok
        rw [made]
        exact ⟨_, rfl, emitted.update id bot' updated' alike' read⟩
      | none =>
        cases masks with
        | some values =>
          have readV : ReadableTags values := readable.2
          obtain ⟨bot', updated', made, alike', read⟩ := updateMasks_fits space alike known readV ok
          rw [made]
          exact ⟨_, rfl, emitted.update id bot' updated' alike' read⟩
        | none => simp at given
    | none =>
      rw [found] at alike ok
      cases masks with
      | some values =>
        have readV : ReadableTags values := readable.2
        obtain ⟨bot', updated', made, alike', read⟩ := missing_fits space alike readV ok
        rw [made]
        exact ⟨_, rfl, emitted.update id bot' updated' alike' read⟩
      | none =>
        have made : updateEntry space none (lookup id batch.updated) tags none =
            some (none, lookup id batch.updated) := by
          cases tags <;> rfl
        rw [made]
        cases entry : lookup id batch.updated with
        | none => exact ⟨_, rfl, emitted.bots, emitted.readable⟩
        | some updated =>
          refine ⟨_, rfl, fun other => ?_, readable_assign emitted.readable (fun bot inside => ?_)⟩
          · simp only [lookup_assign]
            by_cases same : other = id
            · have here := emitted.bots id
              rw [entry] at here
              rw [same]
              simpa only [if_true] using here
            · simp only [same, if_false]
              exact emitted.bots other
          · exact emitted.readable (id, updated) (mem_of_lookup _ _ _ entry) bot inside

theorem events_emitted (before : BotsState) (events : List Event) (batch : Batch) (emitted : Emitted before batch)
    (allowed : AllAllowed (applyEvent space) (EventAllowed space before) batch events) :
    ∃ last, runAll (applyEvent space) batch events = some last ∧ Emitted before last := by
  induction events generalizing batch with
  | nil => exact ⟨batch, rfl, emitted⟩
  | cons event rest ih =>
    have ⟨next, ran, after⟩ := applyEvent_emitted space emitted event allowed.1
    have ⟨last, ends, whole⟩ := ih next after (allowed.2 next ran)
    exact ⟨last, by rw [runAll_cons, ran]; exact ends, whole⟩

/-- The listener holds what the partition holds. -/
def InStep (s : State) : Prop := ∀ id, Option.Rel Alike (lookup id s.listener) (lookup id s.partition)

theorem step_inStep (s : State) (inStep : InStep s) (events : List Event)
    (allowed : Allowed space s events) : ∃ next, step space s events = some next ∧ InStep next := by
  have first : Emitted s.listener { state := s.partition, updated := [] } :=
    ⟨inStep, fun entry member => by cases member⟩
  have ⟨batch, ran, emitted⟩ := events_emitted space s.listener events _ first allowed
  by_cases isEmpty : batch.updated = []
  · refine ⟨{ partition := batch.state, listener := s.listener }, by simp [step, ran, isEmpty], ?_⟩
    intro id
    have bots := emitted.bots id
    rwa [isEmpty] at bots
  · have applied : apply s.listener batch.updated = some (combine applyEntry s.listener batch.updated) :=
      if_pos emitted.readable
    refine ⟨{ partition := batch.state, listener := combine applyEntry s.listener batch.updated }, ?_, ?_⟩
    · simp [step, ran, isEmpty, applied]
    · intro id
      rw [lookup_combine (applyEntry_none none)]
      exact emitted.bots id

/-- After every batch the listener holds the state, and no batch throws. -/
theorem deltas_replay (initial : BotsState) {s : State}
    (reached : Reaches (step space) (Allowed space) (start initial) s) :
    SameState s.listener s.partition ∧
      ∀ events, Allowed space s events → (step space s events).isSome = true := by
  have inStep : InStep s := by
    apply reached.invariant InStep
    · exact fun id => rel_refl Alike.refl _
    · intro state events next holds allowed ran
      have ⟨other, made, after⟩ := step_inStep space state holds events allowed
      have same := Option.some.inj (made.symm.trans ran)
      exact same ▸ after
  refine ⟨fun id => rel_mono (fun _ _ => Alike.same) (inStep id), fun events allowed => ?_⟩
  have ⟨next, made, _⟩ := step_inStep space s inStep events allowed
  rw [made]
  rfl

end Batches

/-! ### An edit after a value in one batch -/

section Sample

def name : JsString := lit ['a']

def inserting (text : JsString) : Json :=
  edits [.array [.object [(lit ['t', 'y', 'p', 'e'],
      .string (lit ['i', 'n', 's', 'e', 'r', 't'])),
    (lit ['t', 'e', 'x', 't'], .string text)]]]

def sampleBot (text : JsString) : Bot :=
  { emptyBot with tags := some [(name, .string text)] }

def adding : Event := .addBot name (sampleBot (lit ['x']))

def editing : Event :=
  .updateBot name (some [(name, inserting (lit ['y']))]) none (.inl rfl)
    ⟨by decide +kernel, by decide +kernel⟩

def storedBot (text : JsString) : Bot :=
  { sampleBot text with id := some name, space := some name }

/-- In a batch of its own the edit reaches the listener. -/
theorem edit_replays : ∃ s, runAll (step name) (start []) [[adding], [editing]] = some s ∧
    tagOf (lookup name s.partition) name = some (.string (lit ['y', 'x'])) ∧
      SameState s.listener s.partition := by
  let bots : BotsState := [(name, storedBot (lit ['x']))]
  let s : State := { partition := bots, listener := bots }
  let last : State :=
    { partition := [(name, storedBot (lit ['y', 'x']))]
      listener := [(name, storedBot (lit ['y', 'x']))] }
  have first : step name (start []) [adding] = some s := by rfl
  have second : step name s [editing] = some last := by rfl
  have addAllowed : Allowed name (start []) [adding] := by
    refine ⟨⟨rfl, ⟨?_, ?_, ?_⟩⟩, fun _ _ => trivial⟩
    · intro tag member
      have same : tag = (name, .string (lit ['x'])) := List.mem_singleton.mp member
      rw [same]
      exact ⟨rfl, rfl⟩
    · exact ⟨by simp [sampleBot, emptyBot], fun _ member => by cases member⟩
    · exact ⟨by simp [sampleBot, emptyBot], fun _ member => by cases member⟩
  have editAllowed : Allowed name s [editing] := by
    refine ⟨⟨?_, ?_, ?_, ?_, ?_⟩, fun _ _ => trivial⟩
    · intro old known
      have same : storedBot (lit ['x']) = old := Option.some.inj known
      rw [← same]
      exact ⟨by simp [storedBot, sampleBot, emptyBot], by simp [storedBot, sampleBot, emptyBot]⟩
    · intro bot known values given
      have same : storedBot (lit ['x']) = bot := Option.some.inj known
      have these : [(name, inserting (lit ['y']))] = values := Option.some.inj given
      rw [← same, ← these]
      refine ⟨.inr rfl, ?_, fun impossible => by cases impossible⟩
      intro tag member _
      rw [List.mem_singleton.mp member]
      exact ⟨rfl, .inr rfl⟩
    · intro values impossible
      cases impossible
    · intro impossible
      cases impossible
    · intro _ impossible
      cases impossible
  have reached : Reaches (step name) (Allowed name) (start []) last :=
    .step [editing] (.step [adding] .start addAllowed first) editAllowed second
  refine ⟨last, ?_, rfl, (deltas_replay name [] reached).1⟩
  rw [runAll_cons, first, Option.bind_some, runAll_cons, second]
  rfl

/-- In the batch that adds the bot the edit stands alone in what is emitted. -/
theorem edit_of_added_bot : ∃ s, step name (start []) [adding, editing] = some s ∧
    tagOf (lookup name s.partition) name = some (.string (lit ['y', 'x'])) ∧
      tagOf (lookup name s.listener) name = some (.string (lit ['y'])) ∧
        ¬ SameState s.listener s.partition := by
  let s : State :=
    { partition := [(name, storedBot (lit ['y', 'x']))]
      listener := [(name, storedBot (lit ['y']))] }
  refine ⟨s, by rfl, rfl, rfl, fun same => ?_⟩
  have bots : Option.Rel Bot.Same (some (storedBot (lit ['y'])))
      (some (storedBot (lit ['y', 'x']))) := same name
  cases bots with
  | some alike =>
    have value : Option.Rel Json.Same (some (.string (lit ['y'])))
        (some (.string (lit ['y', 'x']))) := rel_getD alike.tags name
    cases value with
    | some equal =>
      have texts := MergedUpdates.same_string equal
      simp [lit] at texts

end Sample

end CasualOS.MemoryPartition
