import CasualOS.BotActions

/-! A partition that follows a shared document by what the document's transactions report. -/

namespace CasualOS.YjsPartition

open OrderedMap TagEdit Run BotActions
open MemoryPartition (clean clean_edit clean_plain edits emptyBot lookup_cleanAll maskOf tagOf throws
  updatedTag updatedTags setUpdatedTag updateEntry)
open List (append_nil flatMap_append flatMap_cons flatMap_singleton flatten_cons foldl_append foldl_cons map_append
  map_cons mem_append mem_cons_of_mem mem_cons_self mem_filterMap mem_map mem_singleton not_mem_nil)
open Option (bind_some getD_some map_eq_some_iff)
open JsString (lit)

/-! ### The document -/

/-- A text keeps its name while its content changes; a plain value is no edit. -/
inductive MapValue where
  | text (name : Nat) (content : JsString)
  | plain (value : Json) (plain : isTagEdit value = false)

structure TagsMap where
  name : Nat
  tags : List (JsString × MapValue)

structure Doc where
  bots : List (JsString × TagsMap)
  masks : List (JsString × MapValue)

inductive KeyChange where
  | add
  | update
  | delete

inductive DeltaOp where
  | retain (count : Nat)
  | insert (text : JsString)
  | delete (count : Nat)

inductive BotsEvent where
  | bots (keys : OrderedMap JsString KeyChange)
  | tags (id : JsString) (keys : OrderedMap JsString KeyChange)
  | text (id tag : JsString) (delta : List DeltaOp)

inductive MasksEvent where
  | masks (keys : OrderedMap JsString KeyChange)
  | text (key : JsString) (delta : List DeltaOp)

/-- The changed types come in either order, and the events of each in any order. -/
structure Transaction where
  after : Doc
  bots : List BotsEvent
  masks : List MasksEvent
  masksFirst : Bool

/-! ### The partition -/

/-- A missing value is undefined, which an update takes as it takes `null`. -/
def auxValue : Option MapValue → Json
  | none => .null
  | some (.text _ content) => .string content
  | some (.plain value _) => value

def keyValue (values : List (JsString × MapValue)) (key : JsString) : KeyChange → Json
  | .add => auxValue (lookup key values)
  | .update => auxValue (lookup key values)
  | .delete => .null

def typeField : JsString := lit ['t', 'y', 'p', 'e']

def countField : JsString := lit ['c', 'o', 'u', 'n', 't']

def textField : JsString := lit ['t', 'e', 'x', 't']

def operation : DeltaOp → Json
  | .retain count => .object [(typeField, .string (lit ['p', 'r', 'e', 's', 'e', 'r', 'v', 'e'])),
      (countField, .integer (.ofNat count))]
  | .insert text => .object [(typeField, .string (lit ['i', 'n', 's', 'e', 'r', 't'])),
      (textField, .string text)]
  | .delete count => .object [(typeField, .string (lit ['d', 'e', 'l', 'e', 't', 'e'])),
      (countField, .integer (.ofNat count))]

def textEdit (delta : List DeltaOp) : Json := edits [.array (delta.map operation)]

/-- A text is kept also when it is empty. -/
def tagValue : MapValue → Option Json
  | .text _ content => some (.string content)
  | .plain value _ => present (clean value)

def mapToBot (id : JsString) (map : TagsMap) : Bot :=
  { emptyBot with
    id := some id
    tags := some (combine (fun value (_ : Option Unit) => value.bind tagValue) map.tags []) }

/-- What `:` stands for. -/
def colon : CodeUnit := 58

def tagMaskId (id tag : JsString) : JsString := id ++ colon :: tag

/-- Nothing when it throws. -/
def parseTagMaskId : JsString → Option (JsString × JsString)
  | [] => none
  | c :: rest => if c = colon then some ([], rest)
      else (parseTagMaskId rest).map fun parsed => (c :: parsed.1, parsed.2)

def keyTags (values : List (JsString × MapValue)) (keys : OrderedMap JsString KeyChange) : Fields :=
  keys.entries.map fun change => (change.1, keyValue values change.1 change.2)

def botAction (after : Doc) (change : JsString × KeyChange) : Option BotAction :=
  match change.2 with
  | .add => (lookup change.1 after.bots).map fun map => .addBot change.1 (mapToBot change.1 map)
  | .update => none
  | .delete => some (.removeBot change.1)

def botsActions (after : Doc) : BotsEvent → List BotAction
  | .bots keys => keys.entries.filterMap (botAction after)
  | .tags id keys =>
    [.updateBot id (some (keyTags (((lookup id after.bots).map (·.tags)).getD []) keys)) none]
  | .text id tag delta => [.updateBot id (some [(tag, textEdit delta)]) none]

/-- `botToMasks` after one more key. -/
def groupMask (after : Doc) (groups : List (JsString × Fields)) (change : JsString × KeyChange) :
    Option (List (JsString × Fields)) :=
  (parseTagMaskId change.1).map fun parsed =>
    assign parsed.1 (assign parsed.2 (keyValue after.masks change.1 change.2)
      ((lookup parsed.1 groups).getD [])) groups

def masksActions (after : Doc) : MasksEvent → Option (List BotAction)
  | .masks keys => (keys.entries.foldlM (groupMask after) []).map fun groups =>
    groups.map fun group => .updateBot group.1 none (some group.2)
  | .text key delta => (parseTagMaskId key).map fun parsed =>
    [.updateBot parsed.1 none (some [(parsed.2, textEdit delta)])]

def memoryEvents (t : Transaction) : Option (List BotAction) :=
  (t.masks.mapM (masksActions t.after)).map fun masks =>
    let bots := t.bots.flatMap (botsActions t.after)
    if t.masksFirst then masks.flatten ++ bots else bots ++ masks.flatten

def processTransaction (space : JsString) (state : BotsState) (t : Transaction) : Option BotsState :=
  (memoryEvents t).bind fun actions =>
    (runAll (applyAction space) { state := state, updated := [] } actions).map (·.state)

/-! ### What transactions report -/

def applyDelta : JsString → List DeltaOp → JsString
  | text, [] => text
  | text, .retain count :: rest => text.take count ++ applyDelta (text.drop count) rest
  | text, .insert inserted :: rest => inserted ++ applyDelta text rest
  | text, .delete count :: rest => applyDelta (text.drop count) rest

inductive ValueChange where
  | key (change : KeyChange)
  | text (delta : List DeltaOp)

def botChanges (id : JsString) : BotsEvent → List KeyChange
  | .bots keys => (lookup id keys.entries).toList
  | .tags _ _ => []
  | .text _ _ _ => []

def tagChanges (id tag : JsString) : BotsEvent → List ValueChange
  | .bots _ => []
  | .tags other keys => if other = id then (lookup tag keys.entries).toList.map .key else []
  | .text other name delta => if other = id ∧ name = tag then [.text delta] else []

def maskChanges (key : JsString) : MasksEvent → List ValueChange
  | .masks keys => (lookup key keys.entries).toList.map .key
  | .text other delta => if other = key then [.text delta] else []

/-- The event comes from the map of the bot or from a text in it. -/
def FromBot (id : JsString) : BotsEvent → Prop
  | .bots _ => False
  | .tags other _ => other = id
  | .text other _ _ => other = id

/-- The exact report of a key, or the exact delta of a text that stays. -/
inductive ValueReported : Option MapValue → Option MapValue → List ValueChange → Prop where
  | missing : ValueReported none none []
  | added (new : MapValue) : ValueReported none (some new) [.key .add]
  | deleted (old : MapValue) : ValueReported (some old) none [.key .delete]
  | updated (old new : MapValue) (apart : ∀ name first second, old = .text name first → new ≠ .text name second) :
      ValueReported (some old) (some new) [.key .update]
  | kept (value : MapValue) : ValueReported (some value) (some value) []
  | edited (name : Nat) (old new : JsString) (delta : List DeltaOp) (exact : applyDelta old delta = new) :
      ValueReported (some (.text name old)) (some (.text name new)) [.text delta]

inductive BotReported : Option TagsMap → Option TagsMap → List KeyChange → Prop where
  | missing : BotReported none none []
  | added (new : TagsMap) : BotReported none (some new) [.add]
  | deleted (old : TagsMap) : BotReported (some old) none [.delete]
  | replaced (old new : TagsMap) (apart : old.name ≠ new.name) : BotReported (some old) (some new) [.update]
  | kept (old new : TagsMap) (same : old.name = new.name) : BotReported (some old) (some new) []

def Stays (id : JsString) (before after : Doc) : Prop :=
  ∃ old new, lookup id before.bots = some old ∧ lookup id after.bots = some new ∧ old.name = new.name

/-- Only types that were there before and after the transaction have events of their own. -/
structure Reports (before : Doc) (t : Transaction) : Prop where
  bots : ∀ id, BotReported (lookup id before.bots) (lookup id t.after.bots) (t.bots.flatMap (botChanges id))
  tags : ∀ id old new, lookup id before.bots = some old → lookup id t.after.bots = some new →
    old.name = new.name → ∀ tag, ValueReported (lookup tag old.tags) (lookup tag new.tags)
      (t.bots.flatMap (tagChanges id tag))
  others : ∀ event ∈ t.bots, ∀ id, FromBot id event → Stays id before t.after
  masks : ∀ key, ValueReported (lookup key before.masks) (lookup key t.after.masks)
    (t.masks.flatMap (maskChanges key))

structure State where
  doc : Doc
  partition : BotsState

def start : State := { doc := { bots := [], masks := [] }, partition := [] }

def step (space : JsString) (s : State) (t : Transaction) : Option State :=
  (processTransaction space s.partition t).map fun partition => { doc := t.after, partition := partition }

/-! ### The mirror -/

/-- The empty text stands for no value. -/
def valued (value : Option Json) : Option Json := value.bind fun v => present (clean v)

def shown (value : Option MapValue) : Option Json := valued (value.bind tagValue)

structure MirrorsBot (space : JsString) (doc : Doc) (id : JsString) (map : TagsMap) (record : Option Bot) :
    Prop where
  named : record.bind (·.id) = some id
  tags : ∀ tag, valued (tagOf record tag) = shown (lookup tag map.tags)
  masks : ∀ tag, valued (maskOf space record tag) = shown (lookup (tagMaskId id tag) doc.masks)

/-- A record that is no bot has masks at most. -/
structure NoBot (space : JsString) (doc : Doc) (id : JsString) (record : Option Bot) : Prop where
  nameless : record.bind (·.id) = none
  tags : ∀ tag, tagOf record tag = none
  masks : ∀ tag, valued (maskOf space record tag) =
    if colon ∈ id then none else shown (lookup (tagMaskId id tag) doc.masks)

def Mirrors (space : JsString) (doc : Doc) (state : BotsState) : Prop :=
  ∀ id, (∀ map, lookup id doc.bots = some map → MirrorsBot space doc id map (lookup id state)) ∧
    (lookup id doc.bots = none → NoBot space doc id (lookup id state))

/-! ### The transactions that are followed -/

def MaskKey (event : MasksEvent) (key : JsString) : Prop :=
  match event with
  | .masks keys => key ∈ keys.entries.map Prod.fst
  | .text other _ => other = key

/-- Tags of the bot are set or edited. -/
def SetsTags (id : JsString) : BotsEvent → Prop
  | .bots _ => False
  | .tags other keys => other = id ∧ keys.entries ≠ []
  | .text other _ _ => other = id

/-- A text of a bot is edited first of all that is reported of the bot, or after tags of it. -/
def EditsInOrder (t : Transaction) : Prop :=
  ∀ first id tag delta rest, t.bots = first ++ .text id tag delta :: rest →
    (∃ event ∈ first, SetsTags id event) ∨
      (∀ event ∈ first, ¬ FromBot id event) ∧
        (t.masksFirst = true → ∀ event ∈ t.masks, ∀ other, ¬ MaskKey event (tagMaskId id other))

/-- The masks of a bot that is added or removed come with the transaction, after the bot. -/
def MasksCome (t : Transaction) (id : JsString) : Prop :=
  ∀ tag, if t.masksFirst then shown (lookup (tagMaskId id tag) t.after.masks) = none
    else (shown (lookup (tagMaskId id tag) t.after.masks) = none ∧
        t.masks.flatMap (maskChanges (tagMaskId id tag)) = []) ∨
      ∃ change, t.masks.flatMap (maskChanges (tagMaskId id tag)) = [.key change]

structure Followed (before : Doc) (t : Transaction) : Prop where
  parsed : ∀ event ∈ t.masks, ∀ key, MaskKey event key → colon ∈ key
  plainIds : ∀ id map, lookup id t.after.bots = some map → colon ∈ id →
    ∀ tag, shown (lookup (tagMaskId id tag) t.after.masks) = none
  replaced : ∀ id old new, lookup id before.bots = some old → lookup id t.after.bots = some new →
    old.name ≠ new.name → ∀ tag, shown (lookup tag old.tags) = shown (lookup tag new.tags)
  masks : ∀ id, colon ∉ id → (lookup id before.bots).isSome ≠ (lookup id t.after.bots).isSome →
    MasksCome t id
  edits : EditsInOrder t

def Allowed (s : State) (t : Transaction) : Prop := Reports s.doc t ∧ Followed s.doc t

/-! ### Texts -/

section Texts

def ofDelta : DeltaOp → TagEditOp
  | .retain count => .preserve count
  | .insert text => .insert text
  | .delete count => .delete count

theorem read_operation (op : DeltaOp) : TagEditOp.ofJson (operation op) = some (ofDelta op) := by
  cases op <;> rfl

theorem read_delta (delta : List DeltaOp) : readOps (.array (delta.map operation)) = some (delta.map ofDelta) := by
  rw [readOps]
  induction delta with
  | nil => rfl
  | cons op rest ih => rw [map_cons, List.mapM_cons, read_operation, ih]; rfl

theorem textEdit_spec (delta : List DeltaOp) : isTagEdit (textEdit delta) = true ∧
    operations (textEdit delta) = some [delta.map ofDelta] := by
  have ⟨isEdit, read⟩ := MemoryPartition.operations_edits [.array (delta.map operation)]
  refine ⟨isEdit, read.trans ?_⟩
  rw [List.mapM_cons, read_delta]
  rfl

theorem take_splice (text inserted : JsString) (index count : Nat) :
    (splice text index count inserted).take (index + inserted.length) = text.take index ++ inserted := by
  by_cases inside : index ≤ text.length
  · have size : (text.take index ++ inserted).length = index + inserted.length := by
      rw [List.length_append, List.length_take, Nat.min_eq_left inside]
    rw [splice, ← size, List.take_left]
  · have past : text.length ≤ index + count := by omega
    have whole : text.take index = text := List.take_of_length_le (by omega)
    rw [splice, whole, List.drop_of_length_le past, append_nil]
    apply List.take_of_length_le
    rw [List.length_append]
    omega

theorem drop_splice (text inserted : JsString) (index count : Nat) :
    (splice text index count inserted).drop (index + inserted.length) = text.drop (index + count) := by
  by_cases inside : index ≤ text.length
  · have size : (text.take index ++ inserted).length = index + inserted.length := by
      rw [List.length_append, List.length_take, Nat.min_eq_left inside]
    rw [splice, ← size, List.drop_left]
  · have past : text.length ≤ index + count := by omega
    rw [splice, List.drop_of_length_le past, append_nil]
    apply List.drop_of_length_le
    rw [List.length_append, List.length_take]
    omega
/-- The operations do to the text what the delta does, wherever they have come to. -/
theorem applyOps_delta (delta : List DeltaOp) (text : JsString) (index : Nat) :
    ((delta.map ofDelta).foldl applyOp (text, index)).1 =
      text.take index ++ applyDelta (text.drop index) delta := by
  induction delta generalizing text index with
  | nil => exact (List.take_append_drop index text).symm
  | cons op rest ih =>
    rw [map_cons, foldl_cons]
    cases op with
    | retain count =>
      have after := ih text (index + count)
      rw [← List.drop_drop, List.take_add, List.append_assoc] at after
      exact after
    | insert inserted =>
      have after := ih (splice text index 0 inserted) (index + inserted.length)
      rw [take_splice, drop_splice, Nat.add_zero, List.append_assoc] at after
      exact after
    | delete count =>
      have after := ih (splice text index count []) index
      have left := take_splice text [] index count
      have right := drop_splice text [] index count
      rw [List.length_nil, Nat.add_zero] at left right
      rw [left, right, append_nil, ← List.drop_drop] at after
      exact after

theorem applyEdit_delta (old : JsString) (value : Option Json) (delta : List DeltaOp)
    (text : Json.convertToString value = old) :
    applyEdit value [delta.map ofDelta] = applyDelta old delta := by
  have ops := applyOps_delta delta old 0
  rw [List.take_zero, List.drop_zero, List.nil_append] at ops
  rw [applyEdit, text, foldl_cons, List.foldl_nil, applyOps, ops]

end Texts

/-! ### Values -/

section Values

theorem valued_clean (value : Json) (plain : isTagEdit value = false) (old : Option Json) :
    setTag old (some (clean value)) = present (clean value) := by
  rw [setTag, clean_plain plain]
  rfl

theorem valued_present (value : Json) : valued (present (clean value)) = present (clean value) := by
  cases made : present (clean value) with
  | none => rfl
  | some w =>
    have kept : clean value = w := by
      unfold present at made
      split at made
      · cases made
      · exact Option.some.inj made
    rw [valued, bind_some, ← kept, clean_clean, kept]
    rw [kept] at made
    exact made

theorem auxValue_plain (value : Option MapValue) : isTagEdit (auxValue value) = false := by
  cases value with
  | none => rfl
  | some v =>
    cases v with
    | text name content => rfl
    | plain value isPlain => exact isPlain

theorem shown_aux (value : Option MapValue) : present (clean (auxValue value)) = shown value := by
  cases value with
  | none => rfl
  | some v =>
    cases v with
    | text name content => rfl
    | plain value isPlain => exact (valued_present value).symm

variable {value : Option Json}

/-- A value that shows as a text is the text as an edit sees it. -/
theorem convertToString_valued {name : Nat} {content : JsString}
    (same : valued value = shown (some (.text name content))) : Json.convertToString value = content := by
  have text : shown (some (.text name content)) = present (clean (.string content)) := rfl
  rw [text] at same
  cases content with
  | nil =>
    cases value with
    | none => rfl
    | some v =>
      cases v with
      | string other =>
        cases other with
        | nil => rfl
        | cons c rest => cases same
      | null => rfl
      | boolean value => cases same
      | integer value => cases same
      | decimal value => cases same
      | array items => cases same
      | object fields => cases same
  | cons c rest =>
    cases value with
    | none => cases same
    | some v =>
      cases v with
      | string other =>
        cases other with
        | nil => cases same
        | cons d others =>
          cases same
          rfl
      | null => cases same
      | boolean value => cases same
      | integer value => cases same
      | decimal value => cases same
      | array items => cases same
      | object fields => cases same

theorem set_text {name : Nat} {old : JsString} (delta : List DeltaOp)
    (same : valued value = shown (some (.text name old))) :
    valued (setTag value (some (clean (textEdit delta)))) =
      shown (some (.text name (applyDelta old delta))) := by
  have ⟨isEdit, ops⟩ := textEdit_spec delta
  rw [clean_edit isEdit, setTag, if_pos isEdit, ops, getD_some, applyTagEdit,
    applyEdit_delta old value delta (convertToString_valued same)]
  cases applyDelta old delta <;> rfl

def changeValue (values : List (JsString × MapValue)) (key : JsString) : ValueChange → Json
  | .key change => keyValue values key change
  | .text delta => textEdit delta

def setAllTo (value : Option Json) (changes : List Json) : Option Json :=
  changes.foldl (fun v w => setTag v (some (clean w))) value

theorem set_key {values : List (JsString × MapValue)} {key : JsString} (change : KeyChange)
    (gone : change = .delete → lookup key values = none) (value : Option Json) :
    valued (setTag value (some (clean (keyValue values key change)))) = shown (lookup key values) := by
  have set : valued (setTag value (some (clean (auxValue (lookup key values))))) =
      shown (lookup key values) := by
    rw [valued_clean _ (auxValue_plain _), valued_present, shown_aux]
  cases change with
  | add => exact set
  | update => exact set
  | delete =>
    rw [gone rfl]
    rfl

theorem reported_value {old : Option MapValue} {values : List (JsString × MapValue)} {key : JsString}
    {changes : List ValueChange} (reported : ValueReported old (lookup key values) changes)
    (same : valued value = shown old) :
    valued (setAllTo value (changes.map (changeValue values key))) = shown (lookup key values) := by
  generalize isNew : lookup key values = new at reported
  cases reported with
  | missing => exact same
  | added v =>
    rw [← isNew]
    exact set_key .add (fun impossible => by cases impossible) value
  | deleted v =>
    rw [← isNew]
    exact set_key .delete (fun _ => isNew) value
  | updated v w apart =>
    rw [← isNew]
    exact set_key .update (fun impossible => by cases impossible) value
  | kept v => exact same
  | edited name before content delta exact =>
    rw [← exact]
    exact set_text delta same

theorem none_of_deleted {old new : Option MapValue} (reported : ValueReported old new [.key .delete]) : new = none := by
  cases reported
  rfl

end Values

/-! ### Records -/

section Records

variable (space : JsString)

/-- The action neither adds nor removes the bot. -/
def Leaves (id : JsString) : BotAction → Prop
  | .addBot other _ => other ≠ id
  | .removeBot other => other ≠ id
  | .updateBot _ _ _ => True

def namedTags (id tag : JsString) : BotAction → List Json
  | .updateBot other tags _ => if other = id then (lookup tag (tags.getD [])).toList else []
  | _ => []

def namedMasks (id tag : JsString) : BotAction → List Json
  | .updateBot other _ masks => if other = id then (lookup tag (masks.getD [])).toList else []
  | _ => []

theorem setAllTo_append (value : Option Json) (first second : List Json) :
    setAllTo value (first ++ second) = setAllTo (setAllTo value first) second := foldl_append

theorem setAllTo_toList (value change : Option Json) :
    setAllTo value change.toList = setTag value (change.map clean) := by
  cases change <;> rfl

variable {action : BotAction} {id : JsString}

theorem leaves_effect (leaves : Leaves id action) (record : Option Bot) :
    (effect space id record action).bind (·.id) = record.bind (·.id) ∧
      (record.isSome = true → (effect space id record action).isSome = true) ∧
        ∀ tag, maskOf space (effect space id record action) tag =
          setAllTo (maskOf space record tag) (namedMasks id tag action) := by
  cases action with
  | addBot other bot =>
    rw [effect, if_neg leaves]
    exact ⟨rfl, fun known => known, fun _ => rfl⟩
  | removeBot other =>
    rw [effect, if_neg leaves]
    exact ⟨rfl, fun known => known, fun _ => rfl⟩
  | updateBot other tags masks =>
    rw [effect]
    by_cases same : other = id
    · rw [if_pos same]
      refine ⟨(other_changed space record tags masks).1, fun known => ?_, fun tag => ?_⟩
      · cases record with
        | none => cases known
        | some bot => rfl
      · rw [namedMasks, if_pos same, setAllTo_toList, maskOf_changed, if_pos rfl]
    · rw [if_neg same]
      refine ⟨rfl, fun known => known, fun tag => ?_⟩
      rw [namedMasks, if_neg same]
      rfl

theorem tagged_effect (leaves : Leaves id action) {record : Option Bot}
    (tagged : (record.bind (·.tags)).isSome = true) :
    ((effect space id record action).bind (·.tags)).isSome = true := by
  cases action with
  | addBot other bot =>
    rw [effect, if_neg leaves]
    exact tagged
  | removeBot other =>
    rw [effect, if_neg leaves]
    exact tagged
  | updateBot other tags masks =>
    rw [effect]
    by_cases same : other = id
    · rw [if_pos same]
      cases record with
      | none => cases tagged
      | some bot =>
        have kept : bot.tags.isSome = true := tagged
        exact (isSome_changedTags bot.tags tags).trans (by rw [kept]; rfl)
    · rw [if_neg same]
      exact tagged

theorem tags_effect (leaves : Leaves id action) {record : Option Bot}
    (known : record.isSome = true) (tag : JsString) :
    tagOf (effect space id record action) tag = setAllTo (tagOf record tag) (namedTags id tag action) := by
  cases action with
  | addBot other bot =>
    rw [effect, if_neg leaves]
    rfl
  | removeBot other =>
    rw [effect, if_neg leaves]
    rfl
  | updateBot other tags masks =>
    rw [effect]
    by_cases same : other = id
    · rw [if_pos same, namedTags, if_pos same, setAllTo_toList, tagOf_changed, if_pos known]
    · rw [if_neg same, namedTags, if_neg same]
      rfl

theorem untagged_effect (leaves : Leaves id action) (record : Option Bot)
    {tag : JsString} (unnamed : namedTags id tag action = []) :
    tagOf (effect space id record action) tag = tagOf record tag := by
  cases action with
  | addBot other bot => rw [effect, if_neg leaves]
  | removeBot other => rw [effect, if_neg leaves]
  | updateBot other tags masks =>
    rw [effect]
    by_cases same : other = id
    · rw [if_pos same, tagOf_changed]
      rw [namedTags, if_pos same] at unnamed
      cases given : lookup tag (tags.getD []) with
      | none => rw [Option.map_none, ite_self, setTag_none]
      | some v =>
        rw [given] at unnamed
        cases unnamed
    · rw [if_neg same]

variable {actions : List BotAction}

theorem masks_fold (leaves : ∀ action ∈ actions, Leaves id action) (record : Option Bot) (tag : JsString) :
    maskOf space (actions.foldl (effect space id) record) tag =
      setAllTo (maskOf space record tag) (actions.flatMap (namedMasks id tag)) := by
  induction actions generalizing record with
  | nil => rfl
  | cons action rest ih =>
    have first := leaves_effect space (leaves action mem_cons_self) record
    have later := ih (fun other member => leaves other (mem_cons_of_mem _ member)) (effect space id record action)
    rw [foldl_cons, later, first.2.2, flatMap_cons, setAllTo_append]

theorem id_fold (leaves : ∀ action ∈ actions, Leaves id action) (record : Option Bot) :
    (actions.foldl (effect space id) record).bind (·.id) = record.bind (·.id) := by
  induction actions generalizing record with
  | nil => rfl
  | cons action rest ih =>
    have later := ih (fun other member => leaves other (mem_cons_of_mem _ member)) (effect space id record action)
    rw [foldl_cons, later]
    exact (leaves_effect space (leaves action mem_cons_self) record).1

theorem tagged_fold (leaves : ∀ action ∈ actions, Leaves id action) {record : Option Bot}
    (tagged : (record.bind (·.tags)).isSome = true) :
    ((actions.foldl (effect space id) record).bind (·.tags)).isSome = true := by
  induction actions generalizing record with
  | nil => exact tagged
  | cons action rest ih =>
    exact ih (fun other member => leaves other (mem_cons_of_mem _ member))
      (tagged_effect space (leaves action mem_cons_self) tagged)

theorem tags_fold (leaves : ∀ action ∈ actions, Leaves id action) {record : Option Bot}
    (known : record.isSome = true) (tag : JsString) :
    tagOf (actions.foldl (effect space id) record) tag =
      setAllTo (tagOf record tag) (actions.flatMap (namedTags id tag)) := by
  induction actions generalizing record with
  | nil => rfl
  | cons action rest ih =>
    have first := leaves action mem_cons_self
    have later := ih (fun other member => leaves other (mem_cons_of_mem _ member))
      ((leaves_effect space first record).2.1 known)
    rw [foldl_cons, later, tags_effect space first known, flatMap_cons, setAllTo_append]

theorem untagged_fold (leaves : ∀ action ∈ actions, Leaves id action) (record : Option Bot) {tag : JsString}
    (unnamed : ∀ action ∈ actions, namedTags id tag action = []) :
    tagOf (actions.foldl (effect space id) record) tag = tagOf record tag := by
  induction actions generalizing record with
  | nil => rfl
  | cons action rest ih =>
    have later := ih (fun other member => leaves other (mem_cons_of_mem _ member))
      (effect space id record action) (fun other member => unnamed other (mem_cons_of_mem _ member))
    rw [foldl_cons, later]
    exact untagged_effect space (leaves action mem_cons_self) record (unnamed action mem_cons_self)

end Records

/-! ### Keys of masks -/

section Keys

theorem parse_tagMaskId {id : JsString} (plain : colon ∉ id) (tag : JsString) :
    parseTagMaskId (tagMaskId id tag) = some (id, tag) := by
  induction id with
  | nil => rfl
  | cons c rest ih =>
    rw [List.mem_cons, not_or] at plain
    have later := ih plain.2
    rw [tagMaskId] at later ⊢
    rw [List.cons_append, parseTagMaskId, if_neg (fun same => plain.1 same.symm), later]
    rfl

theorem eq_of_parse {key id tag : JsString} (parsed : parseTagMaskId key = some (id, tag)) :
    key = tagMaskId id tag ∧ colon ∉ id := by
  induction key generalizing id with
  | nil => cases parsed
  | cons c rest ih =>
    rw [parseTagMaskId] at parsed
    split at parsed
    · next same =>
        cases parsed
        exact ⟨by rw [same]; rfl, not_mem_nil⟩
    · next apart =>
        obtain ⟨inner, isInner, same⟩ := map_eq_some_iff.mp parsed
        rcases inner with ⟨head, tail⟩
        cases same
        obtain ⟨isKey, plain⟩ := ih isInner
        refine ⟨by rw [isKey]; rfl, ?_⟩
        rw [List.mem_cons, not_or]
        exact ⟨fun same => apart same.symm, plain⟩

theorem parse_isSome {key : JsString} (split : colon ∈ key) : ∃ parsed, parseTagMaskId key = some parsed := by
  induction key with
  | nil => cases split
  | cons c rest ih =>
    rw [parseTagMaskId]
    by_cases same : c = colon
    · exact ⟨_, if_pos same⟩
    · have later : colon ∈ rest := by
        rcases List.mem_cons.mp split with first | later
        · exact absurd first.symm same
        · exact later
      obtain ⟨parsed, isParsed⟩ := ih later
      rw [if_neg same, isParsed]
      exact ⟨_, rfl⟩

theorem tagMaskId_inj {id tag other : JsString} (same : tagMaskId id tag = tagMaskId id other) : tag = other := by
  have tails := List.append_cancel_left same
  exact (List.cons.inj tails).2

theorem lookup_keyTags (values : List (JsString × MapValue)) (keys : OrderedMap JsString KeyChange) (tag : JsString) :
    lookup tag (keyTags values keys) = (lookup tag keys.entries).map (keyValue values tag) := by
  rw [keyTags]
  induction keys.entries with
  | nil => rfl
  | cons entry rest ih =>
    rw [map_cons]
    by_cases same : tag = entry.1
    · rw [lookup, if_pos same, lookup, if_pos same, same]
      rfl
    · rw [lookup, if_neg same, lookup, if_neg same, ih]

/-- The groups have what the keys so far bring, each bot once. -/
structure Grouped (after : Doc) (done : List (JsString × KeyChange)) (groups : List (JsString × Fields)) :
    Prop where
  distinct : (groups.map Prod.fst).Nodup
  plain : ∀ id tag, colon ∉ id → lookup tag ((lookup id groups).getD []) =
    (lookup (tagMaskId id tag) done).map (keyValue after.masks (tagMaskId id tag))
  others : ∀ id, colon ∈ id → lookup id groups = none
  keyed : ∀ group ∈ groups, ReadableTags group.2 ∧ ∃ tag, tagMaskId group.1 tag ∈ done.map Prod.fst

theorem readable_textEdit (tag : JsString) (delta : List DeltaOp) : ReadableTags [(tag, textEdit delta)] := by
  intro entry member _
  rw [mem_singleton.mp member, (textEdit_spec delta).2]
  rfl

theorem keyValue_plain (values : List (JsString × MapValue)) (key : JsString) (change : KeyChange) :
    isTagEdit (keyValue values key change) = false := by
  cases change with
  | add => exact auxValue_plain _
  | update => exact auxValue_plain _
  | delete => rfl

theorem readable_assign {fields : Fields} (readable : ReadableTags fields) (tag : JsString) {value : Json}
    (plain : isTagEdit value = false) : ReadableTags (assign tag value fields) := by
  intro entry member edit
  rcases mem_assign member with new | old
  · rw [new, plain] at edit
    cases edit
  · exact readable entry old edit

theorem groupMask_grouped {after : Doc} {done : List (JsString × KeyChange)}
    {groups : List (JsString × Fields)} (grouped : Grouped after done groups)
    {change : JsString × KeyChange} (fresh : lookup change.1 done = none) (split : colon ∈ change.1) :
    ∃ next, groupMask after groups change = some next ∧ Grouped after (done ++ [change]) next := by
  obtain ⟨⟨id, tag⟩, parsed⟩ := parse_isSome split
  obtain ⟨isKey, plain⟩ := eq_of_parse parsed
  refine ⟨_, by rw [groupMask, parsed]; rfl, nodup_assign grouped.distinct id _, ?_, ?_, ?_⟩
  · intro other name plainOther
    rw [lookup_assign, lookup_append]
    by_cases same : other = id
    · subst same
      rw [if_pos rfl, getD_some, lookup_assign]
      by_cases here : name = tag
      · subst here
        rw [if_pos rfl, ← isKey, fresh, Option.none_or, lookup, if_pos rfl]
        rfl
      · have apart : tagMaskId other name ≠ change.1 := by
          rw [isKey]
          exact fun equal => here (tagMaskId_inj equal)
        rw [if_neg here, grouped.plain other name plainOther, lookup, if_neg apart, lookup, Option.or_none]
    · have apart : tagMaskId other name ≠ change.1 := by
        intro equal
        have parsedOther := parse_tagMaskId plainOther name
        rw [equal, parsed] at parsedOther
        cases parsedOther
        exact same rfl
      rw [if_neg same, grouped.plain other name plainOther, lookup, if_neg apart, lookup, Option.or_none]
  · intro other inside
    have apart : other ≠ id := by
      rintro rfl
      exact plain inside
    rw [lookup_assign, if_neg apart]
    exact grouped.others other inside
  · intro group member
    have keys : ∀ key, key ∈ done.map Prod.fst → key ∈ (done ++ [change]).map Prod.fst := by
      intro key inside
      rw [map_append]
      exact List.mem_append_left _ inside
    rcases mem_assign member with new | old
    · rw [new]
      constructor
      · apply readable_assign _ tag (keyValue_plain _ _ _)
        cases known : lookup id groups with
        | none => exact fun _ none' => absurd none' not_mem_nil
        | some fields => exact (grouped.keyed _ (mem_of_lookup id fields groups known)).1
      · refine ⟨tag, ?_⟩
        rw [map_append, ← isKey]
        exact List.mem_append_right _ mem_cons_self
    · obtain ⟨readable, name, inside⟩ := grouped.keyed group old
      exact ⟨readable, name, keys _ inside⟩

theorem groups_grouped {after : Doc} (rest : List (JsString × KeyChange)) {done : List (JsString × KeyChange)}
    {groups : List (JsString × Fields)} (grouped : Grouped after done groups)
    (distinct : ((done ++ rest).map Prod.fst).Nodup) (split : ∀ change ∈ rest, colon ∈ change.1) :
    ∃ last, rest.foldlM (groupMask after) groups = some last ∧ Grouped after (done ++ rest) last := by
  induction rest generalizing done groups with
  | nil => exact ⟨groups, rfl, by rw [append_nil]; exact grouped⟩
  | cons change rest ih =>
    have fresh : lookup change.1 done = none := by
      apply (lookup_eq_none_iff _ _).mpr
      intro member
      rw [map_append, map_cons] at distinct
      exact (List.nodup_append.mp distinct).2.2 _ member _ mem_cons_self rfl
    obtain ⟨next, made, after'⟩ := groupMask_grouped grouped fresh (split change mem_cons_self)
    rw [List.append_cons] at distinct ⊢
    obtain ⟨last, ran, whole⟩ := ih after' distinct (fun other member => split other (mem_cons_of_mem _ member))
    refine ⟨last, ?_, whole⟩
    rw [List.foldlM_cons, made]
    exact ran

theorem named_groups (id tag : JsString) (groups : List (JsString × Fields)) (distinct : (groups.map Prod.fst).Nodup) :
    (groups.map fun group => BotAction.updateBot group.1 none (some group.2)).flatMap (namedMasks id tag) =
      (lookup tag ((lookup id groups).getD [])).toList := by
  induction groups with
  | nil => rfl
  | cons group rest ih =>
    obtain ⟨outside, later⟩ := List.nodup_cons.mp distinct
    rw [map_cons, flatMap_cons, ih later, namedMasks]
    by_cases same : group.1 = id
    · have missing : lookup id rest = none := by
        apply (lookup_eq_none_iff _ _).mpr
        rw [← same]
        exact outside
      rw [if_pos same, missing, lookup, if_pos same.symm]
      exact append_nil _
    · rw [if_neg same, lookup, if_neg (fun equal => same equal.symm)]
      rfl

end Keys

/-! ### The actions of a transaction -/

section Actions

variable (after : Doc)

def botTags (id : JsString) : List (JsString × MapValue) := ((lookup id after.bots).map (·.tags)).getD []

theorem named_botsActions (id tag : JsString) (event : BotsEvent) :
    (botsActions after event).flatMap (namedTags id tag) =
      (tagChanges id tag event).map (changeValue (botTags after id) tag) := by
  cases event with
  | bots keys =>
    rw [botsActions, tagChanges, List.map_nil, List.flatMap_eq_nil_iff]
    intro action member
    obtain ⟨change, _, made⟩ := mem_filterMap.mp member
    rw [botAction] at made
    cases shape : change.2 with
    | add =>
      rw [shape] at made
      obtain ⟨map, _, same⟩ := map_eq_some_iff.mp made
      rw [← same]
      rfl
    | update =>
      rw [shape] at made
      cases made
    | delete =>
      rw [shape] at made
      cases made
      rfl
  | tags other keys =>
    rw [botsActions, tagChanges, flatMap_singleton, namedTags]
    by_cases same : other = id
    · subst same
      rw [if_pos rfl, if_pos rfl, getD_some, lookup_keyTags]
      cases lookup tag keys.entries <;> rfl
    · rw [if_neg same, if_neg same]
      rfl
  | text other name delta =>
    rw [botsActions, tagChanges, flatMap_singleton, namedTags]
    by_cases same : other = id
    · by_cases here : name = tag
      · rw [if_pos same, if_pos ⟨same, here⟩, getD_some, lookup, if_pos here.symm]
        rfl
      · rw [if_pos same, if_neg (fun both => here both.2), getD_some, lookup,
          if_neg (fun equal => here equal.symm)]
        rfl
    · rw [if_neg same, if_neg (fun both => same both.1)]
      rfl

theorem unmasked_botsActions (id tag : JsString) (event : BotsEvent) :
    (botsActions after event).flatMap (namedMasks id tag) = [] := by
  rw [List.flatMap_eq_nil_iff]
  intro action member
  cases event with
  | bots keys =>
    obtain ⟨change, _, made⟩ := mem_filterMap.mp member
    rw [botAction] at made
    cases shape : change.2 with
    | add =>
      rw [shape] at made
      obtain ⟨map, _, same⟩ := map_eq_some_iff.mp made
      rw [← same]
      rfl
    | update =>
      rw [shape] at made
      cases made
    | delete =>
      rw [shape] at made
      cases made
      rfl
  | tags other keys =>
    rw [mem_singleton.mp member, namedMasks]
    exact ite_self _
  | text other name delta =>
    rw [mem_singleton.mp member, namedMasks]
    exact ite_self _

/-- What the masks' events become for one bot. -/
structure MasksNamed (event : MasksEvent) (actions : List BotAction) : Prop where
  shape : ∀ action ∈ actions, ∃ id values, action = .updateBot id none (some values) ∧ ReadableTags values ∧
    ∃ tag, MaskKey event (tagMaskId id tag)
  leaves : ∀ action ∈ actions, ∀ id, Leaves id action ∧ ∀ tag, namedTags id tag action = []
  plain : ∀ id tag, colon ∉ id → actions.flatMap (namedMasks id tag) =
    (maskChanges (tagMaskId id tag) event).map (changeValue after.masks (tagMaskId id tag))
  others : ∀ id tag, colon ∈ id → actions.flatMap (namedMasks id tag) = []

theorem masksActions_spec (event : MasksEvent) (split : ∀ key, MaskKey event key → colon ∈ key) :
    ∃ actions, masksActions after event = some actions ∧ MasksNamed after event actions := by
  cases event with
  | masks keys =>
    have first : Grouped after [] [] :=
      ⟨List.nodup_nil, fun _ _ _ => rfl, fun _ _ => rfl, fun _ none' => absurd none' not_mem_nil⟩
    obtain ⟨groups, ran, grouped⟩ := groups_grouped keys.entries first keys.distinct
      (fun change member => split change.1 (List.mem_map_of_mem member))
    refine ⟨_, by rw [masksActions, ran]; rfl, ?_, ?_, ?_, ?_⟩
    · intro action member
      obtain ⟨group, inside, same⟩ := mem_map.mp member
      obtain ⟨readable, tag, key⟩ := grouped.keyed group inside
      exact ⟨group.1, group.2, same.symm, readable, tag, key⟩
    · intro action member id
      obtain ⟨group, _, same⟩ := mem_map.mp member
      rw [← same]
      exact ⟨trivial, fun tag => ite_self _⟩
    · intro id tag plain
      rw [named_groups id tag groups grouped.distinct, grouped.plain id tag plain, List.nil_append, maskChanges]
      cases lookup (tagMaskId id tag) keys.entries <;> rfl
    · intro id tag inside
      rw [named_groups id tag groups grouped.distinct, grouped.others id inside]
      rfl
  | text key delta =>
    obtain ⟨⟨id, tag⟩, parsed⟩ := parse_isSome (split key rfl)
    obtain ⟨isKey, plain⟩ := eq_of_parse parsed
    refine ⟨_, by rw [masksActions, parsed]; rfl, ?_, ?_, ?_, ?_⟩
    · intro action member
      exact ⟨id, _, mem_singleton.mp member, readable_textEdit tag delta, tag, isKey⟩
    · intro action member other
      rw [mem_singleton.mp member]
      exact ⟨trivial, fun tag => ite_self _⟩
    · intro other name plainOther
      rw [flatMap_singleton, namedMasks, maskChanges, isKey]
      by_cases same : tagMaskId id tag = tagMaskId other name
      · have parsedOther := parse_tagMaskId plainOther name
        rw [← same, parse_tagMaskId plain] at parsedOther
        cases parsedOther
        rw [if_pos rfl, if_pos rfl, getD_some, lookup, if_pos rfl]
        rfl
      · rw [if_neg same]
        by_cases here : id = other
        · have apart : name ≠ tag := by
            rintro rfl
            exact same (by rw [here])
          rw [if_pos here, getD_some, lookup, if_neg apart]
          rfl
        · rw [if_neg here]
          rfl
    · intro other name inside
      have apart : id ≠ other := by
        rintro rfl
        exact plain inside
      rw [flatMap_singleton, namedMasks, if_neg apart]

structure MasksTold (events : List MasksEvent) (actions : List BotAction) : Prop where
  shape : ∀ action ∈ actions, ∃ id values, action = .updateBot id none (some values) ∧ ReadableTags values ∧
    ∃ event ∈ events, ∃ tag, MaskKey event (tagMaskId id tag)
  leaves : ∀ action ∈ actions, ∀ id, Leaves id action ∧ ∀ tag, namedTags id tag action = []
  plain : ∀ id tag, colon ∉ id → actions.flatMap (namedMasks id tag) =
    (events.flatMap (maskChanges (tagMaskId id tag))).map (changeValue after.masks (tagMaskId id tag))
  others : ∀ id tag, colon ∈ id → actions.flatMap (namedMasks id tag) = []

theorem masks_told (events : List MasksEvent) (split : ∀ event ∈ events, ∀ key, MaskKey event key → colon ∈ key) :
    ∃ lists, events.mapM (masksActions after) = some lists ∧ MasksTold after events lists.flatten := by
  induction events with
  | nil =>
    refine ⟨[], rfl, ?_, ?_, fun _ _ _ => rfl, fun _ _ _ => rfl⟩
    · exact fun _ member => absurd member not_mem_nil
    · exact fun _ member => absurd member not_mem_nil
  | cons event rest ih =>
    obtain ⟨actions, made, named⟩ := masksActions_spec after event (split event mem_cons_self)
    obtain ⟨lists, ran, told⟩ := ih (fun other member => split other (mem_cons_of_mem _ member))
    refine ⟨actions :: lists, by rw [List.mapM_cons, made, ran]; rfl, ?_, ?_, ?_, ?_⟩
    · intro action member
      rw [flatten_cons] at member
      rcases mem_append.mp member with first | later
      · obtain ⟨id, values, same, readable, tag, key⟩ := named.shape action first
        exact ⟨id, values, same, readable, event, mem_cons_self, tag, key⟩
      · obtain ⟨id, values, same, readable, other, inside, key⟩ := told.shape action later
        exact ⟨id, values, same, readable, other, mem_cons_of_mem _ inside, key⟩
    · intro action member
      rw [flatten_cons] at member
      exact (mem_append.mp member).elim (named.leaves action) (told.leaves action)
    · intro id tag plain
      rw [flatten_cons, flatMap_append, named.plain id tag plain, told.plain id tag plain, flatMap_cons, map_append]
    · intro id tag inside
      rw [flatten_cons, flatMap_append, named.others id tag inside, told.others id tag inside]
      rfl

theorem named_bots (id tag : JsString) (events : List BotsEvent) :
    (events.flatMap (botsActions after)).flatMap (namedTags id tag) =
      (events.flatMap (tagChanges id tag)).map (changeValue (botTags after id) tag) := by
  induction events with
  | nil => rfl
  | cons event rest ih =>
    rw [flatMap_cons, flatMap_append, named_botsActions, ih, flatMap_cons, map_append]

theorem unmasked_bots (id tag : JsString) (events : List BotsEvent) :
    (events.flatMap (botsActions after)).flatMap (namedMasks id tag) = [] := by
  induction events with
  | nil => rfl
  | cons event rest ih =>
    rw [flatMap_cons, flatMap_append, unmasked_botsActions, ih]
    rfl

theorem untold_tags {id tag : JsString} {event : BotsEvent} (silent : ¬ FromBot id event) :
    tagChanges id tag event = [] := by
  cases event with
  | bots keys => rfl
  | tags other keys => exact if_neg silent
  | text other name delta => exact if_neg (fun both => silent both.1)

variable (space : JsString)

def keyEffect (id : JsString) (record : Option Bot) : KeyChange → Option Bot
  | .add => match lookup id after.bots with
      | none => record
      | some map => some { mapToBot id map with space := some space }
  | .update => record
  | .delete => none

theorem effect_botAction (id : JsString) (record : Option Bot) (change : JsString × KeyChange) :
    ((botAction after change).toList).foldl (effect space id) record =
      if change.1 = id then keyEffect after space id record change.2 else record := by
  rw [botAction]
  by_cases same : change.1 = id
  · rw [if_pos same]
    subst same
    cases change.2 with
    | add =>
      simp only [keyEffect]
      cases lookup change.1 after.bots with
      | none => rfl
      | some map => exact if_pos rfl
    | update => rfl
    | delete => exact if_pos rfl
  · rw [if_neg same]
    cases change.2 with
    | add =>
      cases lookup change.1 after.bots with
      | none => rfl
      | some map => exact if_neg same
    | update => rfl
    | delete => exact if_neg same

theorem effect_keys (id : JsString) (entries : List (JsString × KeyChange))
    (distinct : (entries.map Prod.fst).Nodup) (record : Option Bot) :
    (entries.filterMap (botAction after)).foldl (effect space id) record =
      ((lookup id entries).toList).foldl (keyEffect after space id) record := by
  induction entries generalizing record with
  | nil => rfl
  | cons change rest ih =>
    obtain ⟨outside, later⟩ := List.nodup_cons.mp distinct
    have split : (change :: rest).filterMap (botAction after) =
        (botAction after change).toList ++ rest.filterMap (botAction after) := by
      rw [List.filterMap_cons]
      cases botAction after change <;> rfl
    rw [split, foldl_append, effect_botAction, ih later]
    by_cases same : change.1 = id
    · have missing : lookup id rest = none := by
        apply (lookup_eq_none_iff _ _).mpr
        rw [← same]
        exact outside
      rw [if_pos same, missing, lookup, if_pos same.symm]
      rfl
    · rw [if_neg same, lookup, if_neg (fun equal => same equal.symm)]

theorem effect_bots (id : JsString) (events : List BotsEvent) (silent : ∀ event ∈ events, ¬ FromBot id event)
    (record : Option Bot) :
    (events.flatMap (botsActions after)).foldl (effect space id) record =
      (events.flatMap (botChanges id)).foldl (keyEffect after space id) record := by
  induction events generalizing record with
  | nil => rfl
  | cons event rest ih =>
    have later := ih (fun other member => silent other (mem_cons_of_mem _ member))
    rw [flatMap_cons, foldl_append, later, flatMap_cons, foldl_append]
    congr 1
    have quiet := silent event mem_cons_self
    cases event with
    | bots keys => exact effect_keys after space id keys.entries keys.distinct record
    | tags other keys => exact if_neg quiet
    | text other name delta => exact if_neg quiet

theorem leaves_bots {id : JsString} {events : List BotsEvent}
    (unchanged : ∀ change ∈ events.flatMap (botChanges id), change = .update) :
    ∀ action ∈ events.flatMap (botsActions after), Leaves id action := by
  intro action member
  obtain ⟨event, inside, made⟩ := List.mem_flatMap.mp member
  cases event with
  | bots keys =>
    obtain ⟨⟨key, change⟩, listed, isMade⟩ := mem_filterMap.mp made
    by_cases same : key = id
    · have reported : change ∈ events.flatMap (botChanges id) := by
        apply List.mem_flatMap.mpr
        refine ⟨.bots keys, inside, ?_⟩
        rw [botChanges, ← same, lookup_of_mem key change keys.entries keys.distinct listed]
        exact mem_cons_self
      rw [unchanged change reported] at isMade
      cases isMade
    · rw [botAction] at isMade
      cases change with
      | add =>
        obtain ⟨map, _, isAction⟩ := map_eq_some_iff.mp isMade
        rw [← isAction]
        exact same
      | update => cases isMade
      | delete =>
        cases isMade
        exact same
  | tags other keys =>
    rw [mem_singleton.mp made]
    exact trivial
  | text other name delta =>
    rw [mem_singleton.mp made]
    exact trivial

end Actions

/-! ### One transaction -/

section Transactions

variable (space : JsString)

/-- The record is what the document has of the bot, also where it is none. -/
structure Held (doc : Doc) (id : JsString) (record : Option Bot) : Prop where
  masks : ∀ tag, valued (maskOf space record tag) =
    if colon ∈ id then none else shown (lookup (tagMaskId id tag) doc.masks)
  bot : ∀ map, lookup id doc.bots = some map → record.bind (·.id) = some id ∧
    (record.bind (·.tags)).isSome = true ∧ ∀ tag, valued (tagOf record tag) = shown (lookup tag map.tags)
  nothing : lookup id doc.bots = none → record.bind (·.id) = none ∧ ∀ tag, tagOf record tag = none
  plain : ∀ map, lookup id doc.bots = some map → colon ∈ id →
    ∀ tag, shown (lookup (tagMaskId id tag) doc.masks) = none

/-- The actions, in the order in which the changed types come. -/
def inOrder (t : Transaction) (masks : List BotAction) : List BotAction :=
  if t.masksFirst then masks ++ t.bots.flatMap (botsActions t.after)
  else t.bots.flatMap (botsActions t.after) ++ masks

variable {before : Doc} {t : Transaction} {masks : List BotAction} {id : JsString} {record : Option Bot}

theorem mem_inOrder {action : BotAction} (member : action ∈ inOrder t masks) :
    action ∈ masks ∨ action ∈ t.bots.flatMap (botsActions t.after) := by
  unfold inOrder at member
  split at member
  · exact mem_append.mp member
  · exact (mem_append.mp member).symm

theorem named_inOrder (name : BotAction → List Json) {left right : List Json}
    (first : masks.flatMap name = left) (second : (t.bots.flatMap (botsActions t.after)).flatMap name = right)
    (alone : left = [] ∨ right = []) : (inOrder t masks).flatMap name = left ++ right := by
  unfold inOrder
  split
  · rw [flatMap_append, first, second]
  · rw [flatMap_append, first, second]
    rcases alone with nothing | nothing <;> rw [nothing] <;> simp

theorem held_masks (told : MasksTold t.after t.masks masks) (reports : Reports before t)
    (held : ∀ tag, valued (maskOf space record tag) =
      if colon ∈ id then none else shown (lookup (tagMaskId id tag) before.masks))
    (leaves : ∀ action ∈ inOrder t masks, Leaves id action) (tag : JsString) :
    valued (maskOf space ((inOrder t masks).foldl (effect space id) record) tag) =
      if colon ∈ id then none else shown (lookup (tagMaskId id tag) t.after.masks) := by
  rw [masks_fold space leaves]
  by_cases inside : colon ∈ id
  · rw [named_inOrder (namedMasks id tag) (told.others id tag inside) (unmasked_bots t.after id tag t.bots)
      (.inl rfl), if_pos inside]
    have same := held tag
    rw [if_pos inside] at same
    exact same
  · have same := held tag
    rw [if_neg inside] at same ⊢
    rw [named_inOrder (namedMasks id tag) (told.plain id tag inside) (unmasked_bots t.after id tag t.bots)
      (.inr rfl), append_nil]
    exact reported_value (reports.masks (tagMaskId id tag)) same

theorem unnamed_inOrder (told : MasksTold t.after t.masks masks)
    (silent : ∀ event ∈ t.bots, ¬ FromBot id event) (tag : JsString) :
    ∀ action ∈ inOrder t masks, namedTags id tag action = [] := by
  intro action member
  rcases mem_inOrder member with first | second
  · exact (told.leaves action first id).2 tag
  · have all := named_bots t.after id tag t.bots
    have nothing : t.bots.flatMap (tagChanges id tag) = [] := by
      rw [List.flatMap_eq_nil_iff]
      exact fun event inside => untold_tags (silent event inside)
    rw [nothing, List.map_nil, List.flatMap_eq_nil_iff] at all
    exact all action second

theorem leaves_inOrder (told : MasksTold t.after t.masks masks)
    (unchanged : ∀ change ∈ t.bots.flatMap (botChanges id), change = .update) :
    ∀ action ∈ inOrder t masks, Leaves id action := by
  intro action member
  rcases mem_inOrder member with first | second
  · exact (told.leaves action first id).1
  · exact leaves_bots t.after unchanged action second

theorem come_masks (told : MasksTold t.after t.masks masks) (reports : Reports before t)
    (come : colon ∉ id → MasksCome t id) (bots : maskOf space record = fun _ => none) (later : t.masksFirst = false)
    (tag : JsString) : valued (maskOf space (masks.foldl (effect space id) record) tag) =
      if colon ∈ id then none else shown (lookup (tagMaskId id tag) t.after.masks) := by
  rw [masks_fold space (fun action member => (told.leaves action member id).1), bots]
  by_cases inside : colon ∈ id
  · rw [told.others id tag inside, if_pos inside]
    rfl
  · have comes := come inside tag
    rw [later, if_neg Bool.false_ne_true] at comes
    rw [told.plain id tag inside, if_neg inside]
    rcases comes with ⟨missing, silent⟩ | ⟨change, told'⟩
    · rw [silent, missing]
      rfl
    · have reported := reports.masks (tagMaskId id tag)
      rw [told'] at reported ⊢
      apply set_key change _ none
      intro isDelete
      rw [isDelete] at reported
      exact none_of_deleted reported

theorem bot_cases {old new : Option TagsMap} {changes : List KeyChange} (reported : BotReported old new changes) :
    (old = none ∧ new = none ∧ changes = []) ∨ (old = none ∧ ∃ n, new = some n ∧ changes = [.add]) ∨
      (∃ m, old = some m ∧ new = none ∧ changes = [.delete]) ∨ ∃ m n, old = some m ∧ new = some n ∧
          ((m.name ≠ n.name ∧ changes = [.update]) ∨ (m.name = n.name ∧ changes = [])) := by
  cases reported with
  | missing => exact .inl ⟨rfl, rfl, rfl⟩
  | added n => exact .inr (.inl ⟨rfl, n, rfl, rfl⟩)
  | deleted m => exact .inr (.inr (.inl ⟨m, rfl, rfl, rfl⟩))
  | replaced m n apart => exact .inr (.inr (.inr ⟨m, n, rfl, rfl, .inl ⟨apart, rfl⟩⟩))
  | kept m n same => exact .inr (.inr (.inr ⟨m, n, rfl, rfl, .inr ⟨same, rfl⟩⟩))

theorem silent_of_not_stays (reports : Reports before t) (gone : ¬ Stays id before t.after) :
    ∀ event ∈ t.bots, ¬ FromBot id event := fun event member fromBot =>
  gone (reports.others event member id fromBot)

/-- A bot that is added or removed: what its key makes of it, and the masks that come later. -/
structure Based (base record : Option Bot) : Prop where
  id : record.bind (·.id) = base.bind (·.id)
  tags : ∀ tag, tagOf record tag = tagOf base tag
  tagged : (base.bind (·.tags)).isSome = true → (record.bind (·.tags)).isSome = true

variable {base : Option Bot} {new : TagsMap}

/-- What the actions make of a record that its key alone makes anew. -/
theorem fold_inOrder (silent : ∀ event ∈ t.bots, ¬ FromBot id event)
    (made : ∀ record, (t.bots.flatMap (botChanges id)).foldl (keyEffect t.after space id) record = base)
    (record : Option Bot) : (inOrder t masks).foldl (effect space id) record =
      if t.masksFirst then base else masks.foldl (effect space id) base := by
  have bots : ∀ other, (t.bots.flatMap (botsActions t.after)).foldl (effect space id) other = base := by
    intro other
    rw [effect_bots t.after space id t.bots silent]
    exact made other
  cases first : t.masksFirst with
  | true =>
    rw [inOrder, first, if_pos rfl, if_pos rfl, foldl_append]
    exact bots _
  | false => rw [inOrder, first, if_neg Bool.false_ne_true, if_neg Bool.false_ne_true, foldl_append, bots]

theorem based_inOrder (told : MasksTold t.after t.masks masks) (silent : ∀ event ∈ t.bots, ¬ FromBot id event)
    (made : ∀ record, (t.bots.flatMap (botChanges id)).foldl (keyEffect t.after space id) record = base)
    (record : Option Bot) : Based base ((inOrder t masks).foldl (effect space id) record) := by
  have leaves : ∀ action ∈ masks, Leaves id action := fun action member => (told.leaves action member id).1
  rw [fold_inOrder space silent made]
  split
  · exact ⟨rfl, fun _ => rfl, fun tagged => tagged⟩
  · refine ⟨id_fold space leaves base, fun tag => ?_, tagged_fold space leaves⟩
    exact untagged_fold space leaves base (fun action member => (told.leaves action member id).2 tag)

theorem masked_inOrder (told : MasksTold t.after t.masks masks) (reports : Reports before t)
    (silent : ∀ event ∈ t.bots, ¬ FromBot id event)
    (made : ∀ record, (t.bots.flatMap (botChanges id)).foldl (keyEffect t.after space id) record = base)
    (unmasked : maskOf space base = fun _ => none) (come : colon ∉ id → MasksCome t id) (record : Option Bot)
    (tag : JsString) : valued (maskOf space ((inOrder t masks).foldl (effect space id) record) tag) =
      if colon ∈ id then none else shown (lookup (tagMaskId id tag) t.after.masks) := by
  rw [fold_inOrder space silent made]
  split
  · next first =>
      rw [unmasked]
      by_cases inside : colon ∈ id
      · rw [if_pos inside]
        rfl
      · have comes := come inside tag
        rw [first, if_pos rfl] at comes
        rw [if_neg inside, comes]
        rfl
  · next later => exact come_masks space told reports come unmasked (Bool.eq_false_iff.mpr later) tag

theorem tags_mapToBot (id : JsString) (map : TagsMap) (tag : JsString) :
    lookup tag (((mapToBot id map).tags).getD []) = (lookup tag map.tags).bind tagValue := by
  rw [mapToBot, getD_some, lookup_combine rfl]

theorem fold_added (reports : Reports before t) (missing : lookup id before.bots = none)
    (isNew : lookup id t.after.bots = some new) (other : Option Bot) :
    (t.bots.flatMap (botChanges id)).foldl (keyEffect t.after space id) other =
      some { mapToBot id new with space := some space } := by
  rcases bot_cases (reports.bots id) with ⟨_, noNew, _⟩ | ⟨_, n, _, same⟩ | ⟨m, isOld, _⟩ | ⟨m, n, isOld, _⟩
  · rw [isNew] at noNew
    cases noNew
  · simp only [same, foldl_cons, List.foldl_nil, keyEffect, isNew]
  · rw [missing] at isOld
    cases isOld
  · rw [missing] at isOld
    cases isOld

theorem not_stays_of_missing (missing : lookup id before.bots = none ∨ lookup id t.after.bots = none) :
    ¬ Stays id before t.after := by
  rintro ⟨old, new, isOld, isNew, _⟩
  rcases missing with noOld | noNew
  · rw [noOld] at isOld
    cases isOld
  · rw [noNew] at isNew
    cases isNew

theorem leaves_known (told : MasksTold t.after t.masks masks) (reports : Reports before t) {old : TagsMap}
    (isOld : lookup id before.bots = some old) (isNew : lookup id t.after.bots = some new) :
    ∀ action ∈ inOrder t masks, Leaves id action := by
  apply leaves_inOrder told
  intro change member
  rcases bot_cases (reports.bots id) with ⟨missing, _⟩ | ⟨missing, _⟩ | ⟨_, _, missing, _⟩ |
    ⟨_, _, _, _, ⟨_, same⟩ | ⟨_, same⟩⟩
  · rw [isOld] at missing
    cases missing
  · rw [isOld] at missing
    cases missing
  · rw [isNew] at missing
    cases missing
  · rw [same] at member
    exact mem_singleton.mp member
  · rw [same] at member
    cases member

/-- A bot that the document has after the transaction is named and has tags, when it had before. -/
theorem id_after (told : MasksTold t.after t.masks masks) (reports : Reports before t)
    (isNew : lookup id t.after.bots = some new)
    (named : (lookup id before.bots).isSome = true → record.bind (·.id) = some id) :
    ((inOrder t masks).foldl (effect space id) record).bind (·.id) = some id := by
  cases isOld : lookup id before.bots with
  | none =>
    have silent := silent_of_not_stays reports (not_stays_of_missing (.inl isOld))
    exact (based_inOrder space told silent (fold_added space reports isOld isNew) record).id
  | some old =>
    rw [isOld] at named
    exact (id_fold space (leaves_known told reports isOld isNew) record).trans (named rfl)

theorem tagged_after (told : MasksTold t.after t.masks masks) (reports : Reports before t)
    (isNew : lookup id t.after.bots = some new)
    (tagged : (lookup id before.bots).isSome = true → (record.bind (·.tags)).isSome = true) :
    (((inOrder t masks).foldl (effect space id) record).bind (·.tags)).isSome = true := by
  cases isOld : lookup id before.bots with
  | none =>
    have silent := silent_of_not_stays reports (not_stays_of_missing (.inl isOld))
    exact (based_inOrder space told silent (fold_added space reports isOld isNew) record).tagged rfl
  | some old =>
    rw [isOld] at tagged
    exact tagged_fold space (leaves_known told reports isOld isNew) (tagged rfl)

theorem tags_after (told : MasksTold t.after t.masks masks) (reports : Reports before t)
    (isNew : lookup id t.after.bots = some new)
    (tags : ∀ old, lookup id before.bots = some old →
      record.isSome = true ∧ ∀ tag, valued (tagOf record tag) = shown (lookup tag old.tags))
    (replaced : ∀ old, lookup id before.bots = some old → old.name ≠ new.name →
      ∀ tag, shown (lookup tag old.tags) = shown (lookup tag new.tags)) (tag : JsString) :
    valued (tagOf ((inOrder t masks).foldl (effect space id) record) tag) = shown (lookup tag new.tags) := by
  cases isOld : lookup id before.bots with
  | none =>
    have silent := silent_of_not_stays reports (not_stays_of_missing (.inl isOld))
    have based := based_inOrder space told silent (fold_added space reports isOld isNew) record
    rw [based.tags]
    exact congrArg valued (tags_mapToBot id new tag)
  | some old =>
    have leaves := leaves_known told reports isOld isNew
    obtain ⟨known, same⟩ := tags old isOld
    by_cases kept : old.name = new.name
    · have values : botTags t.after id = new.tags := by
        rw [botTags, isNew]
        rfl
      have noTags : masks.flatMap (namedTags id tag) = [] := by
        rw [List.flatMap_eq_nil_iff]
        exact fun action member => (told.leaves action member id).2 tag
      have reported := reports.tags id old new isOld isNew kept tag
      rw [tags_fold space leaves known, named_inOrder (namedTags id tag) noTags
        (named_bots t.after id tag t.bots) (.inl rfl), List.nil_append, values]
      exact reported_value reported (same tag)
    · have gone : ¬ Stays id before t.after := by
        rintro ⟨first, second, isFirst, isSecond, equal⟩
        rw [isOld] at isFirst
        rw [isNew] at isSecond
        cases isFirst
        cases isSecond
        exact kept equal
      rw [untagged_fold space leaves record (unnamed_inOrder told (silent_of_not_stays reports gone) tag), same tag]
      exact replaced old isOld kept tag

theorem held_after (told : MasksTold t.after t.masks masks) (reports : Reports before t)
    (followed : Followed before t) (held : Held space before id record) :
    Held space t.after id ((inOrder t masks).foldl (effect space id) record) := by
  have plain : ∀ map, lookup id t.after.bots = some map → colon ∈ id →
      ∀ tag, shown (lookup (tagMaskId id tag) t.after.masks) = none := followed.plainIds id
  have bot : ∀ new, lookup id t.after.bots = some new →
      ((inOrder t masks).foldl (effect space id) record).bind (·.id) = some id ∧
        (((inOrder t masks).foldl (effect space id) record).bind (·.tags)).isSome = true ∧
          ∀ tag, valued (tagOf ((inOrder t masks).foldl (effect space id) record) tag) =
            shown (lookup tag new.tags) := by
    intro new isNew
    refine ⟨id_after space told reports isNew fun known => ?_, tagged_after space told reports isNew fun known => ?_,
      tags_after space told reports isNew (fun old isOld => ⟨?_, ?_⟩) ?_⟩
    · obtain ⟨old, isOld⟩ := Option.isSome_iff_exists.mp known
      exact (held.bot old isOld).1
    · obtain ⟨old, isOld⟩ := Option.isSome_iff_exists.mp known
      exact (held.bot old isOld).2.1
    · cases record with
      | none => cases (held.bot old isOld).1
      | some bot => rfl
    · exact (held.bot old isOld).2.2
    · exact fun old isOld => followed.replaced id old new isOld isNew
  rcases bot_cases (reports.bots id) with ⟨noOld, noNew, same⟩ | ⟨noOld, n, isNew, same⟩ |
    ⟨m, isOld, noNew, same⟩ | ⟨m, n, isOld, isNew, whole⟩
  · have leaves : ∀ action ∈ inOrder t masks, Leaves id action :=
      leaves_inOrder told (by rw [same]; exact fun _ member => absurd member not_mem_nil)
    have silent := silent_of_not_stays reports (not_stays_of_missing (.inl noOld))
    refine ⟨held_masks space told reports held.masks leaves, bot, fun _ => ⟨?_, fun tag => ?_⟩, plain⟩
    · rw [id_fold space leaves]
      exact (held.nothing noOld).1
    · rw [untagged_fold space leaves record (unnamed_inOrder told silent tag)]
      exact (held.nothing noOld).2 tag
  · have come : colon ∉ id → MasksCome t id := fun inside =>
      followed.masks id inside (by rw [noOld, isNew]; exact Bool.false_ne_true)
    have silent := silent_of_not_stays reports (not_stays_of_missing (.inl noOld))
    refine ⟨?_, bot, fun missing => ?_, plain⟩
    · exact masked_inOrder space told reports silent (fold_added space reports noOld isNew) rfl come record
    · rw [isNew] at missing
      cases missing
  · have come : colon ∉ id → MasksCome t id := fun inside =>
      followed.masks id inside (by rw [isOld, noNew]; exact fun equal => Bool.false_ne_true equal.symm)
    have silent := silent_of_not_stays reports (not_stays_of_missing (.inr noNew))
    have made : ∀ other, (t.bots.flatMap (botChanges id)).foldl (keyEffect t.after space id) other = none := by
      intro other
      rw [same]
      rfl
    have based := based_inOrder space told silent made record
    exact ⟨masked_inOrder space told reports silent made rfl come record, bot,
      fun _ => ⟨based.id, based.tags⟩, plain⟩
  · refine ⟨held_masks space told reports held.masks (leaves_known told reports isOld isNew), bot,
      fun missing => ?_, plain⟩
    rw [isNew] at missing
    cases missing

end Transactions

/-! ### No action throws -/

section Running

variable (space : JsString)

/-- What the batch has updated of the bot has tags. -/
def Filled (updated : Option (Option Bot)) : Prop :=
  ∃ bot, updated = some (some bot) ∧ ∃ tag, lookup tag (bot.tags.getD []) ≠ none

theorem tags_of_filled {updated : Option (Option Bot)} (filled : Filled updated) :
    updated.join.any (fun bot => bot.tags.isNone) = false := by
  obtain ⟨bot, isBot, tag, some'⟩ := filled
  rw [isBot]
  cases tags : bot.tags with
  | none =>
    rw [tags] at some'
    exact absurd rfl some'
  | some fields => simp [tags]

theorem lookup_setUpdated_other {id other : JsString} (apart : other ≠ id) (updatedState : PartialBotsState)
    (updated : Option (Option Bot)) :
    lookup other (setUpdated id updatedState updated) = lookup other updatedState := by
  cases updated with
  | none => rfl
  | some known => exact (lookup_assign id other known updatedState).trans (if_neg apart)

variable {batch first : MemoryPartition.Batch} {values : Fields} {keys : OrderedMap JsString KeyChange} {id : JsString}
variable {after : Doc}
  {done : List BotsEvent}

theorem updated_other {next : MemoryPartition.Batch} {action : BotAction}
    (made : applyAction space batch action = some next) (apart : ¬ Names id action) :
    lookup id next.updated = lookup id batch.updated := by
  cases action with
  | addBot other bot =>
    cases made
    exact (lookup_assign other id _ batch.updated).trans (if_neg (fun same => apart same.symm))
  | removeBot other =>
    cases made
    exact (lookup_assign other id _ batch.updated).trans (if_neg (fun same => apart same.symm))
  | updateBot other tags masks =>
    rw [applyAction] at made
    split at made
    · obtain ⟨pair, _, same⟩ := map_eq_some_iff.mp made
      rw [← same]
      exact lookup_setUpdated_other (fun same => apart same.symm) batch.updated pair.2
    · cases made

theorem runAll_updated_other (actions : List BotAction) {last : MemoryPartition.Batch}
    (ran : runAll (applyAction space) batch actions = some last)
    (apart : ∀ action ∈ actions, ¬ Names id action) : lookup id last.updated = lookup id batch.updated := by
  induction actions generalizing batch with
  | nil =>
    cases ran
    rfl
  | cons action rest ih =>
    rw [runAll_cons] at ran
    obtain ⟨next, made, later⟩ := Option.bind_eq_some_iff.mp ran
    rw [ih later (fun other member => apart other (mem_cons_of_mem _ member))]
    exact updated_other space made (apart action mem_cons_self)

theorem runAll_isSome (actions : List BotAction) (batch : MemoryPartition.Batch)
    (applied : ∀ action ∈ actions, ∀ other, ∃ next, applyAction space other action = some next) :
    ∃ last, runAll (applyAction space) batch actions = some last := by
  induction actions generalizing batch with
  | nil => exact ⟨batch, rfl⟩
  | cons action rest ih =>
    obtain ⟨next, made⟩ := applied action mem_cons_self batch
    obtain ⟨last, ran⟩ := ih next (fun other member => applied other (mem_cons_of_mem _ member))
    exact ⟨last, by rw [runAll_cons, made]; exact ran⟩

theorem masks_applied (id : JsString) (readable : ReadableTags values) (batch : MemoryPartition.Batch) :
    ∃ next, applyAction space batch (.updateBot id none (some values)) = some next := by
  have reads : Readable (lookup id batch.state) none (some values) :=
    ⟨fun _ _ none' => absurd none' not_mem_nil, readable⟩
  obtain ⟨next, made, _⟩ := applyAction_update space batch id reads (fun _ _ _ impossible => by cases impossible)
  exact ⟨next, made⟩

theorem keys_applied {action : BotAction}
    (member : action ∈ botsActions after (.bots keys)) (batch : MemoryPartition.Batch) :
    ∃ next, applyAction space batch action = some next := by
  obtain ⟨change, _, made⟩ := mem_filterMap.mp member
  rw [botAction] at made
  cases shape : change.2 with
  | add =>
    rw [shape] at made
    obtain ⟨map, _, same⟩ := map_eq_some_iff.mp made
    rw [← same]
    exact ⟨_, rfl⟩
  | update =>
    rw [shape] at made
    cases made
  | delete =>
    rw [shape] at made
    cases made
    exact ⟨_, rfl⟩

theorem lookup_updatedTags (last : Option Fields) (values : Fields) (tag : JsString) :
    lookup tag ((updatedTags last (some values) false).getD []) =
      setUpdatedTag (lookup tag (last.getD [])) (lookup tag values) := by
  have keeps : ∀ old, setUpdatedTag old none = old := fun _ => rfl
  cases last with
  | none => exact lookup_setAll keeps none (some values) tag
  | some fields => exact lookup_setAll keeps (some fields) (some values) tag

theorem tags_applied (tagged : ((lookup id batch.state).bind (·.tags)).isSome = true) (readable : ReadableTags values)
    (edits : (∀ entry ∈ values, isTagEdit entry.2 = false) ∨ lookup id batch.updated = none ∨
      Filled (lookup id batch.updated)) :
    ∃ next, applyAction space batch (.updateBot id (some values) none) = some next ∧
      (values ≠ [] ∨ Filled (lookup id batch.updated) → Filled (lookup id next.updated)) := by
  obtain ⟨old, known, hasTags⟩ : ∃ old, lookup id batch.state = some old ∧ old.tags.isSome = true := by
    cases found : lookup id batch.state with
    | none =>
      rw [found] at tagged
      cases tagged
    | some old =>
      rw [found] at tagged
      exact ⟨old, rfl, tagged⟩
  have noEdit : (values.any fun tag => isTagEdit tag.2) = true →
      (lookup id batch.updated).join.any (fun bot => bot.tags.isNone) = false := by
    intro some'
    rcases edits with plain | fresh | filled
    · obtain ⟨entry, member, edit⟩ := List.any_eq_true.mp some'
      rw [plain entry member] at edit
      cases edit
    · rw [fresh]
      rfl
    · exact tags_of_filled filled
  have quiet : throws old (lookup id batch.updated).join values = false := by
    rw [throws, Option.isNone_eq_false_iff.mpr hasTags, Bool.and_false, Bool.false_or]
    cases some' : values.any fun tag => isTagEdit tag.2 with
    | false => rfl
    | true => rw [noEdit some', Bool.and_false]
  have reads : Readable (lookup id batch.state) (some values) none :=
    ⟨fun _ => readable, fun _ none' => absurd none' not_mem_nil⟩
  refine ⟨_, by rw [applyAction, if_pos reads, known, updateEntry, quiet]; rfl, fun named => ?_⟩
  refine ⟨_, (lookup_assign id id _ batch.updated).trans (if_pos rfl), ?_⟩
  have entries : ∀ tag, lookup tag ((dropEmpty
      (updatedTags ((lookup id batch.updated).join.getD emptyBot).tags (some values) false)).getD []) =
        setUpdatedTag (lookup tag ((((lookup id batch.updated).join.getD emptyBot).tags).getD []))
          (lookup tag values) := by
    intro tag
    rw [getD_dropEmpty, lookup_updatedTags]
  rcases named with filled | ⟨bot, isBot, tag, some'⟩
  · cases values with
    | nil => exact absurd rfl filled
    | cons entry rest =>
      refine ⟨entry.1, fun missing => ?_⟩
      have set := (entries entry.1).symm.trans missing
      rw [lookup, if_pos rfl] at set
      cases set
  · refine ⟨tag, fun missing => some' ?_⟩
    have set := (entries tag).symm.trans missing
    rw [isBot] at set
    cases given : lookup tag values with
    | none =>
      rw [given] at set
      exact set
    | some v =>
      rw [given] at set
      cases set

/-- What the batch has come to after some of the bots' events. -/
structure Underway (before after : Doc) (first : MemoryPartition.Batch) (done : List BotsEvent)
    (batch : MemoryPartition.Batch) : Prop where
  tagged : ∀ id, Stays id before after → ((lookup id batch.state).bind (·.tags)).isSome = true
  filled : ∀ id, (∃ event ∈ done, SetsTags id event) → Filled (lookup id batch.updated)
  fresh : ∀ id, Stays id before after → (∀ event ∈ done, ¬ FromBot id event) →
    lookup id batch.updated = lookup id first.updated

theorem fromBot_of_setsTags {event : BotsEvent} (sets : SetsTags id event) : FromBot id event := by
  cases event with
  | bots keys => exact sets
  | tags other keys => exact sets.1
  | text other tag delta => exact sets

variable {before : Doc} {t : Transaction}

theorem kept_changes (reports : Reports before t) (stays : Stays id before t.after) :
    t.bots.flatMap (botChanges id) = [] := by
  obtain ⟨old, new, isOld, isNew, same⟩ := stays
  rcases bot_cases (reports.bots id) with ⟨missing, _⟩ | ⟨missing, _⟩ | ⟨_, _, missing, _⟩ | ⟨m, n, isM, isN, whole⟩
  · rw [isOld] at missing
    cases missing
  · rw [isOld] at missing
    cases missing
  · rw [isNew] at missing
    cases missing
  · rw [isOld] at isM
    rw [isNew] at isN
    cases isM
    cases isN
    rcases whole with ⟨apart, _⟩ | ⟨_, nothing⟩
    · exact absurd same apart
    · exact nothing

theorem kept_leaves (reports : Reports before t) (stays : Stays id before t.after) :
    ∀ action ∈ t.bots.flatMap (botsActions t.after), Leaves id action := by
  apply leaves_bots
  intro change member
  rw [kept_changes reports stays] at member
  cases member

theorem not_names_keys (leaves : ∀ action ∈ botsActions after (.bots keys), Leaves id action) :
    ∀ action ∈ botsActions after (.bots keys), ¬ Names id action := by
  intro action member names
  have away := leaves action member
  obtain ⟨change, _, made⟩ := mem_filterMap.mp member
  rw [botAction] at made
  cases shape : change.2 with
  | add =>
    rw [shape] at made
    obtain ⟨map, _, same⟩ := map_eq_some_iff.mp made
    rw [← same] at names away
    exact away names
  | update =>
    rw [shape] at made
    cases made
  | delete =>
    rw [shape] at made
    cases made
    exact away names

theorem underway_tags
    (underway : Underway before after first done batch) {event : BotsEvent}
    (actions : botsActions after event = [.updateBot id (some values) none])
    (named : ∀ other, FromBot other event → other = id) (stays : Stays id before after)
    (from' : FromBot id event) (sets : SetsTags id event → values ≠ []) (readable : ReadableTags values)
    (edits : (∀ entry ∈ values, isTagEdit entry.2 = false) ∨ lookup id batch.updated = none ∨
      Filled (lookup id batch.updated)) :
    ∃ next, runAll (applyAction space) batch (botsActions after event) = some next ∧
      Underway before after first (done ++ [event]) next := by
  obtain ⟨next, made, filled⟩ := tags_applied space (underway.tagged id stays) readable edits
  have others : ∀ other, other ≠ id → lookup other next.updated = lookup other batch.updated :=
    fun other apart => updated_other space made (fun same => apart same.symm)
  refine ⟨next, by rw [actions, runAll_cons, made]; rfl, fun other stays' => ?_, ?_, ?_⟩
  · rw [applyAction_effect space made]
    have leaves : Leaves other (.updateBot id (some values) none) := trivial
    exact tagged_effect space leaves (underway.tagged other stays')
  · rintro other ⟨member, inside, setsTags⟩
    rcases mem_append.mp inside with earlier | last
    · by_cases same : other = id
      · subst same
        exact filled (.inr (underway.filled other ⟨member, earlier, setsTags⟩))
      · rw [others other same]
        exact underway.filled other ⟨member, earlier, setsTags⟩
    · rw [mem_singleton.mp last] at setsTags
      have same := named other (fromBot_of_setsTags setsTags)
      subst same
      exact filled (.inl (sets setsTags))
  · intro other stays' silent
    have apart : other ≠ id := by
      rintro rfl
      exact silent event (List.mem_append_right _ mem_cons_self) from'
    rw [others other apart]
    exact underway.fresh other stays' (fun earlier member => silent earlier (List.mem_append_left _ member))

theorem underway_keys (underway : Underway before after first done batch) (keys : OrderedMap JsString KeyChange)
    (stayed : ∀ id, (∃ event ∈ done, SetsTags id event) → Stays id before after)
    (leaves : ∀ id, Stays id before after → ∀ action ∈ botsActions after (.bots keys), Leaves id action) :
    ∃ next, runAll (applyAction space) batch (botsActions after (.bots keys)) = some next ∧
      Underway before after first (done ++ [.bots keys]) next := by
  obtain ⟨next, ran⟩ := runAll_isSome space (botsActions after (.bots keys)) batch
    (fun action member other => keys_applied space member other)
  have others : ∀ id, Stays id before after → lookup id next.updated = lookup id batch.updated :=
    fun id stays => runAll_updated_other space _ ran (not_names_keys (leaves id stays))
  refine ⟨next, ran, fun id stays => ?_, ?_, ?_⟩
  · rw [runAll_effect space _ batch ran]
    exact tagged_fold space (leaves id stays) (underway.tagged id stays)
  · rintro id ⟨event, inside, sets⟩
    have earlier : event ∈ done := by
      rcases mem_append.mp inside with earlier | last
      · exact earlier
      · rw [mem_singleton.mp last] at sets
        cases sets
    rw [others id (stayed id ⟨event, earlier, sets⟩)]
    exact underway.filled id ⟨event, earlier, sets⟩
  · intro id stays silent
    rw [others id stays]
    exact underway.fresh id stays (fun earlier member => silent earlier (List.mem_append_left _ member))

theorem keyTags_plain (values : List (JsString × MapValue)) (keys : OrderedMap JsString KeyChange) :
    ∀ entry ∈ keyTags values keys, isTagEdit entry.2 = false := by
  intro entry member
  obtain ⟨change, _, same⟩ := mem_map.mp member
  rw [← same]
  exact keyValue_plain _ _ _

theorem keyTags_ne_nil (values : List (JsString × MapValue))
    (changed : keys.entries ≠ []) : keyTags values keys ≠ [] := fun nothing =>
  changed (List.map_eq_nil_iff.mp nothing)

theorem readable_plain (plain : ∀ entry ∈ values, isTagEdit entry.2 = false) : ReadableTags values := by
  intro entry member edit
  rw [plain entry member] at edit
  cases edit

theorem bots_run (reports : Reports before t) (edits : EditsInOrder t)
    (untouched : ∀ id, (t.masksFirst = true → ∀ event ∈ t.masks, ∀ other, ¬ MaskKey event (tagMaskId id other)) →
      lookup id first.updated = none) (rest : List BotsEvent) (whole : t.bots = done ++ rest)
    (underway : Underway before t.after first done batch) :
    ∃ last, runAll (applyAction space) batch (rest.flatMap (botsActions t.after)) = some last := by
  induction rest generalizing done batch with
  | nil => exact ⟨batch, rfl⟩
  | cons event rest ih =>
    have here : event ∈ t.bots := by
      rw [whole]
      exact List.mem_append_right _ mem_cons_self
    have stayed : ∀ id, (∃ earlier ∈ done, SetsTags id earlier) → Stays id before t.after := by
      rintro id ⟨earlier, inside, sets⟩
      apply reports.others earlier _ id (fromBot_of_setsTags sets)
      rw [whole]
      exact List.mem_append_left _ inside
    have next : ∃ next, runAll (applyAction space) batch (botsActions t.after event) = some next ∧
        Underway before t.after first (done ++ [event]) next := by
      cases event with
      | bots keys =>
        apply underway_keys space underway keys stayed
        intro id stays action member
        exact kept_leaves reports stays action (List.mem_flatMap.mpr ⟨_, here, member⟩)
      | tags id keys =>
        have plain := keyTags_plain (((lookup id t.after.bots).map (·.tags)).getD []) keys
        exact underway_tags space underway rfl (fun _ same => same.symm)
          (reports.others _ here id rfl) rfl (fun sets => keyTags_ne_nil _ sets.2)
          (readable_plain plain) (.inl plain)
      | text id tag delta =>
        have stays := reports.others _ here id rfl
        have sets : SetsTags id (.text id tag delta) → [(tag, textEdit delta)] ≠ [] :=
          fun _ nothing => by cases nothing
        have order : lookup id batch.updated = none ∨ Filled (lookup id batch.updated) := by
          rcases edits done id tag delta rest whole with earlier | ⟨silent, masks⟩
          · exact .inr (underway.filled id earlier)
          · exact .inl ((underway.fresh id stays silent).trans (untouched id masks))
        exact underway_tags space underway rfl (fun _ same => same.symm) stays rfl sets
          (readable_textEdit tag delta) (.inr order)
    obtain ⟨middle, ran, later⟩ := next
    obtain ⟨last, isLast⟩ := ih (whole.trans (List.append_cons done event rest)) later
    refine ⟨last, ?_⟩
    rw [flatMap_cons, runAll_append, ran]
    exact isLast

theorem masks_run {events : List MasksEvent} {masks : List BotAction}
    (told : MasksTold after events masks) (batch : MemoryPartition.Batch) :
    ∃ last, runAll (applyAction space) batch masks = some last ∧
      ∀ id, (∀ event ∈ events, ∀ tag, ¬ MaskKey event (tagMaskId id tag)) →
        lookup id last.updated = lookup id batch.updated := by
  obtain ⟨last, ran⟩ := runAll_isSome space masks batch (by
    intro action member other
    obtain ⟨id, values, same, readable, _⟩ := told.shape action member
    rw [same]
    exact masks_applied space id readable other)
  refine ⟨last, ran, fun id silent => runAll_updated_other space masks ran ?_⟩
  intro action member names
  obtain ⟨other, values, same, _, event, inside, tag, key⟩ := told.shape action member
  rw [same] at names
  have isId : other = id := names
  subst isId
  exact silent event inside tag key

theorem transaction_runs {masks : List BotAction} (told : MasksTold t.after t.masks masks)
    (reports : Reports before t) (edits : EditsInOrder t) (state : BotsState)
    (tagged : ∀ id, Stays id before t.after → ((lookup id state).bind (·.tags)).isSome = true) :
    ∃ last, runAll (applyAction space) { state := state, updated := [] } (inOrder t masks) = some last := by
  cases first : t.masksFirst with
  | true =>
    obtain ⟨middle, ran, others⟩ := masks_run space told { state := state, updated := [] }
    have underway : Underway before t.after middle [] middle := by
      refine ⟨fun id stays => ?_, fun id => ?_, fun _ _ _ => rfl⟩
      · rw [runAll_effect space masks _ ran]
        exact tagged_fold space (fun action member => (told.leaves action member id).1) (tagged id stays)
      · rintro ⟨_, member, _⟩
        cases member
    obtain ⟨last, later⟩ := bots_run space reports edits (fun id silent => others id (silent first)) t.bots rfl underway
    refine ⟨last, ?_⟩
    rw [inOrder, first, if_pos rfl, runAll_append, ran]
    exact later
  | false =>
    have underway : Underway before t.after { state := state, updated := [] } [] { state := state, updated := [] } := by
      refine ⟨tagged, fun id => ?_, fun _ _ _ => rfl⟩
      rintro ⟨_, member, _⟩
      cases member
    obtain ⟨middle, ran⟩ := bots_run space reports edits (fun _ _ => rfl) t.bots rfl underway
    obtain ⟨last, later, _⟩ := masks_run space told middle
    refine ⟨last, ?_⟩
    rw [inOrder, first, if_neg Bool.false_ne_true, runAll_append, ran]
    exact later

theorem memoryEvents_told (parsed : ∀ event ∈ t.masks, ∀ key, MaskKey event key → colon ∈ key) :
    ∃ masks, memoryEvents t = some (inOrder t masks) ∧ MasksTold t.after t.masks masks := by
  obtain ⟨lists, made, told⟩ := masks_told t.after t.masks parsed
  refine ⟨lists.flatten, ?_, told⟩
  rw [memoryEvents, made]
  rfl

/-- What a transaction that does not throw leaves of each record. -/
theorem processTransaction_spec (parsed : ∀ event ∈ t.masks, ∀ key, MaskKey event key → colon ∈ key)
    {state partition : BotsState} (followed : processTransaction space state t = some partition) :
    ∃ masks, MasksTold t.after t.masks masks ∧
      ∀ id, lookup id partition = (inOrder t masks).foldl (effect space id) (lookup id state) := by
  obtain ⟨masks, actions, told⟩ := memoryEvents_told parsed
  rw [processTransaction, actions, bind_some] at followed
  obtain ⟨last, ran, same⟩ := map_eq_some_iff.mp followed
  subst same
  exact ⟨masks, told, runAll_effect space _ { state := state, updated := [] } ran⟩

theorem processTransaction_isSome (parsed : ∀ event ∈ t.masks, ∀ key, MaskKey event key → colon ∈ key)
    (reports : Reports before t) (edits : EditsInOrder t) {state : BotsState}
    (tagged : ∀ id, Stays id before t.after → ((lookup id state).bind (·.tags)).isSome = true) :
    ∃ partition, processTransaction space state t = some partition := by
  obtain ⟨masks, actions, told⟩ := memoryEvents_told parsed
  obtain ⟨last, ran⟩ := transaction_runs space told reports edits state tagged
  refine ⟨last.state, ?_⟩
  rw [processTransaction, actions, bind_some, ran]
  rfl

end Running

/-! ### Runs -/

section Runs

variable {space : JsString}

def HeldAll (space : JsString) (s : State) : Prop := ∀ id, Held space s.doc id (lookup id s.partition)

theorem held_start : HeldAll space start := by
  intro id
  refine ⟨fun tag => (ite_self none).symm, ?_, fun _ => ⟨rfl, fun _ => rfl⟩, ?_⟩
  · intro map impossible
    cases impossible
  · intro map impossible
    cases impossible

variable {s : State}

/-- A transaction that is followed does not throw, and leaves what the document has after it. -/
theorem step_held {t : Transaction} (held : HeldAll space s) (allowed : Allowed s t) :
    ∃ next, step space s t = some next ∧ next.doc = t.after ∧ HeldAll space next := by
  obtain ⟨reports, followed⟩ := allowed
  have tagged : ∀ id, Stays id s.doc t.after → ((lookup id s.partition).bind (·.tags)).isSome = true := by
    rintro id ⟨old, _, isOld, _⟩
    exact ((held id).bot old isOld).2.1
  obtain ⟨partition, made⟩ := processTransaction_isSome space followed.parsed reports followed.edits tagged
  obtain ⟨masks, told, records⟩ := processTransaction_spec space followed.parsed made
  refine ⟨{ doc := t.after, partition := partition }, by rw [step, made]; rfl, rfl, fun id => ?_⟩
  have after := held_after space told reports followed (held id)
  rw [← records id] at after
  exact after

theorem mirrors_of_held (held : HeldAll space s) : Mirrors space s.doc s.partition := by
  intro id
  refine ⟨fun map isBot => ?_, fun missing => ?_⟩
  · obtain ⟨named, _, tags⟩ := (held id).bot map isBot
    refine ⟨named, tags, fun tag => ?_⟩
    rw [(held id).masks]
    split
    · next inside => exact ((held id).plain map isBot inside tag).symm
    · rfl
  · obtain ⟨nameless, tags⟩ := (held id).nothing missing
    exact ⟨nameless, tags, (held id).masks⟩

/-- The same bots with the same tags and masks, the empty text standing for no value. -/
def SameBots (space other : JsString) (left right : BotsState) : Prop :=
  ∀ id, (lookup id left).bind (·.id) = (lookup id right).bind (·.id) ∧
    ∀ tag, valued (tagOf (lookup id left) tag) = valued (tagOf (lookup id right) tag) ∧
      valued (maskOf space (lookup id left) tag) = valued (maskOf other (lookup id right) tag)

theorem sameBots_of_mirrors {other : JsString} {doc : Doc} {left right : BotsState}
    (first : Mirrors space doc left) (second : Mirrors other doc right) : SameBots space other left right := by
  intro id
  cases found : lookup id doc.bots with
  | none =>
    have one := (first id).2 found
    have two := (second id).2 found
    exact ⟨one.nameless.trans two.nameless.symm, fun tag =>
      ⟨congrArg valued ((one.tags tag).trans (two.tags tag).symm), (one.masks tag).trans (two.masks tag).symm⟩⟩
  | some map =>
    have one := (first id).1 map found
    have two := (second id).1 map found
    exact ⟨one.named.trans two.named.symm, fun tag =>
      ⟨(one.tags tag).trans (two.tags tag).symm, (one.masks tag).trans (two.masks tag).symm⟩⟩

theorem held_of_reaches (reached : Reaches (step space) Allowed start s) : HeldAll space s := by
  apply reached.invariant (HeldAll space) held_start
  intro state t next held allowed ran
  obtain ⟨after, made, _, kept⟩ := step_held held allowed
  rw [ran] at made
  cases made
  exact kept

/-- In every run of transactions that are followed, no transaction throws, the partition has what the
document has, and so have all partitions of the same document. -/
theorem mirrors_document (space : JsString) {s : State} (reached : Reaches (step space) Allowed start s) :
    Mirrors space s.doc s.partition ∧
      (∀ t, Allowed s t → ∃ next, step space s t = some next ∧ next.doc = t.after ∧
        Mirrors space t.after next.partition) ∧
      ∀ other s', Reaches (step other) Allowed start s' → s'.doc = s.doc →
        SameBots space other s.partition s'.partition := by
  have held := held_of_reaches reached
  refine ⟨mirrors_of_held held, fun t allowed => ?_, fun other s' reached' same => ?_⟩
  · obtain ⟨next, ran, doc, kept⟩ := step_held held allowed
    have mirrored := mirrors_of_held kept
    rw [doc] at mirrored
    exact ⟨next, ran, doc, mirrored⟩
  · have first := mirrors_of_held held
    have second := mirrors_of_held (held_of_reaches reached')
    rw [same] at second
    exact sameBots_of_mirrors first second

end Runs

/-! ### A bot that is edited, and a bot that is replaced -/

section Sample

def name : JsString := lit ['a']

def tagsMap (mapName : Nat) (text : List Char) : TagsMap :=
  { name := mapName, tags := [(name, .text 0 (lit text))] }

def docOf (mapName : Nat) (text : List Char) : Doc := { bots := [(name, tagsMap mapName text)], masks := [] }

def keyed (change : KeyChange) : OrderedMap JsString KeyChange := ⟨[(name, change)], List.nodup_singleton _⟩

def added : Transaction :=
  { after := docOf 0 ['x'], bots := [.bots (keyed .add)], masks := [], masksFirst := false }

def edited : Transaction :=
  { after := { bots := [(name, tagsMap 0 ['x', 'y'])]
               masks := [(tagMaskId name name, .plain (.boolean true) rfl)] }
    bots := [.text name name [.retain 1, .insert (lit ['y'])]]
    masks := [.masks ⟨[(tagMaskId name name, .add)], List.nodup_singleton _⟩]
    masksFirst := false }

def replaced : Transaction :=
  { after := docOf 1 ['y'], bots := [.bots (keyed .update)], masks := [], masksFirst := false }

theorem reports_added : Reports start.doc added := by
  refine ⟨fun id => ?_, fun _ _ _ impossible => (by cases impossible), ?_, fun _ => .missing⟩
  · by_cases same : id = name
    · subst same
      exact .added (tagsMap 0 ['x'])
    · simp only [added, docOf, start, botChanges, keyed, flatMap_singleton, lookup, if_neg same]
      exact .missing
  · intro event member id fromBot
    rw [mem_singleton.mp member] at fromBot
    cases fromBot

theorem reports_replaced : Reports added.after replaced := by
  have apart : (tagsMap 0 ['x']).name ≠ (tagsMap 1 ['y']).name := by decide
  refine ⟨fun id => ?_, fun id old new isOld isNew same => ?_, ?_, fun _ => .missing⟩
  · by_cases same : id = name
    · subst same
      exact .replaced _ _ apart
    · simp only [added, replaced, docOf, botChanges, keyed, flatMap_singleton, lookup, if_neg same]
      exact .missing
  · have first := mem_of_lookup id old _ isOld
    have second := mem_of_lookup id new _ isNew
    cases mem_singleton.mp first
    cases mem_singleton.mp second
    exact absurd same apart
  · intro event member id fromBot
    rw [mem_singleton.mp member] at fromBot
    cases fromBot

theorem reports_edited : Reports added.after edited := by
  refine ⟨fun id => ?_, fun id old new isOld isNew same tag => ?_, ?_, fun key => ?_⟩
  · by_cases same : id = name
    · subst same
      exact .kept _ _ rfl
    · simp only [added, edited, docOf, botChanges, flatMap_singleton, lookup, if_neg same]
      exact .missing
  · have first := mem_of_lookup id old _ isOld
    have second := mem_of_lookup id new _ isNew
    cases mem_singleton.mp first
    cases mem_singleton.mp second
    by_cases here : tag = name
    · subst here
      exact .edited 0 (lit ['x']) (lit ['x', 'y']) _ rfl
    · have silent : tagChanges name tag (.text name name [.retain 1, .insert (lit ['y'])]) = [] :=
        if_neg (fun both => here both.2.symm)
      simp only [edited, tagsMap, flatMap_singleton, silent, lookup, if_neg here]
      exact .missing
  · intro event member id fromBot
    rw [mem_singleton.mp member] at fromBot
    cases fromBot
    exact ⟨tagsMap 0 ['x'], tagsMap 0 ['x', 'y'], rfl, rfl, rfl⟩
  · by_cases same : key = tagMaskId name name
    · subst same
      exact .added _
    · simp only [added, edited, docOf, maskChanges, flatMap_singleton, lookup, if_neg same]
      exact .missing

theorem edited_is_mirrored : ∃ s, runAll (step name) start [added, edited] = some s ∧
    maskOf name (lookup name s.partition) name = some (.boolean true) ∧
      tagOf (lookup name s.partition) name = some (.string (lit ['x', 'y'])) ∧
        Mirrors name s.doc s.partition := by
  let bot : Bot := { mapToBot name (tagsMap 0 ['x']) with space := some name }
  let middle : State := { doc := added.after, partition := [(name, bot)] }
  let last : State :=
    { doc := edited.after
      partition := [(name, { bot with
        tags := some [(name, .string (lit ['x', 'y']))]
        masks := some [(name, [(name, .boolean true)])] })] }
  have first : step name start added = some middle := by rfl
  have second : step name middle edited = some last := by rfl
  have addFollowed : Followed start.doc added := by
    refine ⟨fun _ impossible => absurd impossible not_mem_nil, fun _ _ _ _ _ => rfl, ?_, ?_, ?_⟩
    · intro id old new impossible
      cases impossible
    · exact fun id plain differ tag => .inl ⟨rfl, rfl⟩
    · intro earlier id tag delta rest whole
      have member : BotsEvent.text id tag delta ∈ added.bots := by
        rw [whole]
        exact List.mem_append_right _ mem_cons_self
      cases mem_singleton.mp member
  have editFollowed : Followed added.after edited := by
    refine ⟨fun event member key isKey => ?_, fun id map isBot inside => ?_, ?_, ?_, ?_⟩
    · rw [mem_singleton.mp member] at isKey
      rw [mem_singleton.mp isKey]
      decide
    · cases mem_singleton.mp (mem_of_lookup id map _ isBot)
      exact absurd inside (by decide)
    · intro id old new isOld isNew apart
      have first := mem_of_lookup id old _ isOld
      have second := mem_of_lookup id new _ isNew
      cases mem_singleton.mp first
      cases mem_singleton.mp second
      exact absurd rfl apart
    · intro id plain differ
      by_cases same : id = name
      · subst same
        exact absurd rfl differ
      · simp only [added, edited, docOf, lookup, if_neg same] at differ
        exact absurd rfl differ
    · intro earlier id tag delta rest whole
      cases earlier with
      | nil =>
        refine .inr ⟨fun _ member => absurd member not_mem_nil, fun impossible => ?_⟩
        cases impossible
      | cons event others =>
        have tail := (List.cons.inj whole).2
        cases others <;> cases tail
  have reached : Reaches (step name) Allowed start last :=
    .step edited (.step added .start ⟨reports_added, addFollowed⟩ first) ⟨reports_edited, editFollowed⟩ second
  refine ⟨last, ?_, rfl, rfl, (mirrors_document name reached).1⟩
  rw [runAll_cons, first, bind_some, runAll_cons, second]
  rfl

/-- The bot keeps the tags of the map that is no longer its own. -/
theorem replaced_bot_stays : ∃ s, Reaches (step name) (fun s t => Reports s.doc t) start s ∧
    ¬ Mirrors name s.doc s.partition := by
  let bot : Bot := { mapToBot name (tagsMap 0 ['x']) with space := some name }
  let middle : State := { doc := added.after, partition := [(name, bot)] }
  let last : State := { doc := replaced.after, partition := [(name, bot)] }
  have first : step name start added = some middle := by rfl
  have second : step name middle replaced = some last := by rfl
  refine ⟨last, .step replaced (.step added .start reports_added first) reports_replaced second, ?_⟩
  intro mirrors
  have tags := ((mirrors name).1 (tagsMap 1 ['y']) rfl).tags name
  cases tags

end Sample

end CasualOS.YjsPartition
