import CasualOS.TagValues

/-! The bots of the runtime, how their tags and masks are compiled, and how scripts write them. -/

namespace CasualOS.AuxRuntime

open OrderedMap

abbrev Tags := List (JsString × TagValue)

abbrev TagMasks := List (BotSpace × Tags)

/-- A bot as a partition or a script gives it. -/
structure Bot where
  id : JsString
  space : Option BotSpace
  tags : Tags
  masks : TagMasks
  signatures : List (JsString × Option JsString)

/-- A listener stands with the script it was compiled from; `changes` and `maskChanges` are those of the
bot's script. -/
structure CompiledBot where
  id : JsString
  space : Option BotSpace
  tags : Tags
  masks : TagMasks
  values : Tags
  listeners : List (JsString × JsString)
  originalTagEditValues : Tags
  originalTagMaskEditValues : TagMasks
  signatures : List (JsString × Option JsString)
  changes : Tags
  maskChanges : TagMasks

inductive RealtimeEditMode where
  | immediate
  | delayed
  | notEditable
  deriving DecidableEq

def tagMaskSpacePriorities : List BotSpace :=
  [.tempLocal, .localSpace, .tempShared, .remoteTempShared, .shared, .admin]

def defaultTagMaskSpace : BotSpace := .tempLocal

def tagValue (tag : JsString) (tags : Tags) : TagValue := (lookup tag tags).getD .undefined

def maskTags (space : BotSpace) (masks : TagMasks) : Tags := (lookup space masks).getD []

def maskValue (space : BotSpace) (tag : JsString) (masks : TagMasks) : TagValue :=
  tagValue tag (maskTags space masks)

def setMask (space : BotSpace) (tag : JsString) (value : TagValue) (masks : TagMasks) : TagMasks :=
  assign space (assign tag value (maskTags space masks)) masks

def removeMask (space : BotSpace) (tag : JsString) (masks : TagMasks) : TagMasks :=
  match lookup space masks with
  | none => masks
  | some tags => assign space (remove tag tags) masks

def firstMask (tag : JsString) (masks : TagMasks) : Option TagValue :=
  tagMaskSpacePriorities.findSome? fun space =>
    if (maskValue space tag masks).hasValue then some (maskValue space tag masks) else none

def getBotSpace (space : Option BotSpace) : BotSpace := space.getD .shared

/-! ### Compiling -/

section Compile

variable (readers : Readers)

def isSigned (bot : CompiledBot) (tag script : JsString) : Bool :=
  !readers.forceSignedScripts || (bot.space.map readers.exemptSpaces.contains).getD false ||
    lookup (readers.tagValueHash bot.id tag script) bot.signatures = some (some tag)

/-- The error that `_compile` throws. -/
def compileError (bot : CompiledBot) (tag script : JsString) : Option TagValue :=
  if isSigned readers bot tag script then readers.compile bot.id tag script else some readers.unsigned

def compileValue (bot : CompiledBot) (tag : JsString) : TagValue → TagValue × Option JsString
  | .json (.string text) =>
    if dnaTagPrefix.isPrefixOf text then (readers.parseFormula (text.drop dnaTagPrefix.length), none)
    else if scriptPrefix.isPrefixOf text then
      match compileError readers bot tag text with
      | some error => (error, none)
      | none => (.json (.string text), some text)
    else if stringTagPrefix.isPrefixOf text then (.json (.string (parseTagged stringTagPrefix text)), none)
    else if isNumber text then (readers.parseNumber (parseTagged numberTagPrefix text), none)
    else if numberTagPrefix.isPrefixOf text then (notANumber, none)
    else if text = JsString.lit ['t', 'r', 'u', 'e'] then (.json (.boolean true), none)
    else if text = JsString.lit ['f', 'a', 'l', 's', 'e'] then (.json (.boolean false), none)
    else if dateTagPrefix.isPrefixOf text then
      ((readers.parseBotDate text).getD (.json (.string text)), none)
    else if vectorTagPrefix.isPrefixOf text then
      ((readers.parseBotVector text).getD (.json (.string text)), none)
    else if rotationTagPrefix.isPrefixOf text then
      ((readers.parseBotRotation text).getD (.json (.string text)), none)
    else (.json (.string text), none)
  | value => (value, none)

/-- A bot while it is compiled, with the calls of `recordListenerPresense` that were made for it. -/
structure Compiling where
  bot : CompiledBot
  presence : List (JsString × Bool)

def setListener (c : Compiling) (tag : JsString) : Option JsString → Compiling
  | some script =>
    { bot := { c.bot with listeners := assign tag script c.bot.listeners }
      presence := c.presence ++ [(tag, true)] }
  | none =>
    if (lookup tag c.bot.listeners).isSome then
      { bot := { c.bot with listeners := remove tag c.bot.listeners }
        presence := c.presence ++ [(tag, false)] }
    else c

def setValue (c : Compiling) (tag : JsString) (value : TagValue) : Compiling :=
  { c with bot := { c.bot with
      values := if value.hasValue then assign tag value c.bot.values else remove tag c.bot.values } }

def compileTagValue (c : Compiling) (tag : JsString) (value : TagValue) : Compiling :=
  let compiled := compileValue readers c.bot tag value
  setValue (setListener c tag compiled.2) tag compiled.1

def compileTagOrMask (c : Compiling) (tag : JsString) : Compiling :=
  match firstMask tag c.bot.masks with
  | some value => compileTagValue readers c tag value
  | none =>
    let value := tagValue tag c.bot.tags
    if value.hasValue || value.isNull then compileTagValue readers c tag value else c

def storeEdit (bot : CompiledBot) (tag : JsString) (edit : Json) : CompiledBot × TagValue :=
  let value := (tagValue tag bot.tags).applyTagEdit edit
  ({ bot with
      originalTagEditValues :=
        if (lookup tag bot.originalTagEditValues).isSome then bot.originalTagEditValues
        else assign tag (tagValue tag bot.tags) bot.originalTagEditValues
      tags := assign tag value bot.tags }, value)

def storeTag (isNew : Bool) (bot : CompiledBot) (tag : JsString) (value : TagValue) : CompiledBot :=
  { bot with
    originalTagEditValues := remove tag bot.originalTagEditValues
    tags :=
      if value.hasValue then assign tag (if isNew then value.copiable else value) bot.tags
      else remove tag bot.tags }

def compileTag (isNew : Bool) (c : Compiling) (tag : JsString) (value : TagValue) : Compiling :=
  if (firstMask tag c.bot.masks).isSome then c
  else match value.edit with
    | some edit =>
      let stored := storeEdit c.bot tag edit
      compileTagValue readers { c with bot := stored.1 } tag stored.2
    | none => compileTagValue readers { c with bot := storeTag isNew c.bot tag value } tag value

def storeMask (bot : CompiledBot) (tag : JsString) (value : TagValue) (space : BotSpace) : CompiledBot :=
  match value.edit with
  | some edit => { bot with
      originalTagMaskEditValues :=
        if (lookup tag (maskTags space bot.originalTagMaskEditValues)).isSome then bot.originalTagMaskEditValues
        else setMask space tag (maskValue space tag bot.masks) bot.originalTagMaskEditValues
      masks := setMask space tag ((maskValue space tag bot.masks).applyTagEdit edit) bot.masks }
  | none => { bot with masks := setMask space tag value bot.masks }

def tagsOnBot (bot : CompiledBot) : List JsString :=
  (bot.tags.map Prod.fst ++ bot.masks.flatMap fun entry => entry.2.map Prod.fst).eraseDups

/-- Buffered masks are put where the bot has no value of its own. -/
def mergeMasks (existing masks : TagMasks) : TagMasks :=
  existing.foldl (fun masks entry => entry.2.foldl (fun masks tag =>
    if (maskValue entry.1 tag.1 masks).hasValue then masks else setMask entry.1 tag.1 tag.2 masks) masks) masks

def copyBot (bot : Bot) (masks : TagMasks) : CompiledBot :=
  { id := bot.id, space := bot.space, tags := bot.tags, masks := masks, values := [], listeners := []
    originalTagEditValues := [], originalTagMaskEditValues := [], signatures := bot.signatures
    changes := [], maskChanges := [] }

/-- `existing` are the masks that were buffered for the bot, nothing for the bots of scripts. -/
def createCompiledBot (existing : TagMasks) (bot : Bot) : Compiling :=
  let copied := copyBot bot (mergeMasks existing bot.masks)
  (tagsOnBot copied).foldl (compileTagOrMask readers) { bot := copied, presence := [] }

/-! ### Writes of scripts -/

variable (editMode : BotSpace → RealtimeEditMode)

def changeTag (tag : JsString) (value : TagValue) (changes : Tags) : Tags :=
  let current := tagValue tag changes
  assign tag (match value.edit, current.edit with
    | some edit, some before => TagValue.mergeEdits before edit
    | some edit, none => if current.hasValue then current.applyTagEdit edit else value
    | none, _ => value) changes

/-- An edit is merged into the value of each space, and goes on to the next space merged. -/
def changeTagMask (tag : JsString) (value : TagValue) : List BotSpace → TagMasks → TagMasks
  | [], changes => changes
  | space :: rest, changes =>
    let changed := changeTag tag value (maskTags space changes)
    changeTagMask tag (tagValue tag changed) rest (assign space changed changes)

/-- The call of the runtime, then the change that the bot's script remembers. -/
def updateTag (isNew : Bool) (bot : CompiledBot) (tag : JsString) (value : TagValue) : Compiling :=
  let mode := editMode (getBotSpace bot.space)
  let c : Compiling := { bot := bot, presence := [] }
  let c := if mode = .immediate then compileTag readers isNew c tag value else c
  if mode = .notEditable then c
  else { c with bot := { c.bot with changes := changeTag tag value.copiable c.bot.changes } }

def storeMasks (bot : CompiledBot) (tag : JsString) (spaces : List BotSpace) (value : TagValue) : CompiledBot :=
  (spaces.filter fun space => editMode space = .immediate).foldl (fun bot => storeMask bot tag value) bot

def updateTagMask (bot : CompiledBot) (tag : JsString) (spaces : List BotSpace) (value : TagValue) : Compiling :=
  let stored : Compiling := { bot := storeMasks editMode bot tag spaces value, presence := [] }
  let c := if spaces.any fun space => editMode space = .immediate then compileTagOrMask readers stored tag else stored
  { c with bot := { c.bot with maskChanges := changeTagMask tag value.copiable spaces c.bot.maskChanges } }

end Compile

/-! ### What the writes leave -/

def shown (value : TagValue) : Option TagValue := if value.hasValue then some value else none

theorem shown_full {value : TagValue} (full : value.hasValue = true) : shown value = some value := if_pos full

theorem shown_empty {value : TagValue} (empty : value.hasValue = false) : shown value = none :=
  if_neg (by simp [empty])

/-- What `_compileValue` reads of a bot. -/
structure SameSource (bot other : CompiledBot) : Prop where
  id : bot.id = other.id
  space : bot.space = other.space
  signatures : bot.signatures = other.signatures

theorem SameSource.refl (bot : CompiledBot) : SameSource bot bot := ⟨rfl, rfl, rfl⟩

theorem SameSource.trans {bot middle other : CompiledBot} (first : SameSource bot middle)
    (second : SameSource middle other) : SameSource bot other :=
  ⟨first.id.trans second.id, first.space.trans second.space, first.signatures.trans second.signatures⟩

variable {readers : Readers}

theorem compileValue_congr {bot other : CompiledBot} (same : SameSource bot other) (tag : JsString)
    (value : TagValue) : compileValue readers bot tag value = compileValue readers other tag value := by
  have error : ∀ script, compileError readers bot tag script = compileError readers other tag script := by
    intro script
    have signed : isSigned readers bot tag script = isSigned readers other tag script := by
      rw [isSigned, isSigned, same.id, same.space, same.signatures]
    rw [compileError, compileError, signed, same.id]
  cases value with
  | undefined => rfl
  | special kind formatted text => rfl
  | json value => cases value <;> simp only [compileValue, error]

theorem compileValue_empty (bot : CompiledBot) (tag : JsString) (value : TagValue)
    (empty : value.hasValue = false) : compileValue readers bot tag value = (value, none) := by
  unfold TagValue.hasValue at empty
  split at empty
  · rfl
  · rfl
  · rfl
  · cases empty

@[simp] theorem setListener_tags (c : Compiling) (tag : JsString) (script : Option JsString) :
    (setListener c tag script).bot.tags = c.bot.tags := by
  unfold setListener
  split
  · rfl
  · split <;> rfl

@[simp] theorem setListener_masks (c : Compiling) (tag : JsString) (script : Option JsString) :
    (setListener c tag script).bot.masks = c.bot.masks := by
  unfold setListener
  split
  · rfl
  · split <;> rfl

@[simp] theorem setListener_values (c : Compiling) (tag : JsString) (script : Option JsString) :
    (setListener c tag script).bot.values = c.bot.values := by
  unfold setListener
  split
  · rfl
  · split <;> rfl

theorem setListener_source (c : Compiling) (tag : JsString) (script : Option JsString) :
    SameSource (setListener c tag script).bot c.bot := by
  unfold setListener
  split
  · exact ⟨rfl, rfl, rfl⟩
  · split <;> exact ⟨rfl, rfl, rfl⟩

theorem lookup_setListener (c : Compiling) (tag other : JsString) (script : Option JsString) :
    lookup other (setListener c tag script).bot.listeners =
      if other = tag then script else lookup other c.bot.listeners := by
  unfold setListener
  split
  · exact lookup_assign _ _ _ _
  · split
    · exact lookup_remove _ _ _
    · next absent =>
        split
        · next same => simpa [same] using absent
        · rfl

section Frame

variable (c : Compiling) (tag : JsString) (value : TagValue)

@[simp] theorem compileTagValue_tags : (compileTagValue readers c tag value).bot.tags = c.bot.tags :=
  setListener_tags c tag _

@[simp] theorem compileTagValue_masks : (compileTagValue readers c tag value).bot.masks = c.bot.masks :=
  setListener_masks c tag _

theorem compileTagValue_source : SameSource (compileTagValue readers c tag value).bot c.bot :=
  have same := setListener_source c tag (compileValue readers c.bot tag value).2
  ⟨same.id, same.space, same.signatures⟩

theorem lookup_values (other : JsString) : lookup other (compileTagValue readers c tag value).bot.values =
    if other = tag then shown (compileValue readers c.bot tag value).1 else lookup other c.bot.values := by
  simp only [compileTagValue, setValue, setListener_values, shown]
  split
  · rw [lookup_assign]
  · rw [lookup_remove]

theorem lookup_listeners (other : JsString) : lookup other (compileTagValue readers c tag value).bot.listeners =
    if other = tag then (compileValue readers c.bot tag value).2 else lookup other c.bot.listeners :=
  lookup_setListener c tag other _

end Frame

/-! ### Masks -/

theorem tagValue_assign (tag other : JsString) (value : TagValue) (tags : Tags) :
    tagValue other (assign tag value tags) = if other = tag then value else tagValue other tags := by
  rw [tagValue, lookup_assign]
  split <;> rfl

theorem tagValue_remove (tag other : JsString) (tags : Tags) :
    tagValue other (remove tag tags) = if other = tag then .undefined else tagValue other tags := by
  rw [tagValue, lookup_remove]
  split <;> rfl

theorem maskTags_assign (space other : BotSpace) (tags : Tags) (masks : TagMasks) :
    maskTags other (assign space tags masks) = if other = space then tags else maskTags other masks := by
  rw [maskTags, lookup_assign]
  split <;> rfl

theorem maskValue_setMask (space other : BotSpace) (tag another : JsString) (value : TagValue) (masks : TagMasks) :
    maskValue other another (setMask space tag value masks) =
      if other = space ∧ another = tag then value else maskValue other another masks := by
  rw [maskValue, setMask, maskTags_assign]
  by_cases same : other = space
  · rw [if_pos same, tagValue_assign]
    simp [same, maskValue]
  · simp [same, maskValue]

theorem firstMask_eq (tag : JsString) (masks : TagMasks) :
    firstMask tag masks = tagMaskSpacePriorities.findSome? fun space => shown (maskValue space tag masks) := rfl

def visible (bot : CompiledBot) (tag : JsString) : TagValue :=
  (firstMask tag bot.masks).getD (tagValue tag bot.tags)

/-- There is a mask with a value, or a tag with a value or `null`. -/
def hasVisible (bot : CompiledBot) (tag : JsString) : Bool :=
  (firstMask tag bot.masks).isSome || (tagValue tag bot.tags).hasValue || (tagValue tag bot.tags).isNull

theorem compileTagOrMask_eq (c : Compiling) (tag : JsString) : compileTagOrMask readers c tag =
    if hasVisible c.bot tag then compileTagValue readers c tag (visible c.bot tag) else c := by
  unfold compileTagOrMask hasVisible visible
  cases firstMask tag c.bot.masks with
  | some value => rfl
  | none => simp

@[simp] theorem compileTagOrMask_tags (c : Compiling) (tag : JsString) :
    (compileTagOrMask readers c tag).bot.tags = c.bot.tags := by
  rw [compileTagOrMask_eq]
  split <;> simp

@[simp] theorem compileTagOrMask_masks (c : Compiling) (tag : JsString) :
    (compileTagOrMask readers c tag).bot.masks = c.bot.masks := by
  rw [compileTagOrMask_eq]
  split <;> simp

theorem compileTagOrMask_source (c : Compiling) (tag : JsString) :
    SameSource (compileTagOrMask readers c tag).bot c.bot := by
  rw [compileTagOrMask_eq]
  split
  · exact compileTagValue_source c tag _
  · exact .refl _

theorem visible_congr {bot other : CompiledBot} (tags : bot.tags = other.tags) (masks : bot.masks = other.masks)
    (tag : JsString) : visible bot tag = visible other tag := by
  rw [visible, visible, tags, masks]

theorem hasVisible_congr {bot other : CompiledBot} (tags : bot.tags = other.tags)
    (masks : bot.masks = other.masks) (tag : JsString) : hasVisible bot tag = hasVisible other tag := by
  rw [hasVisible, hasVisible, tags, masks]

theorem firstMask_hasValue {tag : JsString} {masks : TagMasks} {value : TagValue}
    (found : firstMask tag masks = some value) :
    value.hasValue = true ∧ ∃ space, maskValue space tag masks = value := by
  obtain ⟨space, _, isValue⟩ := List.exists_of_findSome?_eq_some found
  split at isValue
  · next full =>
      rw [Option.some.injEq] at isValue
      exact ⟨isValue ▸ full, space, isValue⟩
  · cases isValue

theorem visible_empty {bot : CompiledBot} {tag : JsString} (hidden : hasVisible bot tag = false) :
    (visible bot tag).hasValue = false := by
  rw [hasVisible, Bool.or_eq_false_iff, Bool.or_eq_false_iff] at hidden
  have noMask : firstMask tag bot.masks = none := by simpa using hidden.1.1
  rw [visible, noMask]
  exact hidden.1.2

theorem mem_tagsOnBot (bot : CompiledBot) (tag : JsString) (seen : hasVisible bot tag = true) :
    tag ∈ tagsOnBot bot := by
  have key : ∀ tags : Tags, tagValue tag tags ≠ .undefined → tag ∈ tags.map Prod.fst := by
    intro tags present
    cases found : lookup tag tags with
    | none => exact absurd (by rw [tagValue, found]; rfl) present
    | some value => exact List.mem_map.mpr ⟨_, mem_of_lookup tag value tags found, rfl⟩
  rw [tagsOnBot, List.mem_eraseDups, List.mem_append]
  by_cases onTags : tagValue tag bot.tags = .undefined
  · right
    simp only [hasVisible, onTags, TagValue.hasValue, TagValue.isNull, Bool.or_false] at seen
    obtain ⟨value, found⟩ := Option.isSome_iff_exists.mp seen
    obtain ⟨full, space, isValue⟩ := firstMask_hasValue found
    have inSpace : tag ∈ (maskTags space bot.masks).map Prod.fst := by
      apply key
      intro missing
      rw [← isValue, maskValue, missing] at full
      cases full
    cases found : lookup space bot.masks with
    | none => simp [maskTags, found] at inSpace
    | some tags =>
      rw [maskTags, found] at inSpace
      exact List.mem_flatMap.mpr ⟨_, mem_of_lookup space tags bot.masks found, inSpace⟩
  · exact .inl (key bot.tags onTags)

/-! ### Compiling all tags -/

section All

variable (tags : List JsString) (c : Compiling)

theorem compileTags_tags : (tags.foldl (compileTagOrMask readers) c).bot.tags = c.bot.tags := by
  induction tags generalizing c with
  | nil => rfl
  | cons tag rest ih => rw [List.foldl_cons, ih, compileTagOrMask_tags]

theorem compileTags_masks : (tags.foldl (compileTagOrMask readers) c).bot.masks = c.bot.masks := by
  induction tags generalizing c with
  | nil => rfl
  | cons tag rest ih => rw [List.foldl_cons, ih, compileTagOrMask_masks]

theorem compileTags_source : SameSource (tags.foldl (compileTagOrMask readers) c).bot c.bot := by
  induction tags generalizing c with
  | nil => exact .refl _
  | cons tag rest ih => exact (ih (compileTagOrMask readers c tag)).trans (compileTagOrMask_source c tag)

theorem compileTags_lookup {X : Type} (read : CompiledBot → JsString → Option X)
    (made : CompiledBot → JsString → TagValue → Option X)
    (sets : ∀ c tag value other, read (compileTagValue readers c tag value).bot other =
      if other = tag then made c.bot tag value else read c.bot other)
    (congr : ∀ bot bot' : CompiledBot, SameSource bot bot' → ∀ tag value, made bot tag value = made bot' tag value)
    (other : JsString) :
    read (tags.foldl (compileTagOrMask readers) c).bot other =
      if other ∈ tags ∧ hasVisible c.bot other = true then made c.bot other (visible c.bot other)
      else read c.bot other := by
  induction tags generalizing c with
  | nil => simp
  | cons tag rest ih =>
    rw [List.foldl_cons, ih, hasVisible_congr (compileTagOrMask_tags c tag) (compileTagOrMask_masks c tag),
      visible_congr (compileTagOrMask_tags c tag) (compileTagOrMask_masks c tag),
      congr _ _ (compileTagOrMask_source c tag)]
    by_cases isTag : hasVisible c.bot other = true ∧ other = tag
    · obtain ⟨seen, rfl⟩ := isTag
      rw [compileTagOrMask_eq, if_pos seen, sets]
      simp [seen]
    · have kept : read (compileTagOrMask readers c tag).bot other = read c.bot other := by
        rw [compileTagOrMask_eq]
        split
        · next seen =>
            rw [sets, if_neg]
            rintro rfl
            exact isTag ⟨seen, rfl⟩
        · rfl
      by_cases seen : hasVisible c.bot other = true
      · have apart : other ≠ tag := fun same => isTag ⟨seen, same⟩
        simp [seen, apart, kept]
      · simp [seen, kept]

end All

/-! ### New bots -/

section Created

variable (existing : TagMasks) (bot : Bot)

@[simp] theorem created_tags : (createCompiledBot readers existing bot).bot.tags = bot.tags :=
  compileTags_tags _ _

@[simp] theorem created_masks : (createCompiledBot readers existing bot).bot.masks = mergeMasks existing bot.masks :=
  compileTags_masks _ _

theorem created_source : SameSource (createCompiledBot readers existing bot).bot
    (copyBot bot (mergeMasks existing bot.masks)) :=
  compileTags_source _ _

theorem created_lookup {X : Type} (read : CompiledBot → JsString → Option X)
    (made : CompiledBot → JsString → TagValue → Option X)
    (sets : ∀ c tag value other, read (compileTagValue readers c tag value).bot other =
      if other = tag then made c.bot tag value else read c.bot other)
    (congr : ∀ bot bot' : CompiledBot, SameSource bot bot' → ∀ tag value, made bot tag value = made bot' tag value)
    (empty : ∀ bot tag value, value.hasValue = false → made bot tag value = none)
    (copied : ∀ masks tag, read (copyBot bot masks) tag = none) (tag : JsString) :
    read (createCompiledBot readers existing bot).bot tag =
      made (createCompiledBot readers existing bot).bot tag
        (visible (createCompiledBot readers existing bot).bot tag) := by
  have asCopied : visible (createCompiledBot readers existing bot).bot tag =
      visible (copyBot bot (mergeMasks existing bot.masks)) tag :=
    visible_congr (created_tags existing bot) (created_masks existing bot) tag
  rw [asCopied, congr _ _ (created_source existing bot)]
  rw [createCompiledBot, compileTags_lookup _ _ read made sets congr]
  split
  · rfl
  · next unseen =>
      have hidden : hasVisible (copyBot bot (mergeMasks existing bot.masks)) tag = false := by
        by_contra seen
        rw [Bool.not_eq_false] at seen
        exact unseen ⟨mem_tagsOnBot _ tag seen, seen⟩
      rw [copied, empty _ _ _ (visible_empty hidden)]

theorem created_values (tag : JsString) : lookup tag (createCompiledBot readers existing bot).bot.values =
      shown (compileValue readers (createCompiledBot readers existing bot).bot tag
        (visible (createCompiledBot readers existing bot).bot tag)).1 := by
  refine created_lookup existing bot (fun bot tag => lookup tag bot.values)
    (fun bot tag value => shown (compileValue readers bot tag value).1) lookup_values ?_ ?_ (fun _ _ => rfl) tag
  · intro bot other same tag value
    rw [compileValue_congr same]
  · intro bot tag value empty
    rw [compileValue_empty bot tag value empty, shown_empty empty]

theorem created_listeners (tag : JsString) : lookup tag (createCompiledBot readers existing bot).bot.listeners =
      (compileValue readers (createCompiledBot readers existing bot).bot tag
        (visible (createCompiledBot readers existing bot).bot tag)).2 := by
  refine created_lookup existing bot (fun bot tag => lookup tag bot.listeners)
    (fun bot tag value => (compileValue readers bot tag value).2) lookup_listeners ?_ ?_ (fun _ _ => rfl) tag
  · intro bot other same tag value
    rw [compileValue_congr same]
  · intro bot tag value empty
    rw [compileValue_empty bot tag value empty]

end Created

end CasualOS.AuxRuntime
