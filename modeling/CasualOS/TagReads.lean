import CasualOS.CompiledBots
import CasualOS.Lib.Run

/-! What a script reads of a bot's tags after its own writes. -/

namespace CasualOS.TagReads

open AuxRuntime OrderedMap Run
open JsString (lit)
open Option (some)

/-- Texts, numbers, booleans and what deletes a tag. -/
abbrev PlainValue := { value : TagValue // value.isPlain = true }

def PlainValue.null : PlainValue := ⟨.json .null, rfl⟩

/-! ### The proxies of a script -/

/-- The own names of the object come first, then those that every object has. -/
def constantTags : List JsString :=
  [lit ['i', 'd'],
    lit ['s', 'p', 'a', 'c', 'e'],
    lit ['c', 'o', 'n', 's', 't', 'r', 'u', 'c', 't', 'o', 'r'],
    lit ['_', '_', 'd', 'e', 'f', 'i', 'n', 'e', 'G', 'e', 't', 't', 'e', 'r', '_', '_'],
    lit ['_', '_', 'd', 'e', 'f', 'i', 'n', 'e', 'S', 'e', 't', 't', 'e', 'r', '_', '_'],
    lit ['h', 'a', 's', 'O', 'w', 'n', 'P', 'r', 'o', 'p', 'e', 'r', 't', 'y'],
    lit ['_', '_', 'l', 'o', 'o', 'k', 'u', 'p', 'G', 'e', 't', 't', 'e', 'r', '_', '_'],
    lit ['_', '_', 'l', 'o', 'o', 'k', 'u', 'p', 'S', 'e', 't', 't', 'e', 'r', '_', '_'],
    lit ['i', 's', 'P', 'r', 'o', 't', 'o', 't', 'y', 'p', 'e', 'O', 'f'],
    lit ['p', 'r', 'o', 'p', 'e', 'r', 't', 'y', 'I', 's', 'E', 'n', 'u', 'm', 'e', 'r', 'a', 'b', 'l', 'e'],
    lit ['t', 'o', 'S', 't', 'r', 'i', 'n', 'g'],
    lit ['v', 'a', 'l', 'u', 'e', 'O', 'f'],
    lit ['_', '_', 'p', 'r', 'o', 't', 'o', '_', '_'],
    lit ['t', 'o', 'L', 'o', 'c', 'a', 'l', 'e', 'S', 't', 'r', 'i', 'n', 'g']]

/-- `key in constantTags` -/
def isConstant (tag : JsString) : Bool := constantTags.contains tag

def toJson : JsString := lit ['t', 'o', 'J', 'S', 'O', 'N']

def getTagMaskSpaces (tag : JsString) (masks : TagMasks) : List BotSpace :=
  (masks.filter fun entry => (lookup tag entry.2).isSome).map Prod.fst

/-- `tags[t]` of a name that the proxy does not answer itself, by `getValue`. -/
def readTag (bot : CompiledBot) (tag : JsString) : TagValue := tagValue tag bot.values

def readRaw (bot : CompiledBot) (tag : JsString) : TagValue := tagValue tag bot.tags

inductive Operation where
  | setTag (tag : JsString) (value : PlainValue)
  | deleteTag (tag : JsString)
  | setMask (tag : JsString) (value : PlainValue)
  | deleteMask (tag : JsString)
  | setTagMask (tag : JsString) (value : PlainValue) (space : Option BotSpace)
  | clearTagMasks (space : Option BotSpace)

section Writes

variable (readers : Readers) (editMode : BotSpace → RealtimeEditMode)

def setTag (bot : CompiledBot) (tag : JsString) (value : TagValue) : CompiledBot :=
  if isConstant tag then bot else (updateTag readers editMode false bot tag value).bot

/-- The spaces of `maskProxy` and of `setTagMask` when no space is given. -/
def spacesFor (bot : CompiledBot) (tag : JsString) (value : TagValue) : List BotSpace :=
  if value.hasValue then [defaultTagMaskSpace] else getTagMaskSpaces tag bot.masks

def setTagMask (bot : CompiledBot) (tag : JsString) (value : TagValue) (space : Option BotSpace) : CompiledBot :=
  if isConstant tag then bot
  else
    let spaces := match space with
      | some space => [space]
      | none => spacesFor bot tag value
    (updateTagMask readers editMode bot tag spaces value).bot

def deleteMask (bot : CompiledBot) (tag : JsString) : CompiledBot :=
  if isConstant tag then bot
  else (updateTagMask readers editMode bot tag (getTagMaskSpaces tag bot.masks) (.json .null)).bot

def spacesToClear : Option BotSpace → List BotSpace
  | some space => [space]
  | none => tagMaskSpacePriorities

/-- The calls that `clearTagMasks` makes; a call leaves the tags of all spaces as they are. -/
def clearWrites (space : Option BotSpace) (bot : CompiledBot) : List (JsString × BotSpace) :=
  (spacesToClear space).flatMap fun space => (maskTags space bot.masks).map fun entry => (entry.1, space)

def clearTagMasks (bot : CompiledBot) (space : Option BotSpace) : CompiledBot :=
  (clearWrites space bot).foldl
    (fun bot write => setTagMask readers editMode bot write.1 (.json .null) (some write.2)) bot

def write (bot : CompiledBot) : Operation → CompiledBot
  | .setTag tag value => setTag readers editMode bot tag value.val
  | .deleteTag tag => setTag readers editMode bot tag (.json .null)
  | .setMask tag value => setTagMask readers editMode bot tag value.val none
  | .deleteMask tag => deleteMask readers editMode bot tag
  | .setTagMask tag value space => setTagMask readers editMode bot tag value.val space
  | .clearTagMasks space => clearTagMasks readers editMode bot space

end Writes

/-! ### What was written -/

/-- The value of each tag, and the masks with a value, as they were written last or delivered. -/
structure Written where
  tags : JsString → TagValue
  masks : BotSpace → JsString → Option TagValue

namespace Written

def setTag (tag : JsString) (value : TagValue) (w : Written) : Written :=
  if isConstant tag then w
  else { w with tags := fun other => if other = tag then (shown value).getD .undefined else w.tags other }

variable (editMode : BotSpace → RealtimeEditMode)

def setMasks (inSpace : BotSpace → Bool) (tag : JsString) (value : TagValue) (w : Written) : Written :=
  if isConstant tag then w
  else { w with masks := fun space other =>
    if other = tag ∧ inSpace space = true ∧ editMode space = .immediate then shown value
    else w.masks space other }

def inSpace (value : TagValue) : Option BotSpace → BotSpace → Bool
  | some given, space => space = given
  | none, space => !value.hasValue || space = defaultTagMaskSpace

def clear (given : Option BotSpace) (w : Written) : Written :=
  { w with masks := fun space tag =>
    if isConstant tag = false ∧ space ∈ spacesToClear given ∧ editMode space = .immediate then none
    else w.masks space tag }

def write (w : Written) : Operation → Written
  | .setTag tag value => setTag tag value.val w
  | .deleteTag tag => setTag tag (.json .null) w
  | .setMask tag value => setMasks editMode (inSpace value.val none) tag value.val w
  | .deleteMask tag => setMasks editMode (fun _ => true) tag (.json .null) w
  | .setTagMask tag value space => setMasks editMode (inSpace value.val space) tag value.val w
  | .clearTagMasks space => clear editMode space w

def mask (w : Written) (tag : JsString) : Option TagValue :=
  tagMaskSpacePriorities.findSome? fun space => w.masks space tag

def seen (w : Written) (tag : JsString) : TagValue := (w.mask tag).getD (w.tags tag)

end Written

/-- A bot and what was written to it. -/
structure Session where
  bot : CompiledBot
  written : Written

section Session

variable (readers : Readers) (editMode : BotSpace → RealtimeEditMode)

/-- The bot as the partitions delivered it, with the masks that came before it. -/
def Session.start (existing : TagMasks) (bot : AuxRuntime.Bot) : Session where
  bot := (createCompiledBot readers existing bot).bot
  written :=
    { tags := fun tag => tagValue tag bot.tags
      masks := fun space tag => shown (maskValue space tag (mergeMasks existing bot.masks)) }

def Session.step (s : Session) (op : Operation) : Option Session :=
  some { bot := write readers editMode s.bot op, written := s.written.write editMode op }

/-- What is read is the compiled value of what is seen, where it has a value. -/
structure ReadsWritten (s : Session) : Prop where
  tags : ∀ tag, isConstant tag = false → tag ≠ toJson →
    readTag s.bot tag = (shown (compileValue readers s.bot tag (s.written.seen tag)).1).getD .undefined
  raw : ∀ tag, isConstant tag = false → readRaw s.bot tag = s.written.tags tag

/-- A tag under a mask gets no other value. -/
def KeepsTag (w : Written) (tag : JsString) (value : TagValue) : Prop :=
  isConstant tag = false → (w.mask tag).isSome = true → w.tags tag = (shown value).getD .undefined

/-- Where something was seen of a tag, some mask, or a value of the tag or its `null`, is left. -/
def LeavesValue (s : Session) (tag : JsString) (after : Written) : Prop :=
  isConstant tag = false → tag ≠ toJson →
    (shown (compileValue readers s.bot tag (s.written.seen tag)).1).isSome = true →
    (after.mask tag).isSome = true ∨ ((after.tags tag).hasValue || (after.tags tag).isNull) = true

def AllowedWrite (s : Session) : Operation → Prop
  | .setTag tag value => KeepsTag s.written tag value.val
  | .deleteTag tag => KeepsTag s.written tag (.json .null)
  | .setMask tag value => LeavesValue readers s tag (s.written.write editMode (.setMask tag value))
  | .deleteMask tag => LeavesValue readers s tag (s.written.write editMode (.deleteMask tag))
  | .setTagMask tag value space => LeavesValue readers s tag (s.written.write editMode (.setTagMask tag value space))
  | .clearTagMasks _ => True

def clearOne (tag : JsString) (space : BotSpace) : Operation := .setTagMask tag .null (some space)

def clearOps (writes : List (JsString × BotSpace)) : List Operation :=
  writes.map fun write => clearOne write.1 write.2

/-- Masks are cleared by writes that are each allowed where it is made. -/
def Allowed (s : Session) : Operation → Prop
  | .clearTagMasks space =>
    AllAllowed (Session.step readers editMode) (AllowedWrite readers editMode) s
      (clearOps (clearWrites space s.bot))
  | op => AllowedWrite readers editMode s op

end Session

/-! ### What one write leaves -/

variable {readers : Readers} {editMode : BotSpace → RealtimeEditMode}

theorem edit_plain (value : TagValue) (plain : value.isPlain = true) : value.edit = none := by
  cases value with
  | undefined => rfl
  | special kind formatted text => rfl
  | json value => cases value <;> first | rfl | cases plain

theorem storeMasks_eq (bot : CompiledBot) (tag : JsString) (spaces : List BotSpace) (value : TagValue)
    (plain : value.isPlain = true) : storeMasks editMode bot tag spaces value = { bot with
      masks := (spaces.filter fun space => editMode space = .immediate).foldl
        (fun masks space => setMask space tag value masks) bot.masks } := by
  unfold storeMasks
  generalize spaces.filter (fun space => editMode space = .immediate) = written
  induction written generalizing bot with
  | nil => rfl
  | cons space rest ih =>
    have stored : storeMask bot tag value space = { bot with masks := setMask space tag value bot.masks } := by
      rw [storeMask, edit_plain value plain]
    rw [List.foldl_cons, List.foldl_cons, stored, ih]

theorem maskValue_foldl (tag other : JsString) (value : TagValue) (spaces : List BotSpace) (space : BotSpace)
    (masks : TagMasks) :
    maskValue space other (spaces.foldl (fun masks space => setMask space tag value masks) masks) =
      if other = tag ∧ space ∈ spaces then value else maskValue space other masks := by
  induction spaces generalizing masks with
  | nil => simp
  | cons first rest ih =>
    rw [List.foldl_cons, ih, maskValue_setMask]
    by_cases isTag : other = tag
    · by_cases later : space ∈ rest
      · simp [isTag, later]
      · by_cases same : space = first <;> simp [isTag, later, same]
    · simp [isTag]

theorem maskValue_storeMasks (bot : CompiledBot) (tag other : JsString) (spaces : List BotSpace) (value : TagValue)
    (plain : value.isPlain = true) (space : BotSpace) :
    maskValue space other (storeMasks editMode bot tag spaces value).masks =
      if other = tag ∧ space ∈ spaces ∧ editMode space = .immediate then value
      else maskValue space other bot.masks := by
  rw [storeMasks_eq bot tag spaces value plain, maskValue_foldl]
  simp

theorem setTag_open (bot : CompiledBot) (tag : JsString) (value : TagValue) (plain : value.isPlain = true)
    (immediate : editMode (getBotSpace bot.space) = .immediate) (free : isConstant tag = false)
    (unmasked : firstMask tag bot.masks = none) :
    ∃ changes, setTag readers editMode bot tag value =
      { (compileTagValue readers { bot := storeTag false bot tag value, presence := [] } tag value).bot with
        changes := changes } := by
  rw [setTag, free, if_neg Bool.false_ne_true, updateTag]
  simp only [immediate, if_true, compileTag, unmasked, edit_plain value plain, reduceCtorEq, if_false]
  exact ⟨_, rfl⟩

theorem setTag_hidden (bot : CompiledBot) (tag : JsString) (value : TagValue)
    (immediate : editMode (getBotSpace bot.space) = .immediate) (free : isConstant tag = false)
    (masked : (firstMask tag bot.masks).isSome = true) :
    ∃ changes, setTag readers editMode bot tag value = { bot with changes := changes } := by
  rw [setTag, free, if_neg Bool.false_ne_true, updateTag]
  simp only [immediate, if_true, compileTag, masked, reduceCtorEq, if_false]
  exact ⟨_, rfl⟩

/-! ### The invariant -/

structure Consistent (readers : Readers) (editMode : BotSpace → RealtimeEditMode) (s : Session) : Prop where
  immediate : editMode (getBotSpace s.bot.space) = .immediate
  tags : ∀ tag, readRaw s.bot tag = s.written.tags tag
  masks : ∀ space tag, shown (maskValue space tag s.bot.masks) = s.written.masks space tag
  values : ∀ tag, isConstant tag = false → tag ≠ toJson →
    lookup tag s.bot.values = shown (compileValue readers s.bot tag (s.written.seen tag)).1

variable {w : Written} {bot : CompiledBot} {last s : Session} {tag : JsString} {value : TagValue}

theorem firstMask_congr {masks : TagMasks}
    (same : ∀ space, shown (maskValue space tag masks) = w.masks space tag) : firstMask tag masks = w.mask tag := by
  rw [firstMask_eq, Written.mask]
  simp only [same]

theorem visible_eq_seen (raw : readRaw bot tag = w.tags tag)
    (same : ∀ space, shown (maskValue space tag bot.masks) = w.masks space tag) : visible bot tag = w.seen tag := by
  rw [visible, Written.seen, firstMask_congr same, ← raw]
  rfl

theorem Consistent.reads (inv : Consistent readers editMode s) : ReadsWritten readers s where
  tags tag free named := by
    rw [readTag, tagValue, inv.values tag free named]
  raw tag _ := inv.tags tag

theorem consistent_start (existing : TagMasks) (bot : AuxRuntime.Bot)
    (immediate : editMode (getBotSpace bot.space) = .immediate) :
    Consistent readers editMode (Session.start readers existing bot) where
  immediate := by
    have same := (@created_source readers existing bot).space
    rw [Session.start, same]
    exact immediate
  tags tag := by
    simp only [readRaw, Session.start, created_tags]
  masks space tag := by
    simp only [Session.start, created_masks]
  values tag _ _ := by
    have seen : visible (Session.start readers existing bot).bot tag =
        (Session.start readers existing bot).written.seen tag := by
      apply visible_eq_seen
      · simp only [readRaw, Session.start, created_tags]
      · intro space
        simp only [Session.start, created_masks]
    rw [← seen]
    exact created_values existing bot tag

theorem setTag_seen {tag other : JsString} (value : TagValue) (apart : other ≠ tag) :
    (w.setTag tag value).seen other = w.seen other := by
  unfold Written.setTag
  split
  · rfl
  · simp only [Written.seen, Written.mask, if_neg apart]

theorem setTag_same (same : w.tags tag = (shown value).getD .undefined) : w.setTag tag value = w := by
  unfold Written.setTag
  split
  · rfl
  · rw [Written.mk.injEq]
    refine ⟨?_, rfl⟩
    funext other
    split
    · next isTag => rw [isTag, same]
    · rfl

theorem compile_shown (bot : CompiledBot) (tag : JsString) (value : TagValue) :
    shown (compileValue readers bot tag ((shown value).getD .undefined)).1 =
      shown (compileValue readers bot tag value).1 := by
  cases full : value.hasValue with
  | true => rw [shown_full full, Option.getD_some]
  | false =>
    rw [shown_empty full, compileValue_empty bot tag value full, shown_empty full]
    rfl

theorem keeps_open (inv : Consistent readers editMode s) (tag : JsString) (value : TagValue)
    (plain : value.isPlain = true) (free : isConstant tag = false) (unmasked : firstMask tag s.bot.masks = none) :
    Consistent readers editMode
      { bot := setTag readers editMode s.bot tag value, written := s.written.setTag tag value } := by
  obtain ⟨changes, left⟩ := @setTag_open readers editMode s.bot tag value plain inv.immediate free unmasked
  have same := @compileTagValue_source readers
    { bot := storeTag false s.bot tag value, presence := [] } tag value
  have writes : s.written.setTag tag value = { s.written with
      tags := fun other => if other = tag then (shown value).getD .undefined else s.written.tags other } := by
    rw [Written.setTag, free, if_neg Bool.false_ne_true]
  rw [left]
  refine ⟨?_, ?_, ?_, ?_⟩
  · rw [same.space]
    exact inv.immediate
  · intro other
    simp only [readRaw, compileTagValue_tags, storeTag, writes]
    cases full : value.hasValue with
    | true =>
      rw [if_pos rfl, tagValue_assign, shown_full full]
      exact ite_congr rfl (fun _ => rfl) (fun _ => inv.tags other)
    | false =>
      rw [if_neg Bool.false_ne_true, tagValue_remove, shown_empty full]
      exact ite_congr rfl (fun _ => rfl) (fun _ => inv.tags other)
  · intro space other
    simp only [compileTagValue_masks, storeTag, writes]
    exact inv.masks space other
  · intro other freeOther named
    simp only [lookup_values]
    have stored : SameSource (storeTag false s.bot tag value) s.bot := ⟨rfl, rfl, rfl⟩
    rw [compileValue_congr stored]
    have source : SameSource { (compileTagValue readers
        { bot := storeTag false s.bot tag value, presence := [] } tag value).bot with changes := changes } s.bot :=
      ⟨same.id, same.space, same.signatures⟩
    rw [compileValue_congr source]
    by_cases isTag : other = tag
    · have noMask : s.written.mask tag = none := (firstMask_congr (inv.masks · tag)).symm.trans unmasked
      have seen : (s.written.setTag tag value).seen tag = (shown value).getD .undefined := by
        rw [writes, Written.seen]
        simp only [if_true]
        rw [Written.mask] at noMask ⊢
        rw [noMask, Option.getD_none]
      rw [if_pos isTag, isTag, seen, compile_shown]
    · rw [if_neg isTag, setTag_seen value isTag]
      exact inv.values other freeOther named

theorem keeps_setTag (inv : Consistent readers editMode s) (tag : JsString) (value : TagValue)
    (plain : value.isPlain = true) (keeps : KeepsTag s.written tag value) :
    Consistent readers editMode
      { bot := setTag readers editMode s.bot tag value, written := s.written.setTag tag value } := by
  by_cases constant : isConstant tag = true
  · rw [setTag, Written.setTag, if_pos constant, if_pos constant]
    exact inv
  · have free : isConstant tag = false := Bool.eq_false_iff.mpr constant
    cases masked : firstMask tag s.bot.masks with
    | none => exact keeps_open inv tag value plain free masked
    | some mask =>
      have hidden : (firstMask tag s.bot.masks).isSome = true := by rw [masked]; rfl
      obtain ⟨changes, left⟩ := @setTag_hidden readers editMode s.bot tag value inv.immediate free hidden
      rw [firstMask_congr (inv.masks · tag)] at hidden
      rw [left, setTag_same (keeps free hidden)]
      exact ⟨inv.immediate, inv.tags, inv.masks, inv.values⟩

/-- A write under a mask that would give the tag another value is not read. -/
theorem keeps_of_reads (inv : Consistent readers editMode s) (tag : JsString) (value : TagValue)
    (reads : ReadsWritten readers
      { bot := setTag readers editMode s.bot tag value, written := s.written.setTag tag value }) :
    KeepsTag s.written tag value := by
  intro free masked
  have hidden : (firstMask tag s.bot.masks).isSome = true := by
    rw [firstMask_congr (inv.masks · tag)]
    exact masked
  obtain ⟨changes, left⟩ := @setTag_hidden readers editMode s.bot tag value inv.immediate free hidden
  have raw := reads.raw tag free
  have written : (s.written.setTag tag value).tags tag = (shown value).getD .undefined := by
    rw [Written.setTag, free]
    exact if_pos rfl
  rw [written, left] at raw
  rw [← raw]
  exact (inv.tags tag).symm

/-! ### Writes of masks -/

theorem setMasks_free (inSpace : BotSpace → Bool) (value : TagValue)
    (free : isConstant tag = false) (space : BotSpace) (other : JsString) :
    (w.setMasks editMode inSpace tag value).masks space other =
      if other = tag ∧ inSpace space = true ∧ editMode space = .immediate then shown value
      else w.masks space other := by
  rw [Written.setMasks, free]
  rfl

theorem setMasks_tags (w : Written) (tag : JsString) (inSpace : BotSpace → Bool) (value : TagValue) :
    (w.setMasks editMode inSpace tag value).tags = w.tags := by
  unfold Written.setMasks
  split <;> rfl

/-- The spaces that the script's call goes to, of those that hold the mask or get it. -/
def Covers (s : Session) (tag : JsString) (value : TagValue) (spaces : List BotSpace)
    (inSpace : BotSpace → Bool) : Prop :=
  ∀ space, (space ∈ spaces → inSpace space = true) ∧
    (inSpace space = true → space ∉ spaces → shown value = none ∧ s.written.masks space tag = none)

theorem masks_updateTagMask (inv : Consistent readers editMode s)
    (plain : value.isPlain = true) {spaces : List BotSpace} {inSpace : BotSpace → Bool}
    (covers : Covers s tag value spaces inSpace) (free : isConstant tag = false) (space : BotSpace)
    (other : JsString) : shown (maskValue space other (storeMasks editMode s.bot tag spaces value).masks) =
      (s.written.setMasks editMode inSpace tag value).masks space other := by
  rw [maskValue_storeMasks s.bot tag other spaces value plain, setMasks_free inSpace value free]
  have ⟨into, out⟩ := covers space
  by_cases inside : space ∈ spaces
  · rw [apply_ite shown, inv.masks]
    simp only [inside, into inside, true_and]
  · simp only [inside, false_and, and_false, if_false]
    rw [inv.masks]
    split
    · next written =>
        have ⟨noValue, noMask⟩ := out written.2.1 inside
        rw [noValue, written.1, noMask]
    · rfl

theorem updateTagMask_bot (bot : CompiledBot) (tag : JsString) (spaces : List BotSpace) (value : TagValue) :
    ∃ changes, (updateTagMask readers editMode bot tag spaces value).bot =
      { (if spaces.any fun space => editMode space = .immediate then
          compileTagOrMask readers { bot := storeMasks editMode bot tag spaces value, presence := [] } tag
        else { bot := storeMasks editMode bot tag spaces value, presence := [] }).bot with maskChanges := changes } :=
  ⟨_, rfl⟩


theorem storeMasks_tags (bot : CompiledBot) (tag : JsString) (spaces : List BotSpace)
    (plain : value.isPlain = true) : (storeMasks editMode bot tag spaces value).tags = bot.tags := by
  rw [storeMasks_eq bot tag spaces value plain]

theorem storeMasks_values (bot : CompiledBot) (tag : JsString) (spaces : List BotSpace)
    (plain : value.isPlain = true) : (storeMasks editMode bot tag spaces value).values = bot.values := by
  rw [storeMasks_eq bot tag spaces value plain]

theorem storeMasks_source (bot : CompiledBot) (tag : JsString) (spaces : List BotSpace)
    (plain : value.isPlain = true) : SameSource (storeMasks editMode bot tag spaces value) bot := by
  rw [storeMasks_eq bot tag spaces value plain]
  exact ⟨rfl, rfl, rfl⟩

theorem setMasks_seen {tag other : JsString} (inSpace : BotSpace → Bool) (value : TagValue)
    (free : isConstant tag = false) (apart : other ≠ tag) :
    (w.setMasks editMode inSpace tag value).seen other = w.seen other := by
  rw [Written.seen, Written.seen, Written.mask, Written.mask, setMasks_tags]
  simp only [setMasks_free inSpace value free, apart, false_and, if_false]

theorem source_updateTagMask (bot : CompiledBot) (tag : JsString) (spaces : List BotSpace)
    (plain : value.isPlain = true) : SameSource (updateTagMask readers editMode bot tag spaces value).bot bot := by
  obtain ⟨changes, left⟩ := @updateTagMask_bot readers editMode bot tag spaces value
  have stored := @storeMasks_source editMode value bot tag spaces plain
  rw [left]
  split
  · have same := (@compileTagOrMask_source readers
      { bot := storeMasks editMode bot tag spaces value, presence := [] } tag).trans stored
    exact ⟨same.id, same.space, same.signatures⟩
  · exact ⟨stored.id, stored.space, stored.signatures⟩

/-- A value that is still read where nothing is to be seen. -/
structure Stale (s : Session) (tag : JsString) : Prop where
  free : isConstant tag = false
  named : tag ≠ toJson
  hidden : hasVisible s.bot tag = false
  left : (readTag s.bot tag).hasValue = true
  unmasked : s.written.mask tag = none
  untagged : (s.written.tags tag).hasValue = false

theorem Stale.not_reads (stale : Stale s tag) : ¬ReadsWritten readers s := by
  intro reads
  have nothing : (s.written.seen tag).hasValue = false := by
    rw [Written.seen, stale.unmasked]
    exact stale.untagged
  have read := reads.tags tag stale.free stale.named
  rw [compileValue_empty s.bot tag _ nothing, shown_empty nothing] at read
  have left := stale.left
  rw [read] at left
  cases left

section Mask

variable (inv : Consistent readers editMode s)
  (plain : value.isPlain = true) {spaces : List BotSpace} {inSpace : BotSpace → Bool}
  (covers : Covers s tag value spaces inSpace) (free : isConstant tag = false)

include inv plain covers free

theorem visible_stored (other : JsString) : visible (storeMasks editMode s.bot tag spaces value) other =
    (s.written.setMasks editMode inSpace tag value).seen other := by
  apply visible_eq_seen
  · rw [readRaw, storeMasks_tags s.bot tag spaces plain, setMasks_tags]
    exact inv.tags other
  · exact fun space => masks_updateTagMask inv plain covers free space other

theorem hasVisible_stored : hasVisible (storeMasks editMode s.bot tag spaces value) tag =
    (((s.written.setMasks editMode inSpace tag value).mask tag).isSome ||
      (((s.written.setMasks editMode inSpace tag value).tags tag).hasValue ||
        ((s.written.setMasks editMode inSpace tag value).tags tag).isNull)) := by
  rw [hasVisible, firstMask_congr fun space => masks_updateTagMask inv plain covers free space tag,
    storeMasks_tags s.bot tag spaces plain, setMasks_tags, ← inv.tags, Bool.or_assoc]
  rfl

theorem values_updateTagMask (other : JsString) (freeOther : isConstant other = false) (named : other ≠ toJson) :
    lookup other (updateTagMask readers editMode s.bot tag spaces value).bot.values =
      if other = tag ∧ hasVisible (storeMasks editMode s.bot tag spaces value) tag = false then
        shown (compileValue readers s.bot tag (s.written.seen tag)).1
      else
        shown (compileValue readers s.bot other ((s.written.setMasks editMode inSpace tag value).seen other)).1 := by
  obtain ⟨changes, left⟩ := @updateTagMask_bot readers editMode s.bot tag spaces value
  rw [left]
  have seen := visible_stored inv plain covers free
  have before := inv.values other freeOther named
  split
  · next written =>
      rw [compileTagOrMask_eq]
      by_cases isTag : other = tag
      · subst isTag
        split
        · next found =>
            rw [lookup_values, if_pos rfl, compileValue_congr (storeMasks_source s.bot other spaces plain), seen]
            simp [found]
        · next unseen =>
            have hidden := Bool.eq_false_iff.mpr unseen
            rw [if_pos ⟨rfl, hidden⟩]
            simp only [storeMasks_values s.bot other spaces plain]
            exact before
      · have stays : (s.written.setMasks editMode inSpace tag value).seen other = s.written.seen other :=
          setMasks_seen inSpace value free isTag
        have apart : ¬(other = tag ∧ hasVisible (storeMasks editMode s.bot tag spaces value) tag = false) :=
          fun both => isTag both.1
        rw [if_neg apart, stays]
        split
        · rw [lookup_values, if_neg isTag]
          simp only [storeMasks_values s.bot tag spaces plain]
          exact before
        · simp only [storeMasks_values s.bot tag spaces plain]
          exact before
  · next none =>
      have nowhere : spaces.filter (fun space => editMode space = .immediate) = [] := by
        simpa using none
      have same : storeMasks editMode s.bot tag spaces value = s.bot := by
        rw [storeMasks_eq s.bot tag spaces value plain, nowhere]
        rfl
      have stays : (s.written.setMasks editMode inSpace tag value).seen other = s.written.seen other := by
        rw [← seen other, same]
        exact visible_eq_seen (inv.tags other) (inv.masks · other)
      rw [same, before, stays]
      split
      · next isTag => rw [isTag.1]
      · rfl

/-- Where nothing of the tag is left to be seen, nothing was seen before. -/
theorem keeps_mask (leaves : LeavesValue readers s tag (s.written.setMasks editMode inSpace tag value)) :
    Consistent readers editMode
      { bot := (updateTagMask readers editMode s.bot tag spaces value).bot
        written := s.written.setMasks editMode inSpace tag value } := by
  have same := @source_updateTagMask readers editMode value s.bot tag spaces plain
  obtain ⟨changes, left⟩ := @updateTagMask_bot readers editMode s.bot tag spaces value
  refine ⟨?_, ?_, ?_, ?_⟩
  · rw [same.space]
    exact inv.immediate
  · intro other
    rw [setMasks_tags, ← inv.tags, readRaw, readRaw, left]
    split
    · simp only [compileTagOrMask_tags, storeMasks_tags s.bot tag spaces plain]
    · simp only [storeMasks_tags s.bot tag spaces plain]
  · intro space other
    rw [← masks_updateTagMask inv plain covers free, left]
    split
    · simp only [compileTagOrMask_masks]
    · rfl
  · intro other freeOther named
    rw [values_updateTagMask inv plain covers free other freeOther named, compileValue_congr same]
    split
    · next gone =>
        obtain ⟨isTag, hidden⟩ := gone
        subst isTag
        have after := @compileValue_empty readers s.bot other _ (visible_empty hidden)
        rw [← visible_stored inv plain covers free, after, shown_empty (visible_empty hidden)]
        by_contra before
        have left := leaves freeOther named (Option.isSome_iff_ne_none.mpr before)
        rw [hasVisible_stored inv plain covers free, Bool.or_eq_false_iff] at hidden
        rcases left with masked | tagged
        · rw [hidden.1] at masked
          cases masked
        · rw [hidden.2] at tagged
          cases tagged
    · rfl

/-- Where something was seen and nothing is left to be seen, the value stays. -/
theorem stale_of_gone (gone : ¬LeavesValue readers s tag (s.written.setMasks editMode inSpace tag value)) : Stale
      { bot := (updateTagMask readers editMode s.bot tag spaces value).bot
        written := s.written.setMasks editMode inSpace tag value } tag := by
  simp only [LeavesValue, Classical.not_imp, not_or, Bool.not_eq_true] at gone
  obtain ⟨_, named, before, noMask, noTag⟩ := gone
  have hidden : hasVisible (storeMasks editMode s.bot tag spaces value) tag = false := by
    rw [hasVisible_stored inv plain covers free, noMask, noTag]
    rfl
  rw [Bool.or_eq_false_iff] at noTag
  obtain ⟨changes, left⟩ := @updateTagMask_bot readers editMode s.bot tag spaces value
  refine ⟨free, named, ?_, ?_, by simpa using noMask, noTag.1⟩
  · rw [← hidden, left]
    split
    · exact hasVisible_congr (compileTagOrMask_tags _ tag) (compileTagOrMask_masks _ tag) tag
    · rfl
  · obtain ⟨shownValue, found⟩ := Option.isSome_iff_exists.mp before
    have full : shownValue.hasValue = true := by
      unfold shown at found
      split at found
      · next full => exact some.inj found ▸ full
      · cases found
    have values := @values_updateTagMask readers editMode s tag value inv plain spaces inSpace covers free tag free named
    rw [if_pos ⟨rfl, hidden⟩, found] at values
    rw [readTag, tagValue, values]
    exact full

end Mask

/-! ### Each write -/

theorem no_mask_outside (inv : Consistent readers editMode s) {space : BotSpace}
    (outside : space ∉ getTagMaskSpaces tag s.bot.masks) : s.written.masks space tag = none := by
  have missing : maskValue space tag s.bot.masks = .undefined := by
    cases found : lookup space s.bot.masks with
    | none => rw [maskValue, maskTags, found]; rfl
    | some tags =>
      rw [maskValue, maskTags, found, Option.getD_some, tagValue]
      cases held : lookup tag tags with
      | none => rfl
      | some value =>
        refine absurd (List.mem_map.mpr ⟨_, List.mem_filter.mpr ⟨mem_of_lookup space tags _ found, ?_⟩, rfl⟩) outside
        rw [held]
        rfl
  rw [← inv.masks, missing]
  rfl

theorem covers_given (s : Session) (tag : JsString) (value : TagValue) (space : BotSpace) :
    Covers s tag value [space] (Written.inSpace value (some space)) := by
  intro other
  simp only [Written.inSpace, List.mem_singleton, decide_eq_true_eq]
  exact ⟨id, fun same apart => absurd same apart⟩

theorem covers_spacesFor (inv : Consistent readers editMode s) (tag : JsString) (value : TagValue) :
    Covers s tag value (spacesFor s.bot tag value) (Written.inSpace value none) := by
  intro space
  unfold spacesFor Written.inSpace
  cases full : value.hasValue with
  | true =>
    simp only [if_true, List.mem_singleton, Bool.not_true, Bool.false_or, decide_eq_true_eq]
    exact ⟨id, fun same apart => absurd same apart⟩
  | false =>
    simp only [Bool.false_eq_true, if_false, Bool.not_false, Bool.true_or]
    exact ⟨fun _ => trivial, fun _ outside => ⟨shown_empty full, no_mask_outside inv outside⟩⟩

theorem covers_all (inv : Consistent readers editMode s) (tag : JsString) :
    Covers s tag (.json .null) (getTagMaskSpaces tag s.bot.masks) (fun _ => true) :=
  fun _ => ⟨fun _ => rfl, fun _ outside => ⟨rfl, no_mask_outside inv outside⟩⟩

/-- What a write of masks in some spaces does, whichever call it is. -/
structure MaskWrite (readers : Readers) (editMode : BotSpace → RealtimeEditMode) (s : Session) (bot : CompiledBot)
    (w : Written) (tag : JsString) : Prop where
  keeps : LeavesValue readers s tag w → Consistent readers editMode { bot := bot, written := w }
  stale : ¬LeavesValue readers s tag w → Stale { bot := bot, written := w } tag

theorem maskWrite (inv : Consistent readers editMode s)
    (plain : value.isPlain = true) {spaces : List BotSpace} {inSpace : BotSpace → Bool}
    (covers : Covers s tag value spaces inSpace) :
    MaskWrite readers editMode s
      (if isConstant tag then s.bot else (updateTagMask readers editMode s.bot tag spaces value).bot)
      (s.written.setMasks editMode inSpace tag value) tag := by
  by_cases constant : isConstant tag = true
  · rw [if_pos constant, Written.setMasks, if_pos constant]
    refine ⟨fun _ => inv, fun gone => absurd (fun free => ?_) gone⟩
    rw [constant] at free
    cases free
  · have free : isConstant tag = false := Bool.eq_false_iff.mpr constant
    rw [if_neg constant]
    exact ⟨keeps_mask inv plain covers free, stale_of_gone inv plain covers free⟩

theorem maskWrite_setTagMask (inv : Consistent readers editMode s) (tag : JsString)
    (value : PlainValue) (space : Option BotSpace) :
    MaskWrite readers editMode s (setTagMask readers editMode s.bot tag value.val space)
      (s.written.setMasks editMode (Written.inSpace value.val space) tag value.val) tag := by
  cases space with
  | none => exact maskWrite inv value.property (covers_spacesFor inv tag value.val)
  | some space => exact maskWrite inv value.property (covers_given s tag value.val space)

theorem maskWrite_deleteMask (inv : Consistent readers editMode s) (tag : JsString) :
    MaskWrite readers editMode s (deleteMask readers editMode s.bot tag)
      (s.written.setMasks editMode (fun _ => true) tag (.json .null)) tag :=
  maskWrite inv rfl (covers_all inv tag)

theorem MaskWrite.leaves
    (made : MaskWrite readers editMode s bot w tag) (reads : ReadsWritten readers { bot := bot, written := w }) :
    LeavesValue readers s tag w := by
  by_contra gone
  exact (made.stale gone).not_reads reads

/-! ### Clearing masks -/

theorem firstMask_eq_none (tag : JsString) (masks : TagMasks) : firstMask tag masks = none ↔
    ∀ space ∈ tagMaskSpacePriorities, shown (maskValue space tag masks) = none := by
  rw [firstMask_eq, List.findSome?_eq_none_iff]

theorem hasVisible_eq_false : hasVisible bot tag = false ↔
    firstMask tag bot.masks = none ∧ ((tagValue tag bot.tags).hasValue || (tagValue tag bot.tags).isNull) = false := by
  rw [hasVisible, Bool.or_assoc, Bool.or_eq_false_iff, Option.isSome_eq_false_iff, Option.isNone_iff_eq_none]

/-- The mask that is taken away changes nothing of what was hidden. -/
theorem Stale.keeps (stale : Stale s tag) (other : JsString) (space : BotSpace) :
    Stale { bot := write readers editMode s.bot (clearOne other space)
            written := s.written.write editMode (clearOne other space) } tag := by
  simp only [clearOne, write, Written.write, PlainValue.null]
  by_cases constant : isConstant other = true
  · rw [setTagMask, Written.setMasks, if_pos constant, if_pos constant]
    exact ⟨stale.free, stale.named, stale.hidden, stale.left, stale.unmasked, stale.untagged⟩
  · have free : isConstant other = false := Bool.eq_false_iff.mpr constant
    have plain : (TagValue.json .null).isPlain = true := rfl
    rw [setTagMask, if_neg constant]
    simp only
    obtain ⟨unmasked, untagged⟩ := hasVisible_eq_false.mp stale.hidden
    have hidden : hasVisible (storeMasks editMode s.bot other [space] (.json .null)) tag = false := by
      rw [hasVisible_eq_false, storeMasks_tags s.bot other [space] plain]
      refine ⟨(firstMask_eq_none tag _).mpr fun inSpace listed => ?_, untagged⟩
      rw [maskValue_storeMasks s.bot other tag [space] _ plain, apply_ite shown,
        (firstMask_eq_none tag _).mp unmasked inSpace listed]
      exact ite_self none
    obtain ⟨changes, left⟩ := @updateTagMask_bot readers editMode s.bot other [space] (.json .null)
    refine ⟨stale.free, stale.named, ?_, ?_, ?_, ?_⟩
    · rw [← hidden, left]
      split
      · exact hasVisible_congr (compileTagOrMask_tags _ other) (compileTagOrMask_masks _ other) tag
      · rfl
    · have stays : readTag (updateTagMask readers editMode s.bot other [space] (.json .null)).bot tag =
          readTag s.bot tag := by
        rw [left]
        split
        · rw [compileTagOrMask_eq]
          split
          · next seen =>
              have apart : tag ≠ other := by
                rintro rfl
                rw [hidden] at seen
                cases seen
              simp only [readTag, tagValue]
              rw [lookup_values, if_neg apart, storeMasks_values s.bot other [space] plain]
          · simp only [readTag, storeMasks_values s.bot other [space] plain]
        · simp only [readTag, storeMasks_values s.bot other [space] plain]
      rw [stays]
      exact stale.left
    · have unmaskedBefore := stale.unmasked
      rw [Written.mask, List.findSome?_eq_none_iff] at unmaskedBefore ⊢
      intro inSpace listed
      rw [setMasks_free _ _ free, unmaskedBefore inSpace listed]
      exact ite_self none
    · rw [setMasks_tags]
      exact stale.untagged

theorem keeps_clearOne (inv : Consistent readers editMode s) (tag : JsString) (space : BotSpace) :
    MaskWrite readers editMode s (write readers editMode s.bot (clearOne tag space))
      (s.written.write editMode (clearOne tag space)) tag :=
  maskWrite_setTagMask inv tag .null (some space)

theorem stale_run (stale : Stale s tag) (writes : List (JsString × BotSpace))
    (ran : runAll (Session.step readers editMode) s (clearOps writes) = some last) : Stale last tag := by
  induction writes generalizing s with
  | nil =>
    rw [clearOps, List.map_nil, runAll, List.foldlM_nil] at ran
    exact some.inj ran ▸ stale
  | cons first rest ih => exact ih (stale.keeps first.1 first.2) ran

theorem clear_consistent (inv : Consistent readers editMode s) (writes : List (JsString × BotSpace))
    (allowed : AllAllowed (Session.step readers editMode) (AllowedWrite readers editMode) s (clearOps writes))
    (ran : runAll (Session.step readers editMode) s (clearOps writes) = some last) :
    Consistent readers editMode last := by
  induction writes generalizing s with
  | nil =>
    rw [clearOps, List.map_nil, runAll, List.foldlM_nil] at ran
    exact some.inj ran ▸ inv
  | cons first rest ih =>
    exact ih ((keeps_clearOne inv first.1 first.2).keeps allowed.1) (allowed.2 _ rfl) ran

theorem clear_allowed (inv : Consistent readers editMode s) (writes : List (JsString × BotSpace))
    (ran : runAll (Session.step readers editMode) s (clearOps writes) = some last)
    (reads : ReadsWritten readers last) :
    AllAllowed (Session.step readers editMode) (AllowedWrite readers editMode) s (clearOps writes) := by
  induction writes generalizing s with
  | nil => trivial
  | cons first rest ih =>
    have made := keeps_clearOne inv first.1 first.2
    have leaves : LeavesValue readers s first.1 (s.written.write editMode (clearOne first.1 first.2)) := by
      by_contra gone
      exact (stale_run (made.stale gone) rest ran).not_reads reads
    refine ⟨leaves, fun next stepped => ?_⟩
    rw [← some.inj stepped]
    exact ih (made.keeps leaves) ran

theorem masks_cleared (writes : List (JsString × BotSpace)) (w : Written) (space : BotSpace) (tag : JsString) :
    ((writes.foldl (fun w write => w.write editMode (clearOne write.1 write.2)) w).masks space tag =
      if isConstant tag = false ∧ (tag, space) ∈ writes ∧ editMode space = .immediate then none
      else w.masks space tag) ∧
    (writes.foldl (fun w write => w.write editMode (clearOne write.1 write.2)) w).tags = w.tags := by
  induction writes generalizing w with
  | nil => simp
  | cons first rest ih =>
    obtain ⟨masks, tags⟩ := ih (w.write editMode (clearOne first.1 first.2))
    rw [List.foldl_cons, masks, tags]
    refine ⟨?_, setMasks_tags _ _ _ _⟩
    have isFirst : (tag, space) = first ↔ tag = first.1 ∧ space = first.2 := Prod.ext_iff
    simp only [clearOne, Written.write, PlainValue.null, List.mem_cons, isFirst]
    by_cases constant : isConstant first.1 = true
    · rw [Written.setMasks, if_pos constant]
      by_cases same : tag = first.1
      · simp [same, constant]
      · simp [same]
    · have free : isConstant first.1 = false := Bool.eq_false_iff.mpr constant
      have cleared : shown (.json .null) = none := rfl
      rw [setMasks_free _ _ free, cleared]
      simp only [Written.inSpace, decide_eq_true_eq]
      by_cases same : tag = first.1 ∧ space = first.2
      · by_cases atOnce : editMode first.2 = .immediate <;> simp [same, free, atOnce]
      · simp [same, ← and_assoc]

theorem runAll_clear (writes : List (JsString × BotSpace)) (s : Session) :
    runAll (Session.step readers editMode) s (clearOps writes) = some
      { bot := writes.foldl (fun bot write => setTagMask readers editMode bot write.1 (.json .null) (some write.2)) s.bot
        written := writes.foldl (fun w write => w.write editMode (clearOne write.1 write.2)) s.written } := by
  induction writes generalizing s with
  | nil => rfl
  | cons first rest ih => exact ih _

theorem step_clear (inv : Consistent readers editMode s) (space : Option BotSpace) :
    runAll (Session.step readers editMode) s (clearOps (clearWrites space s.bot)) =
      Session.step readers editMode s (.clearTagMasks space) := by
  rw [runAll_clear, Session.step]
  have cleared : (clearWrites space s.bot).foldl (fun w write => w.write editMode (clearOne write.1 write.2))
      s.written = s.written.clear editMode space := by
    rw [Written.clear, Written.mk.injEq]
    refine ⟨(masks_cleared _ _ .shared []).2, ?_⟩
    funext inSpace tag
    rw [(masks_cleared _ _ inSpace tag).1]
    by_cases listed : inSpace ∈ spacesToClear space
    · by_cases held : (tag, inSpace) ∈ clearWrites space s.bot
      · simp [listed, held]
      · have missing : s.written.masks inSpace tag = none := by
          have absent : lookup tag (maskTags inSpace s.bot.masks) = none := by
            rw [lookup_eq_none_iff]
            intro inTags
            obtain ⟨entry, member, isTag⟩ := List.mem_map.mp inTags
            exact held (List.mem_flatMap.mpr ⟨inSpace, listed, List.mem_map.mpr ⟨entry, member, by rw [isTag]⟩⟩)
          rw [← inv.masks, maskValue, tagValue, absent]
          rfl
        simp [held, missing]
    · have outside : (tag, inSpace) ∉ clearWrites space s.bot := by
        intro held
        obtain ⟨other, member, inTags⟩ := List.mem_flatMap.mp held
        obtain ⟨entry, _, isPair⟩ := List.mem_map.mp inTags
        have same : other = inSpace := (Prod.ext_iff.mp isPair).2
        exact listed (same ▸ member)
      simp [listed, outside]
  rw [cleared]
  rfl

/-! ### Runs -/

theorem keeps_step {s next : Session} (inv : Consistent readers editMode s) (op : Operation)
    (allowed : Allowed readers editMode s op) (ran : Session.step readers editMode s op = some next) :
    Consistent readers editMode next := by
  cases op with
  | setTag tag value =>
    exact some.inj ran ▸ keeps_setTag inv tag value.val value.property allowed
  | deleteTag tag => exact some.inj ran ▸ keeps_setTag inv tag (.json .null) rfl allowed
  | setMask tag value => exact some.inj ran ▸ (maskWrite_setTagMask inv tag value none).keeps allowed
  | deleteMask tag => exact some.inj ran ▸ (maskWrite_deleteMask inv tag).keeps allowed
  | setTagMask tag value space =>
    exact some.inj ran ▸ (maskWrite_setTagMask inv tag value space).keeps allowed
  | clearTagMasks space =>
    rw [← step_clear inv] at ran
    exact clear_consistent inv _ allowed ran

theorem allowed_of_reads (inv : Consistent readers editMode s) (op : Operation)
    (reads : ∀ next, Session.step readers editMode s op = some next → ReadsWritten readers next) :
    Allowed readers editMode s op := by
  cases op with
  | setTag tag value => exact keeps_of_reads inv tag value.val (reads _ rfl)
  | deleteTag tag => exact keeps_of_reads inv tag (.json .null) (reads _ rfl)
  | setMask tag value => exact (maskWrite_setTagMask inv tag value none).leaves (reads _ rfl)
  | deleteMask tag => exact (maskWrite_deleteMask inv tag).leaves (reads _ rfl)
  | setTagMask tag value space => exact (maskWrite_setTagMask inv tag value space).leaves (reads _ rfl)
  | clearTagMasks space =>
    have ran := @step_clear readers editMode s inv space
    exact clear_allowed inv (clearWrites space s.bot) ran (reads _ rfl)

/-- A script reads what it wrote exactly as long as it gives no other value to a tag under a mask, and
takes no mask away that is the last thing to be seen of a tag. -/
theorem reads_written_iff (readers : Readers) (editMode : BotSpace → RealtimeEditMode) (existing : TagMasks)
    (bot : AuxRuntime.Bot) (immediate : editMode (getBotSpace bot.space) = .immediate) (ops : List Operation) :
    Throughout (Session.step readers editMode) (ReadsWritten readers) (Session.start readers existing bot) ops ↔
      AllAllowed (Session.step readers editMode) (Allowed readers editMode) (Session.start readers existing bot) ops :=
  throughout_iff (fun _ inv => inv.reads) (fun _ op _ inv allowed ran => keeps_step inv op allowed ran)
    (fun _ op inv reads => allowed_of_reads inv op reads) _ (consistent_start existing bot immediate) ops

def delivered (tags : Tags) : AuxRuntime.Bot := { id := [98], space := none, tags := tags, masks := [], signatures := [] }

def integer (value : Int) : PlainValue := ⟨.json (.integer value), rfl⟩

/-- A mask over a tag, taken away again before the tag is written. -/
theorem masked_and_written :
    Throughout (Session.step plainReaders fun _ => .immediate) (ReadsWritten plainReaders)
      (Session.start plainReaders [] (delivered [([120], .json (.integer 1))]))
      [.setMask [120] (integer 2), .deleteMask [120], .setTag [120] (integer 3)] := by
  refine (reads_written_iff plainReaders (fun _ => .immediate) [] _ rfl _).mpr
    ⟨fun _ _ _ => .inl rfl, fun next ran => ?_⟩
  refine Option.some.inj ran ▸ ⟨fun _ _ _ => .inr rfl, fun next ran => ?_⟩
  exact Option.some.inj ran ▸ ⟨fun _ masked => (by cases masked), fun _ _ => trivial⟩

/-- A tag that is written under a mask keeps its old value, and the value of a mask that was taken away is
still read. -/
theorem masked_write_lost :
    ¬Throughout (Session.step plainReaders fun _ => .immediate) (ReadsWritten plainReaders)
        (Session.start plainReaders [] (delivered [([120], .json (.integer 1))]))
        [.setMask [120] (integer 2), .setTag [120] (integer 3)] ∧
      ¬Throughout (Session.step plainReaders fun _ => .immediate) (ReadsWritten plainReaders)
        (Session.start plainReaders [] (delivered []))
        [.setMask [120] (integer 2), .deleteMask [120]] := by
  constructor
  · intro all
    have reads := all.last _ rfl
    have raw : TagValue.json (.integer 1) = .json (.integer 3) := reads.raw [120] rfl
    cases raw
  · intro all
    have reads := all.last _ rfl
    have read : TagValue.json (.integer 2) = .undefined := reads.tags [120] rfl (by decide)
    cases read

end CasualOS.TagReads
