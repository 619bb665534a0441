import CasualOS.ListenerIndex

/-! Whether the pending changes of a replaced bot are in the new bot as if its script had made them. -/

namespace CasualOS.BotReplacement

open AuxRuntime OrderedMap Run
open SortedLists (countBelow)
open Option (some)

/-- The properties of two bots hold the same values. -/
structure SameBot (bot other : CompiledBot) : Prop where
  tags : ∀ tag, lookup tag bot.tags = lookup tag other.tags
  masks : ∀ space tag, lookup tag (maskTags space bot.masks) = lookup tag (maskTags space other.masks)
  values : ∀ tag, lookup tag bot.values = lookup tag other.values
  listeners : ∀ tag, lookup tag bot.listeners = lookup tag other.listeners
  changes : ∀ tag, lookup tag bot.changes = lookup tag other.changes
  maskChanges : ∀ space tag,
    lookup tag (maskTags space bot.maskChanges) = lookup tag (maskTags space other.maskChanges)

def madeAgain (id : JsString) (existing : CompiledBot) : List Change :=
  (existing.changes.map fun change => .updateTag (.inState id) change.1 change.2) ++
    (existing.maskChanges.flatMap fun entry => entry.2.map fun mask => (entry.1, mask)).map fun change =>
      .updateTagMask (.inState id) change.2.1 [change.1] change.2.2

def addedFirst (readers : Readers) (sortedIndex : List JsString → JsString → Nat)
    (editMode : BotSpace → RealtimeEditMode) (r : Runtime) (existing : CompiledBot) (bot : AuxRuntime.Bot) :
    Option CompiledBot :=
  (runAll (changeStep readers sortedIndex editMode) (r.drop bot.id)
    (.add bot :: madeAgain bot.id existing)).bind fun made => made.bot bot.id

/-- The bot after a state update that adds it again is the one that is added first and then changed. -/
def ReplacedAsMade (readers : Readers) (sortedIndex : List JsString → JsString → Nat)
    (editMode : BotSpace → RealtimeEditMode) (r : Runtime) (existing : CompiledBot) (bot : AuxRuntime.Bot) : Prop :=
  ∃ kept made, ((callStep readers sortedIndex editMode r (adds bot)).bind fun next => next.bot bot.id) = some kept ∧
    addedFirst readers sortedIndex editMode r existing bot = some made ∧ SameBot kept made

/-! ### One tag -/

def written (value before : TagValue) : TagValue :=
  match value.edit with
  | some edit => before.applyTagEdit edit
  | none => value

/-- What a bot holds of one tag: the tag, its mask in each space, and what it shows of them. -/
@[ext] structure Cell (X : Type) where
  tag : Option TagValue
  masks : BotSpace → Option TagValue
  shows : X

namespace Cell

variable {X Y : Type} (cell : Cell X)

def tagValue : TagValue := cell.tag.getD .undefined

def firstMask : Option TagValue :=
  tagMaskSpacePriorities.findSome? fun space => shown ((cell.masks space).getD .undefined)

def visible : TagValue := cell.firstMask.getD cell.tagValue

def hasVisible : Bool := cell.firstMask.isSome || cell.tagValue.hasValue || cell.tagValue.isNull

variable (compile : TagValue → X)

def putTag (atOnce : Bool) (value : TagValue) : Cell X :=
  if atOnce && cell.firstMask.isNone then
    let stored := written value cell.tagValue
    { cell with
      tag := if value.edit.isSome then some stored else shown stored
      shows := compile stored }
  else cell

def setMask (space : BotSpace) (value : TagValue) : Cell X :=
  { cell with masks := fun other =>
      if other = space then some (written value ((cell.masks space).getD .undefined)) else cell.masks other }

def compileVisible : Cell X :=
  if cell.hasVisible then { cell with shows := compile cell.visible } else cell

def putMask (atOnce : BotSpace → Bool) (space : BotSpace) (value : TagValue) : Cell X :=
  if atOnce space then (cell.setMask space value).compileVisible compile else cell

def putMasks (atOnce : BotSpace → Bool) (masks : List (BotSpace × TagValue)) : Cell X :=
  masks.foldl (fun cell mask => cell.putMask compile atOnce mask.1 mask.2) cell

def map (f : X → Y) : Cell Y := { tag := cell.tag, masks := cell.masks, shows := f cell.shows }

end Cell

abbrev Compiled := Option TagValue × Option JsString

def compiledOf (readers : Readers) (bot : CompiledBot) (tag : JsString) (value : TagValue) : Compiled :=
  (shown (compileValue readers bot tag value).1, (compileValue readers bot tag value).2)

def cellOf {X : Type} (shows : CompiledBot → JsString → X) (bot : CompiledBot) (tag : JsString) : Cell X where
  tag := lookup tag bot.tags
  masks space := lookup tag (maskTags space bot.masks)
  shows := shows bot tag

def compiledIn (bot : CompiledBot) (tag : JsString) : Compiled := (lookup tag bot.values, lookup tag bot.listeners)

def changedMasks (changes : TagMasks) (tag : JsString) : List (BotSpace × TagValue) :=
  changes.filterMap fun entry => (lookup tag entry.2).map (entry.1, ·)

/-! ### The conditions -/

section Conditions

variable (editMode : BotSpace → RealtimeEditMode) (readers : Readers) (existing newBot : CompiledBot) (tag : JsString)

def isAtOnce (space : BotSpace) : Bool := editMode space = .immediate

/-- A tag that is written at once gets a value as it is; another one has its value already. -/
def TagKept : Prop :=
  ∀ value, lookup tag existing.changes = some value →
    if isAtOnce editMode (getBotSpace newBot.space) = true ∧ firstMask tag newBot.masks = none then
      value.edit = none ∧ value.hasValue = true
    else lookup tag newBot.tags = some value

/-- A mask is in a space that is looked for; it is written at once as it is, or is there already. -/
def MasksKept : Prop :=
  ∀ space value, lookup tag (maskTags space existing.maskChanges) = some value →
    space ∈ tagMaskSpacePriorities ∧
      if isAtOnce editMode space = true then value.edit = none
      else lookup tag (maskTags space newBot.masks) = some value

def lastCell : Cell TagValue :=
  let start := cellOf visible newBot tag
  let changed := (lookup tag existing.changes).elim start
    (start.putTag id (isAtOnce editMode (getBotSpace newBot.space)))
  changed.putMasks id (isAtOnce editMode) (changedMasks existing.maskChanges tag)

def lastCompiled : TagValue := (lastCell editMode existing newBot tag).shows

/-- What is compiled last shows the changed tag as it is, or what the new bot shows, with the listener of
the new bot. -/
def ShowsKept : Prop :=
  let before := compiledOf readers newBot tag (visible newBot tag)
  compiledOf readers newBot tag (lastCompiled editMode existing newBot tag) =
    ((lookup tag existing.changes).or before.1, before.2)

structure Kept : Prop where
  editable : editMode (getBotSpace newBot.space) = .notEditable → existing.changes = []
  tags : ∀ tag, TagKept editMode existing newBot tag
  masks : ∀ tag, MasksKept editMode existing newBot tag
  shows : ∀ tag, ShowsKept editMode readers existing newBot tag

end Conditions

def copiedBot (r : Runtime) (bot : AuxRuntime.Bot) : CompiledBot :=
  copyBot bot (mergeMasks ((lookup bot.id r.existingMasks).getD []) bot.masks)

/-! ### The changes that are not sent yet -/

/-- One value for each tag, with dates, vectors and rotations as texts. -/
structure SavedTags (tags : Tags) : Prop where
  distinct : (tags.map Prod.fst).Nodup
  saved : ∀ change ∈ tags, change.2.copiable = change.2

structure SavedMasks (masks : TagMasks) : Prop where
  distinct : (masks.map Prod.fst).Nodup
  saved : ∀ entry ∈ masks, SavedTags entry.2

def unsent (bot : CompiledBot) : Tags × TagMasks := (bot.changes, bot.maskChanges)

def Pending (bot : CompiledBot) : Prop := SavedTags (unsent bot).1 ∧ SavedMasks (unsent bot).2

theorem pending_of_unsent {bot other : CompiledBot} (same : unsent bot = unsent other) (pending : Pending other) :
    Pending bot := by
  rwa [Pending, same]

theorem savedTags_nil : SavedTags [] := ⟨List.nodup_nil, fun _ inside => (by cases inside)⟩

theorem savedMasks_nil : SavedMasks [] := ⟨List.nodup_nil, fun _ inside => (by cases inside)⟩

variable {bot : CompiledBot} {value : TagValue} {masks : TagMasks} {changes : Tags}

theorem savedTags_assign {tags : Tags} (all : SavedTags tags) (tag : JsString)
    (saved : value.copiable = value) : SavedTags (assign tag value tags) where
  distinct := nodup_assign all.distinct tag value
  saved change member := by
    rcases mem_assign member with new | old
    · rw [new]
      exact saved
    · exact all.saved change old

theorem savedTags_maskTags (all : SavedMasks masks) (space : BotSpace) : SavedTags (maskTags space masks) := by
  rw [maskTags]
  cases found : lookup space masks with
  | none => exact savedTags_nil
  | some tags => exact all.saved _ (mem_of_lookup space tags masks found)

theorem savedMasks_assign (all : SavedMasks masks) (space : BotSpace) {tags : Tags}
    (saved : SavedTags tags) : SavedMasks (assign space tags masks) where
  distinct := nodup_assign all.distinct space tags
  saved entry member := by
    rcases mem_assign member with new | old
    · rw [new]
      exact saved
    · exact all.saved entry old

theorem copiable_copiable (value : TagValue) : value.copiable.copiable = value.copiable := by
  cases value with
  | undefined => rfl
  | json value => rfl
  | special kind formatted text => cases kind <;> rfl

theorem savedTags_changeTag (all : SavedTags changes) (tag : JsString)
    (saved : value.copiable = value) : SavedTags (changeTag tag value changes) := by
  refine savedTags_assign all tag ?_
  -- Merged edits and edited values are plain JSON.
  split
  · rfl
  · split
    · rfl
    · exact saved
  · exact saved

theorem saved_changedTag (all : SavedTags changes) (tag : JsString) (saved : value.copiable = value) :
    (tagValue tag (changeTag tag value changes)).copiable = tagValue tag (changeTag tag value changes) := by
  rw [tagValue]
  cases found : lookup tag (changeTag tag value changes) with
  | none => rfl
  | some stored => exact (savedTags_changeTag all tag saved).saved _ (mem_of_lookup _ _ _ found)

theorem savedMasks_changeTagMask {changes : TagMasks} (all : SavedMasks changes) (tag : JsString)
    (saved : value.copiable = value) (spaces : List BotSpace) :
    SavedMasks (changeTagMask tag value spaces changes) := by
  induction spaces generalizing value changes with
  | nil => exact all
  | cons space rest ih =>
    have inSpace := savedTags_maskTags all space
    exact ih (savedMasks_assign all space (savedTags_changeTag inSpace tag saved)) (saved_changedTag inSpace tag saved)

section Kept

variable {readers : Readers} {editMode : BotSpace → RealtimeEditMode}

theorem unsent_compileTagValue (c : Compiling) (tag : JsString) (value : TagValue) :
    unsent (compileTagValue readers c tag value).bot = unsent c.bot := by
  change unsent (setListener c tag _).bot = unsent c.bot
  unfold setListener
  split
  · rfl
  · split <;> rfl

theorem unsent_compileTagOrMask (c : Compiling) (tag : JsString) :
    unsent (compileTagOrMask readers c tag).bot = unsent c.bot := by
  rw [compileTagOrMask_eq]
  split
  · exact unsent_compileTagValue c tag _
  · rfl

theorem unsent_compileTag (isNew : Bool) (c : Compiling) (tag : JsString) (value : TagValue) :
    unsent (compileTag readers isNew c tag value).bot = unsent c.bot := by
  unfold compileTag
  split
  · rfl
  · split <;> exact unsent_compileTagValue _ tag _

theorem unsent_storeMasks (bot : CompiledBot) (tag : JsString) (spaces : List BotSpace) (value : TagValue) :
    unsent (storeMasks editMode bot tag spaces value) = unsent bot := by
  refine foldl_kept unsent (fun bot space => ?_) _ bot
  unfold storeMask
  split <;> rfl

theorem unsent_created (existing : TagMasks) (bot : AuxRuntime.Bot) :
    unsent (createCompiledBot readers existing bot).bot = ([], []) :=
  foldl_kept (fun c : Compiling => unsent c.bot) unsent_compileTagOrMask _ _

theorem pending_created (existing : TagMasks) (bot : AuxRuntime.Bot) :
    Pending (createCompiledBot readers existing bot).bot := by
  rw [Pending, unsent_created]
  exact ⟨savedTags_nil, savedMasks_nil⟩

theorem pending_updateTag (isNew : Bool) (pending : Pending bot) (tag : JsString)
    (value : TagValue) : Pending (updateTag readers editMode isNew bot tag value).bot := by
  have compiled : unsent (if editMode (getBotSpace bot.space) = .immediate then
      compileTag readers isNew { bot := bot, presence := [] } tag value
      else { bot := bot, presence := [] }).bot = unsent bot := by
    split
    · exact unsent_compileTag isNew _ tag value
    · rfl
  have stored := pending_of_unsent compiled pending
  unfold updateTag
  simp only
  split
  · exact stored
  · exact ⟨savedTags_changeTag stored.1 tag (copiable_copiable value), stored.2⟩

theorem pending_updateTagMask (pending : Pending bot) (tag : JsString) (spaces : List BotSpace) (value : TagValue) :
    Pending (updateTagMask readers editMode bot tag spaces value).bot := by
  have compiled : unsent (if spaces.any fun space => editMode space = .immediate then
      compileTagOrMask readers { bot := storeMasks editMode bot tag spaces value, presence := [] } tag
      else { bot := storeMasks editMode bot tag spaces value, presence := [] }).bot = unsent bot := by
    split
    · exact (unsent_compileTagOrMask _ tag).trans (unsent_storeMasks bot tag spaces value)
    · exact unsent_storeMasks bot tag spaces value
  have stored := pending_of_unsent compiled pending
  exact ⟨stored.1, savedMasks_changeTagMask stored.2 tag (copiable_copiable value) spaces⟩

theorem unsent_updateStateTag (bot : CompiledBot) (update : JsString × TagValue) :
    unsent (updateStateTag bot update) = unsent bot := by
  unfold updateStateTag
  split <;> rfl

theorem unsent_updateStateMask (space : BotSpace) (bot : CompiledBot) (update : JsString × TagValue) :
    unsent (updateStateMask space bot update) = unsent bot := by
  unfold updateStateMask
  split <;> rfl

theorem unsent_updateSignature (isNew : Bool) (c : Compiling) (update : JsString × Option JsString) :
    unsent (updateSignature readers isNew c update).bot = unsent c.bot := by
  unfold updateSignature
  simp only
  split
  · exact unsent_compileTag isNew _ _ _
  · exact unsent_compileTag isNew _ _ _
  · rfl

theorem unsent_updateState (isNew : Bool) (bot : CompiledBot) (update : PartialBot) :
    unsent (updateState readers isNew bot update).bot = unsent bot := by
  let ofCompiling (c : Compiling) := unsent c.bot
  have tags : unsent (update.tags.foldl updateStateTag bot) = unsent bot :=
    foldl_kept unsent unsent_updateStateTag update.tags bot
  have masks : ∀ stored, unsent (update.masks.foldl
      (fun bot entry => entry.2.foldl (updateStateMask entry.1) bot) stored) = unsent stored :=
    foldl_kept unsent (fun bot entry => foldl_kept unsent (unsent_updateStateMask entry.1) entry.2 bot) update.masks
  have compiled : ∀ c, ofCompiling ((updatedTags update).foldl (compileUpdated readers) c) = ofCompiling c :=
    foldl_kept ofCompiling (fun c tag => unsent_compileTagValue c tag _) (updatedTags update)
  have signed : ∀ c, ofCompiling (update.signatures.foldl (updateSignature readers isNew) c) = ofCompiling c :=
    foldl_kept ofCompiling (unsent_updateSignature isNew) update.signatures
  exact (signed _).trans ((compiled _).trans ((masks _).trans tags))

theorem pending_replaceBot {existing newBot : CompiledBot} (pending : Pending existing) (new : Pending newBot) :
    Pending (replaceBot existing newBot) := by
  have tags : Pending (existing.changes.foldl copyChange newBot) :=
    List.foldlRecOn existing.changes copyChange new fun bot inv change member =>
      ⟨savedTags_assign inv.1 change.1 (pending.1.saved change member), inv.2⟩
  refine List.foldlRecOn tagMaskSpacePriorities _ tags fun bot inv space _ => ?_
  cases found : lookup space existing.maskChanges with
  | none => exact inv
  | some masks =>
    have saved := pending.2.saved _ (mem_of_lookup space masks existing.maskChanges found)
    have made : Pending { bot with maskChanges := assign space (maskTags space bot.maskChanges) bot.maskChanges } :=
      ⟨inv.1, savedMasks_assign inv.2 space (savedTags_maskTags inv.2 space)⟩
    exact List.foldlRecOn masks (copyMask space) made fun bot inv mask member =>
      ⟨inv.1, savedMasks_assign inv.2 space
        (savedTags_assign (savedTags_maskTags inv.2 space) mask.1 (saved.saved mask member))⟩

/-! ### The bots of a runtime -/

variable {sortedIndex : List JsString → JsString → Nat} {r : Runtime}

/-- The bots of the state, and those that scripts still hold. -/
structure AllPending (r : Runtime) : Prop where
  inState : ∀ id bot, r.bot id = some bot → Pending bot
  gone : ∀ bot ∈ r.gone, Pending bot

theorem allPending_empty : AllPending .empty where
  inState _ _ found := by cases found
  gone _ inside := by cases inside

theorem allPending_assign {next : Runtime} (all : ∀ id bot, r.bot id = some bot → Pending bot)
    (gone : ∀ bot ∈ next.gone, Pending bot) {id : JsString} (pending : Pending bot)
    (state : next.compiledState = assign id bot r.compiledState) : AllPending next where
  inState other found isFound := by
    rw [Runtime.bot, state, lookup_assign] at isFound
    split at isFound
    · rw [← some.inj isFound]
      exact pending
    · exact all other found isFound
  gone := gone

theorem gone_drop (all : AllPending r) (id : JsString) : ∀ bot ∈ (r.drop id).gone, Pending bot := by
  intro bot member
  rcases List.mem_append.mp member with before | dropped
  · exact all.gone bot before
  · exact all.inState id bot (Option.mem_toList.mp dropped)

theorem allPending_drop (all : AllPending r) (id : JsString) : AllPending (r.drop id) where
  inState other found isFound := by
    rw [Runtime.bot, Runtime.drop, lookup_remove] at isFound
    split at isFound
    · cases isFound
    · exact all.inState other found isFound
  gone := gone_drop all id

theorem allPending_deref (all : AllPending r) {ref : BotRef} (found : r.deref ref = some bot) :
    Pending bot := by
  cases ref with
  | inState id => exact all.inState id bot found
  | gone index => exact all.gone bot (List.mem_of_getElem? found)

theorem allPending_store (all : AllPending r) (ref : BotRef) (pending : Pending bot) :
    AllPending (r.store bot ref) := by
  cases ref with
  | inState id => exact allPending_assign all.inState all.gone pending rfl
  | gone index =>
    refine ⟨all.inState, fun other member => ?_⟩
    rcases List.mem_or_eq_of_mem_set member with old | new
    · exact all.gone other old
    · rw [new]
      exact pending

theorem allPending_withBot (all : AllPending r) (ref : BotRef) {act : CompiledBot → Runtime}
    (each : ∀ bot, Pending bot → AllPending (act bot)) : AllPending (r.withBot ref act) := by
  cases found : r.deref ref with
  | none => exact (withBot_missing found act).symm ▸ all
  | some bot => exact (withBot_found found act).symm ▸ each bot (allPending_deref all found)

theorem allPending_record (all : AllPending r) (id : JsString) (presence : List (JsString × Bool)) :
    AllPending (r.record sortedIndex id presence) := ⟨all.inState, all.gone⟩

theorem allPending_apply (all : AllPending r) (change : Change) :
    AllPending (r.apply readers sortedIndex editMode change) := by
  cases change with
  | add bot =>
    refine allPending_assign all.inState all.gone ?_ rfl
    cases found : r.bot bot.id with
    | none => exact pending_created _ bot
    | some existing => exact pending_replaceBot (all.inState _ _ found) (pending_created _ bot)
  | remove id => exact allPending_drop all id
  | update id partialBot =>
    rw [Runtime.apply, Runtime.update]
    cases found : r.bot id with
    | none =>
      simp only
      split
      · exact all
      · exact ⟨all.inState, all.gone⟩
    | some bot =>
      have updated : Pending (updateState readers (r.newBots.contains id) bot partialBot).bot :=
        pending_of_unsent (unsent_updateState _ bot partialBot) (all.inState id bot found)
      exact allPending_record (allPending_store all (.inState id) updated) id _
  | updateTag ref tag value =>
    exact allPending_withBot all ref fun bot pending =>
      allPending_record (allPending_store all ref (pending_updateTag _ pending tag value)) bot.id _
  | updateTagMask ref tag spaces value =>
    exact allPending_withBot all ref fun bot pending =>
      allPending_record (allPending_store all ref (pending_updateTagMask pending tag spaces value)) bot.id _
  | createBot bot =>
    rw [Runtime.apply, Runtime.createBot]
    split
    · exact allPending_assign all.inState (gone_drop all bot.id) (pending_created [] bot) rfl
    · exact all
  | destroyBot ref =>
    refine allPending_withBot all ref fun bot _ => ?_
    rw [Runtime.destroyBot]
    split
    · exact allPending_record (allPending_drop all bot.id) bot.id _
    · exact all
  | clearChanges ref =>
    exact allPending_withBot all ref fun bot _ => allPending_store all ref ⟨savedTags_nil, savedMasks_nil⟩
  | clearNewBots => exact ⟨all.inState, all.gone⟩

end Kept

/-! ### Writes of one tag -/

namespace Cell

variable {X Y : Type} (f : X → Y) (compile : TagValue → X)

theorem map_putTag (cell : Cell X) (atOnce : Bool) (value : TagValue) :
    (cell.putTag compile atOnce value).map f = (cell.map f).putTag (fun value => f (compile value)) atOnce value := by
  rw [putTag, putTag]
  change _ = if atOnce && cell.firstMask.isNone then _ else _
  split <;> rfl

theorem map_compileVisible (cell : Cell X) :
    (cell.compileVisible compile).map f = (cell.map f).compileVisible fun value => f (compile value) := by
  rw [compileVisible, compileVisible]
  change _ = if cell.hasVisible then _ else _
  split <;> rfl

theorem map_putMask (cell : Cell X) (atOnce : BotSpace → Bool) (space : BotSpace) (value : TagValue) :
    (cell.putMask compile atOnce space value).map f =
      (cell.map f).putMask (fun value => f (compile value)) atOnce space value := by
  rw [putMask, putMask]
  split
  · exact map_compileVisible f compile (cell.setMask space value)
  · rfl

theorem map_putMasks (cell : Cell X) (atOnce : BotSpace → Bool) (masks : List (BotSpace × TagValue)) :
    (cell.putMasks compile atOnce masks).map f =
      (cell.map f).putMasks (fun value => f (compile value)) atOnce masks := by
  induction masks generalizing cell with
  | nil => rfl
  | cons mask rest ih => exact (ih _).trans (by rw [map_putMask]; rfl)

theorem compileVisible_tag (cell : Cell X) : (cell.compileVisible compile).tag = cell.tag := by
  rw [compileVisible]
  split <;> rfl

theorem compileVisible_masks (cell : Cell X) : (cell.compileVisible compile).masks = cell.masks := by
  rw [compileVisible]
  split <;> rfl

theorem putTag_masks (cell : Cell X) (atOnce : Bool) (value : TagValue) :
    (cell.putTag compile atOnce value).masks = cell.masks := by
  rw [putTag]
  split <;> rfl

theorem putMasks_tag (cell : Cell X) (atOnce : BotSpace → Bool) (masks : List (BotSpace × TagValue)) :
    (cell.putMasks compile atOnce masks).tag = cell.tag := by
  refine foldl_kept tag (fun cell mask => ?_) masks cell
  rw [putMask]
  split
  · exact compileVisible_tag compile _
  · rfl

theorem putMask_masks (cell : Cell X) (atOnce : BotSpace → Bool) (space other : BotSpace) (value : TagValue) :
    (cell.putMask compile atOnce space value).masks other =
      if other = space then
        if atOnce other then some (written value ((cell.masks other).getD .undefined)) else cell.masks other
      else cell.masks other := by
  rw [putMask]
  by_cases same : other = space
  · subst same
    rw [if_pos rfl]
    split
    · rw [compileVisible_masks]
      exact if_pos rfl
    · rfl
  · rw [if_neg same]
    split
    · rw [compileVisible_masks]
      exact if_neg same
    · rfl

theorem putMasks_masks (cell : Cell X) (atOnce : BotSpace → Bool) {changes : List (BotSpace × TagValue)}
    (distinct : (changes.map Prod.fst).Nodup) (space : BotSpace) :
    (cell.putMasks compile atOnce changes).masks space =
      (lookup space changes).elim (cell.masks space) fun value =>
        if atOnce space then some (written value ((cell.masks space).getD .undefined)) else cell.masks space := by
  exact (@cells_foldl _ _ _ _ _ (fun _ => True) _ masks
    (fun space value before => if atOnce space then some (written value (before.getD .undefined)) else before)
    changes distinct (fun _ _ _ _ => trivial)
    (fun cell mask _ other _ => putMask_masks compile cell atOnce mask.1 other mask.2) cell trivial).2 space

end Cell

section Writes

variable {readers : Readers} {editMode : BotSpace → RealtimeEditMode} {start : CompiledBot}

theorem lookup_setMask (space other : BotSpace) (tag another : JsString) (value : TagValue) (masks : TagMasks) :
    lookup another (maskTags other (setMask space tag value masks)) =
      if other = space ∧ another = tag then some value else lookup another (maskTags other masks) := by
  rw [setMask, maskTags_assign]
  by_cases same : other = space
  · rw [if_pos same, lookup_assign, same]
    simp only [true_and]
  · rw [if_neg same, if_neg fun both => same both.1]

theorem firstMask_cellOf {X : Type} (shows : CompiledBot → JsString → X) (bot : CompiledBot) (tag : JsString) :
    (cellOf shows bot tag).firstMask = firstMask tag bot.masks := rfl

theorem cell_compileTagValue {c : Compiling} (same : SameSource c.bot start) (tag : JsString) (value : TagValue)
    (other : JsString) : cellOf compiledIn (compileTagValue readers c tag value).bot other =
      if other = tag then
        { cellOf compiledIn c.bot other with shows := compiledOf readers start other value }
      else cellOf compiledIn c.bot other := by
  have shows : compiledIn (compileTagValue readers c tag value).bot other =
      if other = tag then compiledOf readers start tag value else compiledIn c.bot other := by
    rw [compiledIn, lookup_values, lookup_listeners, compileValue_congr same]
    split <;> rfl
  rw [cellOf, compileTagValue_tags, compileTagValue_masks, shows]
  split
  · next isTag => rw [isTag]; rfl
  · rfl

theorem cell_compileTagOrMask {c : Compiling} (same : SameSource c.bot start) (tag other : JsString) :
    cellOf compiledIn (compileTagOrMask readers c tag).bot other =
      if other = tag then (cellOf compiledIn c.bot other).compileVisible (compiledOf readers start other)
      else cellOf compiledIn c.bot other := by
  rw [compileTagOrMask_eq]
  by_cases seen : hasVisible c.bot tag = true
  · rw [if_pos seen, cell_compileTagValue same]
    split
    · next isTag =>
        subst isTag
        exact (if_pos seen).symm
    · rfl
  · rw [if_neg seen]
    split
    · next isTag =>
        subst isTag
        exact (if_neg seen).symm
    · rfl

theorem cell_storeTag (isNew : Bool) (bot : CompiledBot) (tag : JsString)
    (saved : value.copiable = value) (other : JsString) : cellOf compiledIn (storeTag isNew bot tag value) other =
      if other = tag then { cellOf compiledIn bot other with tag := shown value }
      else cellOf compiledIn bot other := by
  have tags : lookup other (storeTag isNew bot tag value).tags =
      if other = tag then shown value else lookup other bot.tags := by
    rw [storeTag, saved, ite_self, shown]
    simp only
    split
    · rw [lookup_assign]
    · rw [lookup_remove]
  rw [cellOf, tags]
  split <;> rfl

theorem cell_storeEdit (bot : CompiledBot) (tag : JsString) (edit : Json) (other : JsString) :
    cellOf compiledIn (storeEdit bot tag edit).1 other =
      if other = tag then { cellOf compiledIn bot other with tag := some (storeEdit bot tag edit).2 }
      else cellOf compiledIn bot other := by
  rw [cellOf, storeEdit]
  simp only [lookup_assign]
  split <;> rfl

theorem cell_compileTag (isNew : Bool) {c : Compiling} (same : SameSource c.bot start) (tag : JsString)
    (saved : value.copiable = value) (other : JsString) :
    cellOf compiledIn (compileTag readers isNew c tag value).bot other =
      if other = tag then (cellOf compiledIn c.bot other).putTag (compiledOf readers start other) true value
      else cellOf compiledIn c.bot other := by
  have hidden : (cellOf compiledIn c.bot tag).firstMask = firstMask tag c.bot.masks := rfl
  unfold compileTag
  by_cases masked : (firstMask tag c.bot.masks).isSome = true
  · rw [if_pos masked]
    split
    · next isTag =>
        rw [isTag, Cell.putTag, hidden, ← Option.not_isSome, masked]
        rfl
    · rfl
  · have open_ : (true && (firstMask tag c.bot.masks).isNone) = true := by simpa using masked
    rw [if_neg masked]
    cases isEdit : value.edit with
    | some edit =>
      have source : SameSource (storeEdit c.bot tag edit).1 start := ⟨same.id, same.space, same.signatures⟩
      simp only
      rw [cell_compileTagValue source, cell_storeEdit]
      split
      · next isTag =>
          subst isTag
          rw [Cell.putTag, hidden, if_pos open_, written, isEdit]
          rfl
      · rfl
    | none =>
      have source : SameSource (storeTag isNew c.bot tag value) start := ⟨same.id, same.space, same.signatures⟩
      simp only
      rw [cell_compileTagValue source, cell_storeTag isNew c.bot tag saved]
      split
      · next isTag =>
          subst isTag
          rw [Cell.putTag, hidden, if_pos open_, written, isEdit]
          rfl
      · rfl

theorem compileTag_source (isNew : Bool) (c : Compiling) (tag : JsString) (value : TagValue) :
    SameSource (compileTag readers isNew c tag value).bot c.bot := by
  unfold compileTag
  split
  · exact .refl _
  · split
    · exact (compileTagValue_source _ tag _).trans ⟨rfl, rfl, rfl⟩
    · exact (compileTagValue_source _ tag _).trans ⟨rfl, rfl, rfl⟩

theorem updateTag_source (isNew : Bool) (bot : CompiledBot) (tag : JsString) (value : TagValue) :
    SameSource (updateTag readers editMode isNew bot tag value).bot bot := by
  have compiled : SameSource (if editMode (getBotSpace bot.space) = .immediate then
      compileTag readers isNew { bot := bot, presence := [] } tag value
      else { bot := bot, presence := [] }).bot bot := by
    split
    · exact compileTag_source isNew _ tag value
    · exact .refl bot
  unfold updateTag
  simp only
  split
  · exact compiled
  · exact ⟨compiled.id, compiled.space, compiled.signatures⟩

theorem cell_updateTag (isNew : Bool) (same : SameSource bot start) (tag : JsString)
    (saved : value.copiable = value) (other : JsString) :
    cellOf compiledIn (updateTag readers editMode isNew bot tag value).bot other =
      if other = tag then
        (cellOf compiledIn bot other).putTag (compiledOf readers start other)
          (isAtOnce editMode (getBotSpace start.space)) value
      else cellOf compiledIn bot other := by
  have changesApart : cellOf compiledIn (updateTag readers editMode isNew bot tag value).bot other =
      cellOf compiledIn (if editMode (getBotSpace bot.space) = .immediate then
        compileTag readers isNew { bot := bot, presence := [] } tag value
        else { bot := bot, presence := [] }).bot other := by
    unfold updateTag
    simp only
    split <;> rfl
  rw [changesApart, isAtOnce, ← same.space]
  by_cases now : editMode (getBotSpace bot.space) = .immediate
  · rw [if_pos now, cell_compileTag isNew same tag saved, now]
    rfl
  · rw [if_neg now, Cell.putTag, decide_eq_false now]
    split <;> rfl

theorem cell_storeMask (bot : CompiledBot) (tag : JsString) (value : TagValue) (space : BotSpace)
    (other : JsString) : cellOf compiledIn (storeMask bot tag value space) other =
      if other = tag then (cellOf compiledIn bot other).setMask space value else cellOf compiledIn bot other := by
  have stored : (storeMask bot tag value space).masks =
      setMask space tag (written value (maskValue space tag bot.masks)) bot.masks := by
    unfold storeMask written
    cases value.edit <;> rfl
  have rest : (storeMask bot tag value space).tags = bot.tags ∧
      compiledIn (storeMask bot tag value space) other = compiledIn bot other := by
    unfold storeMask
    split <;> exact ⟨rfl, rfl⟩
  have masks : ∀ another, lookup other (maskTags another (storeMask bot tag value space).masks) =
      if another = space ∧ other = tag then some (written value (maskValue space tag bot.masks))
      else lookup other (maskTags another bot.masks) := by
    intro another
    rw [stored, lookup_setMask]
  rw [cellOf, rest.1, rest.2]
  by_cases isTag : other = tag
  · subst isTag
    rw [if_pos rfl]
    refine Cell.ext rfl (funext fun another => (masks another).trans ?_) rfl
    simp only [and_true]
    rfl
  · rw [if_neg isTag]
    refine Cell.ext rfl (funext fun another => (masks another).trans ?_) rfl
    exact if_neg fun both => isTag both.2

theorem cell_updateTagMask (same : SameSource bot start) (tag : JsString) (space : BotSpace)
    (value : TagValue) (other : JsString) :
    cellOf compiledIn (updateTagMask readers editMode bot tag [space] value).bot other =
      if other = tag then
        (cellOf compiledIn bot other).putMask (compiledOf readers start other) (isAtOnce editMode) space value
      else cellOf compiledIn bot other := by
  change cellOf compiledIn (if [space].any fun space => editMode space = .immediate then
    compileTagOrMask readers { bot := storeMasks editMode bot tag [space] value, presence := [] } tag
    else { bot := storeMasks editMode bot tag [space] value, presence := [] }).bot other = _
  rw [List.any_cons, List.any_nil, Bool.or_false, Cell.putMask, isAtOnce, storeMasks, List.filter_cons]
  by_cases now : editMode space = .immediate
  · have source : SameSource (storeMask bot tag value space) start := (storeMask_same bot tag value space).2.trans same
    rw [decide_eq_true now, if_pos rfl, if_pos rfl, if_pos rfl]
    change cellOf compiledIn (compileTagOrMask readers ⟨storeMask bot tag value space, []⟩ tag).bot other = _
    rw [cell_compileTagOrMask source, cell_storeMask]
    split <;> rfl
  · simp only [now, decide_false, Bool.false_eq_true, if_false, List.filter_nil, List.foldl_nil, ite_self]

theorem updateTagMask_source (bot : CompiledBot) (tag : JsString) (spaces : List BotSpace) (value : TagValue) :
    SameSource (updateTagMask readers editMode bot tag spaces value).bot bot := by
  have stored := (@storeMasks_same editMode bot tag spaces value).2
  have compiled : SameSource (if spaces.any fun space => editMode space = .immediate then
      compileTagOrMask readers { bot := storeMasks editMode bot tag spaces value, presence := [] } tag
      else { bot := storeMasks editMode bot tag spaces value, presence := [] }).bot bot := by
    split
    · exact (compileTagOrMask_source _ tag).trans stored
    · exact stored
  exact ⟨compiled.id, compiled.space, compiled.signatures⟩

end Writes

/-! ### The changes made on the new bot -/

section MadeAgain

variable (readers : Readers) (editMode : BotSpace → RealtimeEditMode)

def createdBot (r : Runtime) (bot : AuxRuntime.Bot) : CompiledBot :=
  (createCompiledBot readers ((lookup bot.id r.existingMasks).getD []) bot).bot

def writeTag (bot : CompiledBot) (change : JsString × TagValue) : CompiledBot :=
  (updateTag readers editMode false bot change.1 change.2).bot

def writeMask (space : BotSpace) (bot : CompiledBot) (mask : JsString × TagValue) : CompiledBot :=
  (updateTagMask readers editMode bot mask.1 [space] mask.2).bot

def writeTags (changes : Tags) (bot : CompiledBot) : CompiledBot := changes.foldl (writeTag readers editMode) bot

def writeMasks (masks : TagMasks) (bot : CompiledBot) : CompiledBot :=
  masks.foldl (fun bot entry => entry.2.foldl (writeMask readers editMode entry.1) bot) bot

def writeChanges (existing bot : CompiledBot) : CompiledBot :=
  writeMasks readers editMode existing.maskChanges (writeTags readers editMode existing.changes bot)

end MadeAgain

section Ran

variable {readers : Readers} {sortedIndex : List JsString → JsString → Nat}
  {editMode : BotSpace → RealtimeEditMode}

theorem updateTag_isNew (isNew : Bool) (bot : CompiledBot) (tag : JsString) (saved : value.copiable = value) :
    updateTag readers editMode isNew bot tag value = updateTag readers editMode false bot tag value := by
  have compiled : ∀ c, compileTag readers isNew c tag value = compileTag readers false c tag value := by
    intro c
    simp only [compileTag, storeTag, saved, ite_self]
  simp only [updateTag, compiled]

theorem ran_writes {A : Type} {id : JsString} {change : A → Change} {write : CompiledBot → A → CompiledBot}
    (items : List A)
    (each : ∀ (r : Runtime) bot, ∀ item ∈ items, r.bot id = some bot →
      (r.apply readers sortedIndex editMode (change item)).bot id = some (write bot item))
    (r : Runtime) (bot : CompiledBot) (found : r.bot id = some bot) :
    ∃ next, runAll (changeStep readers sortedIndex editMode) r (items.map change) = some next ∧
      next.bot id = some (items.foldl write bot) := by
  induction items generalizing r bot with
  | nil => exact ⟨r, rfl, found⟩
  | cons item rest ih =>
    have first := each r bot item List.mem_cons_self found
    exact ih (fun r bot item member => each r bot item (List.mem_cons_of_mem _ member)) _ _ first

theorem wrote (r : Runtime) (id other : JsString) (c : Compiling) :
    (r.write sortedIndex (.inState id) other c).bot id = some c.bot := by
  rw [Runtime.bot, Runtime.write]
  exact (lookup_assign id id c.bot r.compiledState).trans (if_pos rfl)

theorem apply_updateTag (r : Runtime) {id : JsString} (found : r.bot id = some bot)
    (change : JsString × TagValue) (saved : change.2.copiable = change.2) :
    (r.apply readers sortedIndex editMode (.updateTag (.inState id) change.1 change.2)).bot id =
      some (writeTag readers editMode bot change) := by
  have held : r.deref (.inState id) = some bot := found
  rw [Runtime.apply, withBot_found held, wrote, writeTag, updateTag_isNew _ bot change.1 saved]

theorem apply_updateTagMask (r : Runtime) {id : JsString} (found : r.bot id = some bot)
    (space : BotSpace) (mask : JsString × TagValue) :
    (r.apply readers sortedIndex editMode (.updateTagMask (.inState id) mask.1 [space] mask.2)).bot id =
      some (writeMask readers editMode space bot mask) := by
  have held : r.deref (.inState id) = some bot := found
  rw [Runtime.apply, withBot_found held, wrote, writeMask]

theorem addedFirst_eq {existing : CompiledBot} (pending : Pending existing) (r : Runtime) (bot : AuxRuntime.Bot) :
    addedFirst readers sortedIndex editMode r existing bot =
      some (writeChanges readers editMode existing (createdBot readers r bot)) := by
  let start := (r.drop bot.id).add readers sortedIndex bot
  have added : start.bot bot.id = some (createdBot readers r bot) := by
    have dropped : (r.drop bot.id).bot bot.id = none := (lookup_remove bot.id bot.id _).trans (if_pos rfl)
    refine (lookup_assign bot.id bot.id _ _).trans ((if_pos rfl).trans ?_)
    rw [dropped]
    rfl
  obtain ⟨tagged, ranTags, afterTags⟩ := ran_writes existing.changes
    (fun r bot change member found => @apply_updateTag bot readers sortedIndex editMode r _ found change
      (pending.1.saved change member)) start _ added
  obtain ⟨masked, ranMasks, afterMasks⟩ := ran_writes
    (existing.maskChanges.flatMap fun entry => entry.2.map fun mask => (entry.1, mask))
    (fun r bot change _ found => @apply_updateTagMask bot readers sortedIndex editMode r _ found change.1 change.2)
    tagged _ afterTags
  have ran : runAll (changeStep readers sortedIndex editMode) (r.drop bot.id)
      (.add bot :: madeAgain bot.id existing) = some masked := by
    rw [runAll_cons]
    change runAll (changeStep readers sortedIndex editMode) start (madeAgain bot.id existing) = some masked
    rw [madeAgain, runAll_append, ranTags]
    exact ranMasks
  rw [addedFirst, ran]
  refine afterMasks.trans (congrArg some ?_)
  rw [List.foldl_flatMap, writeChanges, writeMasks]
  simp only [List.foldl_map]
  rfl

end Ran

/-! ### What the changes leave -/

/-- A change is remembered by the script of the new bot. -/
def remember (changes : Tags) (change : JsString × TagValue) : Tags :=
  changeTag change.1 change.2.copiable changes

theorem changeTag_new (tag : JsString) (value : TagValue) (absent : lookup tag changes = none) :
    changeTag tag value changes = changes ++ [(tag, value)] := by
  have nothing : tagValue tag changes = .undefined := by rw [tagValue, absent]; rfl
  rw [changeTag, assign_new tag _ absent, nothing]
  cases value.edit <;> rfl

theorem remember_all (all : SavedTags changes) : changes.foldl remember [] = changes := by
  obtain ⟨distinct, saved⟩ := all
  have after : ∀ before : Tags, ((before ++ changes).map Prod.fst).Nodup →
      changes.foldl remember before = before ++ changes := by
    clear distinct
    induction changes with
    | nil => exact fun before _ => (List.append_nil before).symm
    | cons change rest ih =>
      intro before distinct
      have absent : lookup change.1 before = none := by
        rw [lookup_eq_none_iff]
        rw [List.map_append, List.map_cons, List.nodup_append] at distinct
        exact fun inside => distinct.2.2 _ inside _ List.mem_cons_self rfl
      have onward : before ++ change :: rest = (before ++ [change]) ++ rest := by simp
      rw [List.foldl_cons, remember, saved change List.mem_cons_self, changeTag_new _ _ absent, onward]
      rw [onward] at distinct
      exact ih (fun change later => saved change (List.mem_cons_of_mem _ later)) _ distinct
  exact after [] distinct

section Left

variable {readers : Readers} {editMode : BotSpace → RealtimeEditMode}

theorem unsent_writeTag (bot : CompiledBot) (change : JsString × TagValue) :
    unsent (writeTag readers editMode bot change) =
      (if editMode (getBotSpace bot.space) = .notEditable then bot.changes else remember bot.changes change,
        bot.maskChanges) := by
  have compiled : unsent (if editMode (getBotSpace bot.space) = .immediate then
      compileTag readers false { bot := bot, presence := [] } change.1 change.2
      else { bot := bot, presence := [] }).bot = unsent bot := by
    split
    · exact unsent_compileTag false _ change.1 change.2
    · rfl
  rw [unsent, unsent, Prod.mk.injEq] at compiled
  unfold writeTag updateTag
  simp only
  split
  · exact Prod.ext compiled.1 compiled.2
  · exact Prod.ext (congrArg (fun changes => remember changes change) compiled.1) compiled.2

theorem unsent_writeTags (changes : Tags) (bot : CompiledBot) : unsent (writeTags readers editMode changes bot) =
      (if editMode (getBotSpace bot.space) = .notEditable then bot.changes else changes.foldl remember bot.changes,
        bot.maskChanges) := by
  induction changes generalizing bot with
  | nil => exact Prod.ext (ite_self _).symm rfl
  | cons change rest ih =>
    have first := @unsent_writeTag readers editMode bot change
    rw [unsent, Prod.mk.injEq] at first
    have space : (writeTag readers editMode bot change).space = bot.space :=
      (updateTag_source false bot change.1 change.2).space
    rw [writeTags, List.foldl_cons]
    refine (ih _).trans ?_
    rw [space, first.1, first.2]
    split <;> rfl

theorem unsent_writeMask (space : BotSpace) (bot : CompiledBot) (mask : JsString × TagValue) :
    unsent (writeMask readers editMode space bot mask) =
      (bot.changes, assign space (remember (maskTags space bot.maskChanges) mask) bot.maskChanges) := by
  have compiled : unsent (if [space].any fun space => editMode space = .immediate then
      compileTagOrMask readers { bot := storeMasks editMode bot mask.1 [space] mask.2, presence := [] } mask.1
      else { bot := storeMasks editMode bot mask.1 [space] mask.2, presence := [] }).bot = unsent bot := by
    split
    · exact (unsent_compileTagOrMask _ mask.1).trans (unsent_storeMasks bot mask.1 [space] mask.2)
    · exact unsent_storeMasks bot mask.1 [space] mask.2
  rw [unsent, unsent, Prod.mk.injEq] at compiled
  refine Prod.ext compiled.1 ?_
  exact congrArg (fun changes => assign space (remember (maskTags space changes) mask) changes) compiled.2

theorem changes_writeMasks (masks : TagMasks) (bot : CompiledBot) :
    (writeMasks readers editMode masks bot).changes = bot.changes := by
  have one : ∀ space bot mask, (writeMask readers editMode space bot mask).changes = bot.changes :=
    fun space bot mask => congrArg Prod.fst (unsent_writeMask space bot mask)
  exact foldl_kept CompiledBot.changes
    (fun bot entry => foldl_kept CompiledBot.changes (one entry.1) entry.2 bot) masks bot

theorem maskChanges_inSpace (space other : BotSpace) (masks : Tags) (bot : CompiledBot) :
    maskTags other (masks.foldl (writeMask readers editMode space) bot).maskChanges =
      if other = space then masks.foldl remember (maskTags other bot.maskChanges)
      else maskTags other bot.maskChanges := by
  induction masks generalizing bot with
  | nil => exact (ite_self _).symm
  | cons mask rest ih =>
    have first : (writeMask readers editMode space bot mask).maskChanges = _ :=
      congrArg Prod.snd (unsent_writeMask space bot mask)
    rw [List.foldl_cons, ih, first, maskTags_assign]
    split
    · next same => rw [same]; rfl
    · rfl

theorem maskChanges_writeMasks (all : SavedMasks masks) (fresh : bot.maskChanges = []) (space : BotSpace) :
    maskTags space (writeMasks readers editMode masks bot).maskChanges = maskTags space masks := by
  have each := (@cells_foldl _ _ _ _ _ (fun _ => True) _ (fun bot space => maskTags space bot.maskChanges)
    (fun _ tags before => tags.foldl remember before) masks all.distinct (fun _ _ _ _ => trivial)
    (fun bot entry _ space _ => @maskChanges_inSpace readers editMode entry.1 space entry.2 bot) bot trivial).2 space
  refine each.trans ?_
  have nothing : maskTags space bot.maskChanges = [] := by rw [fresh]; rfl
  rw [nothing, maskTags]
  cases found : lookup space masks with
  | none => rfl
  | some tags => exact remember_all (all.saved _ (mem_of_lookup space tags masks found))

theorem cell_writeTags (all : SavedTags changes) (start : CompiledBot) :
    SameSource (writeTags readers editMode changes start) start ∧
      ∀ tag, cellOf compiledIn (writeTags readers editMode changes start) tag =
        (lookup tag changes).elim (cellOf compiledIn start tag)
          ((cellOf compiledIn start tag).putTag (compiledOf readers start tag)
            (isAtOnce editMode (getBotSpace start.space))) :=
  @cells_foldl _ _ _ _ _ (SameSource · start) _ (cellOf compiledIn)
    (fun tag value cell => cell.putTag (compiledOf readers start tag)
      (isAtOnce editMode (getBotSpace start.space)) value)
    changes all.distinct
    (fun bot change _ same => (updateTag_source false bot change.1 change.2).trans same)
    (fun _ change member tag same => cell_updateTag false same change.1 (all.saved change member) tag)
    start (.refl start)

theorem cell_inSpace {masks : Tags} (distinct : (masks.map Prod.fst).Nodup) {bot start : CompiledBot}
    (same : SameSource bot start) (space : BotSpace) :
    SameSource (masks.foldl (writeMask readers editMode space) bot) start ∧
      ∀ tag, cellOf compiledIn (masks.foldl (writeMask readers editMode space) bot) tag =
        (lookup tag masks).elim (cellOf compiledIn bot tag)
          ((cellOf compiledIn bot tag).putMask (compiledOf readers start tag) (isAtOnce editMode) space) :=
  @cells_foldl _ _ _ _ _ (SameSource · start) _ (cellOf compiledIn)
    (fun tag value cell => cell.putMask (compiledOf readers start tag) (isAtOnce editMode) space value)
    masks distinct
    (fun bot mask _ same => (updateTagMask_source bot mask.1 [space] mask.2).trans same)
    (fun _ mask _ tag same => cell_updateTagMask same mask.1 space mask.2 tag)
    bot same

theorem cell_writeMasks (all : ∀ entry ∈ masks, SavedTags entry.2) {bot start : CompiledBot}
    (same : SameSource bot start) (tag : JsString) :
    cellOf compiledIn (writeMasks readers editMode masks bot) tag =
      (cellOf compiledIn bot tag).putMasks (compiledOf readers start tag) (isAtOnce editMode)
        (changedMasks masks tag) := by
  induction masks generalizing bot with
  | nil => rfl
  | cons entry rest ih =>
    obtain ⟨source, inSpace⟩ := @cell_inSpace readers editMode entry.2 (all entry List.mem_cons_self).distinct
      bot start same entry.1
    rw [writeMasks, List.foldl_cons]
    refine (ih (fun entry later => all entry (List.mem_cons_of_mem _ later)) source).trans ?_
    have first : changedMasks (entry :: rest) tag =
        ((lookup tag entry.2).map (entry.1, ·)).toList ++ changedMasks rest tag := by
      rw [changedMasks, List.filterMap_cons]
      cases lookup tag entry.2 <;> rfl
    rw [inSpace, first]
    cases lookup tag entry.2 <;> rfl

end Left

/-! ### The replaced bot -/

section Replaced

def heldMask (bot : CompiledBot) (space : BotSpace) (tag : JsString) : Option TagValue × Option TagValue :=
  (lookup tag (maskTags space bot.masks), lookup tag (maskTags space bot.maskChanges))

def heldTag (bot : CompiledBot) (tag : JsString) : Option TagValue × Option TagValue × Option TagValue :=
  (lookup tag bot.tags, lookup tag bot.values, lookup tag bot.changes)

theorem heldTag_copied (distinct : (changes.map Prod.fst).Nodup) (newBot : CompiledBot)
    (tag : JsString) : heldTag (changes.foldl copyChange newBot) tag =
      (lookup tag changes).elim (heldTag newBot tag) fun value => (some value, some value, some value) := by
  have one : ∀ bot (change : JsString × TagValue) other, heldTag (copyChange bot change) other =
      if other = change.1 then (some change.2, some change.2, some change.2) else heldTag bot other := by
    intro bot change other
    simp only [heldTag, copyChange, lookup_assign]
    split <;> rfl
  exact (@cells_foldl _ _ _ _ _ (fun _ => True) _ heldTag (fun _ value _ => (some value, some value, some value))
    changes distinct (fun _ _ _ _ => trivial) (fun bot change _ other _ => one bot change other) newBot trivial).2 tag

theorem heldMask_copyMask (space other : BotSpace) (bot : CompiledBot) (mask : JsString × TagValue)
    (tag : JsString) : heldMask (copyMask space bot mask) other tag =
      if tag = mask.1 then if other = space then (some mask.2, some mask.2) else heldMask bot other tag
      else heldMask bot other tag := by
  simp only [heldMask, copyMask, lookup_setMask]
  by_cases isTag : tag = mask.1
  · by_cases same : other = space
    · simp only [isTag, same, and_self, if_true]
    · simp only [isTag, same, false_and, if_true, if_false]
  · simp only [isTag, and_false, if_false]

theorem heldMask_copyMasks (bot : CompiledBot) (space other : BotSpace) {masks : Option Tags}
    (distinct : ((masks.getD []).map Prod.fst).Nodup) (tag : JsString) :
    heldMask (copyMasks bot space masks) other tag =
      if other = space then
        (lookup tag (masks.getD [])).elim (heldMask bot other tag) fun value => (some value, some value)
      else heldMask bot other tag := by
  cases masks with
  | none => exact (ite_self _).symm
  | some masks =>
    let made := { bot with maskChanges := assign space (maskTags space bot.maskChanges) bot.maskChanges }
    have start : heldMask made other tag = heldMask bot other tag := by
      have changes : maskTags other made.maskChanges = maskTags other bot.maskChanges := by
        rw [maskTags_assign]
        split
        · next same => rw [same]
        · rfl
      rw [heldMask, changes]
      rfl
    have copied := (@cells_foldl _ _ _ _ _ (fun _ => True) _ (fun bot tag => heldMask bot other tag)
      (fun _ value before => if other = space then (some value, some value) else before) masks distinct
      (fun _ _ _ _ => trivial) (fun bot mask _ tag _ => heldMask_copyMask space other bot mask tag)
      made trivial).2 tag
    refine copied.trans ?_
    rw [start, Option.getD_some]
    cases lookup tag masks with
    | none => exact (ite_self _).symm
    | some value => rfl

theorem heldMask_spaces {existing : CompiledBot} (all : SavedMasks existing.maskChanges) (spaces : List BotSpace)
    (bot : CompiledBot) (space : BotSpace) (tag : JsString) :
    heldMask (spaces.foldl (fun bot space => copyMasks bot space (lookup space existing.maskChanges)) bot) space tag =
      if space ∈ spaces then
        (lookup tag (maskTags space existing.maskChanges)).elim (heldMask bot space tag) fun value =>
          (some value, some value)
      else heldMask bot space tag := by
  induction spaces generalizing bot with
  | nil => exact (if_neg List.not_mem_nil).symm
  | cons first rest ih =>
    have one := heldMask_copyMasks bot first space (savedTags_maskTags all first).distinct tag
    rw [List.foldl_cons, ih, one]
    by_cases same : space = first
    · subst same
      rw [if_pos rfl, if_pos List.mem_cons_self, maskTags]
      cases lookup tag ((lookup space existing.maskChanges).getD []) with
      | none => exact ite_self _
      | some value => exact ite_self _
    · simp only [List.mem_cons, same, false_or, if_false]

variable {existing : CompiledBot} (pending : Pending existing) (newBot : CompiledBot)
include pending

theorem heldTag_replaceBot (tag : JsString) : heldTag (replaceBot existing newBot) tag =
    (lookup tag existing.changes).elim (heldTag newBot tag) fun value => (some value, some value, some value) := by
  have masksApart : heldTag (replaceBot existing newBot) tag =
      heldTag (existing.changes.foldl copyChange newBot) tag := by
    have one : ∀ space bot mask, heldTag (copyMask space bot mask) tag = heldTag bot tag := fun _ _ _ => rfl
    refine foldl_kept (heldTag · tag) (fun bot space => ?_) tagMaskSpacePriorities _
    cases lookup space existing.maskChanges with
    | none => rfl
    | some masks => exact foldl_kept (heldTag · tag) (one space) masks _
  exact masksApart.trans (heldTag_copied pending.1.distinct newBot tag)

theorem heldMask_replaceBot (space : BotSpace) (tag : JsString) : heldMask (replaceBot existing newBot) space tag =
      if space ∈ tagMaskSpacePriorities then
        (lookup tag (maskTags space existing.maskChanges)).elim (heldMask newBot space tag) fun value =>
          (some value, some value)
      else heldMask newBot space tag := by
  have one : ∀ bot change, heldMask (copyChange bot change) space tag = heldMask bot space tag := fun _ _ => rfl
  have tagsApart : heldMask (existing.changes.foldl copyChange newBot) space tag = heldMask newBot space tag :=
    foldl_kept (heldMask · space tag) one existing.changes newBot
  rw [replaceBot, heldMask_spaces pending.2, tagsApart]

end Replaced

/-! ### The changes of one tag -/

theorem edit_applyTagEdit (value : TagValue) (edit : Json) : (value.applyTagEdit edit).edit = none := by
  rw [TagValue.applyTagEdit, TagValue.edit]
  rcases TagEdit.applyTagEdit_text value.edited ((TagEdit.operations edit).getD []) with null | ⟨text, isText⟩
  · rw [null]
    rfl
  · rw [isText]
    rfl

/-- An edit is never stored as it is. -/
theorem written_eq_iff (value before : TagValue) : written value before = value ↔ value.edit = none := by
  rw [written]
  cases isEdit : value.edit with
  | none => exact ⟨fun _ => rfl, fun _ => rfl⟩
  | some edit =>
    refine ⟨fun same => ?_, fun impossible => (by cases impossible)⟩
    change before.applyTagEdit edit = value at same
    rw [← same, edit_applyTagEdit] at isEdit
    cases isEdit

theorem shown_eq_iff (value : TagValue) : shown value = some value ↔ value.hasValue = true := by
  rw [shown]
  cases value.hasValue <;> simp

theorem putTag_kept {X : Type} (compile : TagValue → X) (cell : Cell X) (atOnce : Bool) (value : TagValue) :
    some value = (cell.putTag compile atOnce value).tag ↔
      if atOnce = true ∧ cell.firstMask = none then value.edit = none ∧ value.hasValue = true
      else cell.tag = some value := by
  simp only [Cell.putTag, Bool.and_eq_true, Option.isNone_iff_eq_none]
  by_cases now : atOnce = true ∧ cell.firstMask = none
  · rw [if_pos now, if_pos now]
    cases isEdit : value.edit with
    | some edit =>
      have edited := written_eq_iff value cell.tagValue
      rw [isEdit] at edited
      simp only [Option.isSome_some, if_true, some.injEq, reduceCtorEq, false_and, iff_false]
      exact fun same => by cases edited.mp same.symm
    | none =>
      rw [(written_eq_iff value cell.tagValue).mpr isEdit, eq_comm]
      simp only [Option.isSome_none, Bool.false_eq_true, if_false, shown_eq_iff, true_and]
  · rw [if_neg now, if_neg now]
    exact eq_comm

section OneTag

variable {editMode : BotSpace → RealtimeEditMode} {existing newBot : CompiledBot}

theorem lookup_changedMasks (distinct : (masks.map Prod.fst).Nodup) (tag : JsString)
    (space : BotSpace) : lookup space (changedMasks masks tag) = lookup tag (maskTags space masks) := by
  induction masks with
  | nil => rfl
  | cons entry rest ih =>
    rw [List.map_cons, List.nodup_cons] at distinct
    have later := ih distinct.2
    rw [changedMasks, List.filterMap_cons, maskTags, lookup]
    by_cases same : space = entry.1
    · have absent : lookup space (changedMasks rest tag) = none := by
        rw [later, maskTags, (lookup_eq_none_iff space rest).mpr (same ▸ distinct.1)]
        rfl
      rw [if_pos same, Option.getD_some]
      cases lookup tag entry.2 with
      | none => exact absent
      | some value => exact if_pos same
    · rw [if_neg same]
      cases lookup tag entry.2 with
      | none => exact later
      | some value => exact (if_neg same).trans later

theorem changedMasks_distinct (distinct : (masks.map Prod.fst).Nodup) (tag : JsString) :
    ((changedMasks masks tag).map Prod.fst).Nodup := by
  have inOrder : ((changedMasks masks tag).map Prod.fst).Sublist (masks.map Prod.fst) := by
    clear distinct
    induction masks with
    | nil => exact .slnil
    | cons entry rest ih =>
      rw [changedMasks, List.filterMap_cons, List.map_cons]
      cases lookup tag entry.2 with
      | none => exact ih.cons _
      | some value => exact ih.cons_cons _
  exact distinct.sublist inOrder

theorem tagKept_iff (tag : JsString) :
    (lookup tag existing.changes).or (lookup tag newBot.tags) = (lastCell editMode existing newBot tag).tag ↔
      TagKept editMode existing newBot tag := by
  rw [lastCell, Cell.putMasks_tag, TagKept]
  cases lookup tag existing.changes with
  | none => exact ⟨fun _ _ impossible => (by cases impossible), fun _ => rfl⟩
  | some value =>
    simp only [Option.some_or, Option.elim_some, some.injEq, forall_eq']
    exact putTag_kept id (cellOf visible newBot tag) _ value

theorem lastCell_masks (distinct : (existing.maskChanges.map Prod.fst).Nodup) (tag : JsString) (space : BotSpace) :
    (lastCell editMode existing newBot tag).masks space =
      (lookup tag (maskTags space existing.maskChanges)).elim (lookup tag (maskTags space newBot.masks)) fun value =>
        if isAtOnce editMode space then
          some (written value ((lookup tag (maskTags space newBot.masks)).getD .undefined))
        else lookup tag (maskTags space newBot.masks) := by
  have tagApart : ((lookup tag existing.changes).elim (cellOf visible newBot tag)
      ((cellOf visible newBot tag).putTag id (isAtOnce editMode (getBotSpace newBot.space)))).masks =
      (cellOf visible newBot tag).masks := by
    cases lookup tag existing.changes with
    | none => rfl
    | some value => exact Cell.putTag_masks id _ _ value
  rw [lastCell, Cell.putMasks_masks _ _ _ (changedMasks_distinct distinct tag), lookup_changedMasks distinct, tagApart]
  rfl

theorem maskKept_iff (distinct : (existing.maskChanges.map Prod.fst).Nodup) (tag : JsString) :
    (∀ space, (if space ∈ tagMaskSpacePriorities then
        (lookup tag (maskTags space existing.maskChanges)).elim (lookup tag (maskTags space newBot.masks), none)
          fun value => (some value, some value)
        else (lookup tag (maskTags space newBot.masks), none)) =
      ((lastCell editMode existing newBot tag).masks space, lookup tag (maskTags space existing.maskChanges))) ↔
      MasksKept editMode existing newBot tag := by
  rw [MasksKept]
  refine forall_congr' fun space => ?_
  rw [lastCell_masks distinct]
  cases lookup tag (maskTags space existing.maskChanges) with
  | none => simp
  | some value =>
    simp only [Option.elim_some, some.injEq, forall_eq']
    by_cases among : space ∈ tagMaskSpacePriorities
    · rw [if_pos among, Prod.mk.injEq]
      simp only [among, and_true, true_and]
      split
      · rw [some.injEq, eq_comm, written_eq_iff]
      · exact eq_comm
    · simp only [among, if_false, false_and, Prod.mk.injEq, reduceCtorEq, and_false]

end OneTag

/-! ### The two bots -/

section TwoBots

variable {readers : Readers} {editMode : BotSpace → RealtimeEditMode} (r : Runtime) (bot : AuxRuntime.Bot)
  {existing : CompiledBot}

theorem created_copied : SameSource (createdBot readers r bot) (copiedBot r bot) := created_source _ bot

theorem compiledOf_congr {bot other : CompiledBot} (same : SameSource bot other) (tag : JsString) :
    compiledOf readers bot tag = compiledOf readers other tag := by
  funext value
  rw [compiledOf, compiledOf, compileValue_congr same]

theorem cell_created (tag : JsString) : cellOf compiledIn (createdBot readers r bot) tag =
    (cellOf visible (copiedBot r bot) tag).map (compiledOf readers (copiedBot r bot) tag) := by
  have tags : (createdBot readers r bot).tags = (copiedBot r bot).tags := created_tags _ bot
  have masks : (createdBot readers r bot).masks = (copiedBot r bot).masks := created_masks _ bot
  have shows : compiledIn (createdBot readers r bot) tag =
      compiledOf readers (copiedBot r bot) tag (visible (copiedBot r bot) tag) := by
    rw [← visible_congr tags masks, ← compiledOf_congr (created_copied r bot)]
    exact Prod.ext (created_values _ bot tag) (created_listeners _ bot tag)
  rw [cellOf, tags, masks, shows]
  rfl

theorem cell_madeAgain (pending : Pending existing) (tag : JsString) :
    cellOf compiledIn (writeChanges readers editMode existing (createdBot readers r bot)) tag =
      (lastCell editMode existing (copiedBot r bot) tag).map (compiledOf readers (copiedBot r bot) tag) := by
  obtain ⟨source, tags⟩ := @cell_writeTags existing.changes readers editMode pending.1 (createdBot readers r bot)
  have masks : ∀ entry ∈ existing.maskChanges, SavedTags entry.2 := pending.2.saved
  rw [writeChanges, cell_writeMasks masks source, tags, compiledOf_congr (created_copied r bot), cell_created,
    (@created_copied readers r bot).space, lastCell, Cell.map_putMasks]
  cases lookup tag existing.changes with
  | none => rfl
  | some value =>
    rw [Option.elim_some, Option.elim_some, Cell.map_putTag]
    rfl

end TwoBots

section Fields

variable {readers : Readers} {editMode : BotSpace → RealtimeEditMode} (r : Runtime) (bot : AuxRuntime.Bot)
  {existing : CompiledBot} (pending : Pending existing)
include pending

theorem sameTags_iff : (∀ tag, lookup tag (replaceBot existing (createdBot readers r bot)).tags =
      lookup tag (writeChanges readers editMode existing (createdBot readers r bot)).tags) ↔
    ∀ tag, TagKept editMode existing (copiedBot r bot) tag := by
  refine forall_congr' fun tag => ?_
  have kept : lookup tag (replaceBot existing (createdBot readers r bot)).tags = _ :=
    congrArg Prod.fst (heldTag_replaceBot pending (createdBot readers r bot) tag)
  have made : lookup tag (writeChanges readers editMode existing (createdBot readers r bot)).tags =
      (lastCell editMode existing (copiedBot r bot) tag).tag :=
    congrArg Cell.tag (cell_madeAgain r bot pending tag)
  have copied : lookup tag (createdBot readers r bot).tags = lookup tag (copiedBot r bot).tags :=
    congrArg Cell.tag (cell_created r bot tag)
  rw [← tagKept_iff, ← made, kept, ← copied]
  cases lookup tag existing.changes <;> rfl

theorem sameMasks_iff : (∀ tag space, heldMask (replaceBot existing (createdBot readers r bot)) space tag =
      heldMask (writeChanges readers editMode existing (createdBot readers r bot)) space tag) ↔
    ∀ tag, MasksKept editMode existing (copiedBot r bot) tag := by
  refine forall_congr' fun tag => ?_
  rw [← maskKept_iff pending.2.distinct]
  refine forall_congr' fun space => ?_
  have created : unsent (createdBot readers r bot) = ([], []) := unsent_created _ bot
  have noChanges : (createdBot readers r bot).maskChanges = [] := congrArg Prod.snd created
  have tagged : (writeTags readers editMode existing.changes (createdBot readers r bot)).maskChanges = [] :=
    (congrArg Prod.snd (unsent_writeTags existing.changes _)).trans noChanges
  have masks : lookup tag (maskTags space (writeChanges readers editMode existing (createdBot readers r bot)).masks) =
      (lastCell editMode existing (copiedBot r bot) tag).masks space :=
    congrFun (congrArg Cell.masks (cell_madeAgain r bot pending tag)) space
  have changes := @maskChanges_writeMasks _ existing.maskChanges readers editMode pending.2 tagged space
  have before : heldMask (createdBot readers r bot) space tag =
      (lookup tag (maskTags space (copiedBot r bot).masks), none) := by
    have copied := congrFun (congrArg Cell.masks (@cell_created readers r bot tag)) space
    exact Prod.ext copied (by rw [heldMask, noChanges]; rfl)
  rw [heldMask_replaceBot pending, before, ← masks, ← changes]
  rfl

theorem sameShown_iff : (∀ tag, compiledIn (replaceBot existing (createdBot readers r bot)) tag =
      compiledIn (writeChanges readers editMode existing (createdBot readers r bot)) tag) ↔
    ∀ tag, ShowsKept editMode readers existing (copiedBot r bot) tag := by
  refine forall_congr' fun tag => ?_
  have made : compiledIn (writeChanges readers editMode existing (createdBot readers r bot)) tag =
      compiledOf readers (copiedBot r bot) tag (lastCompiled editMode existing (copiedBot r bot) tag) :=
    congrArg Cell.shows (cell_madeAgain r bot pending tag)
  have created : compiledIn (createdBot readers r bot) tag =
      compiledOf readers (copiedBot r bot) tag (visible (copiedBot r bot) tag) :=
    congrArg Cell.shows (cell_created r bot tag)
  have kept : compiledIn (replaceBot existing (createdBot readers r bot)) tag =
      ((lookup tag existing.changes).or (compiledIn (createdBot readers r bot) tag).1,
        (compiledIn (createdBot readers r bot) tag).2) := by
    have values := congrArg (fun held => held.2.1) (heldTag_replaceBot pending (createdBot readers r bot) tag)
    refine Prod.ext (values.trans ?_) (congrArg (lookup tag) (replaceBot_same existing _).1)
    cases lookup tag existing.changes <;> rfl
  rw [ShowsKept, ← made, kept, created]
  exact eq_comm

theorem sameChanges_iff : (∀ tag, lookup tag (replaceBot existing (createdBot readers r bot)).changes =
      lookup tag (writeChanges readers editMode existing (createdBot readers r bot)).changes) ↔
    (editMode (getBotSpace (copiedBot r bot).space) = .notEditable → existing.changes = []) := by
  have created : unsent (createdBot readers r bot) = ([], []) := unsent_created _ bot
  have noChanges : (createdBot readers r bot).changes = [] := congrArg Prod.fst created
  have made : (writeTags readers editMode existing.changes (createdBot readers r bot)).changes =
      if editMode (getBotSpace (copiedBot r bot).space) = .notEditable then [] else existing.changes := by
    have left := congrArg Prod.fst (@unsent_writeTags readers editMode existing.changes (createdBot readers r bot))
    have all : existing.changes.foldl remember [] = existing.changes := remember_all pending.1
    rw [noChanges, all, (created_copied r bot).space] at left
    exact left
  have kept : ∀ tag, lookup tag (replaceBot existing (createdBot readers r bot)).changes =
      lookup tag existing.changes := by
    intro tag
    have changes := congrArg (fun held => held.2.2) (heldTag_replaceBot pending (createdBot readers r bot) tag)
    refine changes.trans ?_
    cases lookup tag existing.changes with
    | none => exact congrArg (lookup tag) noChanges
    | some value => rfl
  rw [writeChanges, changes_writeMasks, made]
  simp only [kept]
  by_cases closed : editMode (getBotSpace (copiedBot r bot).space) = .notEditable
  · rw [if_pos closed, eq_nil_iff]
    exact ⟨fun all _ => all, fun all => all closed⟩
  · rw [if_neg closed]
    exact ⟨fun _ impossible => absurd impossible closed, fun _ _ => rfl⟩

theorem sameBot_iff : SameBot (replaceBot existing (createdBot readers r bot))
      (writeChanges readers editMode existing (createdBot readers r bot)) ↔
    Kept editMode readers existing (copiedBot r bot) := by
  constructor
  · intro same
    exact {
      editable := (sameChanges_iff r bot pending).mp same.changes
      tags := (sameTags_iff r bot pending).mp same.tags
      masks := (sameMasks_iff r bot pending).mp fun tag space =>
        Prod.ext (same.masks space tag) (same.maskChanges space tag)
      shows := (sameShown_iff r bot pending).mp fun tag => Prod.ext (same.values tag) (same.listeners tag) }
  · intro kept
    have masks := (@sameMasks_iff readers editMode r bot existing pending).mpr kept.masks
    have shows := (sameShown_iff r bot pending).mpr kept.shows
    exact {
      tags := (sameTags_iff r bot pending).mpr kept.tags
      masks := fun space tag => congrArg Prod.fst (masks tag space)
      values := fun tag => congrArg Prod.fst (shows tag)
      listeners := fun tag => congrArg Prod.snd (shows tag)
      changes := (sameChanges_iff r bot pending).mpr kept.editable
      maskChanges := fun space tag => congrArg Prod.snd (masks tag space) }

end Fields

/-- In every runtime that a run reaches, the bot that takes the place of a bot with unsent changes is the one
that is added first and then changed by the script exactly when the new bot keeps the changes. -/
theorem replaced_as_made_iff (readers : Readers) (sortedIndex : List JsString → JsString → Nat)
    (editMode : BotSpace → RealtimeEditMode) (changes : List Change) (r : Runtime)
    (ran : runAll (changeStep readers sortedIndex editMode) .empty changes = some r) (bot : AuxRuntime.Bot)
    (existing : CompiledBot) (present : r.bot bot.id = some existing) :
    ReplacedAsMade readers sortedIndex editMode r existing bot ↔
      Kept editMode readers existing (copiedBot r bot) := by
  have all : AllPending r := (reaches_of_runAll changes (allAllowed_true _ _) ran).invariant AllPending
    allPending_empty fun state change next inv _ stepped => by
      rw [← Option.some.inj stepped]
      exact allPending_apply inv change
  have pending := all.inState bot.id existing present
  have replaced : ((callStep readers sortedIndex editMode r (adds bot)).bind fun next => next.bot bot.id) =
      some (replaceBot existing (createdBot readers r bot)) := by
    refine (lookup_assign bot.id bot.id _ r.compiledState).trans ((if_pos rfl).trans ?_)
    rw [present]
    rfl
  rw [← sameBot_iff r bot pending, ReplacedAsMade, addedFirst_eq pending, replaced]
  simp only [Option.some.injEq]
  constructor
  · rintro ⟨kept, made, rfl, rfl, same⟩
    exact same
  · exact fun same => ⟨_, _, rfl, rfl, same⟩

/-- Values that are compiled to themselves are kept where no mask hides the tag and nothing listens to it. -/
theorem kept_of_plain {readers : Readers} {editMode : BotSpace → RealtimeEditMode} {existing newBot : CompiledBot}
    (atOnce : editMode (getBotSpace newBot.space) = .immediate) (noMasks : existing.maskChanges = [])
    (each : ∀ tag value, lookup tag existing.changes = some value → value.edit = none ∧ value.hasValue = true ∧
      firstMask tag newBot.masks = none ∧ compiledOf readers newBot tag value = (some value, none) ∧
      (compiledOf readers newBot tag (visible newBot tag)).2 = none) :
    Kept editMode readers existing newBot where
  editable closed := by
    rw [atOnce] at closed
    cases closed
  tags tag value isChange := by
    obtain ⟨noEdit, full, noMask, _⟩ := each tag value isChange
    rw [if_pos ⟨decide_eq_true atOnce, noMask⟩]
    exact ⟨noEdit, full⟩
  masks tag space value isChange := by
    rw [noMasks] at isChange
    cases isChange
  shows tag := by
    rw [ShowsKept, lastCompiled, lastCell, noMasks]
    cases isChange : lookup tag existing.changes with
    | none => rfl
    | some value =>
      obtain ⟨noEdit, full, noMask, compiled, silent⟩ := each tag value isChange
      have put : (isAtOnce editMode (getBotSpace newBot.space) &&
          (cellOf visible newBot tag).firstMask.isNone) = true := by
        rw [isAtOnce, atOnce, firstMask_cellOf, noMask]
        rfl
      have shows : ((cellOf visible newBot tag).putTag id
          (isAtOnce editMode (getBotSpace newBot.space)) value).shows = value := by
        rw [Cell.putTag, if_pos put]
        exact (written_eq_iff value _).mpr noEdit
      exact (congrArg _ shows).trans (compiled.trans (Prod.ext rfl silent.symm))

/-! ### A bot without tags -/

def emptyBot : AuxRuntime.Bot := { id := [98], space := none, tags := [], masks := [], signatures := [] }

def changedBy (change : Change) : Runtime :=
  (Runtime.empty.add plainReaders countBelow emptyBot).apply plainReaders countBelow
    (fun _ => .immediate) change

/-- The tag `x` becomes a number. -/
theorem number_kept : ∃ existing, (changedBy (.updateTag (.inState [98]) [120] (.json (.integer 5)))).bot [98] =
      some existing ∧ existing.changes = [([120], .json (.integer 5))] ∧
    ReplacedAsMade plainReaders countBelow (fun _ => .immediate)
      (changedBy (.updateTag (.inState [98]) [120] (.json (.integer 5)))) existing emptyBot := by
  refine ⟨_, rfl, rfl, (replaced_as_made_iff plainReaders countBelow (fun _ => .immediate)
    [.add emptyBot, .updateTag (.inState [98]) [120] (.json (.integer 5))] _ rfl emptyBot _ rfl).mpr ?_⟩
  refine kept_of_plain rfl rfl fun tag value isChange => ?_
  change (if tag = [120] then some (.json (.integer 5)) else none) = some value at isChange
  split at isChange
  · rw [← Option.some.inj isChange]
    exact ⟨rfl, rfl, rfl, rfl, rfl⟩
  · cases isChange

/-- The tag `x` becomes the text of a number, or gets a mask. -/
theorem number_text_and_mask_lost :
    (∃ existing, (changedBy (.updateTag (.inState [98]) [120] (.json (.string [53])))).bot [98] = some existing ∧
      ¬ReplacedAsMade plainReaders countBelow (fun _ => .immediate)
        (changedBy (.updateTag (.inState [98]) [120] (.json (.string [53])))) existing emptyBot) ∧
    ∃ existing, (changedBy (.updateTagMask (.inState [98]) [120] [.tempLocal] (.json (.integer 7)))).bot [98] =
      some existing ∧
      ¬ReplacedAsMade plainReaders countBelow (fun _ => .immediate)
        (changedBy (.updateTagMask (.inState [98]) [120] [.tempLocal] (.json (.integer 7)))) existing emptyBot := by
  constructor
  · refine ⟨_, rfl, ?_⟩
    rintro ⟨kept, made, isKept, isMade, same⟩
    have values := same.values [120]
    rw [← Option.some.inj isKept, ← Option.some.inj isMade] at values
    cases values
  · refine ⟨_, rfl, ?_⟩
    rintro ⟨kept, made, isKept, isMade, same⟩
    have values := same.values [120]
    rw [← Option.some.inj isKept, ← Option.some.inj isMade] at values
    cases values

end CasualOS.BotReplacement
