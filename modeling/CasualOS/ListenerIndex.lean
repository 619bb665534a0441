import CasualOS.RuntimeState

/-! When the listener index lists exactly the bots that have a listener. -/

namespace CasualOS.AuxRuntime

open OrderedMap SortedLists Run

def listens (bot : CompiledBot) (tag : JsString) : Bool := (lookup tag bot.listeners).isSome

namespace Runtime

def live (r : Runtime) (id tag : JsString) : Bool := (r.bot id).any (listens · tag)

end Runtime

/-- Each list is strictly increasing and has the ids of the bots with a listener for its tag. -/
structure Exact (r : Runtime) : Prop where
  sorted : ∀ tag, (getBotIdsWithListener r.listenerMap tag).Pairwise (· < ·)
  listed : ∀ tag id, id ∈ getBotIdsWithListener r.listenerMap tag ↔
    ∃ bot, r.bot id = some bot ∧ listens bot tag = true

/-! ### Conditions -/

section Conditions

variable (readers : Readers) (editMode : BotSpace → RealtimeEditMode)

/-- Whether a bot will have a listener when it is added with the masks that were buffered for it. -/
def willListen (existing : TagMasks) (bot : Bot) (tag : JsString) : Bool :=
  let copied := copyBot bot (mergeMasks existing bot.masks)
  (compileValue readers copied tag (visible copied tag)).2.isSome

def compiledByTag (bot : CompiledBot) (tag : JsString) (value : TagValue) : Option TagValue :=
  if editMode (getBotSpace bot.space) = .immediate ∧ firstMask tag bot.masks = none then
    some (match value.edit with
      | some edit => (tagValue tag bot.tags).applyTagEdit edit
      | none => value)
  else none

def compiledByMask (bot : CompiledBot) (tag : JsString) (spaces : List BotSpace) (value : TagValue) :
    Option TagValue :=
  let stored := storeMasks editMode bot tag spaces value
  if (spaces.any fun space => editMode space = .immediate) && hasVisible stored tag then some (visible stored tag)
  else none

/-- Where the write gives a dropped bot a listener or takes one from it, the runtime's bot of the same id
has one, or has none. -/
def Agrees (r : Runtime) (bot : CompiledBot) (tag : JsString) (compiled : Option TagValue) : Prop :=
  ∀ value, compiled = some value →
    (compileValue readers bot tag value).2.isSome = true ∨ listens bot tag = true →
    r.live bot.id tag = (compileValue readers bot tag value).2.isSome

/-- Where the reference leads to a bot that the runtime has dropped. -/
def OnDropped (r : Runtime) (ref : BotRef) (P : CompiledBot → Prop) : Prop :=
  match ref with
  | .inState _ => True
  | .gone index => ∀ bot, r.gone[index]? = some bot → P bot

def Allowed (r : Runtime) : Change → Prop
  | .add bot => ∀ tag, r.live bot.id tag = true →
      willListen readers ((lookup bot.id r.existingMasks).getD []) bot tag = true
  | .remove id => ∀ tag, r.live id tag = false
  | .updateTag ref tag value =>
    OnDropped r ref fun bot => Agrees readers r bot tag (compiledByTag editMode bot tag value)
  | .updateTagMask ref tag spaces value =>
    OnDropped r ref fun bot => Agrees readers r bot tag (compiledByMask editMode bot tag spaces value)
  | .createBot bot => editMode (getBotSpace bot.space) = .immediate → ∀ tag, r.live bot.id tag = true →
      willListen readers [] bot tag = true
  | .destroyBot ref => OnDropped r ref fun bot => editMode (getBotSpace bot.space) = .immediate →
      ∀ tag, r.live bot.id tag = true → listens bot tag = true
  | .update _ _ | .clearChanges _ | .clearNewBots => True

end Conditions

/-! ### Recording -/

section Record

variable {sortedIndex : List JsString → JsString → Nat} (lowest : Lowest sortedIndex)

def listed (map : ListenerMap) (tag id : JsString) : Bool := decide (id ∈ getBotIdsWithListener map tag)

def Sorted (map : ListenerMap) : Prop := ∀ tag, (getBotIdsWithListener map tag).Pairwise (· < ·)

theorem sortedBy_iff (list : List JsString) : SortedBy (fun other => other) list ↔ list.Pairwise (· < ·) := by
  rw [SortedBy, List.map_id']

theorem mem_iff_find (list : List JsString) (id : JsString) :
    id ∈ list ↔ (findKey (fun other => other) id list).isSome = true := by
  constructor
  · intro inside
    by_contra missing
    rw [Bool.not_eq_true, Option.isSome_eq_false_iff, Option.isNone_iff_eq_none, find_eq_none] at missing
    exact missing id inside rfl
  · intro found
    obtain ⟨other, isOther⟩ := Option.isSome_iff_exists.mp found
    exact key_of_find isOther ▸ mem_of_find isOther

include lowest

theorem inserted {list : List JsString} (sorted : list.Pairwise (· < ·)) (id : JsString) :
    (insertSorted sortedIndex (fun other => other) id list).Pairwise (· < ·) ∧
      ∀ other, other ∈ insertSorted sortedIndex (fun other => other) id list ↔ other = id ∨ other ∈ list := by
  obtain ⟨stays, found⟩ := insert_spec lowest ((sortedBy_iff list).mpr sorted) id
  refine ⟨(sortedBy_iff _).mp stays, fun other => ?_⟩
  rw [mem_iff_find, found, mem_iff_find list]
  split
  · next same => simp [same]
  · next apart => simp [apart]

theorem deleted {list : List JsString} (sorted : list.Pairwise (· < ·)) (id : JsString) :
    ((deleteSorted sortedIndex (fun other => other) id list).getD list).Pairwise (· < ·) ∧
      ∀ other, other ∈ (deleteSorted sortedIndex (fun other => other) id list).getD list ↔
        other ≠ id ∧ other ∈ list := by
  have sortedList := (sortedBy_iff list).mpr sorted
  cases ran : deleteSorted sortedIndex (fun other => other) id list with
  | none =>
    refine ⟨sorted, fun other => ⟨fun inside => ⟨?_, inside⟩, And.right⟩⟩
    rintro rfl
    have found := (delete_isSome lowest sortedList other).mpr ⟨other, inside, le_refl other⟩
    rw [ran] at found
    cases found
  | some left =>
    obtain ⟨stays, found⟩ := delete_spec lowest sortedList ran
    refine ⟨(sortedBy_iff _).mp stays, fun other => ?_⟩
    rw [Option.getD_some, mem_iff_find, found, mem_iff_find list]
    split
    · next same => simp [same]
    · next apart => simp [apart]

omit lowest in
theorem ids_assign (map : ListenerMap) (tag other : JsString) (list : List JsString) :
    getBotIdsWithListener (assign tag list map) other =
      if other = tag then list else getBotIdsWithListener map other := by
  rw [getBotIdsWithListener, lookup_assign]
  split <;> rfl

omit lowest in
theorem ids_remove (map : ListenerMap) (tag other : JsString) :
    getBotIdsWithListener (OrderedMap.remove tag map) other =
      if other = tag then [] else getBotIdsWithListener map other := by
  rw [getBotIdsWithListener, lookup_remove]
  split <;> rfl

variable {map : ListenerMap}

theorem record_ids (sorted : Sorted map) (id tag : JsString) (hasListener : Bool) :
    ∃ list : List JsString, list.Pairwise (· < ·) ∧
      (∀ other, other ∈ list ↔ if other = id then hasListener = true else other ∈ getBotIdsWithListener map tag) ∧
      ∀ otherTag, getBotIdsWithListener (recordListenerPresense sortedIndex map id tag hasListener) otherTag =
        if otherTag = tag then list else getBotIdsWithListener map otherTag := by
  have before := sorted tag
  rw [getBotIdsWithListener] at before
  cases hasListener with
  | true =>
    obtain ⟨stays, inside⟩ := inserted lowest before id
    refine ⟨_, stays, fun other => ?_, fun otherTag => ?_⟩
    · rw [inside, getBotIdsWithListener]
      by_cases same : other = id <;> simp [same]
    · have made : recordListenerPresense sortedIndex map id tag true =
          assign tag (insertSorted sortedIndex (fun other => other) id ((lookup tag map).getD [])) map := by
        unfold recordListenerPresense
        cases lookup tag map <;> rfl
      rw [made]
      exact ids_assign map tag otherTag _
  | false =>
    cases found : lookup tag map with
    | none =>
      refine ⟨[], .nil, fun other => ?_, fun otherTag => ?_⟩
      · simp [getBotIdsWithListener, found]
      · have made : recordListenerPresense sortedIndex map id tag false = map := by
          unfold recordListenerPresense
          rw [found]
        rw [made]
        split
        · next same =>
            rw [same, getBotIdsWithListener, found]
            rfl
        · rfl
    | some list =>
      rw [found, Option.getD_some] at before
      obtain ⟨stays, inside⟩ := deleted lowest before id
      refine ⟨_, stays, fun other => ?_, fun otherTag => ?_⟩
      · rw [inside, getBotIdsWithListener, found, Option.getD_some]
        by_cases same : other = id <;> simp [same]
      · have made : recordListenerPresense sortedIndex map id tag false =
            if ((deleteSorted sortedIndex (fun other => other) id list).getD list).isEmpty then
              OrderedMap.remove tag map
            else assign tag ((deleteSorted sortedIndex (fun other => other) id list).getD list) map := by
          unfold recordListenerPresense
          rw [found]
        rw [made]
        split
        · next empty =>
            rw [ids_remove, List.isEmpty_iff.mp empty]
        · exact ids_assign map tag otherTag _

theorem record_spec (sorted : Sorted map) (id tag : JsString) (hasListener : Bool) :
    Sorted (recordListenerPresense sortedIndex map id tag hasListener) ∧ ∀ otherTag other,
      listed (recordListenerPresense sortedIndex map id tag hasListener) otherTag other =
        if otherTag = tag ∧ other = id then hasListener else listed map otherTag other := by
  obtain ⟨list, stays, inside, ids⟩ := record_ids lowest sorted id tag hasListener
  constructor
  · intro otherTag
    rw [ids]
    split
    · exact stays
    · exact sorted otherTag
  · intro otherTag other
    rw [listed, ids]
    by_cases sameTag : otherTag = tag
    · by_cases same : other = id
      · simp [sameTag, same, inside]
      · simp [sameTag, same, inside, listed]
    · simp [sameTag, listed]

omit lowest in
def applied (tag : JsString) (presence : List (JsString × Bool)) (before : Bool) : Bool :=
  presence.foldl (fun has call => if tag = call.1 then call.2 else has) before

theorem recordAll_spec (sorted : Sorted map) (id : JsString) (presence : List (JsString × Bool)) :
    Sorted (recordAll sortedIndex id presence map) ∧ ∀ tag other,
      listed (recordAll sortedIndex id presence map) tag other =
        if other = id then applied tag presence (listed map tag id) else listed map tag other := by
  induction presence generalizing map with
  | nil =>
    refine ⟨sorted, fun tag other => ?_⟩
    split
    · next same => rw [same]; rfl
    · rfl
  | cons call rest ih =>
    obtain ⟨stays, first⟩ := record_spec lowest sorted id call.1 call.2
    obtain ⟨last, all⟩ := ih stays
    refine ⟨last, fun tag other => ?_⟩
    have step : recordAll sortedIndex id (call :: rest) map =
      recordAll sortedIndex id rest (recordListenerPresense sortedIndex map id call.1 call.2) := rfl
    rw [step, all]
    simp only [first, applied, List.foldl_cons]
    by_cases same : other = id
    · simp [same]
    · simp [same]

end Record

/-! ### What is recorded while a bot is compiled -/

theorem applied_append (tag : JsString) (first second : List (JsString × Bool)) (before : Bool) :
    applied tag (first ++ second) before = applied tag second (applied tag first before) := List.foldl_append

theorem applied_all (tag : JsString) (has : Bool) (tags : List JsString) (before : Bool) :
    applied tag (tags.map (·, has)) before = if tag ∈ tags then has else before := by
  induction tags generalizing before with
  | nil => rfl
  | cons first rest ih =>
    have step : applied tag ((first :: rest).map (·, has)) before =
      applied tag (rest.map (·, has)) (if tag = first then has else before) := rfl
    rw [step, ih]
    by_cases same : tag = first
    · simp [same]
    · simp [same]

/-- The listeners have changed as it was recorded. -/
structure Follows (c next : Compiling) : Prop where
  id : next.bot.id = c.bot.id
  calls : ∃ calls, next.presence = c.presence ++ calls ∧
    ∀ tag, listens next.bot tag = applied tag calls (listens c.bot tag)

theorem Follows.of_same {c next : Compiling} (id : next.bot.id = c.bot.id)
    (listeners : next.bot.listeners = c.bot.listeners) (presence : next.presence = c.presence) : Follows c next where
  id := id
  calls := by
    refine ⟨[], by rw [presence, List.append_nil], fun tag => ?_⟩
    rw [listens, listeners]
    rfl

theorem Follows.trans {c middle next : Compiling} (first : Follows c middle) (second : Follows middle next) :
    Follows c next where
  id := second.id.trans first.id
  calls := by
    obtain ⟨calls, presence, all⟩ := first.calls
    obtain ⟨later, presenceLater, allLater⟩ := second.calls
    refine ⟨calls ++ later, by rw [presenceLater, presence, List.append_assoc], fun tag => ?_⟩
    rw [allLater, all, applied_append]

theorem follows_foldl {A : Type} (step : Compiling → A → Compiling) (each : ∀ c item, Follows c (step c item))
    (items : List A) (c : Compiling) : Follows c (items.foldl step c) := by
  induction items generalizing c with
  | nil => exact .of_same rfl rfl rfl
  | cons item rest ih => exact (each c item).trans (ih (step c item))

def callsFor (bot : CompiledBot) (tag : JsString) : Option JsString → List (JsString × Bool)
  | some _ => [(tag, true)]
  | none => if listens bot tag then [(tag, false)] else []

theorem setListener_presence (c : Compiling) (tag : JsString) (script : Option JsString) :
    (setListener c tag script).presence = c.presence ++ callsFor c.bot tag script := by
  unfold setListener callsFor listens
  split
  · rfl
  · split
    · rfl
    · rw [List.append_nil]

theorem applied_callsFor (bot : CompiledBot) (tag other : JsString) (script : Option JsString) (before : Bool) :
    applied other (callsFor bot tag script) before =
      if other = tag ∧ (script.isSome = true ∨ listens bot tag = true) then script.isSome else before := by
  cases script with
  | some script =>
    by_cases same : other = tag <;> simp [callsFor, applied, same]
  | none =>
    by_cases held : listens bot tag = true
    · by_cases same : other = tag <;> simp [callsFor, applied, same, held]
    · simp [callsFor, applied, held]

section Compile

variable {readers : Readers} {editMode : BotSpace → RealtimeEditMode}

theorem follows_compileTagValue (c : Compiling) (tag : JsString) (value : TagValue) :
    Follows c (compileTagValue readers c tag value) where
  id := (compileTagValue_source c tag value).id
  calls := by
    refine ⟨_, setListener_presence c tag _, fun other => ?_⟩
    rw [applied_callsFor, listens, lookup_listeners]
    by_cases same : other = tag
    · cases script : (compileValue readers c.bot tag value).2 with
      | some text => simp [same]
      | none => cases held : listens c.bot tag <;> simp [same, held]
    · simp [same, listens]

theorem listens_compileTagValue (c : Compiling) (tag : JsString) (value : TagValue) (other : JsString) :
    listens (compileTagValue readers c tag value).bot other =
      if other = tag then (compileValue readers c.bot tag value).2.isSome else listens c.bot other := by
  rw [listens, lookup_listeners]
  split <;> rfl

theorem follows_compileTagOrMask (c : Compiling) (tag : JsString) : Follows c (compileTagOrMask readers c tag) := by
  rw [compileTagOrMask_eq]
  split
  · exact follows_compileTagValue c tag _
  · exact .of_same rfl rfl rfl

theorem follows_compileTag (isNew : Bool) (c : Compiling) (tag : JsString) (value : TagValue) :
    Follows c (compileTag readers isNew c tag value) := by
  unfold compileTag
  split
  · exact .of_same rfl rfl rfl
  · split
    · next edit _ =>
        have stored : Follows c { c with bot := (storeEdit c.bot tag edit).1 } := .of_same rfl rfl rfl
        exact stored.trans (follows_compileTagValue _ tag _)
    · have stored : Follows c { c with bot := storeTag isNew c.bot tag value } := .of_same rfl rfl rfl
      exact stored.trans (follows_compileTagValue _ tag _)

theorem storeMask_same (bot : CompiledBot) (tag : JsString) (value : TagValue) (space : BotSpace) :
    (storeMask bot tag value space).listeners = bot.listeners ∧
      SameSource (storeMask bot tag value space) bot := by
  unfold storeMask
  split <;> exact ⟨rfl, rfl, rfl, rfl⟩

theorem storeMasks_same (bot : CompiledBot) (tag : JsString) (spaces : List BotSpace) (value : TagValue) :
    (storeMasks editMode bot tag spaces value).listeners = bot.listeners ∧
      SameSource (storeMasks editMode bot tag spaces value) bot := by
  unfold storeMasks
  generalize spaces.filter (fun space => editMode space = .immediate) = written
  induction written generalizing bot with
  | nil => exact ⟨rfl, .refl bot⟩
  | cons space rest ih =>
    obtain ⟨listeners, source⟩ := storeMask_same bot tag value space
    obtain ⟨listenersRest, sourceRest⟩ := ih (storeMask bot tag value space)
    exact ⟨listenersRest.trans listeners, sourceRest.trans source⟩

theorem follows_updateTag (isNew : Bool) (bot : CompiledBot) (tag : JsString) (value : TagValue) :
    Follows { bot := bot, presence := [] } (updateTag readers editMode isNew bot tag value) := by
  have compiled : Follows { bot := bot, presence := [] } (if editMode (getBotSpace bot.space) = .immediate then
        compileTag readers isNew { bot := bot, presence := [] } tag value
      else { bot := bot, presence := [] }) := by
    split
    · exact follows_compileTag isNew _ tag value
    · exact .of_same rfl rfl rfl
  unfold updateTag
  simp only
  split
  · exact compiled
  · exact compiled.trans (.of_same rfl rfl rfl)

theorem follows_updateTagMask (bot : CompiledBot) (tag : JsString) (spaces : List BotSpace) (value : TagValue) :
    Follows { bot := bot, presence := [] } (updateTagMask readers editMode bot tag spaces value) := by
  obtain ⟨listeners, source⟩ := @storeMasks_same editMode bot tag spaces value
  have stored : Follows { bot := bot, presence := [] }
      { bot := storeMasks editMode bot tag spaces value, presence := [] } := .of_same source.id listeners rfl
  have compiled : Follows { bot := bot, presence := [] } (if spaces.any fun space => editMode space = .immediate then
        compileTagOrMask readers { bot := storeMasks editMode bot tag spaces value, presence := [] } tag
      else { bot := storeMasks editMode bot tag spaces value, presence := [] }) := by
    split
    · exact stored.trans (follows_compileTagOrMask _ tag)
    · exact stored
  exact compiled.trans (.of_same rfl rfl rfl)

theorem follows_updateSignature (isNew : Bool) (c : Compiling) (update : JsString × Option JsString) :
    Follows c (updateSignature readers isNew c update) := by
  have stored : Follows c { c with bot := { c.bot with
      signatures := assign update.1 (truthy update.2) c.bot.signatures } } := .of_same rfl rfl rfl
  unfold updateSignature
  simp only
  split
  · exact stored.trans (follows_compileTag isNew _ _ _)
  · exact stored.trans (follows_compileTag isNew _ _ _)
  · exact stored

theorem updateStateTag_same (bot : CompiledBot) (update : JsString × TagValue) :
    (updateStateTag bot update).listeners = bot.listeners ∧ (updateStateTag bot update).id = bot.id := by
  unfold updateStateTag
  split <;> exact ⟨rfl, rfl⟩

theorem updateStateMask_same (space : BotSpace) (bot : CompiledBot) (update : JsString × TagValue) :
    (updateStateMask space bot update).listeners = bot.listeners ∧ (updateStateMask space bot update).id = bot.id := by
  unfold updateStateMask
  split <;> exact ⟨rfl, rfl⟩

theorem foldl_same {A : Type} (step : CompiledBot → A → CompiledBot)
    (each : ∀ bot item, (step bot item).listeners = bot.listeners ∧ (step bot item).id = bot.id)
    (items : List A) (bot : CompiledBot) :
    (items.foldl step bot).listeners = bot.listeners ∧ (items.foldl step bot).id = bot.id := by
  induction items generalizing bot with
  | nil => exact ⟨rfl, rfl⟩
  | cons item rest ih =>
    obtain ⟨listeners, id⟩ := ih (step bot item)
    exact ⟨listeners.trans (each bot item).1, id.trans (each bot item).2⟩

theorem follows_updateState (isNew : Bool) (bot : CompiledBot) (update : PartialBot) :
    Follows { bot := bot, presence := [] } (updateState readers isNew bot update) := by
  have tags := foldl_same updateStateTag updateStateTag_same update.tags bot
  have masks := foldl_same (fun bot entry => entry.2.foldl (updateStateMask entry.1) bot)
    (fun bot entry => foldl_same _ (updateStateMask_same entry.1) entry.2 bot) update.masks
    (update.tags.foldl updateStateTag bot)
  have stored : Follows { bot := bot, presence := [] }
      ⟨update.masks.foldl (fun bot entry => entry.2.foldl (updateStateMask entry.1) bot)
        (update.tags.foldl updateStateTag bot), []⟩ :=
    .of_same (masks.2.trans tags.2) (masks.1.trans tags.1) rfl
  have compiled := stored.trans
    (follows_foldl (compileUpdated readers) (fun c tag => follows_compileTagValue c tag _) (updatedTags update) _)
  exact compiled.trans
    (follows_foldl (updateSignature readers isNew) (fun c item => follows_updateSignature isNew c item) _ _)

/-! ### New bots -/

/-- Only listeners are recorded, each of them compiled from what the bot shows. -/
structure Created (readers : Readers) (c : Compiling) : Prop where
  recorded : ∀ tag before, applied tag c.presence before = (before || listens c.bot tag)
  compiled : ∀ tag, listens c.bot tag = true →
    (compileValue readers c.bot tag (visible c.bot tag)).2.isSome = true

variable {c : Compiling}

theorem created_compileTagOrMask (created : Created readers c) (tag : JsString) :
    Created readers (compileTagOrMask readers c tag) := by
  have same := @compileTagOrMask_source readers c tag
  rw [compileTagOrMask_eq]
  split
  · constructor
    · intro other before
      have presence : (compileTagValue readers c tag (visible c.bot tag)).presence = c.presence ++
        callsFor c.bot tag (compileValue readers c.bot tag (visible c.bot tag)).2 := setListener_presence c tag _
      rw [presence, applied_append, created.recorded, applied_callsFor, listens_compileTagValue]
      by_cases isTag : other = tag
      · subst isTag
        cases script : (compileValue readers c.bot other (visible c.bot other)).2 with
        | some text => simp
        | none =>
          have silent : listens c.bot other = false := by
            by_contra held
            have compiled := created.compiled other (by simpa using held)
            rw [script] at compiled
            cases compiled
          simp [silent]
      · simp [isTag]
    · intro other held
      have source := @compileTagValue_source readers c tag (visible c.bot tag)
      rw [compileValue_congr source, visible_congr (compileTagValue_tags c tag _) (compileTagValue_masks c tag _)]
      rw [listens_compileTagValue] at held
      split at held
      · next isTag => rw [isTag]; exact held
      · exact created.compiled other held
  · exact created

theorem created_foldl (tags : List JsString) (created : Created readers c) :
    Created readers (tags.foldl (compileTagOrMask readers) c) := by
  induction tags generalizing c with
  | nil => exact created
  | cons tag rest ih => exact ih (created_compileTagOrMask created tag)

theorem listens_created (existing : TagMasks) (bot : Bot) (tag : JsString) :
    listens (createCompiledBot readers existing bot).bot tag = willListen readers existing bot tag := by
  have shows : visible (createCompiledBot readers existing bot).bot tag =
      visible (copyBot bot (mergeMasks existing bot.masks)) tag :=
    visible_congr (created_tags existing bot) (created_masks existing bot) tag
  rw [listens, created_listeners, compileValue_congr (created_source existing bot), shows]
  rfl

theorem created_presence (existing : TagMasks) (bot : Bot) (tag : JsString) (before : Bool) :
    applied tag (createCompiledBot readers existing bot).presence before =
      (before || willListen readers existing bot tag) := by
  have first : Created readers { bot := copyBot bot (mergeMasks existing bot.masks), presence := [] } :=
    ⟨fun tag before => (Bool.or_false before).symm, fun tag held => (by cases held)⟩
  rw [← listens_created]
  exact (created_foldl (tagsOnBot (copyBot bot (mergeMasks existing bot.masks))) first).recorded tag before

/-! ### Writes of scripts -/

def callsOf (readers : Readers) (bot : CompiledBot) (tag : JsString) : Option TagValue → List (JsString × Bool)
  | some value => callsFor bot tag (compileValue readers bot tag value).2
  | none => []

theorem compileTagValue_presence {bot : CompiledBot} (listeners : c.bot.listeners = bot.listeners)
    (source : SameSource c.bot bot) (tag : JsString) (value : TagValue) :
    (compileTagValue readers c tag value).presence = c.presence ++ callsOf readers bot tag (some value) := by
  have same : callsFor c.bot tag = callsFor bot tag := by
    funext script
    unfold callsFor listens
    rw [listeners]
  rw [callsOf, ← compileValue_congr source, ← same]
  exact setListener_presence c tag _

theorem updateTag_presence (isNew : Bool) (bot : CompiledBot) (tag : JsString) (value : TagValue) :
    (updateTag readers editMode isNew bot tag value).presence =
      callsOf readers bot tag (compiledByTag editMode bot tag value) := by
  have whole : (updateTag readers editMode isNew bot tag value).presence =
      (if editMode (getBotSpace bot.space) = .immediate then
        compileTag readers isNew { bot := bot, presence := [] } tag value
      else { bot := bot, presence := [] }).presence := by
    unfold updateTag
    simp only
    split <;> rfl
  rw [whole, compiledByTag]
  by_cases atOnce : editMode (getBotSpace bot.space) = .immediate
  · cases masked : firstMask tag bot.masks with
    | some mask => simp [atOnce, masked, compileTag, callsOf]
    | none =>
      simp only [atOnce, if_true, compileTag, masked, Option.isSome_none, Bool.false_eq_true, if_false, and_self]
      cases value.edit with
      | some edit => exact compileTagValue_presence rfl ⟨rfl, rfl, rfl⟩ tag _
      | none => exact compileTagValue_presence rfl ⟨rfl, rfl, rfl⟩ tag _
  · simp [atOnce, callsOf]

theorem updateTagMask_presence (bot : CompiledBot) (tag : JsString) (spaces : List BotSpace) (value : TagValue) :
    (updateTagMask readers editMode bot tag spaces value).presence =
      callsOf readers bot tag (compiledByMask editMode bot tag spaces value) := by
  obtain ⟨listeners, source⟩ := @storeMasks_same editMode bot tag spaces value
  have whole : (updateTagMask readers editMode bot tag spaces value).presence =
      (if spaces.any fun space => editMode space = .immediate then
        compileTagOrMask readers { bot := storeMasks editMode bot tag spaces value, presence := [] } tag
      else { bot := storeMasks editMode bot tag spaces value, presence := [] }).presence := rfl
  rw [whole, compiledByMask]
  by_cases written : (spaces.any fun space => editMode space = .immediate) = true
  · rw [if_pos written, compileTagOrMask_eq]
    cases seen : hasVisible (storeMasks editMode bot tag spaces value) tag with
    | true =>
      rw [if_pos rfl, written]
      exact compileTagValue_presence listeners source tag _
    | false => simp [callsOf]
  · rw [if_neg written]
    simp [written, callsOf]

/-- On a dropped bot, what is recorded is right where it is right already. -/
theorem applied_callsOf (r : Runtime) (bot : CompiledBot) (tag : JsString) (compiled : Option TagValue) :
    (∀ other, applied other (callsOf readers bot tag compiled) (r.live bot.id other) = r.live bot.id other) ↔
      Agrees readers r bot tag compiled := by
  cases compiled with
  | none => exact ⟨fun _ value isNone => (by cases isNone), fun _ _ => rfl⟩
  | some value =>
    simp only [callsOf, applied_callsFor]
    constructor
    · intro same given isValue records
      cases isValue
      have here := same tag
      rw [if_pos ⟨rfl, records⟩] at here
      exact here.symm
    · intro agrees other
      split
      · next records => rw [records.1, agrees value rfl records.2]
      · rfl

theorem copyMasks_same (bot : CompiledBot) (space : BotSpace) (masks : Option Tags) :
    (copyMasks bot space masks).listeners = bot.listeners ∧ (copyMasks bot space masks).id = bot.id := by
  cases masks with
  | none => exact ⟨rfl, rfl⟩
  | some masks => exact foldl_same (copyMask space) (fun _ _ => ⟨rfl, rfl⟩) masks _

theorem replaceBot_same (existing newBot : CompiledBot) :
    (replaceBot existing newBot).listeners = newBot.listeners ∧ (replaceBot existing newBot).id = newBot.id := by
  have tags := foldl_same copyChange (fun _ _ => ⟨rfl, rfl⟩) existing.changes newBot
  have masks := foldl_same (fun bot space => copyMasks bot space (lookup space existing.maskChanges))
    (fun bot space => copyMasks_same bot space _) tagMaskSpacePriorities (existing.changes.foldl copyChange newBot)
  exact ⟨masks.1.trans tags.1, masks.2.trans tags.2⟩

end Compile

/-! ### Exactness after one change -/

/-- The compiled bots stand under their ids. -/
structure Consistent (r : Runtime) : Prop where
  exact : Exact r
  named : ∀ id bot, r.bot id = some bot → bot.id = id

theorem listed_iff {r : Runtime} : Exact r ↔
    Sorted r.listenerMap ∧ ∀ tag id, listed r.listenerMap tag id = r.live id tag := by
  have same : ∀ tag id, (id ∈ getBotIdsWithListener r.listenerMap tag ↔
      ∃ bot, r.bot id = some bot ∧ listens bot tag = true) ↔ listed r.listenerMap tag id = r.live id tag := by
    intro tag id
    rw [listed, Bool.eq_iff_iff, decide_eq_true_iff, Runtime.live, Option.any_eq_true]
  constructor
  · rintro ⟨sorted, inside⟩
    exact ⟨sorted, fun tag id => (same tag id).mp (inside tag id)⟩
  · rintro ⟨sorted, all⟩
    exact ⟨sorted, fun tag id => (same tag id).mpr (all tag id)⟩

theorem exact_recorded {sortedIndex : List JsString → JsString → Nat} (lowest : Lowest sortedIndex)
    {r next : Runtime} (exact : Exact r) {id : JsString} {presence : List (JsString × Bool)}
    (recorded : next.listenerMap = recordAll sortedIndex id presence r.listenerMap)
    (others : ∀ other, other ≠ id → next.bot other = r.bot other) :
    Exact next ↔ ∀ tag, applied tag presence (r.live id tag) = next.live id tag := by
  obtain ⟨sorted, all⟩ := listed_iff.mp exact
  obtain ⟨stays, after⟩ := recordAll_spec lowest sorted id presence
  rw [listed_iff, recorded]
  constructor
  · rintro ⟨_, listedNext⟩ tag
    rw [← listedNext, after, if_pos rfl, all]
  · intro same
    refine ⟨stays, fun tag other => ?_⟩
    rw [after]
    split
    · next isId => rw [all, same, isId]
    · next apart => rw [all, Runtime.live, Runtime.live, others other apart]

theorem exact_same {r next : Runtime} (exact : Exact r) (map : next.listenerMap = r.listenerMap)
    (live : ∀ id tag, next.live id tag = r.live id tag) : Exact next := by
  rw [listed_iff] at exact ⊢
  rw [map]
  exact ⟨exact.1, fun tag id => (exact.2 tag id).trans (live id tag).symm⟩

section Changes

variable {readers : Readers} {sortedIndex : List JsString → JsString → Nat} {editMode : BotSpace → RealtimeEditMode}
  {r : Runtime}

variable {id : JsString} {bot : CompiledBot} {ref : BotRef}

theorem live_of_bot (found : r.bot id = some bot) (tag : JsString) : r.live id tag = listens bot tag := by
  rw [Runtime.live, found]
  rfl

theorem or_eq_right_iff (before after : Bool) : (before || after) = after ↔ (before = true → after = true) := by
  cases before <;> cases after <;> decide

theorem mem_listeners (bot : CompiledBot) (tag : JsString) :
    tag ∈ bot.listeners.map Prod.fst ↔ listens bot tag = true := by
  rw [listens, ← Option.ne_none_iff_isSome, ne_eq, lookup_eq_none_iff, not_not]

/-- What a script's bot is recorded with once more changes nothing. -/
theorem applied_listening (bot : Bot) (present : Bool) (tag : JsString) (before : Bool) :
    applied tag ((createCompiledBot readers [] bot).presence ++
        if present then [] else (createCompiledBot readers [] bot).bot.listeners.map fun entry => (entry.1, true))
        before = (before || willListen readers [] bot tag) := by
  rw [applied_append, created_presence]
  cases present with
  | true => rfl
  | false =>
    have calls : (createCompiledBot readers [] bot).bot.listeners.map (fun entry => (entry.1, true)) =
        ((createCompiledBot readers [] bot).bot.listeners.map Prod.fst).map (·, true) := by
      rw [List.map_map]
      rfl
    rw [if_neg Bool.false_ne_true, calls, applied_all]
    split
    · next listed =>
        rw [mem_listeners, listens_created] at listed
        rw [listed, Bool.or_true]
    · rfl

section Exactness

variable (lowest : Lowest sortedIndex) (exact : Exact r)

include lowest exact

theorem exact_created {next : Runtime} {id : JsString} {presence : List (JsString × Bool)} {bot : CompiledBot}
    {will : JsString → Bool} (recorded : next.listenerMap = recordAll sortedIndex id presence r.listenerMap)
    (others : ∀ other, other ≠ id → next.bot other = r.bot other) (found : next.bot id = some bot)
    (all : ∀ tag before, applied tag presence before = (before || will tag))
    (heard : ∀ tag, listens bot tag = will tag) :
    Exact next ↔ ∀ tag, r.live id tag = true → will tag = true := by
  rw [exact_recorded lowest exact recorded others]
  refine forall_congr' fun tag => ?_
  rw [all, live_of_bot found, heard]
  exact or_eq_right_iff _ _

theorem exact_add (bot : Bot) : Exact (r.add readers sortedIndex bot) ↔ ∀ tag, r.live bot.id tag = true →
    willListen readers ((lookup bot.id r.existingMasks).getD []) bot tag = true := by
  have found : (r.add readers sortedIndex bot).bot bot.id = some (inPlaceOf (r.bot bot.id)
      (createCompiledBot readers ((lookup bot.id r.existingMasks).getD []) bot).bot) := by
    rw [Runtime.bot, Runtime.add]
    simp only [lookup_assign, if_true]
  have others : ∀ other, other ≠ bot.id → (r.add readers sortedIndex bot).bot other = r.bot other := by
    intro other apart
    rw [Runtime.bot, Runtime.add]
    simp only [lookup_assign, if_neg apart]
    rfl
  refine exact_created lowest exact rfl others found
    (created_presence ((lookup bot.id r.existingMasks).getD []) bot) fun tag => ?_
  rw [← listens_created]
  cases r.bot bot.id with
  | none => rfl
  | some existing => rw [listens, inPlaceOf, (replaceBot_same existing _).1, listens]

theorem exact_createBot (bot : Bot) : Exact (r.createBot readers sortedIndex editMode bot) ↔
    (editMode (getBotSpace bot.space) = .immediate → ∀ tag, r.live bot.id tag = true →
      willListen readers [] bot tag = true) := by
  by_cases atOnce : editMode (getBotSpace bot.space) = .immediate
  · have found : (r.createBot readers sortedIndex editMode bot).bot bot.id =
        some (createCompiledBot readers [] bot).bot := by
      rw [Runtime.bot, Runtime.createBot, if_pos atOnce]
      simp only [lookup_assign, if_true]
    have others : ∀ other, other ≠ bot.id → (r.createBot readers sortedIndex editMode bot).bot other = r.bot other := by
      intro other apart
      rw [Runtime.bot, Runtime.createBot, if_pos atOnce]
      simp only [lookup_assign, if_neg apart]
      rfl
    have recorded : (r.createBot readers sortedIndex editMode bot).listenerMap = recordAll sortedIndex bot.id
        ((createCompiledBot readers [] bot).presence ++ if (r.bot bot.id).isSome then []
          else (createCompiledBot readers [] bot).bot.listeners.map fun entry => (entry.1, true)) r.listenerMap := by
      rw [Runtime.createBot, if_pos atOnce]
      rfl
    rw [exact_created lowest exact recorded others found (applied_listening bot _) (listens_created [] bot)]
    exact ⟨fun all _ => all, fun all => all atOnce⟩
  · rw [Runtime.createBot, if_neg atOnce]
    exact ⟨fun _ now => absurd now atOnce, fun _ => exact⟩

theorem exact_drop (id : JsString) (calls : List (JsString × Bool)) :
    Exact ((r.drop id).record sortedIndex id calls) ↔ ∀ tag, applied tag calls (r.live id tag) = false := by
  have gone : ((r.drop id).record sortedIndex id calls).bot id = none := by
    simp only [Runtime.bot, Runtime.record, Runtime.drop, lookup_remove, if_true]
  have others : ∀ other, other ≠ id → ((r.drop id).record sortedIndex id calls).bot other = r.bot other := by
    intro other apart
    simp only [Runtime.bot, Runtime.record, Runtime.drop, lookup_remove, if_neg apart]
  rw [exact_recorded lowest exact rfl others]
  refine forall_congr' fun tag => ?_
  have dead : ((r.drop id).record sortedIndex id calls).live id tag = false := by
    rw [Runtime.live, gone]
    rfl
  rw [dead]

theorem exact_destroyBot (bot : CompiledBot) : Exact (r.destroyBot sortedIndex editMode bot) ↔
    (editMode (getBotSpace bot.space) = .immediate → ∀ tag, r.live bot.id tag = true → listens bot tag = true) := by
  unfold Runtime.destroyBot
  split
  · next found =>
      rw [Bool.and_eq_true, decide_eq_true_iff] at found
      have calls : bot.listeners.map (fun entry => (entry.1, false)) = (bot.listeners.map Prod.fst).map (·, false) := by
        rw [List.map_map]
        rfl
      rw [exact_drop lowest exact, calls]
      simp only [applied_all, mem_listeners]
      constructor
      · intro all _ tag live
        by_contra silent
        have after := all tag
        rw [if_neg silent, live] at after
        cases after
      · intro all tag
        split
        · rfl
        · next silent => simpa using mt (all found.2 tag) silent
  · next missing =>
      refine ⟨fun _ atOnce tag live => ?_, fun _ => exact⟩
      rw [Bool.and_eq_true, decide_eq_true_iff, not_and'] at missing
      have none := missing atOnce
      rw [Runtime.live] at live
      cases held : r.bot bot.id with
      | none => rw [held] at live; cases live
      | some other => rw [held] at none; exact absurd rfl none

theorem exact_write {id : JsString} {bot : CompiledBot} {c : Compiling} (found : r.bot id = some bot)
    (follows : Follows { bot := bot, presence := [] } c) : Exact (r.write sortedIndex (.inState id) id c) := by
  have others : ∀ other, other ≠ id → (r.write sortedIndex (.inState id) id c).bot other = r.bot other := by
    intro other apart
    simp only [Runtime.bot, Runtime.write, Runtime.record, Runtime.store, lookup_assign, if_neg apart]
  have here : (r.write sortedIndex (.inState id) id c).bot id = some c.bot := by
    simp only [Runtime.bot, Runtime.write, Runtime.record, Runtime.store, lookup_assign, if_true]
  rw [exact_recorded lowest exact rfl others]
  intro tag
  obtain ⟨calls, presence, all⟩ := follows.calls
  rw [live_of_bot found, live_of_bot here, all, presence]
  rfl

theorem exact_dropped (index : Nat) (bot : CompiledBot) (tag : JsString) (compiled : Option TagValue) {c : Compiling}
    (presence : c.presence = callsOf readers bot tag compiled) :
    Exact (r.write sortedIndex (.gone index) bot.id c) ↔ Agrees readers r bot tag compiled := by
  have same : ∀ id, (r.write sortedIndex (.gone index) bot.id c).bot id = r.bot id := fun _ => rfl
  have recorded : (r.write sortedIndex (.gone index) bot.id c).listenerMap =
      recordAll sortedIndex bot.id (callsOf readers bot tag compiled) r.listenerMap := by
    rw [← presence]
    rfl
  rw [exact_recorded lowest exact recorded fun other _ => same other, ← applied_callsOf]
  refine forall_congr' fun other => ?_
  have live : (r.write sortedIndex (.gone index) bot.id c).live bot.id other = r.live bot.id other := rfl
  rw [live]

end Exactness

/-! ### Each change -/

theorem live_store {made : CompiledBot} (found : r.deref ref = some bot)
    (listeners : made.listeners = bot.listeners) (id tag : JsString) : (r.store made ref).live id tag = r.live id tag := by
  cases ref with
  | gone index => rfl
  | inState other =>
    rw [Runtime.live, Runtime.live, Runtime.bot, Runtime.store]
    simp only [lookup_assign]
    split
    · next same =>
        rw [same]
        change r.bot other = some bot at found
        rw [found, Option.any_some, Option.any_some, listens, listens, listeners]
    · rfl

theorem withBot_found (found : r.deref ref = some bot) (act : CompiledBot → Runtime) : r.withBot ref act = act bot := by
  rw [Runtime.withBot, found]

theorem withBot_missing (missing : r.deref ref = none) (act : CompiledBot → Runtime) : r.withBot ref act = r := by
  rw [Runtime.withBot, missing]

theorem exact_withBot (inv : Consistent r) (ref : BotRef) {act : CompiledBot → Runtime} {P : CompiledBot → Prop}
    (inState : ∀ id bot, ref = .inState id → r.bot id = some bot → bot.id = id → Exact (act bot))
    (dropped : ∀ index bot, ref = .gone index → (Exact (act bot) ↔ P bot)) :
    Exact (r.withBot ref act) ↔ OnDropped r ref P := by
  cases found : r.deref ref with
  | none =>
    rw [withBot_missing found]
    refine ⟨fun _ => ?_, fun _ => inv.exact⟩
    cases ref with
    | inState id => trivial
    | gone index =>
      intro bot other
      change r.gone[index]? = none at found
      rw [found] at other
      cases other
  | some bot =>
    rw [withBot_found found]
    cases ref with
    | inState id => exact ⟨fun _ => trivial, fun _ => inState id bot rfl found (inv.named id bot found)⟩
    | gone index =>
      rw [dropped index bot rfl]
      refine ⟨fun holds other same => ?_, fun all => all bot found⟩
      change r.gone[index]? = some bot at found
      rw [found] at same
      exact Option.some.inj same ▸ holds

theorem exact_iff_allowed (lowest : Lowest sortedIndex) (inv : Consistent r) (change : Change) :
    Exact (r.apply readers sortedIndex editMode change) ↔ Allowed readers editMode r change := by
  have exact := inv.exact
  cases change with
  | add bot => exact exact_add lowest exact bot
  | remove id => exact exact_drop lowest exact id []
  | update id partialBot =>
    refine ⟨fun _ => trivial, fun _ => ?_⟩
    rw [Runtime.apply, Runtime.update]
    cases found : r.bot id with
    | none =>
      simp only
      split
      · exact exact
      · exact exact_same exact rfl fun _ _ => rfl
    | some bot => exact exact_write lowest exact found (follows_updateState _ bot partialBot)
  | updateTag ref tag value =>
    refine exact_withBot inv ref (fun id bot isRef found named => ?_) fun index bot isRef => ?_
    · rw [isRef, named]
      exact exact_write lowest exact found (follows_updateTag _ bot tag value)
    · rw [isRef]
      exact exact_dropped lowest exact index bot tag _ (updateTag_presence _ bot tag value)
  | updateTagMask ref tag spaces value =>
    refine exact_withBot inv ref (fun id bot isRef found named => ?_) fun index bot isRef => ?_
    · rw [isRef, named]
      exact exact_write lowest exact found (follows_updateTagMask bot tag spaces value)
    · rw [isRef]
      exact exact_dropped lowest exact index bot tag _ (updateTagMask_presence bot tag spaces value)
  | createBot bot => exact exact_createBot lowest exact bot
  | destroyBot ref =>
    refine exact_withBot inv ref (fun id bot _ found named => ?_) fun index bot _ => exact_destroyBot lowest exact bot
    rw [exact_destroyBot lowest exact, named]
    intro _ tag live
    rwa [live_of_bot found] at live
  | clearChanges ref =>
    refine ⟨fun _ => trivial, fun _ => ?_⟩
    rw [Runtime.apply]
    cases found : r.deref ref with
    | none => exact (withBot_missing found _).symm ▸ exact
    | some bot =>
      rw [withBot_found found]
      exact exact_same exact (by cases ref <;> rfl) (live_store found rfl)
  | clearNewBots => exact ⟨fun _ => trivial, fun _ => exact_same exact rfl fun _ _ => rfl⟩

/-! ### Runs -/

def Named (r : Runtime) : Prop := ∀ id bot, r.bot id = some bot → bot.id = id

theorem named_assign {next : Runtime} (named : Named r) (same : bot.id = id)
    (state : next.compiledState = assign id bot r.compiledState) : Named next := by
  intro other found isFound
  rw [Runtime.bot, state, lookup_assign] at isFound
  split at isFound
  · next isId => rw [← Option.some.inj isFound, isId, same]
  · exact named other found isFound

theorem named_drop {next : Runtime} (named : Named r)
    (state : next.compiledState = OrderedMap.remove id r.compiledState) : Named next := by
  intro other found isFound
  rw [Runtime.bot, state, lookup_remove] at isFound
  split at isFound
  · cases isFound
  · exact named other found isFound

theorem named_write (named : Named r) (found : r.deref ref = some bot)
    {c : Compiling} (same : c.bot.id = bot.id) : Named (r.write sortedIndex ref bot.id c) := by
  cases ref with
  | inState id => exact named_assign named (same.trans (named id bot found)) rfl
  | gone index => exact named

theorem named_withBot (named : Named r) (ref : BotRef) {act : CompiledBot → Runtime}
    (each : ∀ bot, r.deref ref = some bot → Named (act bot)) : Named (r.withBot ref act) := by
  cases found : r.deref ref with
  | none => exact (withBot_missing found act).symm ▸ named
  | some bot => exact (withBot_found found act).symm ▸ each bot found

theorem created_id (existing : TagMasks) (bot : Bot) : (createCompiledBot readers existing bot).bot.id = bot.id :=
  (created_source existing bot).id

theorem named_apply (named : Named r) (change : Change) : Named (r.apply readers sortedIndex editMode change) := by
  cases change with
  | add bot =>
    have same : (inPlaceOf (r.bot bot.id)
        (createCompiledBot readers ((lookup bot.id r.existingMasks).getD []) bot).bot).id = bot.id := by
      cases r.bot bot.id with
      | none => exact created_id _ bot
      | some existing => exact (replaceBot_same existing _).2.trans (created_id _ bot)
    exact named_assign named same rfl
  | remove id => exact named_drop named rfl
  | update id partialBot =>
    rw [Runtime.apply, Runtime.update]
    cases found : r.bot id with
    | none =>
      simp only
      split <;> exact named
    | some bot =>
      exact named_assign named ((follows_updateState _ bot partialBot).id.trans (named id bot found)) rfl
  | updateTag ref tag value =>
    exact named_withBot named ref fun bot found => named_write named found (follows_updateTag _ bot tag value).id
  | updateTagMask ref tag spaces value =>
    exact named_withBot named ref fun bot found =>
      named_write named found (follows_updateTagMask bot tag spaces value).id
  | createBot bot =>
    rw [Runtime.apply, Runtime.createBot]
    split
    · exact named_assign named (created_id [] bot) rfl
    · exact named
  | destroyBot ref =>
    refine named_withBot named ref fun bot _ => ?_
    rw [Runtime.destroyBot]
    split
    · exact named_drop named rfl
    · exact named
  | clearChanges ref =>
    refine named_withBot named ref fun bot found => ?_
    cases ref with
    | inState id =>
      have same : ({ bot with changes := [], maskChanges := [] } : CompiledBot).id = id := named id bot found
      exact named_assign named same rfl
    | gone index => exact named
  | clearNewBots => exact named

theorem consistent_empty : Consistent .empty where
  exact := ⟨fun _ => .nil, fun _ _ => ⟨fun inside => (by cases inside), fun ⟨_, found, _⟩ => (by cases found)⟩⟩
  named _ _ found := by cases found

end Changes

def scripted : Bot :=
  { id := [98], space := none, tags := [([120], .json (.string [64, 49]))], masks := [], signatures := [] }

def adds (bot : Bot) : Call := .stateUpdated { addedBots := [bot], removedBots := [], updatedBots := [] }

def removes (id : JsString) : Call := .stateUpdated { addedBots := [], removedBots := [id], updatedBots := [] }

end CasualOS.AuxRuntime
