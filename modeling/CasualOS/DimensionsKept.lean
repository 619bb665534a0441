import CasualOS.DimensionBatch

/-! What a change of a bot tells, and the dimensions after every batch of changes. -/

namespace CasualOS.DimensionTracking

open OrderedMap AuxRuntime BotValues TagIndex Run
open List (mem_cons mem_map mem_singleton not_mem_nil)

/-! ### The index and its bots -/

section Changes

variable {texts : Texts} {dimensionTags : List JsString} {dimensionBotFilter : JsString → Bool}
  {names : JsString → Prop} {s : Session}

/-- Bots are listed under tags that they have, and under all tags that count for dimensions. -/
structure Orderly (texts : Texts) (dimensionTags : List JsString) (dimensionBotFilter : JsString → Bool)
    (names : JsString → Prop) (s : Session) : Prop where
  inv : TagIndex.Inv s
  carried : ∀ id tag, Counts dimensionTags names tag → Listed s id tag → tag ∈ tagsOf (lookup id s.current)
  used : ∀ id tag, Uses texts dimensionTags dimensionBotFilter names id (lookup id s.current) tag →
    tag ∈ tagsOf (lookup id s.current) ∧ Listed s id tag
  named : ∀ id dimension, Defines texts dimensionTags dimensionBotFilter s.current id dimension → names dimension

theorem orderly_start : Orderly texts dimensionTags dimensionBotFilter names Session.start where
  inv := inv_start
  carried id tag _ listed := by simp [Listed, Session.start, BotIndex.empty, botList, lookup] at listed
  used id tag uses := absurd uses (not_uses_none id tag)
  named id dimension defines := by
    obtain ⟨_, tag, _, inside⟩ := defines
    cases inside

variable {id tag : JsString} {bot : Option BotValues.Bot} {update : BotIndexUpdate}

theorem counts_of_uses
    (uses : Uses texts dimensionTags dimensionBotFilter names id bot tag) : Counts dimensionTags names tag :=
  uses.imp (fun defines => defines.2.1) (fun inside => .inl inside.1)

/-- The events of a change tell what has become of its bot. -/
structure Turned (texts : Texts) (dimensionTags : List JsString) (dimensionBotFilter : JsString → Bool)
    (names : JsString → Prop) (s : Session) (change : TagIndex.Change) (turn : Turn) : Prop where
  id : turn.id = change.id
  after : lookup turn.id (currentAfter s.current change) = turn.after
  told : ∀ event ∈ (applyChange texts s.index change).2, Told texts dimensionTags dimensionBotFilter turn event
  inside : ∀ tag ∉ (applyChange texts s.index change).2.map eventTag, names tag →
    insideOf texts turn.after tag = insideOf texts (lookup turn.id s.current) tag
  defining : dimensionBotFilter turn.id = true → ∀ dimension,
    tracked texts dimensionTags turn dimension ((applyChange texts s.index change).2.map eventTag)
      (DefinedBy texts dimensionTags (lookup turn.id s.current) dimension) ↔
        DefinedBy texts dimensionTags turn.after dimension

theorem insideOf_eq_false (isName : names tag)
    (unused : ¬ Uses texts dimensionTags dimensionBotFilter names id bot tag) : insideOf texts bot tag = false :=
  Bool.eq_false_iff.mpr fun inside => unused (.inr ⟨isName, inside⟩)

theorem dimensionsOf_eq_nil (accepted : dimensionBotFilter id = true)
    (isTag : tag ∈ dimensionTags) (unused : ¬ Uses texts dimensionTags dimensionBotFilter names id bot tag) :
    dimensionsOf texts bot tag = [] := by
  by_contra defines
  exact unused (.inl ⟨accepted, isTag, defines⟩)

/-! #### Bots that are added -/

theorem lookup_added (s : Session) (bot : BotValues.Bot) (id : JsString) :
    lookup id (currentAfter s.current (.addBot bot)) = if id = bot.id then some bot else lookup id s.current :=
  lookup_assign _ _ _ _

theorem orderly_add (orderly : Orderly texts dimensionTags dimensionBotFilter names s) {bot : BotValues.Bot}
    (allowed : AddAllowed texts dimensionTags dimensionBotFilter names (lookup bot.id s.current) bot) :
    Orderly texts dimensionTags dimensionBotFilter names (s.change texts (.addBot bot)) := by
  refine ⟨inv_change orderly.inv _, fun id tag counts listed => ?_, fun id tag uses => ?_,
    fun id dimension defines => ?_⟩
  · rw [listed_addBot] at listed
    rw [Session.change, lookup_added]
    split
    · next own =>
        subst own
        exact listed.elim And.right fun before => allowed.kept tag (orderly.carried _ tag counts before) counts
    · next apart => exact orderly.carried id tag counts (listed.resolve_left fun own => apart own.1)
  · rw [listed_addBot]
    rw [Session.change, lookup_added] at uses ⊢
    split at uses
    · next own =>
        rw [if_pos own]
        have there := allowed.used tag (own ▸ uses)
        exact ⟨there, .inl ⟨own, there⟩⟩
    · next apart =>
        rw [if_neg apart]
        exact (orderly.used id tag uses).imp_right .inr
  · rw [Defines, Session.change, lookup_added] at defines
    split at defines
    · next own => exact allowed.named (own ▸ defines.1) dimension defines.2
    · exact orderly.named id dimension defines

theorem told_added (bot : BotValues.Bot) (tag : JsString) :
    Told texts dimensionTags dimensionBotFilter { id := bot.id, before := none, after := some bot }
      (.tagAdded bot tag) where
  id := rfl
  previous _ _ := rfl
  current := rfl
  inside := rfl
  portal _ := ⟨portalOf texts bot, rfl, fun _ _ => rfl⟩

theorem turned_add (orderly : Orderly texts dimensionTags dimensionBotFilter names s) {bot : BotValues.Bot}
    (allowed : AddAllowed texts dimensionTags dimensionBotFilter names (lookup bot.id s.current) bot) :
    Turned texts dimensionTags dimensionBotFilter names s (.addBot bot)
      { id := bot.id, before := none, after := some bot } := by
  have tags : (applyChange texts s.index (.addBot bot)).2.map eventTag = BotValues.tagsOnBot bot := by
    rw [applyChange, BotIndex.addBot, List.map_map]
    exact List.map_id _
  refine ⟨rfl, ?_, ?_, ?_, ?_⟩
  · rw [lookup_added, if_pos rfl]
  · intro event member
    obtain ⟨tag, _, rfl⟩ := mem_map.mp member
    exact told_added bot tag
  · rw [tags]
    intro tag missing isName
    have before : ¬ Uses texts dimensionTags dimensionBotFilter names bot.id (lookup bot.id s.current) tag :=
      fun uses => missing (allowed.kept tag (orderly.used _ tag uses).1 (counts_of_uses uses))
    rw [insideOf_eq_false isName before]
    exact insideOf_eq_false isName fun uses => missing (allowed.used tag uses)
  · rw [tags]
    intro accepted dimension
    rw [tracked_unlost fun tag _ loses => not_mem_nil loses.2.1]
    constructor
    · rintro (old | ⟨tag, _, isTag, inside, _⟩)
      · exact allowed.defining accepted dimension old
      · exact ⟨tag, isTag, inside⟩
    · rintro ⟨tag, isTag, inside⟩
      have there := allowed.used tag (.inl ⟨accepted, isTag, List.ne_nil_of_mem inside⟩)
      exact .inr ⟨tag, there, isTag, inside, not_mem_nil⟩

/-! #### Bots that are updated -/

theorem lookup_updated (s : Session) (update : BotIndexUpdate) (id : JsString) :
    lookup id (currentAfter s.current (.updateBot update)) =
      if id = update.bot.id then some update.bot else lookup id s.current :=
  lookup_assign _ _ _ _

theorem orderly_update (orderly : Orderly texts dimensionTags dimensionBotFilter names s)
    (allowed : UpdateAllowed texts dimensionTags dimensionBotFilter names
      (lookup update.bot.id s.current) update.bot update.tags) :
    Orderly texts dimensionTags dimensionBotFilter names (s.change texts (.updateBot update)) := by
  refine ⟨inv_change orderly.inv _, fun id tag counts listed => ?_, fun id tag uses => ?_,
    fun id dimension defines => ?_⟩
  · rw [listed_updateBot orderly.inv] at listed
    rw [Session.change, lookup_updated]
    split
    · next own =>
        subst own
        by_cases named : tag ∈ update.tags
        · rw [if_pos ⟨rfl, named⟩] at listed
          exact allowed.valued tag named counts listed
        · rw [if_neg fun both => named both.2] at listed
          exact allowed.kept tag named counts (orderly.carried _ tag counts listed)
    · next apart =>
        rw [if_neg fun own => apart own.1] at listed
        exact orderly.carried id tag counts listed
  · rw [listed_updateBot orderly.inv]
    rw [Session.change, lookup_updated] at uses ⊢
    split at uses
    · next own =>
        subst own
        rw [if_pos rfl]
        by_cases named : tag ∈ update.tags
        · have valued := valued_of_uses uses
          rw [if_pos ⟨rfl, named⟩]
          exact ⟨allowed.valued tag named (counts_of_uses uses) valued, valued⟩
        · rw [if_neg fun both => named both.2]
          have before : Uses texts dimensionTags dimensionBotFilter names update.bot.id
              (lookup update.bot.id s.current) tag := by
            refine uses.imp (fun defines => ⟨defines.1, defines.2.1, ?_⟩) (fun inside => ⟨inside.1, ?_⟩)
            · rw [← allowed.dimensions defines.1 tag named defines.2.1]
              exact defines.2.2
            · rw [← allowed.inside tag named inside.1]
              exact inside.2
          obtain ⟨carried, listed⟩ := orderly.used _ tag before
          exact ⟨allowed.kept tag named (counts_of_uses uses) carried, listed⟩
    · next apart =>
        rw [if_neg apart, if_neg fun own => apart own.1]
        exact orderly.used id tag uses
  · rw [Defines, Session.change, lookup_updated] at defines
    split at defines
    · next own => exact allowed.named (own ▸ defines.1) dimension defines.2
    · exact orderly.named id dimension defines

theorem updateTag_tags (bot : BotValues.Bot) (old : Option BotValues.Bot) (tagMap : TagMap) (tag : JsString) :
    (BotIndex.updateTag texts bot old tagMap tag).2.map eventTag = [tag] := by
  rw [BotIndex.updateTag]
  split
  · split <;> rfl
  · rfl

theorem updateTags_tags (bot : BotValues.Bot) (old : Option BotValues.Bot) (tags : List JsString) (tagMap : TagMap) :
    (each (BotIndex.updateTag texts bot old) tagMap tags).2.map eventTag = tags := by
  induction tags generalizing tagMap with
  | nil => rfl
  | cons tag rest ih => rw [each, List.map_append, updateTag_tags, ih, List.singleton_append]

/-- The list of a tag that is told of later was the same before, or had the bot removed. -/
theorem mem_updateTag (bot : BotValues.Bot) (old : Option BotValues.Bot) (tagMap : TagMap) (tag key : JsString) :
    bot.id ∈ botList (BotIndex.updateTag texts bot old tagMap tag).1 key ↔
      if key = tag then (calculateBotValue texts bot tag).hasValue = true else bot.id ∈ botList tagMap key := by
  rw [BotIndex.updateTag]
  split
  · next valued =>
      split
      · next inside =>
          split
          · next same => exact iff_of_true (same ▸ inside) valued
          · exact Iff.rfl
      · rw [mem_addId]
        split
        · next same => exact iff_of_true (.inl ⟨rfl, same⟩) valued
        · next apart => exact or_iff_right fun both => apart both.2
  · next unvalued =>
      rw [mem_deleteId]
      split
      · next same => exact iff_of_false (fun kept => kept.2 ⟨rfl, same⟩) unvalued
      · next apart => exact and_iff_left fun both => apart both.2

/-- A tag is told of as its list was before the update, unless it is named twice. -/
inductive Tells (texts : Texts) (bot : BotValues.Bot) (old : Option BotValues.Bot) (tagMap : TagMap)
    (tags : List JsString) : BotIndexEvent → Prop where
  | added (tag : JsString) : (calculateBotValue texts bot tag).hasValue = true → bot.id ∉ botList tagMap tag →
      Tells texts bot old tagMap tags (.tagAdded bot tag)
  | updated (tag : JsString) : tag ∈ tags → bot.id ∈ botList tagMap tag ∨ ¬ tags.Nodup →
      Tells texts bot old tagMap tags (.tagUpdated bot old tag)
  | removed (tag : JsString) : ¬ (calculateBotValue texts bot tag).hasValue = true →
      Tells texts bot old tagMap tags (.tagRemoved bot old tag)

theorem updateTag_tells (bot : BotValues.Bot) (old : Option BotValues.Bot) (tagMap : TagMap) (tag : JsString)
    (rest : List JsString) (event : BotIndexEvent) (member : event ∈ (BotIndex.updateTag texts bot old tagMap tag).2) :
    Tells texts bot old tagMap (tag :: rest) event := by
  rw [BotIndex.updateTag] at member
  split at member
  · next valued =>
      split at member
      · next inside =>
          rw [mem_singleton.mp member]
          exact .updated tag List.mem_cons_self (.inl inside)
      · next absent =>
          rw [mem_singleton.mp member]
          exact .added tag valued absent
  · next unvalued =>
      rw [mem_singleton.mp member]
      exact .removed tag unvalued

theorem updateTags_tells (bot : BotValues.Bot) (old : Option BotValues.Bot) (tags : List JsString) (tagMap : TagMap)
    (event : BotIndexEvent) (member : event ∈ (each (BotIndex.updateTag texts bot old) tagMap tags).2) :
    Tells texts bot old tagMap tags event := by
  induction tags generalizing tagMap with
  | nil => cases member
  | cons tag rest ih =>
    rw [each, List.mem_append] at member
    rcases member with now | later
    · exact updateTag_tells bot old tagMap tag rest event now
    · cases ih _ later with
      | added key valued absent =>
        rw [mem_updateTag] at absent
        split at absent
        · next same => exact absurd (same ▸ valued) absent
        · exact .added key valued absent
      | updated key named inside =>
        refine .updated key (List.mem_cons_of_mem tag named) ?_
        rw [List.nodup_cons, not_and_or, not_not]
        rcases inside with inside | twice
        · rw [mem_updateTag] at inside
          split at inside
          · next same => exact .inr (.inl (same ▸ named))
          · exact .inl inside
        · exact .inr (.inr twice)
      | removed key unvalued => exact .removed key unvalued

theorem told_of_tells (orderly : Orderly texts dimensionTags dimensionBotFilter names s)
    (once : lookup update.bot.id s.current = none → update.tags.Nodup) {event : BotIndexEvent}
    (tells : Tells texts update.bot (lookup update.bot.id s.current) s.index.tagMap update.tags event) :
    Told texts dimensionTags dimensionBotFilter
      { id := update.bot.id, before := lookup update.bot.id s.current, after := some update.bot } event := by
  cases tells with
  | added tag valued absent =>
    refine ⟨rfl, fun accepted isTag => ?_, rfl, rfl, fun _ => ⟨_, rfl, fun _ _ => rfl⟩⟩
    have unused : ¬ Uses texts dimensionTags dimensionBotFilter names update.bot.id
        (lookup update.bot.id s.current) tag :=
      fun uses => absent (orderly.used _ tag uses).2
    exact congrArg some (dimensionsOf_eq_nil accepted isTag unused).symm
  | updated tag named inside =>
    cases found : lookup update.bot.id s.current with
    | some old => exact ⟨rfl, fun _ _ => rfl, rfl, rfl, fun _ => ⟨_, rfl, fun _ _ => rfl⟩⟩
    | none =>
      have uncounted : ¬ Counts dimensionTags names tag := by
        intro counts
        rcases inside with listed | twice
        · have carried := orderly.carried update.bot.id tag counts listed
          rw [found] at carried
          cases carried
        · exact twice (once found)
      exact ⟨rfl, fun _ isTag => absurd (.inl isTag) uncounted, rfl, rfl,
        fun isPortal => absurd (.inr (.inr isPortal)) uncounted⟩
  | removed tag unvalued =>
    refine ⟨rfl, fun _ _ => ?_, (calculateDimensions_unvalued unvalued).symm,
      (isBotInDimension_unvalued unvalued).symm, ?_⟩
    · cases found : lookup update.bot.id s.current with
      | some old => rfl
      | none => exact congrArg some (calculateDimensions_unvalued unvalued)
    · rintro rfl
      refine ⟨_, rfl, fun dimension member => ?_⟩
      rw [portalOf_unvalued unvalued] at member
      cases member

theorem turned_update (orderly : Orderly texts dimensionTags dimensionBotFilter names s)
    (allowed : UpdateAllowed texts dimensionTags dimensionBotFilter names
      (lookup update.bot.id s.current) update.bot update.tags) :
    Turned texts dimensionTags dimensionBotFilter names s (.updateBot update)
      { id := update.bot.id, before := lookup update.bot.id s.current, after := some update.bot } := by
  have tags : (applyChange texts s.index (.updateBot update)).2.map eventTag = update.tags := updateTags_tags _ _ _ _
  refine ⟨rfl, ?_, ?_, ?_, ?_⟩
  · rw [lookup_updated, if_pos rfl]
  · intro event member
    have tells := updateTags_tells _ _ _ _ event member
    rw [orderly.inv.bots] at tells
    exact told_of_tells orderly allowed.once tells
  · rw [tags]
    exact allowed.inside
  · rw [tags]
    intro accepted dimension
    refine tracked_iff (allowed.dimensions accepted) ?_ Iff.rfl
    intro defined before tag after same loses
    exact allowed.moved accepted before tag after same dimension loses defined

/-! #### Bots that are removed -/

theorem lookup_removed (s : Session) (botId id : JsString) :
    lookup id (currentAfter s.current (.removeBot botId)) = if id = botId then none else lookup id s.current :=
  lookup_remove _ _ _

theorem orderly_remove (orderly : Orderly texts dimensionTags dimensionBotFilter names s) (botId : JsString) :
    Orderly texts dimensionTags dimensionBotFilter names (s.change texts (.removeBot botId)) := by
  refine ⟨inv_change orderly.inv _, fun id tag counts listed => ?_, fun id tag uses => ?_,
    fun id dimension defines => ?_⟩
  · rw [listed_removeBot orderly.inv] at listed
    have carried := orderly.carried id tag counts listed.1
    rw [Session.change, lookup_removed]
    split
    · next own =>
        subst own
        cases found : lookup id s.current with
        | none =>
          rw [found] at carried
          exact carried
        | some bot =>
          rw [found] at carried
          exact absurd ⟨rfl, bot, found, carried⟩ listed.2
    · exact carried
  · rw [listed_removeBot orderly.inv]
    rw [Session.change, lookup_removed] at uses ⊢
    split at uses
    · exact absurd uses (not_uses_none id tag)
    · next apart =>
        rw [if_neg apart]
        exact (orderly.used id tag uses).imp_right fun listed => ⟨listed, fun own => apart own.1⟩
  · rw [Defines, Session.change, lookup_removed] at defines
    split at defines
    · obtain ⟨_, tag, _, inside⟩ := defines
      cases inside
    · exact orderly.named id dimension defines

theorem told_removed (bot : BotValues.Bot) (tag : JsString) :
    Told texts dimensionTags dimensionBotFilter { id := bot.id, before := some bot, after := none }
      (.tagRemoved bot (some bot) tag) where
  id := rfl
  previous _ _ := rfl
  current := rfl
  inside := rfl
  portal _ := ⟨portalOf texts bot, rfl, fun _ _ => rfl⟩

theorem turned_remove (orderly : Orderly texts dimensionTags dimensionBotFilter names s) (botId : JsString) :
    Turned texts dimensionTags dimensionBotFilter names s (.removeBot botId)
      { id := botId, before := lookup botId s.current, after := none } := by
  have gone : lookup botId (currentAfter s.current (.removeBot botId)) = none := by rw [lookup_removed, if_pos rfl]
  cases found : lookup botId s.current with
  | none =>
    have silent : (applyChange texts s.index (.removeBot botId)).2 = [] := by
      rw [applyChange, BotIndex.removeBot, orderly.inv.bots, found]
    refine ⟨rfl, gone, ?_, fun tag _ _ => by rw [found], fun _ dimension => ?_⟩
    · rw [silent]
      intro event member
      cases member
    · rw [silent, found]
      exact Iff.rfl
  | some bot =>
    have isId := orderly.inv.ids botId bot found
    subst isId
    have events : (applyChange texts s.index (.removeBot bot.id)).2 =
        (BotValues.tagsOnBot bot).map (.tagRemoved bot (some bot)) := by
      rw [applyChange, BotIndex.removeBot, orderly.inv.bots, found]
    have tags : ((BotValues.tagsOnBot bot).map (BotIndexEvent.tagRemoved bot (some bot))).map eventTag =
        BotValues.tagsOnBot bot := by
      rw [List.map_map]
      exact List.map_id _
    have unused : ∀ tag ∉ BotValues.tagsOnBot bot,
        ¬ Uses texts dimensionTags dimensionBotFilter names bot.id (some bot) tag := by
      intro tag missing uses
      rw [← found] at uses
      have carried := (orderly.used bot.id tag uses).1
      rw [found] at carried
      exact missing carried
    refine ⟨rfl, gone, ?_, ?_, ?_⟩
    · rw [events]
      intro event member
      obtain ⟨tag, _, rfl⟩ := mem_map.mp member
      exact told_removed bot tag
    · rw [events, tags, found]
      exact fun tag missing isName => (insideOf_eq_false isName (unused tag missing)).symm
    · rw [events, tags, found]
      intro accepted dimension
      refine tracked_iff ?_ ?_ Iff.rfl
      · exact fun tag missing isTag => (dimensionsOf_eq_nil accepted isTag (unused tag missing)).symm
      · rintro ⟨tag, _, inside⟩
        cases inside

/-! ### Batches -/

variable {first : Followed} {last : JsString → JsString → Prop} {batch : Batch} {index : BotIndex}

/-- A change in the middle of a batch. -/
def MidOf (texts : Texts) (dimensionTags : List JsString) (dimensionBotFilter : JsString → Bool) (first : Followed)
    (last : JsString → JsString → Prop) (s : Session) (batch : Batch) : Prop :=
  Mid first (Defines texts dimensionTags dimensionBotFilter s.current) last (InDimension texts s.current)
    (fun id dimension => last id dimension ∨ InDimension texts s.current id dimension) batch

theorem mid_change (finds : Finds texts names index last) {change : TagIndex.Change} {turn : Turn}
    (turned : Turned texts dimensionTags dimensionBotFilter names s change turn)
    (orderlyNext : Orderly texts dimensionTags dimensionBotFilter names (s.change texts change))
    (mid : MidOf texts dimensionTags dimensionBotFilter first last s batch) :
    ∃ next, (applyChange texts s.index change).2.foldlM
      (processEvent texts dimensionTags dimensionBotFilter index) batch =
        some next ∧ MidOf texts dimensionTags dimensionBotFilter first last (s.change texts change) next := by
  have after : lookup turn.id (s.change texts change).current = turn.after := turned.after
  have elsewhere : ∀ id, id ≠ turn.id → lookup id (s.change texts change).current = lookup id s.current := by
    intro id apart
    exact current_change change id (turned.id ▸ apart)
  have isAfter : ∀ dimension, InDimension texts (s.change texts change).current turn.id dimension ↔
      insideOf texts turn.after dimension = true := by
    intro dimension
    rw [InDimension, after]
  have named : dimensionBotFilter turn.id = true → ∀ dimension, DefinedBy texts dimensionTags turn.after dimension →
      names dimension := by
    intro accepted dimension defined
    refine orderlyNext.named turn.id dimension ⟨accepted, ?_⟩
    rw [after]
    exact defined
  have start : Mid first (Defines texts dimensionTags dimensionBotFilter s.current) last
      (lowest turn.id (InDimension texts s.current) (InDimension texts (s.change texts change).current) [])
      (highest turn.id (InDimension texts s.current) (InDimension texts (s.change texts change).current) last [])
      batch := by
    refine mid.weaken (fun _ _ => Iff.rfl) ?_ ?_
    · rintro id dimension _ ⟨_, old | ⟨_, member⟩⟩
      · exact old
      · cases member
    · rintro id dimension _ (isLast | old)
      · exact .inl isLast
      · exact .inr (.inr ⟨old, fun own => not_mem_nil own.2⟩)
  obtain ⟨next, ran, midNext⟩ := mid_events finds named isAfter _ turned.told start
  rw [List.append_nil] at midNext
  have defines : ∀ id dimension, definesAfter texts dimensionTags dimensionBotFilter turn
      ((applyChange texts s.index change).2.map eventTag) (Defines texts dimensionTags dimensionBotFilter s.current)
        id dimension ↔ Defines texts dimensionTags dimensionBotFilter (s.change texts change).current id dimension := by
    intro id dimension
    rw [definesAfter]
    split
    · next own =>
        obtain ⟨rfl, accepted⟩ := own
        have held : Defines texts dimensionTags dimensionBotFilter s.current turn.id dimension ↔
            DefinedBy texts dimensionTags (lookup turn.id s.current) dimension := and_iff_right accepted
        rw [propext held, turned.defining accepted dimension, Defines, after, and_iff_right accepted]
    · next apart =>
        rw [Defines, Defines]
        refine and_congr_right fun accepted => ?_
        rw [elsewhere id fun own => apart ⟨own, accepted⟩]
  have untold : ∀ id dimension, names dimension →
      ¬ (id = turn.id ∧ dimension ∈ (applyChange texts s.index change).2.map eventTag) →
        (InDimension texts (s.change texts change).current id dimension ↔
          InDimension texts s.current id dimension) := by
    intro id dimension isName apart
    by_cases own : id = turn.id
    · subst own
      rw [isAfter, turned.inside dimension (fun member => apart ⟨rfl, member⟩) isName, InDimension]
    · rw [InDimension, elsewhere id own, InDimension]
  have isName : ∀ dimension, (∃ id, definesAfter texts dimensionTags dimensionBotFilter turn
      ((applyChange texts s.index change).2.map eventTag) (Defines texts dimensionTags dimensionBotFilter s.current)
        id dimension) → names dimension := by
    rintro dimension ⟨id, defined⟩
    exact orderlyNext.named id dimension ((defines id dimension).mp defined)
  refine ⟨next, ran, midNext.weaken defines ?_ ?_⟩
  · intro id dimension defined isIn
    refine ⟨isIn, ?_⟩
    by_cases told : id = turn.id ∧ dimension ∈ (applyChange texts s.index change).2.map eventTag
    · exact .inr ⟨told.1, List.mem_reverse.mpr told.2⟩
    · exact .inl ((untold id dimension (isName dimension defined) told).mp isIn)
  · rintro id dimension defined (isLast | isIn | ⟨old, other⟩)
    · exact .inl isLast
    · exact .inr isIn
    · refine .inr ((untold id dimension (isName dimension defined) fun told => other ⟨told.1, ?_⟩).mpr old)
      exact List.mem_reverse.mpr told.2

theorem orderly_change (orderly : Orderly texts dimensionTags dimensionBotFilter names s) {change : TagIndex.Change}
    (allowed : AllowedChange texts dimensionTags dimensionBotFilter names s change) :
    Orderly texts dimensionTags dimensionBotFilter names (s.change texts change) ∧
      ∃ turn, Turned texts dimensionTags dimensionBotFilter names s change turn := by
  cases change with
  | addBot bot => exact ⟨orderly_add orderly allowed, _, turned_add orderly allowed⟩
  | updateBot update => exact ⟨orderly_update orderly allowed, _, turned_update orderly allowed⟩
  | removeBot botId => exact ⟨orderly_remove orderly botId, _, turned_remove orderly botId⟩

theorem orderly_changes (orderly : Orderly texts dimensionTags dimensionBotFilter names s)
    (changes : List TagIndex.Change)
    (allowed : AllAllowed (fun s change => some (Session.change texts s change))
      (AllowedChange texts dimensionTags dimensionBotFilter names) s changes) :
    Orderly texts dimensionTags dimensionBotFilter names (changes.foldl (Session.change texts) s) := by
  induction changes generalizing s with
  | nil => exact orderly
  | cons change rest ih => exact ih (orderly_change orderly allowed.1).1 (allowed.2 _ rfl)

theorem mid_changes (finds : Finds texts names index last) (changes : List TagIndex.Change)
    (allowed : AllAllowed (fun s change => some (Session.change texts s change))
      (AllowedChange texts dimensionTags dimensionBotFilter names) s changes)
    (orderly : Orderly texts dimensionTags dimensionBotFilter names s)
    (mid : MidOf texts dimensionTags dimensionBotFilter first last s batch) :
    ∃ next, (each (applyChange texts) s.index changes).2.foldlM
        (processEvent texts dimensionTags dimensionBotFilter index) batch = some next ∧
      MidOf texts dimensionTags dimensionBotFilter first last (changes.foldl (Session.change texts) s) next := by
  induction changes generalizing s batch with
  | nil => exact ⟨batch, rfl, mid⟩
  | cons change rest ih =>
    obtain ⟨orderlyNext, turn, turned⟩ := orderly_change orderly allowed.1
    obtain ⟨middle, ran, midNext⟩ := mid_change finds turned orderlyNext mid
    obtain ⟨next, later, midLast⟩ := ih (allowed.2 _ rfl) orderlyNext midNext
    refine ⟨next, ?_, midLast⟩
    rw [each, List.foldlM_append, ran]
    exact later

theorem mem_botsInDimension {dimension : JsString} {existing : List BotValues.Bot}
    (found : botsInDimension texts index dimension = some existing) (bot : BotValues.Bot) :
    bot ∈ existing ↔ isBotInDimension texts bot dimension = true ∧
      ∃ id, (id ∈ botList index.tagMap gridPortal ∨ id ∈ botList index.tagMap dimension) ∧
        lookup id index.botMap = some bot := by
  rw [botsInDimension] at found
  split at found
  · cases found
  · obtain rfl := Option.some.inj found
    rw [List.mem_filter, List.mem_filterMap, and_comm]
    simp

theorem finds_of_orderly (orderly : Orderly texts dimensionTags dimensionBotFilter names s) :
    Finds texts names s.index (InDimension texts s.current) := by
  intro dimension isName
  have there : ∀ tag, Counts dimensionTags names tag → ∀ id ∈ botList s.index.tagMap tag,
      (lookup id s.index.botMap).isNone = false := by
    intro tag counts id listed
    have carried := orderly.carried id tag counts listed
    rw [orderly.inv.bots]
    cases found : lookup id s.current with
    | none =>
      rw [found] at carried
      cases carried
    | some bot => rfl
  have all : (((botList s.index.tagMap gridPortal ++ botList s.index.tagMap dimension).eraseDups).map fun id =>
      lookup id s.index.botMap).any Option.isNone = false := by
    rw [List.any_eq_false]
    intro found member
    obtain ⟨id, listed, rfl⟩ := mem_map.mp member
    rw [List.mem_eraseDups, List.mem_append] at listed
    rw [Bool.not_eq_true]
    exact listed.elim (there _ (.inr (.inr rfl)) id) (there _ (.inr (.inl isName)) id)
  have asked : ∃ existing, botsInDimension texts s.index dimension = some existing := by
    rw [botsInDimension, all, Bool.and_false, if_neg Bool.false_ne_true]
    exact ⟨_, rfl⟩
  obtain ⟨existing, found⟩ := asked
  refine ⟨existing, found, fun id => ?_⟩
  constructor
  · rintro ⟨bot, member, rfl⟩
    obtain ⟨isIn, id, _, isBot⟩ := (mem_botsInDimension found bot).mp member
    rw [orderly.inv.bots] at isBot
    rw [InDimension, orderly.inv.ids id bot isBot, isBot]
    exact isIn
  · intro inside
    have listed := (orderly.used id dimension (.inr ⟨isName, inside⟩)).2
    rw [InDimension] at inside
    cases isBot : lookup id s.current with
    | none =>
      rw [isBot] at inside
      cases inside
    | some bot =>
      rw [isBot] at inside
      refine ⟨bot, (mem_botsInDimension found bot).mpr ⟨inside, id, .inr listed, ?_⟩, orderly.inv.ids id bot isBot⟩
      rw [orderly.inv.bots]
      exact isBot

/-- What holds between batches. -/
structure Kept (texts : Texts) (dimensionTags : List JsString) (dimensionBotFilter : JsString → Bool)
    (names : JsString → Prop) (w : World) : Prop where
  orderly : Orderly texts dimensionTags dimensionBotFilter names w.session
  defined : ∀ id dimension, id ∈ botList w.dims.dimensions dimension ↔
    Defines texts dimensionTags dimensionBotFilter w.session.current id dimension
  filled : ∀ dimension, Has w.dims.dimensions dimension → ∃ id, id ∈ botList w.dims.dimensions dimension
  present : ∀ dimension, Has w.dims.dimensions dimension → Has w.dims.botsInDimensions dimension
  absent : ∀ dimension, ¬ Has w.dims.dimensions dimension → ∀ id, id ∉ botList w.dims.botsInDimensions dimension
  members : ∀ dimension, Has w.dims.dimensions dimension → ∀ id,
    id ∈ botList w.dims.botsInDimensions dimension ↔ InDimension texts w.session.current id dimension
  defining : ∀ id dimension, (dimension, id) ∈ w.followed.defining ↔ id ∈ botList w.dims.dimensions dimension
  inside : ∀ id dimension, (dimension, id) ∈ w.followed.inside ↔ id ∈ botList w.dims.botsInDimensions dimension

variable {w : World}

theorem Kept.exact (kept : Kept texts dimensionTags dimensionBotFilter names w) :
    Exact texts dimensionTags dimensionBotFilter w where
  defined dimension id := kept.defined id dimension
  filled dimension ids found := by
    rintro rfl
    obtain ⟨id, inside⟩ := kept.filled dimension (by rw [Has, found]; rfl)
    rw [botList, found] at inside
    cases inside
  inside := kept.members
  defining dimension id := kept.defining id dimension
  followed dimension _ id := kept.inside id dimension

theorem kept_start : Kept texts dimensionTags dimensionBotFilter names World.start where
  orderly := orderly_start
  defined id dimension := by simp [World.start, Session.start, botList, lookup, Defines, DefinedBy, dimensionsOf]
  filled dimension there := by simp [World.start, Has, lookup] at there
  present dimension there := by simp [World.start, Has, lookup] at there
  absent dimension _ id := by simp [World.start, botList, lookup]
  members dimension there := by simp [World.start, Has, lookup] at there
  defining id dimension := by simp [World.start, botList, lookup]
  inside id dimension := by simp [World.start, botList, lookup]

theorem mem_keys_iff (sets : TagMap) (key : JsString) : key ∈ (Copied.copy sets).keys ↔ Has sets key := by
  rw [Has, Option.isSome_iff_ne_none, Ne, lookup_eq_none_iff, not_not]
  rfl

theorem Kept.mid (kept : Kept texts dimensionTags dimensionBotFilter names w) (last : JsString → JsString → Prop) :
    MidOf texts dimensionTags dimensionBotFilter w.followed last w.session
      { dimensions := .copy w.dims.dimensions, botsInDimensions := .copy w.dims.botsInDimensions, events := [] } where
  defined := kept.defined
  filled := kept.filled
  present := kept.present
  absent := kept.absent
  shared dimension own := by
    have there := (mem_keys_iff _ _).mp own
    exact ⟨there, (mem_keys_iff _ _).mpr (kept.present dimension there), fun _ => Iff.rfl, fun _ => Iff.rfl⟩
  gone dimension own id := by
    have absent := fun there => own ((mem_keys_iff _ _).mpr there)
    rw [Copied.copy, botList_of_not_has absent]
    exact not_mem_nil
  fresh dimension own there := absurd ((mem_keys_iff _ _).mpr there) own
  above dimension own id isIn := (kept.members dimension ((mem_keys_iff _ _).mp own) id).mpr isIn
  below dimension own id inside := .inr ((kept.members dimension ((mem_keys_iff _ _).mp own) id).mp inside)
  defining := kept.defining
  inside := kept.inside

theorem kept_of_mid {s : Session} {next : Batch} (orderly : Orderly texts dimensionTags dimensionBotFilter names s)
    (mid : MidOf texts dimensionTags dimensionBotFilter first (InDimension texts s.current) s next) :
    Kept texts dimensionTags dimensionBotFilter names
      { session := s
        dims := { dimensions := next.dimensions.next, botsInDimensions := next.botsInDimensions.next }
        followed := next.events.foldl follow first } where
  orderly := orderly
  defined := mid.defined
  filled := mid.filled
  present := mid.present
  absent := mid.absent
  members dimension there id := by
    by_cases own : dimension ∈ next.dimensions.keys
    · constructor
      · intro inside
        exact (mid.below dimension own id inside).elim (fun isIn => isIn) (fun isIn => isIn)
      · exact mid.above dimension own id
    · exact mid.fresh dimension own there id
  defining := mid.defining
  inside := mid.inside

/-! ### Runs -/

theorem each_append {S X : Type} (one : S → X → S × List BotIndexEvent) (state : S) (front back : List X) :
    each one state (front ++ back) = ((each one (each one state front).1 back).1,
      (each one state front).2 ++ (each one (each one state front).1 back).2) := by
  induction front generalizing state with
  | nil => rfl
  | cons item rest ih => simp only [List.cons_append, each, ih, List.append_assoc]

theorem each_map {S X Y : Type} (one : S → Y → S × List BotIndexEvent) (wrap : X → Y) (state : S) (items : List X) :
    each one state (items.map wrap) = each (fun state item => one state (wrap item)) state items := by
  induction items generalizing state with
  | nil => rfl
  | cons item rest ih => simp only [List.map_cons, each, ih]

theorem applyCall_eq (call : TagIndex.Call) (index : BotIndex) :
    applyCall texts index call = each (applyChange texts) index call.changes := by
  cases call with
  | addBots bots => exact (each_map (applyChange texts) TagIndex.Change.addBot index bots).symm
  | updateBots updates => exact (each_map (applyChange texts) TagIndex.Change.updateBot index updates).symm
  | removeBots botIds => exact (each_map (applyChange texts) TagIndex.Change.removeBot index botIds).symm

theorem each_calls (calls : List TagIndex.Call) (index : BotIndex) :
    each (applyCall texts) index calls = each (applyChange texts) index (calls.flatMap TagIndex.Call.changes) := by
  induction calls generalizing index with
  | nil => rfl
  | cons call rest ih => simp only [List.flatMap_cons, each_append, each, applyCall_eq, ih]

theorem foldl_changes (changes : List TagIndex.Change) (s : Session) : changes.foldl (Session.change texts) s =
      { index := (each (applyChange texts) s.index changes).1
        pairs := (each (applyChange texts) s.index changes).2.foldl TagIndex.follow s.pairs
        current := changes.foldl currentAfter s.current } := by
  have run := @each_changes texts TagIndex.Change (applyChange texts) (fun change => change) (fun _ _ => rfl) changes s
  rw [List.map_id'] at run
  exact run

theorem step_eq (w : World) (calls : List TagIndex.Call) : w.step texts dimensionTags dimensionBotFilter calls =
      ((each (applyChange texts) w.session.index (calls.flatMap TagIndex.Call.changes)).2.foldlM
        (processEvent texts dimensionTags dimensionBotFilter
          ((calls.flatMap TagIndex.Call.changes).foldl (Session.change texts) w.session).index)
        { dimensions := .copy w.dims.dimensions, botsInDimensions := .copy w.dims.botsInDimensions, events := [] }).map
        fun next =>
          { session := (calls.flatMap TagIndex.Call.changes).foldl (Session.change texts) w.session
            dims := { dimensions := next.dimensions.next, botsInDimensions := next.botsInDimensions.next }
            followed := next.events.foldl follow w.followed } := by
  rw [World.step, each_calls, foldl_changes]
  dsimp only
  split
  · next silent =>
      rw [List.isEmpty_iff.mp silent]
      rfl
  · rw [processIndexEvents, Option.map_map]
    rfl

theorem kept_step (kept : Kept texts dimensionTags dimensionBotFilter names w) {calls : List TagIndex.Call}
    (allowed : Allowed texts dimensionTags dimensionBotFilter names w calls) :
    ∃ next, w.step texts dimensionTags dimensionBotFilter calls = some next ∧
      Kept texts dimensionTags dimensionBotFilter names next := by
  have orderly := orderly_changes kept.orderly (calls.flatMap TagIndex.Call.changes) allowed
  obtain ⟨next, ran, mid⟩ := mid_changes (finds_of_orderly orderly) (calls.flatMap TagIndex.Call.changes) allowed
    kept.orderly (kept.mid _)
  refine ⟨_, ?_, kept_of_mid orderly mid⟩
  rw [step_eq, ran]
  rfl

theorem runs_through (batches : List (List TagIndex.Call)) (kept : Kept texts dimensionTags dimensionBotFilter names w)
    (allowed : AllAllowed (World.step texts dimensionTags dimensionBotFilter)
      (Allowed texts dimensionTags dimensionBotFilter names) w batches) :
    (runAll (World.step texts dimensionTags dimensionBotFilter) w batches).isSome = true := by
  induction batches generalizing w with
  | nil => rfl
  | cons calls rest ih =>
    obtain ⟨next, ran, keptNext⟩ := kept_step kept allowed.1
    rw [runAll_cons, ran]
    exact ih keptNext (allowed.2 next ran)

end Changes

/-! A bot gives a dimension to a later tag. -/

def firstTag : Tags := [([116], .json (.string [68])), ([68], .json (.boolean true))]

def laterTag : Tags := [([117], .json (.string [68])), ([68], .json (.boolean true))]

def moving : List (List TagIndex.Call) :=
  [[.addBots [withTags firstTag]], [.updateBots [{ bot := withTags laterTag, tags := [[116], [117]] }]]]

theorem first_allowed : AddAllowed asciiTexts [[116], [117]] (fun _ => true) (fun name => name = [68]) none
    (withTags firstTag) where
  used tag uses := by
    rcases uses with ⟨_, isTag, defines⟩ | ⟨rfl, _⟩
    · simp only [mem_cons, not_mem_nil, or_false] at isTag
      rcases isTag with rfl | rfl
      · decide
      · exact absurd rfl defines
    · decide
  kept tag member := by cases member
  defining _ dimension defined := by
    obtain ⟨tag, _, inside⟩ := defined
    cases inside
  named _ dimension defined := by
    obtain ⟨tag, isTag, inside⟩ := defined
    simp only [mem_cons, not_mem_nil, or_false] at isTag
    rcases isTag with rfl | rfl
    · exact mem_singleton.mp inside
    · cases inside

theorem later_allowed : UpdateAllowed asciiTexts [[116], [117]] (fun _ => true) (fun name => name = [68])
    (some (withTags firstTag)) (withTags laterTag) [[116], [117]] where
  valued tag member := by
    simp only [mem_cons, not_mem_nil, or_false] at member
    rcases member with rfl | rfl
    · intro _ valued
      cases valued
    · exact fun _ _ => by decide
  kept tag unnamed _ carried := by
    have carried' : tag ∈ [[116], [68]] := carried
    simp only [mem_cons, not_mem_nil, or_false] at carried' unnamed
    rcases carried' with rfl | rfl
    · exact absurd (.inl rfl) unnamed
    · decide
  dimensions _ tag unnamed isTag := absurd isTag unnamed
  inside tag _ isName := by
    subst isName
    rfl
  moved _ before tag after same dimension loses _ := by
    have member : tag ∈ [[116], [117]] := by
      rw [same]
      simp
    simp only [mem_cons, not_mem_nil, or_false] at member
    rcases member with rfl | rfl
    · have isDimension : dimension = [68] := mem_singleton.mp loses.2.1
      subst isDimension
      have onward : after = [[117]] := by
        cases before with
        | nil => exact (List.cons.inj same).2.symm
        | cons tag rest =>
          have inside : ([116] : JsString) ∈ ([[117]] : List JsString) := by
            rw [(List.cons.inj same).2]
            simp
          cases mem_singleton.mp inside
      rw [onward]
      exact ⟨[117], List.mem_singleton_self _, by decide, List.mem_singleton_self _, not_mem_nil⟩
    · cases loses.2.1
  once := by simp
  named _ dimension defined := by
    obtain ⟨tag, isTag, inside⟩ := defined
    simp only [mem_cons, not_mem_nil, or_false] at isTag
    rcases isTag with rfl | rfl
    · cases inside
    · exact mem_singleton.mp inside

def twice : Tags := [([116], .json (.string [68])), ([117], .json (.string [68]))]

def once : Tags := [([117], .json (.string [68]))]

def losingOne : List (List TagIndex.Call) :=
  [[.addBots [withTags twice]], [.updateBots [{ bot := withTags once, tags := [[116]] }]]]

end CasualOS.DimensionTracking
