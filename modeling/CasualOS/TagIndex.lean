import CasualOS.BotValues
import CasualOS.Lib.Run

/-! The index of bots by their tags, the events that it sends, and an index that is built anew. -/

namespace CasualOS.TagIndex

open OrderedMap AuxRuntime BotValues Run
open List (foldl_cons map_cons mem_cons mem_map mem_singleton)
open Option (some)

abbrev TagMap := List (JsString × List JsString)

structure BotIndex where
  tagMap : TagMap
  botMap : List (JsString × BotValues.Bot)

inductive BotIndexEvent where
  | tagAdded (bot : BotValues.Bot) (tag : JsString)
  | tagRemoved (bot : BotValues.Bot) (oldBot : Option BotValues.Bot) (tag : JsString)
  | tagUpdated (bot : BotValues.Bot) (oldBot : Option BotValues.Bot) (tag : JsString)

structure BotIndexUpdate where
  bot : BotValues.Bot
  tags : List JsString

def each {S X : Type} (one : S → X → S × List BotIndexEvent) : S → List X → S × List BotIndexEvent
  | state, [] => (state, [])
  | state, item :: rest =>
    let (next, events) := one state item
    let (last, more) := each one next rest
    (last, events ++ more)

def botList (tagMap : TagMap) (tag : JsString) : List JsString := (lookup tag tagMap).getD []

def addId (id : JsString) (tagMap : TagMap) (tag : JsString) : TagMap :=
  if id ∈ botList tagMap tag then tagMap else assign tag (botList tagMap tag ++ [id]) tagMap

def deleteId (id : JsString) (tagMap : TagMap) (tag : JsString) : TagMap :=
  assign tag ((botList tagMap tag).filter fun other => other ≠ id) tagMap

namespace BotIndex

def empty : BotIndex := { tagMap := [], botMap := [] }

def findBotsWithTag (index : BotIndex) (tag : JsString) : List (Option BotValues.Bot) :=
  (botList index.tagMap tag).map fun id => lookup id index.botMap

def addBot (index : BotIndex) (bot : BotValues.Bot) : BotIndex × List BotIndexEvent :=
  ({ tagMap := (tagsOnBot bot).foldl (addId bot.id) index.tagMap, botMap := assign bot.id bot index.botMap },
    (tagsOnBot bot).map (.tagAdded bot))

def addBots : BotIndex → List BotValues.Bot → BotIndex × List BotIndexEvent := each addBot

def updateTag (texts : Texts) (bot : BotValues.Bot) (oldBot : Option BotValues.Bot) (tagMap : TagMap)
    (tag : JsString) : TagMap × List BotIndexEvent :=
  if (calculateBotValue texts bot tag).hasValue then
    if bot.id ∈ botList tagMap tag then (tagMap, [.tagUpdated bot oldBot tag])
    else (addId bot.id tagMap tag, [.tagAdded bot tag])
  else (deleteId bot.id tagMap tag, [.tagRemoved bot oldBot tag])

def updateBot (texts : Texts) (index : BotIndex) (update : BotIndexUpdate) : BotIndex × List BotIndexEvent :=
  let (tagMap, events) :=
    each (updateTag texts update.bot (lookup update.bot.id index.botMap)) index.tagMap update.tags
  ({ tagMap := tagMap, botMap := assign update.bot.id update.bot index.botMap }, events)

def updateBots (texts : Texts) : BotIndex → List BotIndexUpdate → BotIndex × List BotIndexEvent :=
  each (updateBot texts)

def removeBot (index : BotIndex) (botId : JsString) : BotIndex × List BotIndexEvent :=
  match lookup botId index.botMap with
  | none => (index, [])
  | some bot =>
    ({ tagMap := (tagsOnBot bot).foldl (deleteId bot.id) index.tagMap, botMap := remove bot.id index.botMap },
      (tagsOnBot bot).map (.tagRemoved bot (some bot)))

def removeBots : BotIndex → List JsString → BotIndex × List BotIndexEvent := each removeBot

end BotIndex

/-! ### Calls -/

/-- What a call does to one bot. -/
inductive Change where
  | addBot (bot : BotValues.Bot)
  | updateBot (update : BotIndexUpdate)
  | removeBot (botId : JsString)

def Change.id : Change → JsString
  | .addBot bot => bot.id
  | .updateBot update => update.bot.id
  | .removeBot botId => botId

inductive Call where
  | addBots (bots : List BotValues.Bot)
  | updateBots (updates : List BotIndexUpdate)
  | removeBots (botIds : List JsString)

def Call.changes : Call → List Change
  | .addBots bots => bots.map .addBot
  | .updateBots updates => updates.map .updateBot
  | .removeBots botIds => botIds.map .removeBot

def follow (pairs : List (JsString × JsString)) : BotIndexEvent → List (JsString × JsString)
  | .tagAdded bot tag => (bot.id, tag) :: pairs
  | .tagRemoved bot _ tag => pairs.filter fun pair => pair ≠ (bot.id, tag)
  | .tagUpdated _ _ _ => pairs

/-- The index, what its events add up to, and the bots that there are. -/
structure Session where
  index : BotIndex
  pairs : List (JsString × JsString)
  current : List (JsString × BotValues.Bot)

def Session.start : Session := { index := .empty, pairs := [], current := [] }

def currentAfter (current : List (JsString × BotValues.Bot)) : Change → List (JsString × BotValues.Bot)
  | .addBot bot => assign bot.id bot current
  | .updateBot update => assign update.bot.id update.bot current
  | .removeBot botId => remove botId current

section Steps

variable (texts : Texts)

def applyChange (index : BotIndex) : Change → BotIndex × List BotIndexEvent
  | .addBot bot => index.addBot bot
  | .updateBot update => index.updateBot texts update
  | .removeBot botId => index.removeBot botId

def applyCall (index : BotIndex) : Call → BotIndex × List BotIndexEvent
  | .addBots bots => index.addBots bots
  | .updateBots updates => index.updateBots texts updates
  | .removeBots botIds => index.removeBots botIds

def Session.change (s : Session) (change : Change) : Session where
  index := (applyChange texts s.index change).1
  pairs := (applyChange texts s.index change).2.foldl follow s.pairs
  current := currentAfter s.current change

def Session.step (s : Session) (call : Call) : Option Session :=
  let (index, events) := applyCall texts s.index call
  some { index := index, pairs := events.foldl follow s.pairs, current := call.changes.foldl currentAfter s.current }

end Steps

def Session.rebuilt (s : Session) : BotIndex := (BotIndex.empty.addBots (s.current.map Prod.snd)).1

structure Exact (s : Session) : Prop where
  found : ∀ tag, (s.index.findBotsWithTag tag).Perm (s.rebuilt.findBotsWithTag tag)
  defined : ∀ tag, none ∉ s.index.findBotsWithTag tag
  folded : ∀ id tag, (id, tag) ∈ s.pairs ↔ ∃ bot : BotValues.Bot, bot.id = id ∧ some bot ∈ s.rebuilt.findBotsWithTag tag

/-! ### When the views agree -/

def Carries (s : Session) (id tag : JsString) : Prop :=
  ∃ bot, lookup id s.current = some bot ∧ tag ∈ tagsOnBot bot

/-- An update judges a tag by its value: a tag that it names has a value when the bot has the tag, and a bot gains and
loses no other tag. -/
def Keeps (texts : Texts) (s : Session) : Change → Prop
  | .addBot bot => ∀ tag, Carries s bot.id tag → tag ∈ tagsOnBot bot
  | .updateBot update => ∀ tag,
      tag ∈ tagsOnBot update.bot ↔
        if tag ∈ update.tags then (calculateBotValue texts update.bot tag).hasValue = true
        else Carries s update.bot.id tag
  | .removeBot _ => True

def KeepsAll (texts : Texts) (s : Session) (call : Call) : Prop :=
  AllAllowed (fun s change => some (Session.change texts s change)) (Keeps texts) s call.changes

/-! ### Lists of ids -/

section Lists

variable {id other tag : JsString} {tagMap : TagMap}

theorem mem_addId (key : JsString) :
    other ∈ botList (addId id tagMap tag) key ↔ other = id ∧ key = tag ∨ other ∈ botList tagMap key := by
  rw [addId]
  split
  · next inside =>
      constructor
      · exact .inr
      · rintro (⟨rfl, rfl⟩ | there)
        · exact inside
        · exact there
  · rw [botList, lookup_assign]
    by_cases same : key = tag
    · subst same
      simp [botList, or_comm]
    · simp [same, botList]

theorem mem_deleteId (key : JsString) :
    other ∈ botList (deleteId id tagMap tag) key ↔ other ∈ botList tagMap key ∧ ¬ (other = id ∧ key = tag) := by
  rw [deleteId, botList, lookup_assign]
  by_cases same : key = tag
  · subst same
    simp [botList]
  · simp [same, botList]

theorem mem_foldl_addId (tags : List JsString) (key : JsString) :
    other ∈ botList (tags.foldl (addId id) tagMap) key ↔ other = id ∧ key ∈ tags ∨ other ∈ botList tagMap key := by
  induction tags generalizing tagMap with
  | nil => simp
  | cons tag rest ih =>
    rw [foldl_cons, ih, mem_addId, mem_cons]
    tauto

theorem mem_foldl_deleteId (tags : List JsString) (key : JsString) :
    other ∈ botList (tags.foldl (deleteId id) tagMap) key ↔
      other ∈ botList tagMap key ∧ ¬ (other = id ∧ key ∈ tags) := by
  induction tags generalizing tagMap with
  | nil => simp
  | cons tag rest ih =>
    rw [foldl_cons, ih, mem_deleteId, mem_cons]
    tauto

/-- The lists are sets. -/
def Distinct (tagMap : TagMap) : Prop := ∀ tag, (botList tagMap tag).Nodup

theorem Distinct.addId (distinct : Distinct tagMap) : Distinct (addId id tagMap tag) := by
  intro key
  rw [TagIndex.addId]
  split
  · exact distinct key
  · next absent =>
      rw [botList, lookup_assign]
      split
      · next same =>
          subst same
          simpa using (distinct key).concat absent
      · exact distinct key

theorem Distinct.deleteId (distinct : Distinct tagMap) : Distinct (deleteId id tagMap tag) := by
  intro key
  rw [TagIndex.deleteId, botList, lookup_assign]
  split
  · exact (distinct tag).filter _
  · exact distinct key

/-! ### Events as changes of pairs -/

/-- The pairs are those of the lists. -/
def Follows (pairs : List (JsString × JsString)) (tagMap : TagMap) : Prop :=
  ∀ id tag, (id, tag) ∈ pairs ↔ id ∈ botList tagMap tag

variable {pairs : List (JsString × JsString)}

theorem Follows.added (follows : Follows pairs tagMap) (bot : BotValues.Bot) (tag : JsString) :
    Follows (follow pairs (.tagAdded bot tag)) (TagIndex.addId bot.id tagMap tag) := by
  intro id key
  rw [mem_addId, ← follows, follow, mem_cons, Prod.mk.injEq]

theorem Follows.removed (follows : Follows pairs tagMap) (bot : BotValues.Bot) (old : Option BotValues.Bot)
    (tag : JsString) :
    Follows (follow pairs (.tagRemoved bot old tag)) (TagIndex.deleteId bot.id tagMap tag) := by
  intro id key
  rw [mem_deleteId, ← follows, follow, List.mem_filter, decide_eq_true_eq, Ne, Prod.mk.injEq]

theorem foldl_added (bot : BotValues.Bot) (tags : List JsString) (distinct : Distinct tagMap)
    (follows : Follows pairs tagMap) :
    Distinct (tags.foldl (TagIndex.addId bot.id) tagMap) ∧
      Follows ((tags.map (.tagAdded bot)).foldl follow pairs) (tags.foldl (TagIndex.addId bot.id) tagMap) := by
  induction tags generalizing tagMap pairs with
  | nil => exact ⟨distinct, follows⟩
  | cons tag rest ih => exact ih distinct.addId (follows.added bot tag)

theorem foldl_removed (bot : BotValues.Bot) (old : Option BotValues.Bot) (tags : List JsString)
    (distinct : Distinct tagMap) (follows : Follows pairs tagMap) :
    Distinct (tags.foldl (TagIndex.deleteId bot.id) tagMap) ∧
      Follows ((tags.map (.tagRemoved bot old)).foldl follow pairs)
        (tags.foldl (TagIndex.deleteId bot.id) tagMap) := by
  induction tags generalizing tagMap pairs with
  | nil => exact ⟨distinct, follows⟩
  | cons tag rest ih => exact ih distinct.deleteId (follows.removed bot old tag)

variable {texts : Texts}

/-- A list after an update: the tags that it names are judged by their values. -/
def Judged (texts : Texts) (bot : BotValues.Bot) (tags : List JsString) (before : TagMap) (after : TagMap) : Prop :=
  ∀ id key, id ∈ botList after key ↔
    if id = bot.id ∧ key ∈ tags then (calculateBotValue texts bot key).hasValue = true else id ∈ botList before key

theorem updateTag_spec (bot : BotValues.Bot) (old : Option BotValues.Bot) (tag : JsString)
    (distinct : Distinct tagMap) (follows : Follows pairs tagMap) :
    Distinct (BotIndex.updateTag texts bot old tagMap tag).1 ∧
      Follows ((BotIndex.updateTag texts bot old tagMap tag).2.foldl follow pairs)
        (BotIndex.updateTag texts bot old tagMap tag).1 ∧
      Judged texts bot [tag] tagMap (BotIndex.updateTag texts bot old tagMap tag).1 := by
  rw [BotIndex.updateTag]
  split
  · next valued =>
      split
      · next inside =>
          refine ⟨distinct, follows, fun id key => ?_⟩
          split
          · next named =>
              obtain ⟨rfl, isTag⟩ := named
              rw [mem_singleton.mp isTag]
              exact ⟨fun _ => valued, fun _ => inside⟩
          · exact Iff.rfl
      · refine ⟨distinct.addId, follows.added bot tag, fun id key => ?_⟩
        rw [mem_addId]
        split
        · next named =>
            obtain ⟨rfl, isTag⟩ := named
            rw [mem_singleton.mp isTag]
            exact ⟨fun _ => valued, fun _ => .inl ⟨rfl, rfl⟩⟩
        · next other =>
            rw [mem_singleton] at other
            exact or_iff_right other
  · next empty =>
      refine ⟨distinct.deleteId, follows.removed bot old tag, fun id key => ?_⟩
      rw [mem_deleteId]
      split
      · next named =>
          obtain ⟨rfl, isTag⟩ := named
          rw [mem_singleton.mp isTag]
          exact ⟨fun gone => absurd ⟨rfl, rfl⟩ gone.2, fun valued => absurd valued empty⟩
      · next other =>
          rw [mem_singleton] at other
          exact and_iff_left other

theorem Judged.cons {bot : BotValues.Bot} {tag : JsString} {rest : List JsString} {before middle after : TagMap}
    (first : Judged texts bot [tag] before middle) (later : Judged texts bot rest middle after) :
    Judged texts bot (tag :: rest) before after := by
  intro id key
  rw [later, first]
  by_cases isRest : id = bot.id ∧ key ∈ rest
  · rw [if_pos isRest, if_pos ⟨isRest.1, List.mem_cons_of_mem tag isRest.2⟩]
  · rw [if_neg isRest]
    simp only [mem_cons, List.not_mem_nil, or_false]
    by_cases isFirst : id = bot.id ∧ key = tag
    · rw [if_pos isFirst, if_pos ⟨isFirst.1, .inl isFirst.2⟩]
    · rw [if_neg isFirst, if_neg (by tauto)]

theorem updateTags_spec (bot : BotValues.Bot) (old : Option BotValues.Bot) (tags : List JsString)
    (distinct : Distinct tagMap) (follows : Follows pairs tagMap) :
    Distinct (each (BotIndex.updateTag texts bot old) tagMap tags).1 ∧
      Follows ((each (BotIndex.updateTag texts bot old) tagMap tags).2.foldl follow pairs)
        (each (BotIndex.updateTag texts bot old) tagMap tags).1 ∧
      Judged texts bot tags tagMap (each (BotIndex.updateTag texts bot old) tagMap tags).1 := by
  induction tags generalizing tagMap pairs with
  | nil => exact ⟨distinct, follows, fun id key => by simp [each]⟩
  | cons tag rest ih =>
    obtain ⟨distinctNext, followsNext, first⟩ := @updateTag_spec _ _ texts bot old tag distinct follows
    obtain ⟨distinctLast, followsLast, later⟩ := ih distinctNext followsNext
    rw [each, List.foldl_append]
    exact ⟨distinctLast, followsLast, first.cons later⟩

end Lists

/-! ### Changes of one bot -/

section Changes

variable {texts : Texts} {s : Session}

structure Inv (s : Session) : Prop where
  bots : s.index.botMap = s.current
  keys : (s.current.map Prod.fst).Nodup
  ids : ∀ id bot, lookup id s.current = some bot → bot.id = id
  distinct : Distinct s.index.tagMap
  follows : Follows s.pairs s.index.tagMap

def Listed (s : Session) (id tag : JsString) : Prop := id ∈ botList s.index.tagMap tag

theorem inv_start : Inv Session.start where
  bots := rfl
  keys := List.nodup_nil
  ids := by simp [Session.start, lookup]
  distinct tag := List.nodup_nil
  follows id tag := by simp [Session.start, BotIndex.empty, botList, lookup]

theorem ids_assign {current : List (JsString × BotValues.Bot)}
    (ids : ∀ id bot, lookup id current = some bot → bot.id = id)
    (bot : BotValues.Bot) (id : JsString) (found : BotValues.Bot)
    (there : lookup id (assign bot.id bot current) = some found) : found.id = id := by
  rw [lookup_assign] at there
  split at there
  · next same => rw [← some.inj there, same]
  · exact ids id found there

theorem ids_remove {current : List (JsString × BotValues.Bot)}
    (ids : ∀ id bot, lookup id current = some bot → bot.id = id)
    (botId id : JsString) (found : BotValues.Bot) (there : lookup id (remove botId current) = some found) :
    found.id = id := by
  rw [lookup_remove] at there
  split at there
  · cases there
  · exact ids id found there

theorem inv_change (inv : Inv s) (change : Change) : Inv (s.change texts change) := by
  cases change with
  | addBot bot =>
    obtain ⟨distinct, follows⟩ := foldl_added bot (tagsOnBot bot) inv.distinct inv.follows
    exact ⟨congrArg (assign bot.id bot) inv.bots, nodup_assign inv.keys _ _, ids_assign inv.ids bot, distinct, follows⟩
  | updateBot update =>
    obtain ⟨distinct, follows, _⟩ := @updateTags_spec _ _ texts update.bot
      (lookup update.bot.id s.index.botMap) update.tags inv.distinct inv.follows
    exact ⟨congrArg (assign update.bot.id update.bot) inv.bots, nodup_assign inv.keys _ _,
      ids_assign inv.ids update.bot,
      distinct, follows⟩
  | removeBot botId =>
    have keys : ((remove botId s.current).map Prod.fst).Nodup := inv.keys.sublist (List.filter_sublist.map _)
    cases found : lookup botId s.index.botMap with
    | none =>
      have same : s.change texts (.removeBot botId) = { s with current := remove botId s.current } := by
        simp [Session.change, applyChange, BotIndex.removeBot, found, currentAfter]
      rw [same]
      rw [inv.bots] at found
      have kept : remove botId s.current = s.current := by
        rw [remove, List.filter_eq_self]
        intro entry member
        rw [decide_eq_true_eq]
        rintro rfl
        exact (lookup_eq_none_iff _ _).mp found (List.mem_map_of_mem member)
      exact ⟨inv.bots.trans kept.symm, keys, ids_remove inv.ids botId, inv.distinct, inv.follows⟩
    | some bot =>
      have same : s.change texts (.removeBot botId) =
          { index := { tagMap := (tagsOnBot bot).foldl (deleteId bot.id) s.index.tagMap
                       botMap := remove bot.id s.index.botMap }
            pairs := ((tagsOnBot bot).map (.tagRemoved bot (some bot))).foldl follow s.pairs
            current := remove botId s.current } := by
        simp [Session.change, applyChange, BotIndex.removeBot, found, currentAfter]
      obtain ⟨distinct, follows⟩ := foldl_removed bot (some bot) (tagsOnBot bot) inv.distinct inv.follows
      rw [same]
      rw [inv.bots] at found
      refine ⟨?_, keys, ids_remove inv.ids botId, distinct, follows⟩
      rw [inv.ids botId bot found, inv.bots]

/-- One id is listed under exactly the tags that its bot carries. -/
def MatchesFor (s : Session) (id : JsString) : Prop := ∀ tag, Listed s id tag ↔ Carries s id tag

theorem matches_start (id : JsString) : MatchesFor Session.start id := by
  intro tag
  simp [Listed, Carries, Session.start, BotIndex.empty, botList, lookup]

theorem listed_addBot (bot : BotValues.Bot) (id tag : JsString) :
    Listed (s.change texts (.addBot bot)) id tag ↔ id = bot.id ∧ tag ∈ tagsOnBot bot ∨ Listed s id tag :=
  mem_foldl_addId _ _

theorem listed_updateBot (inv : Inv s) (update : BotIndexUpdate) (id tag : JsString) :
    Listed (s.change texts (.updateBot update)) id tag ↔
      if id = update.bot.id ∧ tag ∈ update.tags then (calculateBotValue texts update.bot tag).hasValue = true
      else Listed s id tag :=
  (@updateTags_spec _ _ texts update.bot (lookup update.bot.id s.index.botMap) update.tags inv.distinct
    inv.follows).2.2 id tag

theorem listed_removeBot (inv : Inv s) (botId id tag : JsString) :
    Listed (s.change texts (.removeBot botId)) id tag ↔ Listed s id tag ∧ ¬ (id = botId ∧ Carries s botId tag) := by
  rw [Listed, Session.change, applyChange, BotIndex.removeBot, inv.bots]
  cases found : lookup botId s.current with
  | none =>
    have gone : ¬ Carries s botId tag := by
      rintro ⟨bot, there, _⟩
      rw [found] at there
      cases there
    simp [gone, Listed]
  | some bot =>
    have carried : Carries s botId tag ↔ tag ∈ tagsOnBot bot := by simp [Carries, found]
    rw [carried, ← inv.ids botId bot found]
    exact mem_foldl_deleteId _ _

theorem current_change (change : Change) (id : JsString) (apart : id ≠ change.id) :
    lookup id (s.change texts change).current = lookup id s.current := by
  cases change with
  | addBot bot => exact (lookup_assign _ _ _ _).trans (if_neg apart)
  | updateBot update => exact (lookup_assign _ _ _ _).trans (if_neg apart)
  | removeBot botId => exact (lookup_remove _ _ _).trans (if_neg apart)

theorem matchesFor_apart (inv : Inv s) (change : Change) {id : JsString} (apart : id ≠ change.id) :
    MatchesFor (s.change texts change) id ↔ MatchesFor s id := by
  have carried : ∀ tag, Carries (s.change texts change) id tag ↔ Carries s id tag := by
    intro tag
    rw [Carries, current_change change id apart, Carries]
  have listed : ∀ tag, Listed (s.change texts change) id tag ↔ Listed s id tag := by
    intro tag
    cases change with
    | addBot bot => rw [listed_addBot, or_iff_right (fun own => apart own.1)]
    | updateBot update => rw [listed_updateBot inv, if_neg (fun own => apart own.1)]
    | removeBot botId => rw [listed_removeBot inv, and_iff_left (fun own => apart own.1)]
  exact forall_congr' fun tag => by rw [carried, listed]

/-- A change keeps its bot in order exactly when its tags are judged by their values. -/
theorem matchesFor_own (inv : Inv s) (change : Change) (before : MatchesFor s change.id) :
    MatchesFor (s.change texts change) change.id ↔ Keeps texts s change := by
  cases change with
  | addBot bot =>
    have carried : ∀ tag, Carries (s.change texts (.addBot bot)) bot.id tag ↔ tag ∈ tagsOnBot bot := by
      intro tag
      simp [Carries, Session.change, currentAfter, lookup_assign]
    refine forall_congr' fun tag => ?_
    have own : Listed s bot.id tag ↔ Carries s bot.id tag := before tag
    rw [Change.id, carried, listed_addBot, own]
    simp
  | updateBot update =>
    have carried : ∀ tag, Carries (s.change texts (.updateBot update)) update.bot.id tag ↔
        tag ∈ tagsOnBot update.bot := by
      intro tag
      simp [Carries, Session.change, currentAfter, lookup_assign]
    refine forall_congr' fun tag => ?_
    have own : Listed s update.bot.id tag ↔ Carries s update.bot.id tag := before tag
    rw [Change.id, carried, listed_updateBot inv]
    by_cases named : tag ∈ update.tags
    · rw [if_pos ⟨rfl, named⟩, if_pos named]
      exact iff_comm
    · rw [if_neg (fun both => named both.2), if_neg named, own]
      exact iff_comm
  | removeBot botId =>
    have gone : ∀ tag, ¬ Carries (s.change texts (.removeBot botId)) botId tag := by
      rintro tag ⟨bot, there, _⟩
      rw [Session.change, currentAfter, lookup_remove, if_pos rfl] at there
      cases there
    refine iff_of_true (fun tag => iff_of_false ?_ (gone tag)) trivial
    rw [listed_removeBot inv]
    rintro ⟨listed, kept⟩
    exact kept ⟨rfl, (before tag).mp listed⟩

theorem matches_change (inv : Inv s) (all : ∀ id, MatchesFor s id) (change : Change) (keeps : Keeps texts s change)
    (id : JsString) : MatchesFor (s.change texts change) id := by
  by_cases own : id = change.id
  · rw [own]
    exact (matchesFor_own inv change (all _)).mpr keeps
  · exact (matchesFor_apart inv change own).mpr (all id)

/-! ### Calls, and the index that is built anew -/

theorem each_changes {X : Type} {one : BotIndex → X → BotIndex × List BotIndexEvent} (wrap : X → Change)
    (same : ∀ index item, applyChange texts index (wrap item) = one index item) (items : List X) (s : Session) :
    (items.map wrap).foldl (Session.change texts) s =
      { index := (each one s.index items).1
        pairs := (each one s.index items).2.foldl follow s.pairs
        current := (items.map wrap).foldl currentAfter s.current } := by
  induction items generalizing s with
  | nil => rfl
  | cons item rest ih =>
    rw [map_cons, foldl_cons, ih, each, List.foldl_append]
    simp only [Session.change, same, foldl_cons]

theorem step_eq (s : Session) (call : Call) :
    s.step texts call = some (call.changes.foldl (Session.change texts) s) := by
  cases call with
  | addBots bots => exact congrArg some (each_changes Change.addBot (fun _ _ => rfl) bots s).symm
  | updateBots updates => exact congrArg some (each_changes Change.updateBot (fun _ _ => rfl) updates s).symm
  | removeBots botIds => exact congrArg some (each_changes Change.removeBot (fun _ _ => rfl) botIds s).symm

theorem inv_changes (inv : Inv s) (changes : List Change) : Inv (changes.foldl (Session.change texts) s) := by
  induction changes generalizing s with
  | nil => exact inv
  | cons change rest ih => exact ih (inv_change inv change)

theorem matches_changes (inv : Inv s) (all : ∀ id, MatchesFor s id) (changes : List Change)
    (keeps : AllAllowed (fun s change => some (Session.change texts s change)) (Keeps texts) s changes)
    (id : JsString) : MatchesFor (changes.foldl (Session.change texts) s) id := by
  induction changes generalizing s with
  | nil => exact all id
  | cons change rest ih =>
    exact ih (inv_change inv change) (matches_change inv all change keeps.1) (keeps.2 _ rfl)

theorem keeps_new (bots : List BotValues.Bot) (s : Session) (inv : Inv s)
    (fresh : (s.current.map Prod.fst ++ bots.map fun bot => bot.id).Nodup) :
    AllAllowed (fun s change => some (Session.change texts s change)) (Keeps texts) s (bots.map .addBot) ∧
      ((bots.map Change.addBot).foldl currentAfter s.current) = s.current ++ bots.map fun bot => (bot.id, bot) := by
  induction bots generalizing s with
  | nil => exact ⟨trivial, (List.append_nil _).symm⟩
  | cons bot rest ih =>
    have absent : lookup bot.id s.current = none := by
      rw [lookup_eq_none_iff]
      intro inside
      exact (List.nodup_append.mp fresh).2.2 _ inside _ List.mem_cons_self rfl
    have added : (s.change texts (.addBot bot)).current = s.current ++ [(bot.id, bot)] := assign_new _ _ absent
    obtain ⟨keeps, last⟩ := ih (s.change texts (.addBot bot)) (inv_change inv _) (by
      rw [added]
      simpa using fresh)
    refine ⟨⟨?_, ?_⟩, ?_⟩
    · rintro tag ⟨old, there, _⟩
      rw [absent] at there
      cases there
    · intro next ran
      obtain rfl := some.inj ran
      exact keeps
    · rw [map_cons, foldl_cons, map_cons]
      rw [added] at last
      rw [currentAfter, assign_new _ _ absent, last, List.append_assoc]
      rfl

/-- The index that is built anew: its bots are the current ones, listed under the tags that they carry. -/
theorem rebuilt_spec (texts : Texts) (inv : Inv s) : s.rebuilt.botMap = s.current ∧ Distinct s.rebuilt.tagMap ∧
    ∀ id tag, id ∈ botList s.rebuilt.tagMap tag ↔ Carries s id tag := by
  have named : (s.current.map Prod.snd).map (fun bot => (bot.id, bot)) = s.current := by
    rw [List.map_map]
    refine (List.map_congr_left fun entry member => ?_).trans (List.map_id _)
    rcases entry with ⟨id, bot⟩
    rw [Function.comp_apply, inv.ids id bot (lookup_of_mem id bot _ inv.keys member)]
    rfl
  have keys : (s.current.map Prod.snd).map (fun bot => bot.id) = s.current.map Prod.fst := by
    conv_rhs => rw [← named]
    simp
  obtain ⟨keeps, current⟩ := @keeps_new texts (s.current.map Prod.snd) Session.start inv_start (by
    rw [keys]
    exact inv.keys)
  have run := @each_changes texts _ BotIndex.addBot Change.addBot (fun _ _ => rfl)
    (s.current.map Prod.snd) Session.start
  have invLast := @inv_changes texts _ inv_start ((s.current.map Prod.snd).map .addBot)
  have last := matches_changes inv_start matches_start _ keeps
  rw [run] at invLast last
  rw [current, named] at invLast last
  refine ⟨invLast.bots, invLast.distinct, fun id tag => ?_⟩
  exact last id tag

theorem carries_bot (inv : Inv s) {id tag : JsString} :
    Carries s id tag ↔ ∃ bot : BotValues.Bot, bot.id = id ∧ lookup id s.current = some bot ∧ tag ∈ tagsOnBot bot := by
  constructor
  · rintro ⟨bot, there, carried⟩
    exact ⟨bot, inv.ids id bot there, there, carried⟩
  · rintro ⟨bot, _, there, carried⟩
    exact ⟨bot, there, carried⟩

theorem mem_find {index : BotIndex} (bots : index.botMap = s.current) (inv : Inv s) (bot : BotValues.Bot)
    (tag : JsString) : some bot ∈ index.findBotsWithTag tag ↔
      bot.id ∈ botList index.tagMap tag ∧ lookup bot.id s.current = some bot := by
  rw [BotIndex.findBotsWithTag, bots, mem_map]
  constructor
  · rintro ⟨id, inside, there⟩
    rw [inv.ids id bot there]
    exact ⟨inside, there⟩
  · rintro ⟨inside, there⟩
    exact ⟨bot.id, inside, there⟩

theorem exact_iff (texts : Texts) (inv : Inv s) : Exact s ↔ ∀ id, MatchesFor s id := by
  obtain ⟨bots, distinct, listed⟩ := rebuilt_spec texts inv
  constructor
  · intro exact id tag
    constructor
    · intro inside
      cases there : lookup id s.current with
      | none =>
        refine absurd (mem_map.mpr ⟨id, inside, ?_⟩) (exact.defined tag)
        rw [inv.bots, there]
      | some bot =>
        have found : some bot ∈ s.index.findBotsWithTag tag :=
          mem_map.mpr ⟨id, inside, by rw [inv.bots, there]⟩
        have again := ((mem_find bots inv bot tag).mp ((exact.found tag).mem_iff.mp found)).1
        rw [inv.ids id bot there, listed] at again
        exact again
    · intro carried
      obtain ⟨bot, isId, there, _⟩ := (carries_bot inv).mp carried
      subst isId
      have found := (mem_find bots inv bot tag).mpr ⟨(listed _ _).mpr carried, there⟩
      exact ((mem_find inv.bots inv bot tag).mp ((exact.found tag).mem_iff.mpr found)).1
  · intro all
    have same : ∀ id tag, id ∈ botList s.index.tagMap tag ↔ id ∈ botList s.rebuilt.tagMap tag := by
      intro id tag
      rw [listed]
      exact all id tag
    refine ⟨fun tag => ?_, fun tag => ?_, fun id tag => ?_⟩
    · rw [BotIndex.findBotsWithTag, BotIndex.findBotsWithTag, inv.bots, bots]
      exact ((List.perm_ext_iff_of_nodup (inv.distinct tag) (distinct tag)).mpr (same · tag)).map _
    · intro missing
      obtain ⟨id, inside, gone⟩ := mem_map.mp missing
      obtain ⟨bot, there, _⟩ := (all id tag).mp inside
      rw [inv.bots, there] at gone
      cases gone
    · rw [inv.follows, same, listed, carries_bot inv]
      refine exists_congr fun bot => and_congr_right fun isId => ?_
      subst isId
      rw [mem_find bots inv, listed]
      constructor
      · rintro ⟨there, carried⟩
        exact ⟨⟨bot, there, carried⟩, there⟩
      · rintro ⟨⟨other, also, carried⟩, there⟩
        obtain rfl := some.inj (also.symm.trans there)
        exact ⟨there, carried⟩

/-! ### Runs -/

theorem changes_apart (inv : Inv s) (changes : List Change) {id : JsString} (apart : id ∉ changes.map Change.id) :
    MatchesFor (changes.foldl (Session.change texts) s) id ↔ MatchesFor s id := by
  induction changes generalizing s with
  | nil => exact Iff.rfl
  | cons change rest ih =>
    rw [map_cons, mem_cons, not_or] at apart
    exact (ih (inv_change inv change) apart.2).trans (matchesFor_apart inv change apart.1)

/-- In a call that names no bot twice, bots that are in order before and after it are kept so by each of its
changes. -/
theorem keeps_of_ends (inv : Inv s) (changes : List Change) (apart : (changes.map Change.id).Nodup)
    (before : ∀ id, MatchesFor s id) (after : ∀ id, MatchesFor (changes.foldl (Session.change texts) s) id) :
    AllAllowed (fun s change => some (Session.change texts s change)) (Keeps texts) s changes := by
  induction changes generalizing s with
  | nil => trivial
  | cons change rest ih =>
    rw [map_cons, List.nodup_cons] at apart
    have own := (changes_apart (inv_change inv change) rest apart.1).mp (after change.id)
    have keeps := (matchesFor_own inv change (before _)).mp own
    refine ⟨keeps, fun next ran => ?_⟩
    obtain rfl := some.inj ran
    exact ih (inv_change inv change) apart.2 (matches_change inv before change keeps) after

theorem keepsAll_next (inv : Inv s) (all : ∀ id, MatchesFor s id) {call : Call} {next : Session}
    (keeps : KeepsAll texts s call) (ran : s.step texts call = some next) :
    Inv next ∧ ∀ id, MatchesFor next id := by
  rw [step_eq] at ran
  obtain rfl := some.inj ran
  exact ⟨inv_changes inv _, matches_changes inv all _ keeps⟩

/-- The index equals the one that is built anew as long as updates judge tags as the bots carry them; in calls that
name no bot twice it is so only then. -/
theorem index_exact (texts : Texts) (calls : List Call) :
    (AllAllowed (Session.step texts) (KeepsAll texts) Session.start calls →
        Throughout (Session.step texts) Exact Session.start calls) ∧
      ((∀ call ∈ calls, (call.changes.map Change.id).Nodup) →
        Throughout (Session.step texts) Exact Session.start calls →
        AllAllowed (Session.step texts) (KeepsAll texts) Session.start calls) := by
  have first : Inv Session.start ∧ ∀ id, MatchesFor Session.start id := ⟨inv_start, matches_start⟩
  have gives : ∀ s, (Inv s ∧ ∀ id, MatchesFor s id) → Exact s := fun s inv => (exact_iff texts inv.1).mpr inv.2
  constructor
  · exact throughout_of gives (fun s call next inv keeps ran => keepsAll_next inv.1 inv.2 keeps ran) Session.start
      first calls
  · intro apart
    have meets :
        AllAllowed (Session.step texts) (fun _ call => (call.changes.map Change.id).Nodup) Session.start calls :=
      allAllowed_of_mem fun call member _ => apart call member
    refine (throughout_iff_of gives (fun s call next inv _ keeps ran => keepsAll_next inv.1 inv.2 keeps ran) ?_
      Session.start first calls meets).mp
    intro s call inv once exact
    refine keeps_of_ends inv.1 call.changes once inv.2 ?_
    exact (exact_iff texts (inv_changes inv.1 _)).mp (exact _ (step_eq s call))

/-! A tag that is gone from the bot is taken for its newer name, and is kept; the bot is later removed from the lists
of the tags that it has. -/

def auxA : JsString := JsString.lit ['a', 'u', 'x', 'A']

def bothNames : Tags := [(auxA, .json (.integer 1)), ([97], .json (.integer 2))]

def newName : Tags := [([97], .json (.integer 2))]

def withTags (tags : Tags) : BotValues.Bot :=
  { id := [98], space := none, tags := tags, masks := [], form := .precalculated tags }

def leavingId : List Call :=
  [.addBots [withTags bothNames], .updateBots [{ bot := withTags newName, tags := [auxA] }], .removeBots [[98]]]

theorem id_left_behind :
    ∃ s, runAll (Session.step asciiTexts) Session.start leavingId = some s ∧ ¬ Exact s := by
  refine ⟨_, rfl, fun exact => exact.defined auxA ?_⟩
  exact List.mem_singleton_self _

end Changes

end CasualOS.TagIndex
