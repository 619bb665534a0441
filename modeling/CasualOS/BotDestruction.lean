import Mathlib.Data.Fintype.Card
import Mathlib.Data.Set.Finite.Basic
import Mathlib.Logic.Relation
import CasualOS.CompiledBots
import CasualOS.Lib.Delimited
import CasualOS.Lib.SortedLists

/-! Destroying a bot with the bots that it created. -/

namespace CasualOS.BotDestruction

open AuxRuntime SortedLists
open List (append_nil foldlM_cons mem_append mem_append_left mem_append_right mem_cons_self mem_filter mem_singleton
  not_mem_nil)
open JsString (lit)

/-! ### Bots and links -/

/-- The tags are what a script reads of them. -/
structure RuntimeBot where
  id : JsString
  space : Option BotSpace
  tags : JsString → TagValue

def botLinkTagPrefix : JsString := [0xD83D, 0xDD17]

def isText (text : JsString) : TagValue → Bool
  | .json (.string other) => other = text
  | _ => false

/-- The ids of a link, and nothing of what is no link. -/
def parseBotLink : TagValue → Option (List JsString)
  | .json (.string text) =>
    if botLinkTagPrefix.isPrefixOf text then
      some (((text.drop botLinkTagPrefix.length).splitOn 44).filter fun id => !id.isEmpty)
    else none
  | _ => none

def createBotLink (botIds : List JsString) : JsString := botLinkTagPrefix ++ Delimited.join 44 botIds

/-- A tag that begins with `#` or `@` stands for what is after it. -/
def trimTag : JsString → JsString
  | [] => []
  | first :: rest => if first = 35 ∨ first = 64 then rest else first :: rest

def byTag (tag filter : JsString) (bot : RuntimeBot) : Bool :=
  let value := bot.tags (trimTag tag)
  if filter.isEmpty then value.hasValue
  else
    match parseBotLink (.json (.string filter)) with
    | none => isText filter value
    | some [] => isText filter value
    | some [id] => isText id value || (parseBotLink value).any fun ids => ids.contains id
    | some ids => (parseBotLink value).any fun valueIds => ids.all fun id => valueIds.contains id

def creatorTag : JsString := lit ['c', 'r', 'e', 'a', 't', 'o', 'r']

def auxDestroyableTag : JsString :=
  lit ['a', 'u', 'x', 'D', 'e', 's', 't', 'r', 'o', 'y', 'a', 'b', 'l', 'e']

def destroyableTag : JsString := lit ['d', 'e', 's', 't', 'r', 'o', 'y', 'a', 'b', 'l', 'e']

/-! ### The source -/

/-- The bots stand by their ids; the actions are the ids of the bots whose removal is enqueued. -/
structure Context where
  bots : List RuntimeBot
  actions : List JsString
  sorted : SortedBy RuntimeBot.id bots

/-- What a script may ask to destroy; `other` is any value that is no bot and no text. -/
inductive Target where
  | runtimeBot (bot : RuntimeBot)
  | bot (id : JsString)
  | botId (id : JsString)
  | other

section Source

variable (sortedIndexBy : List JsString → JsString → Nat) (getEditMode : BotSpace → RealtimeEditMode)

namespace Context

variable (context : Context)

def indexInContext (bot : RuntimeBot) : Option Nat :=
  let index := sortedIndexBy (context.bots.map RuntimeBot.id) bot.id
  match context.bots[index]? with
  | some expected => if expected.id = bot.id then some index else none
  | none => none

def removeAt (index : Nat) : Context where
  bots := context.bots.eraseIdx index
  actions := context.actions
  sorted := context.sorted.sublist ((List.eraseIdx_sublist context.bots index).map RuntimeBot.id)

def enqueueRemoved (id : JsString) : Context := { context with actions := context.actions ++ [id] }

def isImmediate (bot : RuntimeBot) : Bool := getEditMode (getBotSpace bot.space) = .immediate

def destroyBot (bot : RuntimeBot) : Context :=
  match context.indexInContext sortedIndexBy bot with
  | none => context
  | some index =>
    (if isImmediate getEditMode bot then context.removeAt index else context).enqueueRemoved bot.id

def getBots (condition : RuntimeBot → Bool) : List RuntimeBot := context.bots.filter condition

def realBot : Target → Option RuntimeBot
  | .runtimeBot bot => some bot
  | .bot id => findKey RuntimeBot.id id context.bots
  | .botId id => findKey RuntimeBot.id id context.bots
  | .other => none

end Context

/-- No value and `true` are the values of a tag that let a bot be destroyed. -/
def allows : TagValue → Bool
  | .json (.boolean value) => value
  | value => !value.hasValue

def isDestroyable (bot : RuntimeBot) : Bool :=
  !bot.id.isEmpty && allows (bot.tags auxDestroyableTag) && allows (bot.tags destroyableTag)

def destroyChildren (destroyBot : Context → RuntimeBot → Option Context) (context : Context) (id : JsString) :
    Option Context :=
  (context.getBots (byTag creatorTag (createBotLink [id]))).foldlM destroyBot context

/-- Nothing when the calls go deeper than the fuel. -/
def destroyBot : Nat → Context → RuntimeBot → Option Context
  | 0, _, _ => none
  | fuel + 1, context, bot =>
    if isDestroyable bot then
      destroyChildren (destroyBot fuel) (context.destroyBot sortedIndexBy getEditMode bot) bot.id
    else some context

def destroyTarget (fuel : Nat) (context : Context) (target : Target) : Option Context :=
  match context.realBot target with
  | none => some context
  | some bot => destroyBot sortedIndexBy getEditMode fuel context bot

def destroy (fuel : Nat) (context : Context) (targets : List Target) : Option Context :=
  targets.foldlM (destroyTarget sortedIndexBy getEditMode fuel) context

/-! ### The family of a bot -/

/-- A bot that can be destroyed and whose creator tag leads to the parent. -/
def Made (bots : List RuntimeBot) (parent child : RuntimeBot) : Prop :=
  child ∈ bots ∧ isDestroyable child = true ∧ byTag creatorTag (createBotLink [parent.id]) child = true

/-- Creator tags lead from the member to the bot, and nothing on the way is kept from being destroyed. -/
def Family (bots : List RuntimeBot) (bot member : RuntimeBot) : Prop :=
  isDestroyable bot = true ∧ Relation.ReflTransGen (Made bots) bot member

/-- The destruction ends and enqueues the removal of the family, and of no other bot. -/
def TakesFamily (context : Context) (target : Target) (bot : RuntimeBot) : Prop :=
  ∃ fuel next taken, destroy sortedIndexBy getEditMode fuel context [target] = some next ∧
    next.actions = context.actions ++ taken ∧
    ∀ id, id ∈ taken ↔ ∃ member, Family context.bots bot member ∧ member.id = id

/-- Both bots stay in the context until the change of their partition comes back. -/
def MadeLater (bots : List RuntimeBot) (parent child : RuntimeBot) : Prop :=
  Made bots parent child ∧ Context.isImmediate getEditMode parent = false ∧
    Context.isImmediate getEditMode child = false

/-- Some of the family that are not removed at once are each other's creators, or one its own. -/
def Endless (bots : List RuntimeBot) (bot : RuntimeBot) : Prop :=
  ∃ member, Family bots bot member ∧ Relation.TransGen (MadeLater getEditMode bots) member member

end Source

/-! ### Taking one bot -/

section Steps

variable {sortedIndexBy : List JsString → JsString → Nat} {getEditMode : BotSpace → RealtimeEditMode}

theorem indexInContext_cases (lowest : Lowest sortedIndexBy) (context : Context) (bot : RuntimeBot) :
    (context.indexInContext sortedIndexBy bot = none ∧ ∀ other ∈ context.bots, other.id ≠ bot.id) ∨
      ∃ before found after, context.indexInContext sortedIndexBy bot = some before.length ∧
        context.bots = before ++ found :: after ∧ found.id = bot.id := by
  obtain ⟨before, after, parts, index, below, above⟩ := split lowest context.sorted bot.id
  have place : context.bots[before.length]? = after.head? := by
    rw [parts, List.getElem?_append_right le_rfl, Nat.sub_self, List.head?_eq_getElem?]
  cases after with
  | nil =>
    refine .inl ⟨?_, fun other member => ?_⟩
    · simp only [Context.indexInContext, index, place, List.head?_nil]
    · rw [parts, append_nil] at member
      exact (below other member).ne
  | cons found after =>
    by_cases same : found.id = bot.id
    · refine .inr ⟨before, found, after, ?_, parts, same⟩
      simp only [Context.indexInContext, index, place, List.head?_cons, if_pos same]
    · refine .inl ⟨?_, fun other member equal => ?_⟩
      · simp only [Context.indexInContext, index, place, List.head?_cons, if_neg same]
      · rw [parts] at member
        have sorted := (sorted_append.mp (parts ▸ context.sorted)).2.1
        rcases mem_append.mp member with front | back
        · exact (below other front).ne equal
        · exact find_eq_none.mp (find_above sorted above same) other back equal

variable {bot : RuntimeBot} {all bots taken : List RuntimeBot} {context next : Context} {fuel : Nat}

variable (getEditMode) in
/-- A bot that is not there changes nothing; one that is there is taken, and out of the context at once or not. -/
theorem destroyBot_cases (lowest : Lowest sortedIndexBy)
    (apart : (all.map RuntimeBot.id).Nodup) (part : context.bots ⊆ all)
    (known : bot ∈ all) :
    (context.destroyBot sortedIndexBy getEditMode bot = context ∧ bot ∉ context.bots) ∨
      ((context.destroyBot sortedIndexBy getEditMode bot).actions = context.actions ++ [bot.id] ∧
        ∃ before after, context.bots = before ++ bot :: after ∧
          (context.destroyBot sortedIndexBy getEditMode bot).bots =
            if Context.isImmediate getEditMode bot then before ++ after else context.bots) := by
  rcases indexInContext_cases lowest context bot with ⟨none, absent⟩ | ⟨before, found, after, index, parts, same⟩
  · refine .inl ⟨?_, fun member => absent bot member rfl⟩
    rw [Context.destroyBot, none]
  · have isBot : found = bot :=
      List.inj_on_of_nodup_map apart (part (parts ▸ mem_append_right _ mem_cons_self)) known same
    subst isBot
    rw [Context.destroyBot, index]
    refine .inr ⟨?_, before, after, parts, ?_⟩
    · cases immediate : Context.isImmediate getEditMode found <;> rfl
    · cases immediate : Context.isImmediate getEditMode found with
      | false => rfl
      | true =>
        have erased : (before ++ found :: after).eraseIdx before.length = before ++ after := by
          rw [List.eraseIdx_append_of_length_le le_rfl, Nat.sub_self]
          rfl
        exact (congrArg (List.eraseIdx · before.length) parts).trans erased

/-- The bot is taken when it is in the context, and leaves it at once or not. -/
structure Took (getEditMode : BotSpace → RealtimeEditMode) (bot : RuntimeBot) (context here : Context)
    (taken : List RuntimeBot) : Prop where
  actions : here.actions = context.actions ++ taken.map RuntimeBot.id
  fewer : here.bots.Sublist context.bots
  left : ∀ other ∈ context.bots, other ∈ here.bots ∨ other ∈ taken
  later : ∀ other ∈ context.bots, Context.isImmediate getEditMode other = false → other ∈ here.bots
  only : ∀ other ∈ taken, other = bot
  there : bot ∈ context.bots → bot ∈ taken

variable (getEditMode) in
theorem destroyBot_took (lowest : Lowest sortedIndexBy)
    (apart : (all.map RuntimeBot.id).Nodup) {context here : Context} (part : context.bots ⊆ all)
    (known : bot ∈ all) (isHere : context.destroyBot sortedIndexBy getEditMode bot = here) :
    ∃ taken, Took getEditMode bot context here taken := by
  subst isHere
  rcases destroyBot_cases getEditMode lowest apart part known with
    ⟨same, absent⟩ | ⟨actions, before, after, parts, left⟩
  · rw [same]
    exact ⟨[], (append_nil _).symm, List.Sublist.refl _, fun _ member => .inl member,
      fun _ member _ => member, fun _ member => absurd member not_mem_nil, fun member => absurd member absent⟩
  · refine ⟨[bot], actions, ?_, ?_, ?_, fun other member => mem_singleton.mp member, fun _ => by simp⟩
    · rw [left, parts]
      split
      · exact List.Sublist.append_left (List.sublist_cons_self bot after) before
      · exact List.Sublist.refl _
    · intro other member
      rw [left]
      split
      · rw [parts] at member
        rcases mem_append.mp member with front | back
        · exact .inl (mem_append_left _ front)
        · rcases List.mem_cons.mp back with isBot | later
          · exact .inr (by rw [isBot]; exact mem_cons_self)
          · exact .inl (mem_append_right _ later)
      · exact .inl member
    · intro other member delayed
      rw [left]
      split
      · next immediate =>
          rw [parts] at member
          rcases mem_append.mp member with front | back
          · exact mem_append_left _ front
          · rcases List.mem_cons.mp back with isBot | later
            · rw [isBot, immediate] at delayed
              cases delayed
            · exact mem_append_right _ later
      · exact member

/-! ### What a call has done when it ends -/

/-- The bots that the calls for some bots take, and what they leave. -/
structure Did (sortedIndexBy : List JsString → JsString → Nat) (getEditMode : BotSpace → RealtimeEditMode)
    (bound : Nat) (starts : List RuntimeBot) (context next : Context) (taken : List RuntimeBot) : Prop where
  actions : next.actions = context.actions ++ taken.map RuntimeBot.id
  fewer : next.bots.Sublist context.bots
  left : ∀ bot ∈ context.bots, bot ∈ next.bots ∨ bot ∈ taken
  later : ∀ bot ∈ context.bots, Context.isImmediate getEditMode bot = false → bot ∈ next.bots
  known : ∀ bot ∈ taken, ∃ start ∈ starts, isDestroyable start = true ∧
    Relation.ReflTransGen (Made context.bots) start bot
  first : ∀ start ∈ starts, isDestroyable start = true → start ∈ context.bots → start ∈ taken
  closed : ∀ bot, (bot ∈ taken ∨ bot ∈ starts ∧ isDestroyable bot = true) →
    ∀ child, Made context.bots bot child → child ∈ taken
  calls : ∀ bot ∈ taken, ∃ fuel middle after, fuel < bound ∧
    destroyBot sortedIndexBy getEditMode fuel middle bot = some after ∧ middle.bots.Sublist context.bots ∧
    ∀ other ∈ context.bots, Context.isImmediate getEditMode other = false → other ∈ middle.bots

theorem Made.wider {wider : List RuntimeBot} (part : bots ⊆ wider) {parent child : RuntimeBot}
    (made : Made bots parent child) : Made wider parent child := ⟨part made.1, made.2⟩

theorem did_nothing (bound : Nat) (context : Context) : Did sortedIndexBy getEditMode bound [] context context [] where
  actions := (append_nil _).symm
  fewer := List.Sublist.refl _
  left := fun _ member => .inl member
  later := fun _ member _ => member
  known := fun _ member => absurd member not_mem_nil
  first := fun _ member => absurd member not_mem_nil
  closed := fun _ member => by
    rcases member with none | ⟨none, -⟩ <;> cases none
  calls := fun _ member => absurd member not_mem_nil

theorem Did.append {bound : Nat} {first second : List RuntimeBot} {context middle : Context}
    {more : List RuntimeBot} (did : Did sortedIndexBy getEditMode bound first context middle taken)
    (then' : Did sortedIndexBy getEditMode bound second middle next more) :
    Did sortedIndexBy getEditMode bound (first ++ second) context next (taken ++ more) := by
  have fewer : middle.bots ⊆ context.bots := did.fewer.subset
  constructor
  · rw [then'.actions, did.actions, List.map_append, List.append_assoc]
  · exact then'.fewer.trans did.fewer
  · intro bot member
    rcases did.left bot member with still | here
    · exact (then'.left bot still).imp id (mem_append_right _)
    · exact .inr (mem_append_left _ here)
  · exact fun bot member delayed => then'.later bot (did.later bot member delayed) delayed
  · intro bot member
    rcases mem_append.mp member with here | there
    · obtain ⟨start, inside, can, path⟩ := did.known bot here
      exact ⟨start, mem_append_left _ inside, can, path⟩
    · obtain ⟨start, inside, can, path⟩ := then'.known bot there
      exact ⟨start, mem_append_right _ inside, can, Relation.ReflTransGen.mono (fun _ _ => Made.wider fewer) _ _ path⟩
  · intro start member can present
    rcases mem_append.mp member with here | there
    · exact mem_append_left _ (did.first start here can present)
    · rcases did.left start present with still | gone
      · exact mem_append_right _ (then'.first start there can still)
      · exact mem_append_left _ gone
  · intro bot reason child made
    rcases did.left child made.1 with still | gone
    · have later : Made middle.bots bot child := ⟨still, made.2⟩
      rcases reason with member | ⟨member, can⟩
      · rcases mem_append.mp member with here | there
        · exact mem_append_left _ (did.closed bot (.inl here) child made)
        · exact mem_append_right _ (then'.closed bot (.inl there) child later)
      · rcases mem_append.mp member with here | there
        · exact mem_append_left _ (did.closed bot (.inr ⟨here, can⟩) child made)
        · exact mem_append_right _ (then'.closed bot (.inr ⟨there, can⟩) child later)
    · exact mem_append_left _ gone
  · intro bot member
    rcases mem_append.mp member with here | there
    · exact did.calls bot here
    · obtain ⟨fuel, start, after, less, ran, part, all⟩ := then'.calls bot there
      exact ⟨fuel, start, after, less, ran, part.trans did.fewer, fun other inside delayed =>
        all other (did.later other inside delayed) delayed⟩

theorem did_foldlM
    (each : ∀ {context next : Context} {bot : RuntimeBot}, context.bots ⊆ all → bot ∈ all →
      destroyBot sortedIndexBy getEditMode fuel context bot = some next →
      ∃ taken, Did sortedIndexBy getEditMode (fuel + 1) [bot] context next taken)
    (known : bots ⊆ all) (part : context.bots ⊆ all)
    (ran : bots.foldlM (destroyBot sortedIndexBy getEditMode fuel) context = some next) :
    ∃ taken, Did sortedIndexBy getEditMode (fuel + 1) bots context next taken := by
  induction bots generalizing context with
  | nil =>
    cases ran
    exact ⟨[], did_nothing _ _⟩
  | cons bot rest ih =>
    rw [foldlM_cons] at ran
    obtain ⟨middle, first, later⟩ := Option.bind_eq_some_iff.mp ran
    obtain ⟨taken, did⟩ := each part (known mem_cons_self) first
    obtain ⟨more, then'⟩ := ih (fun _ member => known (List.mem_cons_of_mem _ member))
      (fun _ member => part (did.fewer.subset member)) later
    exact ⟨taken ++ more, did.append then'⟩

def childrenOf (context : Context) (bot : RuntimeBot) : List RuntimeBot :=
  context.getBots (byTag creatorTag (createBotLink [bot.id]))

theorem Did.call {context here : Context} {took : List RuntimeBot}
    (can : isDestroyable bot = true) (first : Took getEditMode bot context here took)
    (did : Did sortedIndexBy getEditMode (fuel + 1) (childrenOf here bot) here next taken)
    (ran : destroyBot sortedIndexBy getEditMode (fuel + 1) context bot = some next) :
    Did sortedIndexBy getEditMode (fuel + 1 + 1) [bot] context next (took ++ taken) := by
  have narrower := first.fewer.subset
  constructor
  · rw [did.actions, first.actions, List.map_append, List.append_assoc]
  · exact did.fewer.trans first.fewer
  · intro other member
    rcases first.left other member with still | gone
    · exact (did.left other still).imp id (mem_append_right _)
    · exact .inr (mem_append_left _ gone)
  · exact fun other member delayed => did.later other (first.later other member delayed) delayed
  · intro other member
    refine ⟨bot, List.mem_singleton_self bot, can, ?_⟩
    rcases mem_append.mp member with self | below
    · rw [first.only other self]
    · obtain ⟨start, inside, may, path⟩ := did.known other below
      have link := mem_filter.mp inside
      have made : Made context.bots bot start := ⟨narrower link.1, may, link.2⟩
      exact (Relation.ReflTransGen.mono (fun _ _ => Made.wider narrower) _ _ path).head made
  · intro start member _ present
    rw [mem_singleton.mp member] at present ⊢
    exact mem_append_left _ (first.there present)
  · intro other reason child made
    rcases first.left child made.1 with still | gone
    · refine mem_append_right _ ?_
      have madeLeft : Made here.bots other child := ⟨still, made.2⟩
      have isStart : other = bot → child ∈ taken := by
        intro isBot
        rw [isBot] at madeLeft
        exact did.first child (mem_filter.mpr ⟨still, madeLeft.2.2⟩) madeLeft.2.1 still
      rcases reason with member | ⟨member, -⟩
      · rcases mem_append.mp member with self | below
        · exact isStart (first.only other self)
        · exact did.closed other (.inl below) child madeLeft
      · exact isStart (mem_singleton.mp member)
    · exact mem_append_left _ gone
  · intro other member
    rcases mem_append.mp member with self | below
    · rw [first.only other self]
      exact ⟨fuel + 1, context, next, Nat.lt_succ_self _, ran, List.Sublist.refl _, fun _ inside _ => inside⟩
    · obtain ⟨inner, start, after, less, ended, inside, all⟩ := did.calls other below
      exact ⟨inner, start, after, Nat.lt_succ_of_lt less, ended, inside.trans first.fewer, fun one member delayed =>
        all one (first.later one member delayed) delayed⟩

theorem did_destroyBot (lowest : Lowest sortedIndexBy) (apart : (all.map RuntimeBot.id).Nodup) (fuel : Nat)
    (part : context.bots ⊆ all) (known : bot ∈ all)
    (ran : destroyBot sortedIndexBy getEditMode fuel context bot = some next) :
    ∃ taken, Did sortedIndexBy getEditMode (fuel + 1) [bot] context next taken := by
  induction fuel generalizing context next bot with
  | zero => cases ran
  | succ fuel ih =>
    have children := ran
    rw [destroyBot] at children
    by_cases can : isDestroyable bot = true
    · rw [if_pos can] at children
      obtain ⟨took, first⟩ := destroyBot_took getEditMode lowest apart part known rfl
      have narrower := first.fewer.subset
      obtain ⟨taken, did⟩ := did_foldlM ih (fun _ member => part (narrower (List.mem_of_mem_filter member)))
        (fun _ member => part (narrower member)) children
      exact ⟨took ++ taken, Did.call can first did ran⟩
    · rw [if_neg can] at children
      cases children
      refine ⟨[], (append_nil _).symm, List.Sublist.refl _, fun _ member => .inl member,
        fun _ member _ => member, fun _ member => absurd member not_mem_nil, ?_, ?_,
        fun _ member => absurd member not_mem_nil⟩
      · intro start member may
        rw [mem_singleton.mp member] at may
        exact absurd may can
      · intro other reason
        rcases reason with none | ⟨member, may⟩
        · cases none
        · rw [mem_singleton.mp member] at may
          exact absurd may can

theorem Did.taken_iff {bound : Nat}
    (did : Did sortedIndexBy getEditMode bound [bot] context next taken) (inside : bot ∈ context.bots)
    (member : RuntimeBot) : member ∈ taken ↔ Family context.bots bot member := by
  constructor
  · intro here
    obtain ⟨start, isBot, can, path⟩ := did.known member here
    rw [mem_singleton.mp isBot] at can path
    exact ⟨can, path⟩
  · rintro ⟨can, path⟩
    induction path with
    | refl => exact did.first bot (List.mem_singleton_self bot) can inside
    | tail _ made ih => exact did.closed _ (.inl ih) _ made

/-! ### Calls that never end -/

theorem cycle_member (cycle : Relation.TransGen (MadeLater getEditMode bots) bot bot) :
    bot ∈ bots ∧ isDestroyable bot = true ∧
      ∃ child, MadeLater getEditMode bots bot child ∧ Relation.TransGen (MadeLater getEditMode bots) child child := by
  obtain ⟨parent, -, last⟩ := Relation.TransGen.tail'_iff.mp cycle
  obtain ⟨child, first, rest⟩ := Relation.TransGen.head'_iff.mp cycle
  exact ⟨last.1.1, last.1.2.1, child, first, Relation.TransGen.tail' rest first⟩

theorem cycle_never_ends (lowest : Lowest sortedIndexBy)
    (apart : (all.map RuntimeBot.id).Nodup) (fuel : Nat) (part : context.bots ⊆ all)
    (later : ∀ other ∈ all, Context.isImmediate getEditMode other = false → other ∈ context.bots)
    (cycle : Relation.TransGen (MadeLater getEditMode all) bot bot) :
    destroyBot sortedIndexBy getEditMode fuel context bot = none := by
  induction fuel using Nat.strong_induction_on generalizing context bot with
  | _ fuel ih =>
    cases fuel with
    | zero => rfl
    | succ fuel =>
      obtain ⟨known, can, child, made, again⟩ := cycle_member cycle
      by_contra ends
      obtain ⟨next, ran⟩ := Option.ne_none_iff_exists'.mp ends
      rw [destroyBot, if_pos can] at ran
      obtain ⟨took, first⟩ := destroyBot_took getEditMode lowest apart part known rfl
      have narrower := first.fewer.subset
      obtain ⟨taken, did⟩ := did_foldlM (did_destroyBot lowest apart fuel)
        (fun _ member => part (narrower (List.mem_of_mem_filter member)))
        (fun _ member => part (narrower member)) ran
      have present := first.later child (later child made.1.1 made.2.2) made.2.2
      have called := did.first child (mem_filter.mpr ⟨present, made.1.2.2⟩) made.1.2.1 present
      obtain ⟨inner, middle, after, less, ended, inside, there⟩ := did.calls child called
      have never := ih inner less (fun _ member => part (narrower (inside.subset member)))
        (fun other member delayed => there other (first.later other (later other member delayed) delayed) delayed)
        again
      rw [never] at ended
      cases ended

/-! ### Calls that end -/

def Ends (sortedIndexBy : List JsString → JsString → Nat) (getEditMode : BotSpace → RealtimeEditMode)
    (context : Context) (bot : RuntimeBot) : Prop :=
  ∃ fuel next, destroyBot sortedIndexBy getEditMode fuel context bot = some next

theorem foldlM_more {step further : Context → RuntimeBot → Option Context}
    (more : ∀ context bot next, step context bot = some next → further context bot = some next)
    (bots : List RuntimeBot) (ran : bots.foldlM step context = some next) :
    bots.foldlM further context = some next := by
  induction bots generalizing context with
  | nil => exact ran
  | cons bot rest ih =>
    rw [foldlM_cons] at ran ⊢
    obtain ⟨middle, first, later⟩ := Option.bind_eq_some_iff.mp ran
    rw [more context bot middle first]
    exact ih later

theorem destroyBot_more {further : Nat} (more : fuel ≤ further)
    (ran : destroyBot sortedIndexBy getEditMode fuel context bot = some next) :
    destroyBot sortedIndexBy getEditMode further context bot = some next := by
  induction fuel generalizing further context bot next with
  | zero => cases ran
  | succ fuel ih =>
    cases further with
    | zero => exact absurd more (Nat.not_succ_le_zero fuel)
    | succ further =>
      rw [destroyBot] at ran ⊢
      by_cases can : isDestroyable bot = true
      · rw [if_pos can] at ran ⊢
        exact foldlM_more (fun _ _ _ inner => ih (Nat.le_of_succ_le_succ more) inner) _ ran
      · rwa [if_neg can] at ran ⊢

theorem foldlM_ends (lowest : Lowest sortedIndexBy) (apart : (all.map RuntimeBot.id).Nodup) (known : bots ⊆ all)
    (part : context.bots ⊆ all)
    (each : ∀ bot ∈ bots, ∀ here : Context, here.bots.Sublist context.bots →
      Ends sortedIndexBy getEditMode here bot) :
    ∃ fuel next, bots.foldlM (destroyBot sortedIndexBy getEditMode fuel) context = some next := by
  induction bots generalizing context with
  | nil => exact ⟨0, context, rfl⟩
  | cons bot rest ih =>
    obtain ⟨fuel, middle, first⟩ := each bot mem_cons_self context (List.Sublist.refl _)
    obtain ⟨taken, did⟩ := did_destroyBot lowest apart fuel part (known mem_cons_self) first
    obtain ⟨further, next, later⟩ := ih (fun _ member => known (List.mem_cons_of_mem _ member))
      (fun _ member => part (did.fewer.subset member))
      (fun other member here fewer => each other (List.mem_cons_of_mem _ member) here (fewer.trans did.fewer))
    refine ⟨max fuel further, next, ?_⟩
    rw [foldlM_cons, destroyBot_more (le_max_left fuel further) first]
    exact foldlM_more (fun _ _ _ inner => destroyBot_more (le_max_right fuel further) inner) rest later

/-- A call ends when the calls for the children do, in whatever is left of the context. -/
theorem ends_of_children (lowest : Lowest sortedIndexBy)
    (apart : (all.map RuntimeBot.id).Nodup) (part : context.bots ⊆ all)
    (known : bot ∈ all)
    (children : isDestroyable bot = true →
      ∀ child ∈ childrenOf (context.destroyBot sortedIndexBy getEditMode bot) bot, isDestroyable child = true →
        ∀ here : Context, here.bots.Sublist (context.destroyBot sortedIndexBy getEditMode bot).bots →
          Ends sortedIndexBy getEditMode here child) : Ends sortedIndexBy getEditMode context bot := by
  by_cases can : isDestroyable bot = true
  · obtain ⟨took, first⟩ := destroyBot_took getEditMode lowest apart part known rfl
    have narrower := first.fewer.subset
    have each : ∀ child ∈ childrenOf (context.destroyBot sortedIndexBy getEditMode bot) bot, ∀ here : Context,
        here.bots.Sublist (context.destroyBot sortedIndexBy getEditMode bot).bots →
        Ends sortedIndexBy getEditMode here child := by
      intro child member here fewer
      by_cases may : isDestroyable child = true
      · exact children can child member may here fewer
      · exact ⟨1, here, by rw [destroyBot, if_neg may]⟩
    obtain ⟨fuel, next, ran⟩ := foldlM_ends lowest apart
      (fun _ member => part (narrower (List.mem_of_mem_filter member))) (fun _ member => part (narrower member)) each
    exact ⟨fuel + 1, next, by rw [destroyBot, if_pos can]; exact ran⟩
  · exact ⟨1, context, by rw [destroyBot, if_neg can]⟩

theorem family_wellFounded {root : RuntimeBot} (ending : ¬ Endless getEditMode all root) :
    WellFounded fun child parent : { bot // bot ∈ all } =>
      Family all root parent.val ∧ Relation.TransGen (MadeLater getEditMode all) parent.val child.val := by
  let below := fun child parent : { bot // bot ∈ all } =>
    Family all root parent.val ∧ Relation.TransGen (MadeLater getEditMode all) parent.val child.val
  have finite : Finite { bot // bot ∈ all } := (List.finite_toSet all).to_subtype
  have trans : IsTrans _ below := ⟨fun _ _ _ first second => ⟨second.1, second.2.trans first.2⟩⟩
  have irrefl : Std.Irrefl below := ⟨fun bot cycle => ending ⟨bot.val, cycle⟩⟩
  exact Finite.wellFounded_of_trans_of_irrefl below

theorem Family.child {root parent child : RuntimeBot} {here : Context}
    (family : Family all root parent) (inside : here.bots ⊆ all) (member : child ∈ childrenOf here parent)
    (can : isDestroyable child = true) : Made all parent child ∧ Family all root child := by
  have link := mem_filter.mp member
  have made : Made all parent child := ⟨inside link.1, can, link.2⟩
  exact ⟨made, family.1, family.2.tail made⟩

/-- Calls for the family end when fewer bots are left. -/
def EndsBelow (sortedIndexBy : List JsString → JsString → Nat) (getEditMode : BotSpace → RealtimeEditMode)
    (all : List RuntimeBot) (root : RuntimeBot) (count : Nat) : Prop :=
  ∀ (context : Context) (bot : RuntimeBot), context.bots.length < count → context.bots ⊆ all → bot ∈ all →
    Family all root bot → Ends sortedIndexBy getEditMode context bot

section Ending

variable {root parent : RuntimeBot} {here : Context}

theorem immediate_ends (lowest : Lowest sortedIndexBy) (apart : (all.map RuntimeBot.id).Nodup)
    (below : EndsBelow sortedIndexBy getEditMode all root here.bots.length) (inside : here.bots ⊆ all)
    (present : parent ∈ here.bots) (atOnce : Context.isImmediate getEditMode parent = true)
    (family : Family all root parent) : Ends sortedIndexBy getEditMode here parent := by
  refine ends_of_children lowest apart inside (inside present) fun _ child member can next fewer => ?_
  rcases destroyBot_cases getEditMode lowest apart inside (inside present) with
    ⟨-, absent⟩ | ⟨-, before, after, parts, left⟩
  · exact absurd present absent
  · rw [if_pos atOnce] at left
    have narrower : before ++ after ⊆ all := fun other there => inside (by
      rw [parts]
      exact (List.Sublist.append_left (List.sublist_cons_self parent after) before).subset there)
    have less : next.bots.length < here.bots.length := by
      have atMost := fewer.length_le
      rw [left, List.length_append] at atMost
      rw [parts, List.length_append, List.length_cons]
      omega
    have found := family.child (left ▸ narrower) member can
    exact below next child less (fun _ there => narrower (left ▸ fewer.subset there)) found.1.1 found.2

/-- A bot that leaves the context as it is makes calls for its children, of which the delayed ones are to end. -/
theorem staying_ends (lowest : Lowest sortedIndexBy) (apart : (all.map RuntimeBot.id).Nodup)
    (below : EndsBelow sortedIndexBy getEditMode all root here.bots.length) (inside : here.bots ⊆ all)
    (known : parent ∈ all) (left : (here.destroyBot sortedIndexBy getEditMode parent).bots = here.bots)
    (family : Family all root parent)
    (delayed : ∀ child, Made all parent child → Family all root child →
      Context.isImmediate getEditMode child = false → ∀ next : Context, next.bots = here.bots →
      Ends sortedIndexBy getEditMode next child) : Ends sortedIndexBy getEditMode here parent := by
  refine ends_of_children lowest apart inside known fun _ child member can next fewer => ?_
  have found := family.child (left ▸ inside) member can
  rw [left] at fewer
  rcases Nat.lt_or_ge next.bots.length here.bots.length with less | most
  · exact below next child less (fun _ there => inside (fewer.subset there)) found.1.1 found.2
  · have same : next.bots = here.bots := fewer.eq_of_length_le most
    cases atOnce : Context.isImmediate getEditMode child with
    | false => exact delayed child found.1 found.2 atOnce next same
    | true =>
      have present : child ∈ next.bots := by
        rw [same, ← left]
        exact List.mem_of_mem_filter member
      exact immediate_ends lowest apart (same ▸ below) (same ▸ inside) present atOnce found.2

theorem delayed_ends (lowest : Lowest sortedIndexBy) (apart : (all.map RuntimeBot.id).Nodup)
    (ending : ¬ Endless getEditMode all root) (parent : { bot // bot ∈ all }) :
    ∀ here : Context, EndsBelow sortedIndexBy getEditMode all root here.bots.length → here.bots ⊆ all →
      Context.isImmediate getEditMode parent.val = false → Family all root parent.val →
      Ends sortedIndexBy getEditMode here parent.val := by
  induction parent using (family_wellFounded ending).induction with
  | _ parent earlier =>
    intro here below inside waits family
    have left : (here.destroyBot sortedIndexBy getEditMode parent.val).bots = here.bots := by
      rcases destroyBot_cases getEditMode lowest apart inside parent.property with
        ⟨unchanged, -⟩ | ⟨-, before, after, -, left⟩
      · rw [unchanged]
      · rw [left, waits]
        rfl
    refine staying_ends lowest apart below inside parent.property left family
      fun child made childFamily atOnce next same => ?_
    exact earlier ⟨child, made.1⟩ ⟨family, .single ⟨made, waits, atOnce⟩⟩ next (same ▸ below) (same ▸ inside)
      atOnce childFamily

theorem family_ends (lowest : Lowest sortedIndexBy) (apart : (all.map RuntimeBot.id).Nodup)
    (ending : ¬ Endless getEditMode all root) (count : Nat) :
    EndsBelow sortedIndexBy getEditMode all root count := by
  induction count with
  | zero => exact fun _ _ less => absurd less (Nat.not_lt_zero _)
  | succ count ih =>
    intro here bot most inside known family
    have below : EndsBelow sortedIndexBy getEditMode all root here.bots.length := fun context other less =>
      ih context other (Nat.lt_of_lt_of_le less (Nat.le_of_lt_succ most))
    cases atOnce : Context.isImmediate getEditMode bot with
    | false => exact delayed_ends lowest apart ending ⟨bot, known⟩ here below inside atOnce family
    | true =>
      rcases destroyBot_cases getEditMode lowest apart inside known with
        ⟨unchanged, -⟩ | ⟨-, before, after, parts, -⟩
      · refine staying_ends lowest apart below inside known (by rw [unchanged]) family
          fun child made childFamily waits next same => ?_
        exact delayed_ends lowest apart ending ⟨child, made.1⟩ next (same ▸ below) (same ▸ inside) waits childFamily
      · exact immediate_ends lowest apart below inside (parts ▸ mem_append_right _ mem_cons_self)
          atOnce family

end Ending

/-! ### Destroying -/

theorem destroy_one {target : Target} (named : context.realBot target = some bot) :
    destroy sortedIndexBy getEditMode fuel context [target] =
      destroyBot sortedIndexBy getEditMode fuel context bot := by
  rw [destroy, foldlM_cons, destroyTarget, named]
  exact bind_pure _

theorem takesFamily_iff (lowest : Lowest sortedIndexBy) (context : Context) (target : Target) (bot : RuntimeBot)
    (named : context.realBot target = some bot) (inside : bot ∈ context.bots) :
    TakesFamily sortedIndexBy getEditMode context target bot ↔ ¬ Endless getEditMode context.bots bot := by
  have apart := context.sorted.nodup
  constructor
  · rintro ⟨fuel, next, ids, ran, -, -⟩ ⟨member, family, cycle⟩
    rw [destroy_one named] at ran
    obtain ⟨taken, did⟩ := did_destroyBot lowest apart fuel (fun _ there => there) inside ran
    obtain ⟨inner, middle, after, -, ended, part, later⟩ :=
      did.calls member ((did.taken_iff inside member).mpr family)
    have never := cycle_never_ends lowest apart inner part.subset later cycle
    rw [never] at ended
    cases ended
  · intro ending
    by_cases can : isDestroyable bot = true
    · obtain ⟨fuel, next, ran⟩ := family_ends lowest apart ending (context.bots.length + 1) context bot
        (Nat.lt_succ_self _) (fun _ there => there) inside ⟨can, .refl⟩
      obtain ⟨taken, did⟩ := did_destroyBot lowest apart fuel (fun _ there => there) inside ran
      refine ⟨fuel, next, taken.map RuntimeBot.id, (destroy_one named).trans ran, did.actions, fun id => ?_⟩
      rw [List.mem_map]
      exact exists_congr fun member => and_congr_left fun _ => did.taken_iff inside member
    · refine ⟨1, context, [], (destroy_one named).trans (by rw [destroyBot, if_neg can]),
        (append_nil _).symm, fun id => ⟨fun none => absurd none not_mem_nil, ?_⟩⟩
      rintro ⟨member, family, -⟩
      exact absurd family.1 can

end Steps

def selfMade : RuntimeBot where
  id := lit ['a']
  space := none
  tags tag := if tag = creatorTag then .json (.string (lit ['a'])) else .undefined

def alone : Context where
  bots := [selfMade]
  actions := []
  sorted := List.pairwise_singleton _ _

/-- It is destroyed where bots are removed at once. -/
theorem selfMade_taken : TakesFamily countBelow (fun _ => .immediate) alone (.runtimeBot selfMade) selfMade := by
  refine (takesFamily_iff lowest_countBelow alone _ selfMade rfl mem_cons_self).mpr ?_
  rintro ⟨member, -, cycle⟩
  obtain ⟨-, -, child, made, -⟩ := cycle_member cycle
  cases made.2.1

/-- It is destroyed again and again where they are removed later. -/
theorem selfMade_never_ends : ¬ TakesFamily countBelow (fun _ => .delayed) alone (.runtimeBot selfMade) selfMade := by
  rintro ⟨fuel, next, ids, ran, -, -⟩
  have again : MadeLater (fun _ => .delayed) alone.bots selfMade selfMade :=
    ⟨⟨mem_cons_self, by decide, by decide⟩, by decide, by decide⟩
  have never := cycle_never_ends lowest_countBelow alone.sorted.nodup fuel (fun _ there => there)
    (fun _ there _ => there) (.single again)
  rw [destroy_one rfl, never] at ran
  cases ran

end CasualOS.BotDestruction
