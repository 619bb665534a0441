import Mathlib.Data.List.Perm.Basic
import CasualOS.JsString
import CasualOS.Lib.OrderedMap
import CasualOS.Lib.Run

/-! The timers of bots: timeouts, intervals, animations, and those that watch a bot or a portal. -/

namespace CasualOS.BotTimers

open OrderedMap Run
open List (append_assoc append_nil filter_congr map_append mem_map)
open JsString (lit)

/-! ### Timers -/

inductive TimerType where
  | timeout
  | interval
  | animation
  | watchPortal
  | watchBot
  deriving DecidableEq, Repr

def TimerType.text : TimerType → JsString
  | .timeout => lit ['t', 'i', 'm', 'e', 'o', 'u', 't']
  | .interval => lit ['i', 'n', 't', 'e', 'r', 'v', 'a', 'l']
  | .animation => lit ['a', 'n', 'i', 'm', 'a', 't', 'i', 'o', 'n']
  | .watchPortal => lit ['w', 'a', 't', 'c', 'h', '_', 'p', 'o', 'r', 't', 'a', 'l']
  | .watchBot => lit ['w', 'a', 't', 'c', 'h', '_', 'b', 'o', 't']

inductive TimerKind where
  | timeout
  | interval
  | animation
  | watchPortal (portalId : JsString)
  | watchBot (botId : JsString)
  deriving DecidableEq, Repr

def TimerKind.type : TimerKind → TimerType
  | .timeout => .timeout
  | .interval => .interval
  | .animation => .animation
  | .watchPortal _ => .watchPortal
  | .watchBot _ => .watchBot

/-- `data` is the tag with the handler or the function that cancels. -/
structure BotTimer (K D : Type) where
  timerId : K
  kind : TimerKind
  data : D

def BotTimer.key {K D : Type} (timer : BotTimer K D) : TimerType × K := (timer.kind.type, timer.timerId)

section Source

variable {K D : Type} [DecidableEq K]

/-- The maps of a `MemoryGlobalContext`, and the timers that were cancelled so far. -/
structure Context (K D : Type) where
  botTimerMap : List (JsString × List (BotTimer K D))
  botWatcherMap : List (JsString × List (BotTimer K D))
  portalWatcherMap : List (JsString × List (BotTimer K D))
  numberOfTimers : Nat
  cancelled : List (BotTimer K D)

namespace Context

def empty : Context K D :=
  { botTimerMap := [], botWatcherMap := [], portalWatcherMap := [], numberOfTimers := 0, cancelled := [] }

/-- Without the first element that a condition holds of. -/
def spliceFirst {A : Type} (condition : A → Bool) (list : List A) : List A :=
  match list.findIdx? condition with
  | some index => list.eraseIdx index
  | none => list

variable (context : Context K D)

def push (key : JsString) (timer : BotTimer K D) (map : List (JsString × List (BotTimer K D))) :
    List (JsString × List (BotTimer K D)) := assign key ((lookup key map).getD [] ++ [timer]) map

def recordBotTimer (id : JsString) (info : BotTimer K D) : Context K D :=
  let context := { context with
    botTimerMap := push id info context.botTimerMap
    numberOfTimers := context.numberOfTimers + 1 }
  match info.kind with
  | .watchBot botId => { context with botWatcherMap := push botId info context.botWatcherMap }
  | .watchPortal portalId => { context with portalWatcherMap := push portalId info context.portalWatcherMap }
  | _ => context

def isTimer (type : TimerType) (timerId : K) (timer : BotTimer K D) : Bool :=
  timer.kind.type = type && timer.timerId = timerId

def removeBotTimer (id : JsString) (type : TimerType) (timerId : K) : Context K D :=
  match lookup id context.botTimerMap with
  | none => context
  | some list =>
    match list.findIdx? (isTimer type timerId) with
    | none => context
    | some index => { context with
        botTimerMap := assign id (list.eraseIdx index) context.botTimerMap
        numberOfTimers := context.numberOfTimers - 1 }

def getBotTimers (id : JsString) : List (BotTimer K D) := (lookup id context.botTimerMap).getD []

def getWatchersForBot (id : JsString) : List (BotTimer K D) := (lookup id context.botWatcherMap).getD []

def getWatchersForPortal (id : JsString) : List (BotTimer K D) := (lookup id context.portalWatcherMap).getD []

def getNumberOfActiveTimers : Nat := context.numberOfTimers

def unwatch (key : JsString) (timerId : K) (map : List (JsString × List (BotTimer K D))) :
    List (JsString × List (BotTimer K D)) :=
  match lookup key map with
  | none => map
  | some watchers => assign key (spliceFirst (fun watcher => watcher.timerId = timerId) watchers) map

def clearTimer (timer : BotTimer K D) : Context K D :=
  let context := { context with
    numberOfTimers := context.numberOfTimers - 1
    cancelled := context.cancelled ++ [timer] }
  match timer.kind with
  | .watchBot botId => { context with botWatcherMap := unwatch botId timer.timerId context.botWatcherMap }
  | .watchPortal portalId =>
    { context with portalWatcherMap := unwatch portalId timer.timerId context.portalWatcherMap }
  | _ => context

def clearTimers (list : List (BotTimer K D)) : Context K D := list.foldl clearTimer context

def sweep (isMatch : BotTimer K D → Bool) : List (BotTimer K D) → Context K D → List (BotTimer K D) × Context K D
  | [], context => ([], context)
  | timer :: rest, context =>
    if isMatch timer then sweep isMatch rest (context.clearTimer timer)
    else (timer :: (sweep isMatch rest context).1, (sweep isMatch rest context).2)

def sweepAll (isMatch : BotTimer K D → Bool) : List (JsString × List (BotTimer K D)) → Context K D →
    List (JsString × List (BotTimer K D)) × Context K D
  | [], context => ([], context)
  | (id, list) :: rest, context =>
    let (kept, swept) := sweep isMatch list context
    ((id, kept) :: (sweepAll isMatch rest swept).1, (sweepAll isMatch rest swept).2)

def cancelAndRemoveBotTimer (id : JsString) (type : TimerType) (timerId : K) : Context K D :=
  match lookup id context.botTimerMap with
  | none => context
  | some timers =>
    let (kept, swept) := sweep (isTimer type timerId) timers context
    { swept with botTimerMap := assign id kept swept.botTimerMap }

def cancelBotTimers (id : JsString) : Context K D :=
  let cleared := match lookup id context.botTimerMap with
    | none => context
    | some list => context.clearTimers list
  { cleared with botTimerMap := remove id cleared.botTimerMap }

def cancelAllBotTimers : Context K D :=
  { (context.botTimerMap.map Prod.snd).foldl clearTimers context with botTimerMap := [] }

def cancelAndRemoveTimers (timerId : K) (type : Option JsString) : Context K D :=
  let isMatch := fun timer : BotTimer K D =>
    timer.timerId = timerId && ((type.getD []).isEmpty || timer.kind.type.text = type.getD [])
  let (kept, swept) := sweepAll isMatch context.botTimerMap context
  { swept with botTimerMap := kept }

def listed : List (BotTimer K D) := context.botTimerMap.flatMap Prod.snd

end Context

/-! ### Runs -/

inductive Operation (K D : Type) where
  | record (id : JsString) (info : BotTimer K D)
  | remove (id : JsString) (type : TimerType) (timerId : K)
  | cancelAndRemove (id : JsString) (type : TimerType) (timerId : K)
  | cancelTimers (timerId : K) (type : Option JsString)
  | cancelBot (id : JsString)
  | cancelAll

def Operation.cancels : Operation K D → Bool
  | .record _ _ => false
  | .remove _ _ _ => false
  | _ => true

def Operation.run (context : Context K D) : Operation K D → Context K D
  | .record id info => context.recordBotTimer id info
  | .remove id type timerId => context.removeBotTimer id type timerId
  | .cancelAndRemove id type timerId => context.cancelAndRemoveBotTimer id type timerId
  | .cancelTimers timerId type => context.cancelAndRemoveTimers timerId type
  | .cancelBot id => context.cancelBotTimers id
  | .cancelAll => context.cancelAllBotTimers

/-- A context with the timers that were recorded, in their order, and with the operations it went through. -/
structure World (K D : Type) where
  context : Context K D
  recorded : List (BotTimer K D)
  history : List (Context K D × Operation K D × Context K D)

def World.start : World K D := { context := .empty, recorded := [], history := [] }

def World.step (w : World K D) (operation : Operation K D) : Option (World K D) :=
  some { context := operation.run w.context
         recorded := match operation with
           | .record _ info => w.recorded ++ [info]
           | _ => w.recorded
         history := w.history ++ [(w.context, operation, operation.run w.context)] }

/-- Each pair of a type and an id is recorded once, and watchers are not removed without being cancelled. -/
def Allowed (w : World K D) : Operation K D → Prop
  | .record _ info => info.key ∉ w.recorded.map BotTimer.key
  | .remove _ type _ => type ≠ .watchBot ∧ type ≠ .watchPortal
  | _ => True

/-! ### What is exact -/

def isListed (context : Context K D) (timer : BotTimer K D) : Bool :=
  context.listed.any fun other => other.key = timer.key

/-- A cancelling operation cancels the timers that leave their lists, and no other operation cancels. -/
def CancelsWhatLeaves (before : Context K D) (operation : Operation K D) (after : Context K D) : Prop :=
  ∃ gone, after.cancelled = before.cancelled ++ gone ∧
    if operation.cancels then before.listed.Perm (after.listed ++ gone) else gone = []

structure Exact (w : World K D) : Prop where
  number : w.context.getNumberOfActiveTimers = (w.context.botTimerMap.map fun entry => entry.2.length).sum
  forBot : ∀ id, w.context.getWatchersForBot id =
    w.recorded.filter fun timer => timer.kind = .watchBot id && isListed w.context timer
  forPortal : ∀ id, w.context.getWatchersForPortal id =
    w.recorded.filter fun timer => timer.kind = .watchPortal id && isListed w.context timer
  cancelledOnce : (w.context.cancelled.map BotTimer.key).Nodup
  cancelledGone : ∀ timer ∈ w.context.cancelled, isListed w.context timer = false
  cancels : ∀ entry ∈ w.history, CancelsWhatLeaves entry.1 entry.2.1 entry.2.2

end Source

/-! ### What clearing does -/

section Clears

theorem lookup_push {K D : Type} (key other : JsString) (timer : BotTimer K D)
    (map : List (JsString × List (BotTimer K D))) :
    (lookup other (Context.push key timer map)).getD [] =
      (lookup other map).getD [] ++ if key = other then [timer] else [] := by
  rw [Context.push, lookup_assign]
  by_cases same : other = key
  · rw [if_pos same, if_pos same.symm, same]
    rfl
  · rw [if_neg same, if_neg (Ne.symm same), append_nil]

variable {K D : Type} [DecidableEq K]

/-- Only one element can match, so the first that does is all that do. -/
theorem spliceFirst_eq {A : Type} {condition : A → Bool} {list : List A}
    (lone : list.Pairwise fun a b => ¬ (condition a = true ∧ condition b = true)) :
    Context.spliceFirst condition list = list.filter fun a => !condition a := by
  induction list with
  | nil => rfl
  | cons a rest ih =>
    obtain ⟨apart, loneRest⟩ := List.pairwise_cons.mp lone
    have later := ih loneRest
    rw [Context.spliceFirst, List.findIdx?_cons]
    cases met : condition a with
    | true =>
      have others : rest.filter (fun b => !condition b) = rest := by
        refine List.filter_eq_self.mpr fun b member => ?_
        cases again : condition b with
        | true => exact absurd ⟨met, again⟩ (apart b member)
        | false => rfl
      rw [List.filter_cons_of_neg (by simp [met]), others]
      rfl
    | false =>
      rw [List.filter_cons_of_pos (by simp [met]), ← later, Context.spliceFirst, if_neg (by simp)]
      cases List.findIdx? condition rest <;> rfl

theorem clearTimer_botTimerMap (context : Context K D) (timer : BotTimer K D) :
    (context.clearTimer timer).botTimerMap = context.botTimerMap := by
  rw [Context.clearTimer]
  cases timer.kind <;> rfl

theorem clearTimer_number (context : Context K D) (timer : BotTimer K D) :
    (context.clearTimer timer).numberOfTimers = context.numberOfTimers - 1 := by
  rw [Context.clearTimer]
  cases timer.kind <;> rfl

theorem clearTimer_cancelled (context : Context K D) (timer : BotTimer K D) :
    (context.clearTimer timer).cancelled = context.cancelled ++ [timer] := by
  rw [Context.clearTimer]
  cases timer.kind <;> rfl

theorem lookup_unwatch (key other : JsString) (timerId : K) (map : List (JsString × List (BotTimer K D))) :
    (lookup other (Context.unwatch key timerId map)).getD [] =
      if other = key then Context.spliceFirst (fun watcher => watcher.timerId = timerId) ((lookup key map).getD [])
      else (lookup other map).getD [] := by
  rw [Context.unwatch]
  cases found : lookup key map with
  | none =>
    by_cases same : other = key
    · rw [if_pos same, same, found]
      rfl
    · rw [if_neg same]
  | some watchers =>
    rw [lookup_assign]
    by_cases same : other = key
    · rw [if_pos same, if_pos same]
      rfl
    · rw [if_neg same, if_neg same]

theorem clearTimers_botTimerMap (context : Context K D) (list : List (BotTimer K D)) :
    (context.clearTimers list).botTimerMap = context.botTimerMap :=
  foldl_kept Context.botTimerMap clearTimer_botTimerMap list context

theorem clearTimers_number (context : Context K D) (list : List (BotTimer K D)) :
    (context.clearTimers list).numberOfTimers = context.numberOfTimers - list.length := by
  induction list generalizing context with
  | nil => rfl
  | cons timer rest ih =>
    have later := ih (context.clearTimer timer)
    rw [clearTimer_number, Nat.sub_sub, Nat.add_comm] at later
    exact later

theorem clearTimers_cancelled (context : Context K D) (list : List (BotTimer K D)) :
    (context.clearTimers list).cancelled = context.cancelled ++ list := by
  induction list generalizing context with
  | nil => exact (append_nil _).symm
  | cons timer rest ih =>
    have later := ih (context.clearTimer timer)
    rw [clearTimer_cancelled, append_assoc] at later
    exact later

theorem sweep_eq (isMatch : BotTimer K D → Bool) (list : List (BotTimer K D)) (context : Context K D) :
    Context.sweep isMatch list context =
      (list.filter fun timer => !isMatch timer, context.clearTimers (list.filter isMatch)) := by
  induction list generalizing context with
  | nil => rfl
  | cons timer rest ih =>
    rw [Context.sweep]
    cases met : isMatch timer with
    | true =>
      rw [if_pos rfl, ih, List.filter_cons_of_neg (by simp [met]), List.filter_cons_of_pos met]
      rfl
    | false =>
      rw [if_neg (by simp), ih, List.filter_cons_of_pos (by simp [met]), List.filter_cons_of_neg (by simp [met])]

theorem clearTimers_append (context : Context K D) (first second : List (BotTimer K D)) :
    context.clearTimers (first ++ second) = (context.clearTimers first).clearTimers second := List.foldl_append

theorem sweepAll_eq (isMatch : BotTimer K D → Bool) (lists : List (JsString × List (BotTimer K D)))
    (context : Context K D) : Context.sweepAll isMatch lists context =
      (lists.map fun entry => (entry.1, entry.2.filter fun timer => !isMatch timer),
        context.clearTimers ((lists.flatMap Prod.snd).filter isMatch)) := by
  induction lists generalizing context with
  | nil => rfl
  | cons entry rest ih =>
    obtain ⟨id, list⟩ := entry
    simp only [Context.sweepAll, sweep_eq, ih, List.map_cons, List.flatMap_cons, List.filter_append, clearTimers_append]

theorem clearAll_eq (lists : List (List (BotTimer K D))) (context : Context K D) :
    lists.foldl Context.clearTimers context = context.clearTimers lists.flatten := by
  induction lists generalizing context with
  | nil => rfl
  | cons list rest ih => rw [List.foldl_cons, ih, List.flatten_cons, clearTimers_append]

end Clears

/-! ### What is kept -/

section Keeps

def TimerKind.watches : TimerKind → Bool
  | .watchPortal _ => true
  | .watchBot _ => true
  | _ => false

def held {K D : Type} (context : Context K D) : TimerKind → List (BotTimer K D)
  | .watchBot botId => context.getWatchersForBot botId
  | .watchPortal portalId => context.getWatchersForPortal portalId
  | _ => []

theorem recordBotTimer_map {K D : Type} (context : Context K D) (id : JsString) (info : BotTimer K D) :
    (context.recordBotTimer id info).botTimerMap = Context.push id info context.botTimerMap := by
  rw [Context.recordBotTimer]
  cases info.kind <;> rfl

theorem recordBotTimer_number {K D : Type} (context : Context K D) (id : JsString) (info : BotTimer K D) :
    (context.recordBotTimer id info).numberOfTimers = context.numberOfTimers + 1 := by
  rw [Context.recordBotTimer]
  cases info.kind <;> rfl

theorem recordBotTimer_cancelled {K D : Type} (context : Context K D) (id : JsString) (info : BotTimer K D) :
    (context.recordBotTimer id info).cancelled = context.cancelled := by
  rw [Context.recordBotTimer]
  cases info.kind <;> rfl

theorem held_recordBotTimer {K D : Type} (context : Context K D) (id : JsString) (info : BotTimer K D)
    (kind : TimerKind) (watching : kind.watches = true) : held (context.recordBotTimer id info) kind =
      held context kind ++ if info.kind = kind then [info] else [] := by
  rw [Context.recordBotTimer]
  cases kind with
  | timeout => cases watching
  | interval => cases watching
  | animation => cases watching
  | watchBot other =>
    cases own : info.kind with
    | watchBot botId =>
      refine (lookup_push botId other info context.botWatcherMap).trans ?_
      simp only [TimerKind.watchBot.injEq]
      rfl
    | timeout => exact (append_nil _).symm
    | interval => exact (append_nil _).symm
    | animation => exact (append_nil _).symm
    | watchPortal _ => exact (append_nil _).symm
  | watchPortal other =>
    cases own : info.kind with
    | watchPortal portalId =>
      refine (lookup_push portalId other info context.portalWatcherMap).trans ?_
      simp only [TimerKind.watchPortal.injEq]
      rfl
    | timeout => exact (append_nil _).symm
    | interval => exact (append_nil _).symm
    | animation => exact (append_nil _).symm
    | watchBot _ => exact (append_nil _).symm

theorem listed_push {K D : Type} (id : JsString) (info : BotTimer K D) (map : List (JsString × List (BotTimer K D))) :
    ((Context.push id info map).flatMap Prod.snd).Perm (map.flatMap Prod.snd ++ [info]) := by
  rw [Context.push]
  cases found : lookup id map with
  | none =>
    rw [assign_new id _ found, List.flatMap_append]
    exact List.Perm.refl _
  | some list =>
    obtain ⟨before, after, split, -, assigned⟩ := entry_split found
    rw [assigned, split, List.flatMap_append, List.flatMap_append, List.flatMap_cons, List.flatMap_cons]
    simp only [Option.getD_some, append_assoc]
    exact ((List.perm_append_comm).append_left list).append_left _

variable {K D : Type} [DecidableEq K]

/-- What is held of the recorded timers are those that a condition holds of. -/
def Tracked (recorded : List (BotTimer K D)) (present : BotTimer K D → Bool) (context : Context K D) : Prop :=
  ∀ kind : TimerKind, kind.watches = true →
    held context kind = recorded.filter fun timer => timer.kind = kind && present timer

theorem held_clearTimer (context : Context K D) (timer : BotTimer K D) (kind : TimerKind) :
    held (context.clearTimer timer) kind =
      if timer.kind = kind then
        Context.spliceFirst (fun watcher => watcher.timerId = timer.timerId) (held context kind)
      else held context kind := by
  rw [Context.clearTimer]
  cases own : timer.kind with
  | watchBot botId =>
    cases kind with
    | watchBot other =>
      rw [held, Context.getWatchersForBot, lookup_unwatch]
      by_cases same : other = botId
      · rw [if_pos same, if_pos (by rw [same]), same]
        rfl
      · rw [if_neg same, if_neg (by simp [Ne.symm same])]
        rfl
    | timeout => rfl
    | interval => rfl
    | animation => rfl
    | watchPortal _ => rfl
  | watchPortal portalId =>
    cases kind with
    | watchPortal other =>
      rw [held, Context.getWatchersForPortal, lookup_unwatch]
      by_cases same : other = portalId
      · rw [if_pos same, if_pos (by rw [same]), same]
        rfl
      · rw [if_neg same, if_neg (by simp [Ne.symm same])]
        rfl
    | timeout => rfl
    | interval => rfl
    | animation => rfl
    | watchBot _ => rfl
  | timeout => cases kind <;> rfl
  | interval => cases kind <;> rfl
  | animation => cases kind <;> rfl

theorem Tracked.clearTimer {recorded : List (BotTimer K D)} {present : BotTimer K D → Bool}
    {context : Context K D} (tracked : Tracked recorded present context)
    (distinct : (recorded.map BotTimer.key).Nodup) {timer : BotTimer K D} (known : timer ∈ recorded) :
    Tracked recorded (fun other => present other && other.key ≠ timer.key) (context.clearTimer timer) := by
  intro kind watching
  rw [held_clearTimer, tracked kind watching]
  by_cases own : timer.kind = kind
  · rw [if_pos own, spliceFirst_eq, List.filter_filter]
    · refine filter_congr fun other _ => ?_
      by_cases same : other.kind = kind
      · simp [same, own, BotTimer.key, Bool.and_comm]
      · simp [same]
    · have apart := (List.pairwise_map.mp distinct).filter fun other => other.kind = kind && present other
      refine apart.imp_of_mem fun {first second} here there differ both => differ ?_
      have sameFirst := (List.mem_filter.mp here).2
      have sameSecond := (List.mem_filter.mp there).2
      simp only [Bool.and_eq_true, decide_eq_true_eq] at sameFirst sameSecond both
      rw [BotTimer.key, BotTimer.key, sameFirst.1, sameSecond.1, both.1, both.2]
  · rw [if_neg own]
    refine filter_congr fun other member => ?_
    by_cases same : other.kind = kind
    · have apart : other.key ≠ timer.key := fun equal =>
        own (List.inj_on_of_nodup_map distinct member known equal ▸ same)
      simp [apart]
    · simp [same]

theorem Tracked.clearTimers {recorded : List (BotTimer K D)} {present : BotTimer K D → Bool}
    {context : Context K D} (tracked : Tracked recorded present context)
    (distinct : (recorded.map BotTimer.key).Nodup) {gone : List (BotTimer K D)} (known : gone ⊆ recorded) :
    Tracked recorded (fun other => present other && !(gone.any fun timer => timer.key = other.key))
      (context.clearTimers gone) := by
  induction gone generalizing context present with
  | nil =>
    intro kind watching
    rw [Context.clearTimers, List.foldl_nil, tracked kind watching]
    refine filter_congr fun other _ => ?_
    exact (congrArg (decide (other.kind = kind) && ·) (Bool.and_true _)).symm
  | cons timer rest ih =>
    have first := tracked.clearTimer distinct (known List.mem_cons_self)
    have later := ih first (fun other member => known (List.mem_cons_of_mem timer member))
    intro kind watching
    refine (later kind watching).trans (filter_congr fun other _ => ?_)
    by_cases same : other.key = timer.key
    · simp [same]
    · simp [same, Ne.symm same]

/-- What is known of each timer that was recorded, before and after every operation. -/
structure Kept (w : World K D) : Prop where
  distinct : (w.recorded.map BotTimer.key).Nodup
  maps : (w.context.botTimerMap.map Prod.fst).Nodup
  parts : ∃ removed, w.recorded.Perm (w.context.listed ++ (w.context.cancelled ++ removed))
  number : w.context.numberOfTimers = w.context.listed.length
  tracked : Tracked w.recorded (isListed w.context) w.context
  cancels : ∀ entry ∈ w.history, CancelsWhatLeaves entry.1 entry.2.1 entry.2.2

theorem isListed_iff (context : Context K D) (timer : BotTimer K D) :
    isListed context timer = true ↔ timer.key ∈ context.listed.map BotTimer.key := by
  rw [isListed, List.any_eq_true, mem_map]
  simp only [decide_eq_true_eq]

/-- Timers that leave the lists are the only ones that are listed no more. -/
theorem isListed_left {before after : Context K D} {gone : List (BotTimer K D)}
    (left : before.listed.Perm (after.listed ++ gone)) (keys : (before.listed.map BotTimer.key).Nodup)
    (timer : BotTimer K D) :
    isListed after timer = (isListed before timer && !(gone.any fun other => other.key = timer.key)) := by
  have parted := (left.map BotTimer.key).nodup_iff.mp keys
  rw [map_append] at parted
  have apart := (List.nodup_append'.mp parted).2.2
  rw [Bool.eq_iff_iff, Bool.and_eq_true, isListed_iff, isListed_iff, Bool.not_eq_true',
    (left.map BotTimer.key).mem_iff, map_append, List.mem_append]
  constructor
  · intro here
    refine ⟨.inl here, List.any_eq_false.mpr fun other member equal => ?_⟩
    exact apart here (of_decide_eq_true equal ▸ List.mem_map_of_mem member)
  · rintro ⟨here | there, absent⟩
    · exact here
    · obtain ⟨other, member, equal⟩ := mem_map.mp there
      exact absurd (decide_eq_true equal) (List.any_eq_false.mp absent other member)

variable {w next : World K D}

theorem Kept.keys (kept : Kept w) : (w.context.listed.map BotTimer.key).Nodup := by
  obtain ⟨removed, parts⟩ := kept.parts
  have all := (parts.map BotTimer.key).nodup_iff.mp kept.distinct
  rw [map_append] at all
  exact (List.nodup_append'.mp all).1

theorem Kept.exact (kept : Kept w) : Exact w := by
  obtain ⟨removed, parts⟩ := kept.parts
  have keys := (parts.map BotTimer.key).nodup_iff.mp kept.distinct
  rw [map_append, map_append] at keys
  obtain ⟨-, others, apart⟩ := List.nodup_append'.mp keys
  constructor
  · rw [Context.getNumberOfActiveTimers, kept.number, Context.listed, List.length_flatMap]
  · exact fun id => kept.tracked (.watchBot id) rfl
  · exact fun id => kept.tracked (.watchPortal id) rfl
  · exact (List.nodup_append'.mp others).1
  · intro timer member
    refine Bool.eq_false_iff.mpr fun present => ?_
    exact apart ((isListed_iff _ timer).mp present) (List.mem_append_left _ (List.mem_map_of_mem member))
  · exact kept.cancels

theorem Kept.cancel (kept : Kept w) (operation : Operation K D) (gone : List (BotTimer K D))
    (map : List (JsString × List (BotTimer K D))) (cancelling : operation.cancels = true)
    (run : operation.run w.context = { w.context.clearTimers gone with botTimerMap := map })
    (maps : (map.map Prod.fst).Nodup) (left : w.context.listed.Perm (map.flatMap Prod.snd ++ gone)) :
    Kept { w with context := operation.run w.context
                  history := w.history ++ [(w.context, operation, operation.run w.context)] } := by
  obtain ⟨removed, parts⟩ := kept.parts
  have known : gone ⊆ w.recorded := fun timer member =>
    parts.mem_iff.mpr (List.mem_append_left _ (left.mem_iff.mpr (List.mem_append_right _ member)))
  have cleared : (operation.run w.context).cancelled = w.context.cancelled ++ gone := by
    rw [run]
    exact clearTimers_cancelled w.context gone
  have stays : (operation.run w.context).listed = map.flatMap Prod.snd := by
    rw [run]
    rfl
  constructor
  · exact kept.distinct
  · rw [run]
    exact maps
  · refine ⟨removed, parts.trans ?_⟩
    rw [stays, cleared]
    have moved : (gone ++ (w.context.cancelled ++ removed)).Perm (w.context.cancelled ++ gone ++ removed) := by
      rw [← append_assoc]
      exact List.perm_append_comm.append_right removed
    refine (left.append_right _).trans ?_
    rw [append_assoc]
    exact moved.append_left _
  · rw [stays, run]
    refine (clearTimers_number w.context gone).trans ?_
    rw [kept.number, left.length_eq, List.length_append, Nat.add_sub_cancel]
  · intro kind watching
    have same : held (operation.run w.context) kind = held (w.context.clearTimers gone) kind := by
      rw [run]
      cases kind <;> rfl
    rw [same, kept.tracked.clearTimers kept.distinct known kind watching]
    refine filter_congr fun timer _ => congrArg (decide (timer.kind = kind) && ·) ?_
    exact (isListed_left (stays ▸ left) kept.keys timer).symm
  · intro entry member
    rcases List.mem_append.mp member with before | new
    · exact kept.cancels entry before
    · rw [List.mem_singleton.mp new]
      refine ⟨gone, cleared, ?_⟩
      rw [if_pos cancelling, stays]
      exact left

/-! ### Each operation -/

theorem filter_parts {A : Type} (isMatch : A → Bool) (list : List A) :
    list.Perm ((list.filter fun a => !isMatch a) ++ list.filter isMatch) :=
  (List.filter_append_perm isMatch list).symm.trans List.perm_append_comm

theorem Kept.cancelAndRemoveBotTimer (kept : Kept w) (id : JsString) (type : TimerType)
    (timerId : K) (ran : w.step (.cancelAndRemove id type timerId) = some next) : Kept next := by
  cases ran
  cases found : lookup id w.context.botTimerMap with
  | none =>
    have unchanged : w.context.cancelAndRemoveBotTimer id type timerId = w.context := by
      rw [Context.cancelAndRemoveBotTimer, found]
    refine kept.cancel (.cancelAndRemove id type timerId) [] w.context.botTimerMap rfl unchanged kept.maps ?_
    rw [append_nil]
    exact List.Perm.refl _
  | some timers =>
    have run : w.context.cancelAndRemoveBotTimer id type timerId =
        { w.context.clearTimers (timers.filter (Context.isTimer type timerId)) with
          botTimerMap := assign id (timers.filter fun timer => !Context.isTimer type timerId timer)
            w.context.botTimerMap } := by
      rw [Context.cancelAndRemoveBotTimer, found]
      simp only [sweep_eq, clearTimers_botTimerMap]
    exact kept.cancel (.cancelAndRemove id type timerId) _ _ rfl run (nodup_assign kept.maps id _)
      (flatMap_assign found (filter_parts (Context.isTimer type timerId) timers))

theorem Kept.cancelAndRemoveTimers (kept : Kept w) (timerId : K) (type : Option JsString)
    (ran : w.step (.cancelTimers timerId type) = some next) : Kept next := by
  cases ran
  refine kept.cancel (.cancelTimers timerId type) _ _ rfl
    (congrArg (fun swept => { swept.2 with botTimerMap := swept.1 }) (sweepAll_eq _ w.context.botTimerMap w.context))
    ?_ ?_
  · rw [List.map_map]
    exact kept.maps
  · rw [List.flatMap_map, ← List.filter_flatMap]
    exact filter_parts _ w.context.listed

theorem Kept.cancelBotTimers (kept : Kept w) (id : JsString)
    (ran : w.step (.cancelBot id) = some next) : Kept next := by
  cases ran
  have maps : ((remove id w.context.botTimerMap).map Prod.fst).Nodup :=
    kept.maps.sublist (List.filter_sublist.map Prod.fst)
  cases found : lookup id w.context.botTimerMap with
  | none =>
    have run : w.context.cancelBotTimers id =
        { w.context.clearTimers [] with botTimerMap := remove id w.context.botTimerMap } := by
      rw [Context.cancelBotTimers, found]
      rfl
    refine kept.cancel (.cancelBot id) _ _ rfl run maps ?_
    rw [remove_absent found, append_nil]
    exact List.Perm.refl _
  | some list =>
    have run : w.context.cancelBotTimers id =
        { w.context.clearTimers list with botTimerMap := remove id w.context.botTimerMap } := by
      rw [Context.cancelBotTimers, found]
      simp only [clearTimers_botTimerMap]
    exact kept.cancel (.cancelBot id) _ _ rfl run maps (flatMap_remove kept.maps found)

theorem Kept.cancelAllBotTimers (kept : Kept w) (ran : w.step .cancelAll = some next) : Kept next := by
  cases ran
  have run : w.context.cancelAllBotTimers = { w.context.clearTimers w.context.listed with botTimerMap := [] } := by
    rw [Context.cancelAllBotTimers, clearAll_eq, Context.listed, List.flatMap_def]
  exact kept.cancel .cancelAll _ [] rfl run List.nodup_nil (List.Perm.refl _)

theorem cancels_more (kept : Kept w) {operation : Operation K D} (still : operation.cancels = false)
    (none : (operation.run w.context).cancelled = w.context.cancelled) :
    ∀ entry ∈ w.history ++ [(w.context, operation, operation.run w.context)],
      CancelsWhatLeaves entry.1 entry.2.1 entry.2.2 := by
  intro entry member
  rcases List.mem_append.mp member with before | new
  · exact kept.cancels entry before
  · rw [List.mem_singleton.mp new]
    refine ⟨[], none.trans (append_nil _).symm, ?_⟩
    rw [still]
    rfl

theorem Kept.recordBotTimer (kept : Kept w) (id : JsString) (info : BotTimer K D)
    (new : info.key ∉ w.recorded.map BotTimer.key)
    (ran : w.step (.record id info) = some next) : Kept next := by
  cases ran
  obtain ⟨removed, parts⟩ := kept.parts
  have added : (w.context.recordBotTimer id info).listed.Perm (w.context.listed ++ [info]) := by
    rw [Context.listed, recordBotTimer_map]
    exact listed_push id info w.context.botTimerMap
  have newKeys : ((w.context.recordBotTimer id info).listed.map BotTimer.key).Nodup := by
    refine (added.map BotTimer.key).nodup_iff.mpr ?_
    rw [map_append]
    refine List.concat_eq_append ▸ kept.keys.concat fun member => new ?_
    obtain ⟨timer, present, same⟩ := mem_map.mp member
    exact mem_map.mpr ⟨timer, parts.mem_iff.mpr (List.mem_append_left _ present), same⟩
  constructor
  · rw [map_append]
    exact List.concat_eq_append ▸ kept.distinct.concat new
  · exact (recordBotTimer_map w.context id info).symm ▸ nodup_assign kept.maps id _
  · refine ⟨removed, ?_⟩
    have same : (Operation.run w.context (.record id info)).cancelled = w.context.cancelled :=
      recordBotTimer_cancelled w.context id info
    rw [same]
    refine (parts.append_right [info]).trans ?_
    have moved : (w.context.listed ++ (w.context.cancelled ++ removed) ++ [info]).Perm
        (w.context.listed ++ [info] ++ (w.context.cancelled ++ removed)) := by
      rw [append_assoc w.context.listed, append_assoc w.context.listed]
      exact List.perm_append_comm.append_left _
    exact moved.trans (added.append_right _).symm
  · refine (recordBotTimer_number w.context id info).trans ?_
    rw [kept.number]
    exact (added.length_eq.trans List.length_append).symm
  · intro kind watching
    refine (held_recordBotTimer w.context id info kind watching).trans ?_
    have before : ∀ timer ∈ w.recorded,
        isListed w.context timer = isListed (w.context.recordBotTimer id info) timer := by
      intro timer member
      have apart : info.key ≠ timer.key := fun same => new (same ▸ List.mem_map_of_mem member)
      have left := isListed_left added newKeys timer
      rwa [List.any_cons, decide_eq_false apart, List.any_nil, Bool.or_false, Bool.not_false, Bool.and_true] at left
    have here : isListed (w.context.recordBotTimer id info) info = true :=
      (isListed_iff _ info).mpr (List.mem_map_of_mem (added.mem_iff.mpr (List.mem_append_right _ (by simp))))
    rw [kept.tracked kind watching, List.filter_append]
    congr 1
    · refine filter_congr fun timer member => congrArg (decide (timer.kind = kind) && ·) ?_
      exact before timer member
    · rw [List.filter_cons, List.filter_nil]
      simp only [Operation.run, here, Bool.and_true, decide_eq_true_eq]
  · exact cancels_more kept rfl (recordBotTimer_cancelled w.context id info)

theorem Kept.drop (kept : Kept w) (operation : Operation K D) (gone : List (BotTimer K D))
    (map : List (JsString × List (BotTimer K D))) (still : operation.cancels = false)
    (run : operation.run w.context =
      { w.context with botTimerMap := map, numberOfTimers := w.context.numberOfTimers - gone.length })
    (maps : (map.map Prod.fst).Nodup) (left : w.context.listed.Perm (map.flatMap Prod.snd ++ gone))
    (silent : ∀ timer ∈ gone, timer.kind.watches = false) :
    Kept { w with context := operation.run w.context
                  history := w.history ++ [(w.context, operation, operation.run w.context)] } := by
  obtain ⟨removed, parts⟩ := kept.parts
  have stays : (operation.run w.context).listed = map.flatMap Prod.snd := by
    rw [run]
    rfl
  constructor
  · exact kept.distinct
  · rw [run]
    exact maps
  · refine ⟨gone ++ removed, parts.trans ?_⟩
    rw [stays, run]
    refine (left.append_right _).trans ?_
    rw [append_assoc]
    exact (List.perm_append_comm_assoc gone w.context.cancelled removed).append_left _
  · rw [stays, run, kept.number, left.length_eq, List.length_append, Nat.add_sub_cancel]
  · intro kind watching
    have same : held (operation.run w.context) kind = held w.context kind := by
      rw [run]
      cases kind <;> rfl
    rw [same, kept.tracked kind watching]
    refine filter_congr fun timer member => ?_
    by_cases own : timer.kind = kind
    · have others : gone.any (fun other => other.key = timer.key) = false := by
        refine List.any_eq_false.mpr fun other gone' equal => ?_
        have knownOther := parts.mem_iff.mpr (List.mem_append_left _ (left.mem_iff.mpr (List.mem_append_right _ gone')))
        have one := List.inj_on_of_nodup_map kept.distinct knownOther member (of_decide_eq_true equal)
        exact absurd (own ▸ one ▸ silent other gone') (by rw [watching]; exact Bool.noConfusion)
      have leaves : w.context.listed.Perm ((operation.run w.context).listed ++ gone) := stays ▸ left
      rw [isListed_left leaves kept.keys timer, others, Bool.not_false, Bool.and_true]
    · simp [own]
  · exact cancels_more kept still (by rw [run])

theorem Kept.removeBotTimer (kept : Kept w) (id : JsString) (type : TimerType) (timerId : K)
    (silent : type ≠ .watchBot ∧ type ≠ .watchPortal)
    (ran : w.step (.remove id type timerId) = some next) : Kept next := by
  cases ran
  have none : w.context.removeBotTimer id type timerId = w.context → Kept
      { w with context := w.context.removeBotTimer id type timerId
               history := w.history ++
                 [(w.context, .remove id type timerId, w.context.removeBotTimer id type timerId)] } := by
    intro unchanged
    refine kept.drop (.remove id type timerId) [] w.context.botTimerMap rfl unchanged kept.maps ?_ (by simp)
    rw [append_nil]
    exact List.Perm.refl _
  cases found : lookup id w.context.botTimerMap with
  | none =>
    refine none ?_
    rw [Context.removeBotTimer, found]
  | some list =>
    cases place : list.findIdx? (Context.isTimer type timerId) with
    | none =>
      refine none ?_
      simp only [Context.removeBotTimer, found, place]
    | some index =>
      obtain ⟨bound, met, -⟩ := List.findIdx?_eq_some_iff_getElem.mp place
      have run : w.context.removeBotTimer id type timerId = { w.context with
            botTimerMap := assign id (list.eraseIdx index) w.context.botTimerMap
            numberOfTimers := w.context.numberOfTimers - [list[index]].length } := by
        simp only [Context.removeBotTimer, found, place, List.length_singleton]
      have taken : list.Perm (list.eraseIdx index ++ [list[index]]) :=
        (List.getElem_cons_eraseIdx_perm bound).symm.trans (List.perm_append_singleton _ _).symm
      refine kept.drop (.remove id type timerId) [list[index]] _ rfl run (nodup_assign kept.maps id _)
        (flatMap_assign found taken) fun timer member => ?_
      rw [List.mem_singleton.mp member]
      rw [Context.isTimer, Bool.and_eq_true, decide_eq_true_eq, decide_eq_true_eq] at met
      have apart := met.1 ▸ silent
      cases own : list[index].kind with
      | timeout => rfl
      | interval => rfl
      | animation => rfl
      | watchBot _ => exact absurd (congrArg TimerKind.type own) apart.1
      | watchPortal _ => exact absurd (congrArg TimerKind.type own) apart.2

theorem kept_start : Kept (World.start : World K D) where
  distinct := List.nodup_nil
  maps := List.nodup_nil
  parts := ⟨[], List.Perm.refl _⟩
  number := rfl
  tracked := fun kind _ => by cases kind <;> rfl
  cancels := fun _ member => absurd member List.not_mem_nil

theorem Kept.step (operation : Operation K D) (kept : Kept w) (allowed : Allowed w operation)
    (ran : w.step operation = some next) : Kept next := by
  cases operation with
  | record id info => exact kept.recordBotTimer id info allowed ran
  | remove id type timerId => exact kept.removeBotTimer id type timerId allowed ran
  | cancelAndRemove id type timerId => exact kept.cancelAndRemoveBotTimer id type timerId ran
  | cancelTimers timerId type => exact kept.cancelAndRemoveTimers timerId type ran
  | cancelBot id => exact kept.cancelBotTimers id ran
  | cancelAll => exact kept.cancelAllBotTimers ran

theorem bookkeeping_exact (operations : List (Operation K D))
    (allowed : AllAllowed World.step Allowed World.start operations) :
    Throughout World.step Exact World.start operations :=
  throughout_of (fun _ kept => kept.exact) (fun _ operation _ kept allowed ran => kept.step operation allowed ran)
    World.start kept_start operations allowed

end Keeps

def watcher : BotTimer Nat Unit := { timerId := 1, kind := .watchBot (lit ['b']), data := () }

def timeout : BotTimer Nat Unit := { timerId := 1, kind := .timeout, data := () }

/-- A timeout that has run and a watcher that is cancelled with its bot. -/
theorem cancelled_watcher : Throughout World.step Exact (World.start : World Nat Unit)
    [.record (lit ['a']) watcher, .record (lit ['a']) timeout,
      .remove (lit ['a']) .timeout 1, .cancelBot (lit ['a'])] := by
  refine bookkeeping_exact _ ⟨List.not_mem_nil, fun _ first => ⟨?_, fun _ _ => ⟨?_, fun _ _ => ?_⟩⟩⟩
  · cases first
    exact (by decide : timeout.key ∉ [watcher.key])
  · exact (by decide : TimerType.timeout ≠ .watchBot ∧ TimerType.timeout ≠ .watchPortal)
  · exact ⟨trivial, fun _ _ => trivial⟩

end CasualOS.BotTimers
