import CasualOS.BotActions

/-! Sending actions to the partitions of their bots' spaces, while other calls wait. -/

namespace CasualOS.ActionRouting

open OrderedMap Run BotActions
open List (append_assoc append_nil filter_cons foldl_append foldl_cons mem_filter mem_map mem_singleton)
open Option (bind_some map_eq_some_iff)
open JsString (lit)

inductive Event where
  | addBot (id : JsString) (bot : Bot)
  | removeBot (id : JsString)
  | updateBot (id : JsString) (tags : Option Fields) (masks : Option (List (JsString × Fields)))

abbrev Partitions := List (JsString × BotsState)

/-- A partition's space, and what is sent to it at once. -/
abbrev Part := JsString × List BotAction

def Event.id : Event → JsString
  | .addBot id _ => id
  | .removeBot id => id
  | .updateBot id _ _ => id

def Event.masks : Event → List (JsString × Fields)
  | .addBot _ bot => bot.masks.getD []
  | .removeBot _ => []
  | .updateBot _ _ masks => masks.getD []

def Event.bare : Event → BotAction
  | .addBot id bot => .addBot id { bot with masks := none }
  | .removeBot id => .removeBot id
  | .updateBot id tags _ => .updateBot id tags none

def Event.isAdd : Event → Bool
  | .addBot _ _ => true
  | _ => false

/-! ### The helper -/

def getBotSpace : Option JsString → JsString
  | none => lit ['s', 'h', 'a', 'r', 'e', 'd']
  | some [] => lit ['s', 'h', 'a', 'r', 'e', 'd']
  | some space => space

def isBot (record : Option Bot) : Bool :=
  (record.bind (·.id)).any (fun id => !id.isEmpty) && (record.bind (·.tags)).isSome

/-- The space of the bot in `botsState`. -/
def spaceOf (partitions : Partitions) (id : JsString) : Option JsString :=
  (partitions.find? fun partition => isBot (lookup id partition.2)).map Prod.fst

def partitionForBotType (partitions : Partitions) (type : JsString) : Option JsString :=
  if type ∈ partitions.map Prod.fst then some type else none

def partitionForBotEvent (partitions : Partitions) : Event → Option JsString
  | .addBot _ bot => partitionForBotType partitions (getBotSpace bot.space)
  | .removeBot id => (spaceOf partitions id).bind fun space =>
    partitionForBotType partitions (getBotSpace (some space))
  | .updateBot id _ _ => (spaceOf partitions id).bind fun space =>
    partitionForBotType partitions (getBotSpace (some space))

/-- The partition of an event, after others of its list that have put bots into `newBotPartitions`. -/
def route (partitions : Partitions) (newBotPartitions : List (JsString × JsString)) (event : Event) :
    Option JsString :=
  (partitionForBotEvent partitions event).or
    (if event.isAdd then none else lookup event.id newBotPartitions)

def addNew (partitions : Partitions) (newBotPartitions : List (JsString × JsString)) (event : Event) :
    List (JsString × JsString) :=
  match partitionForBotEvent partitions event with
  | some space => if event.isAdd then assign event.id space newBotPartitions else newBotPartitions
  | none => newBotPartitions

def maskEvents (partitions : Partitions) (event : Event) : List (JsString × BotAction) :=
  event.masks.filterMap fun masks => (partitionForBotType partitions masks.1).map fun space =>
    (space, .updateBot event.id none (some masks.2))

def sends (partitions : Partitions) (target : Option JsString) (event : Event) :
    List (JsString × BotAction) :=
  match target with
  | some space => (space, event.bare) :: maskEvents partitions event
  | none => if event.isAdd then maskEvents partitions event else []

def routed (partitions : Partitions) :
    List (JsString × JsString) → List Event → List (JsString × BotAction)
  | _, [] => []
  | newBotPartitions, event :: rest =>
    sends partitions (route partitions newBotPartitions event) event ++
      routed partitions (addNew partitions newBotPartitions event) rest

def push (parts : List Part) (sent : JsString × BotAction) : List Part :=
  assign sent.1 ((lookup sent.1 parts).getD [] ++ [sent.2]) parts

def partsOf (sent : List (JsString × BotAction)) : List Part := sent.foldl push []

/-- `applyEvents` of one partition, nothing when it throws. -/
def applyPart (partitions : Partitions) (part : Part) : Option Partitions :=
  (lookup part.1 partitions).bind fun state =>
    (runAll (applyAction part.1) { state := state, updated := [] } part.2).map fun batch =>
      assign part.1 batch.state partitions

/-- From one await to the next: one part is applied, and the others are left. -/
def applyNext (partitions : Partitions) : List Part → Option (Partitions × List Part)
  | [] => some (partitions, [])
  | part :: rest => (applyPart partitions part).map fun next => (next, rest)

/-- `_sendEvents` up to its first await. -/
def sendEvents (partitions : Partitions) (events : List Event) : Option (Partitions × List Part) :=
  applyNext partitions (partsOf (routed partitions [] events))

/-- `running` is what is left of the batch that `concatMap` has started; every other call has what is left
of it in `direct`. -/
structure Helper where
  partitions : Partitions
  queue : List (List Event)
  running : Option (List Part)
  direct : List (List Part)
  issued : List Event

inductive Label where
  | batch (events : List Event)
  | call (event : Event)
  | resumeBatch
  | resumeCall (index : Nat)

def start (partitions : Partitions) : Helper :=
  { partitions := partitions, queue := [], running := none, direct := [], issued := [] }

def step (s : Helper) : Label → Option Helper
  | .batch events => match s.running with
      | none => (sendEvents s.partitions events).map fun sent =>
        { s with partitions := sent.1, running := some sent.2, issued := s.issued ++ events }
      | some _ => some { s with queue := s.queue ++ [events], issued := s.issued ++ events }
  | .call event => (sendEvents s.partitions [event]).map fun sent =>
    { s with partitions := sent.1, direct := s.direct ++ [sent.2], issued := s.issued ++ [event] }
  | .resumeBatch => match s.running, s.queue with
      | none, _ => none
      | some (part :: rest), _ => (applyPart s.partitions part).map fun next =>
        { s with partitions := next, running := some rest }
      | some [], [] => some { s with running := none }
      | some [], events :: more => (sendEvents s.partitions events).map fun sent =>
        { s with partitions := sent.1, running := some sent.2, queue := more }
  | .resumeCall index => match s.direct[index]? with
      | none => none
      | some [] => some { s with direct := s.direct.eraseIdx index }
      | some (part :: rest) => (applyPart s.partitions part).map fun next =>
        { s with partitions := next, direct := s.direct.set index rest }

def Finished (s : Helper) : Prop := s.queue = [] ∧ s.running = none ∧ s.direct = []

/-! ### The actions one by one -/

/-- What the partition of a space has of a bot. -/
abbrev Records := JsString → JsString → Option Bot

def recordsOf (partitions : Partitions) : Records := fun space id =>
  (lookup space partitions).bind (lookup id)

section Meaning

variable (spaces : List JsString)

def target (records : Records) : Event → Option JsString
  | .addBot _ bot => if getBotSpace bot.space ∈ spaces then some (getBotSpace bot.space) else none
  | .removeBot id => spaces.find? fun space => isBot (records space id)
  | .updateBot id _ _ => spaces.find? fun space => isBot (records space id)

def carried (space : Option JsString) (event : Event) : List (JsString × BotAction) :=
  (space.map (·, event.bare)).toList ++
    event.masks.filterMap fun masks =>
      if masks.1 ∈ spaces then some (masks.1, .updateBot event.id none (some masks.2)) else none

def sentTo (space : JsString) (sent : List (JsString × BotAction)) : List BotAction :=
  (sent.filter fun s => s.1 = space).map Prod.snd

def carryOut (records : Records) (event : Event) : Records := fun space id =>
  (sentTo space (carried spaces (target spaces records event) event)).foldl (effect space id) (records space id)

end Meaning

/-! ### The runs that keep the order -/

def spacesOf (partitions : Partitions) : List JsString := partitions.map Prod.fst

/-- Every event comes to the partition that has its bot once the events before it are carried out, and
none that has masks is dropped. -/
def RoutedRight (partitions : Partitions) : List (JsString × JsString) → Records → List Event → Prop
  | _, _, [] => True
  | newBotPartitions, records, event :: rest =>
    route partitions newBotPartitions event = target (spacesOf partitions) records event ∧
      (route partitions newBotPartitions event = none → event.isAdd = true ∨ maskEvents partitions event = []) ∧
      RoutedRight partitions (addNew partitions newBotPartitions event)
        (carryOut (spacesOf partitions) records event) rest

def Mentions (parts : List Part) (id : JsString) : Prop :=
  ∃ part ∈ parts, ∃ action ∈ part.2, Names id action

def calls (s : Helper) : List (List Part) := s.running.toList ++ s.direct

/-- No call that is waiting still has something to send for a bot of the events. -/
def Undisturbed (waiting : List (List Part)) (events : List Event) : Prop :=
  ∀ event ∈ events, ∀ parts ∈ waiting, ¬ Mentions parts event.id

def Startable (s : Helper) (events : List Event) : Prop :=
  Undisturbed s.direct events ∧ RoutedRight s.partitions [] (recordsOf s.partitions) events

/-- A batch starts when the one before it is done; a call starts at once, ahead of the batches that wait. -/
def Allowed (s : Helper) : Label → Prop
  | .batch events => s.running = none → Startable s events
  | .call event => Undisturbed (calls s) [event] ∧ (∀ events ∈ s.queue, ∀ other ∈ events, other.id ≠ event.id) ∧
      RoutedRight s.partitions [] (recordsOf s.partitions) [event]
  | .resumeBatch => s.running = some [] → ∀ events more, s.queue = events :: more → Startable s events
  | .resumeCall _ => True

/-! ### Parts -/

section Parts

variable {space id : JsString}

def partsAt (space : JsString) (parts : List Part) : List BotAction :=
  (parts.filter fun part => part.1 = space).flatMap Prod.snd

theorem sentTo_append (space : JsString) (first second : List (JsString × BotAction)) :
    sentTo space (first ++ second) = sentTo space first ++ sentTo space second := by
  rw [sentTo, List.filter_append, List.map_append]
  rfl

theorem sentTo_singleton (space : JsString) (sent : JsString × BotAction) :
    sentTo space [sent] = if sent.1 = space then [sent.2] else [] := by
  by_cases same : sent.1 = space <;> simp [sentTo, same]

theorem partsAt_of_lookup (parts : List Part) (distinct : (parts.map Prod.fst).Nodup) :
    partsAt space parts = (lookup space parts).getD [] := by
  induction parts with
  | nil => rfl
  | cons part rest ih =>
    obtain ⟨outside, later⟩ := List.nodup_cons.mp distinct
    have tail := ih later
    rw [partsAt] at tail ⊢
    by_cases same : part.1 = space
    · have missing : lookup space rest = none := by
        apply (lookup_eq_none_iff _ _).mpr
        rw [← same]
        exact outside
      rw [missing] at tail
      rw [filter_cons, if_pos (by simpa using same), List.flatMap_cons, tail, lookup, if_pos same.symm]
      exact append_nil _
    · rw [filter_cons, if_neg (by simpa using same), tail, lookup, if_neg (fun equal => same equal.symm)]

theorem nodup_push {parts : List Part} (distinct : (parts.map Prod.fst).Nodup) (sent : JsString × BotAction) :
    ((push parts sent).map Prod.fst).Nodup := by
  rw [push, assign_keys]
  split
  · exact distinct
  · next outside =>
      apply List.nodup_append.mpr
      refine ⟨distinct, List.nodup_singleton _, fun other member last inside => ?_⟩
      rw [mem_singleton.mp inside]
      rintro rfl
      exact outside member

/-- A partition's part has what is sent to it, in order. -/
theorem partsOf_spec (sent : List (JsString × BotAction)) :
    ((partsOf sent).map Prod.fst).Nodup ∧ ∀ space, (lookup space (partsOf sent)).getD [] = sentTo space sent := by
  induction sent using List.reverseRecOn with
  | nil => exact ⟨List.nodup_nil, fun _ => rfl⟩
  | append_singleton sent last ih =>
    obtain ⟨distinct, values⟩ := ih
    have whole : partsOf (sent ++ [last]) = push (partsOf sent) last := by
      rw [partsOf, foldl_append]
      rfl
    rw [whole]
    refine ⟨nodup_push distinct last, fun space => ?_⟩
    rw [push, lookup_assign, sentTo_append, sentTo_singleton]
    by_cases same : space = last.1
    · subst same
      rw [if_pos rfl, if_pos rfl, Option.getD_some, values]
    · rw [if_neg same, if_neg (fun equal => same equal.symm), values, append_nil]

theorem partsAt_partsOf (space : JsString) (sent : List (JsString × BotAction)) :
    partsAt space (partsOf sent) = sentTo space sent := by
  obtain ⟨distinct, values⟩ := partsOf_spec sent
  rw [partsAt_of_lookup _ distinct, values]

theorem mentions_iff {parts : List Part} :
    Mentions parts id ↔ ∃ space, ∃ action ∈ partsAt space parts, Names id action := by
  constructor
  · rintro ⟨part, member, action, inside, names⟩
    refine ⟨part.1, action, ?_, names⟩
    exact List.mem_flatMap.mpr ⟨part, mem_filter.mpr ⟨member, by simp⟩, inside⟩
  · rintro ⟨space, action, inside, names⟩
    obtain ⟨part, member, listed⟩ := List.mem_flatMap.mp inside
    exact ⟨part, (mem_filter.mp member).1, action, listed, names⟩

theorem fold_silent (space : JsString) {actions : List BotAction} (silent : ∀ action ∈ actions, ¬ Names id action)
    (record : Option Bot) : actions.foldl (effect space id) record = record := by
  induction actions with
  | nil => rfl
  | cons action rest ih =>
    rw [foldl_cons, effect_of_not_names space (silent action List.mem_cons_self)]
    exact ih (fun other member => silent other (List.mem_cons_of_mem _ member))

theorem partsAt_silent {parts : List Part} (silent : ¬ Mentions parts id) (space : JsString) :
    ∀ action ∈ partsAt space parts, ¬ Names id action := fun action member names =>
  silent (mentions_iff.mpr ⟨space, action, member, names⟩)

theorem applyPart_spec {partitions next : Partitions} {part : Part} (made : applyPart partitions part = some next) :
    spacesOf next = spacesOf partitions ∧ ∀ space id, recordsOf next space id =
      if space = part.1 then part.2.foldl (effect space id) (recordsOf partitions space id)
      else recordsOf partitions space id := by
  obtain ⟨state, known, ran⟩ := Option.bind_eq_some_iff.mp made
  obtain ⟨batch, isBatch, same⟩ := map_eq_some_iff.mp ran
  subst same
  constructor
  · rw [spacesOf, assign_keys, if_pos]
    · rfl
    · by_contra outside
      rw [(lookup_eq_none_iff part.1 partitions).mpr outside] at known
      cases known
  · intro space id
    rw [recordsOf, lookup_assign, recordsOf]
    by_cases here : space = part.1
    · subst here
      rw [if_pos rfl, if_pos rfl, known]
      exact runAll_effect part.1 part.2 { state := state, updated := [] } isBatch id
    · rw [if_neg here, if_neg here]

end Parts

/-! ### What the actions mean -/

section Meanings

variable {spaces : List JsString} {id : JsString} {event : Event}

theorem names_bare (names : Names id event.bare) : event.id = id := by
  cases event <;> exact names

theorem names_carried {target : Option JsString} {sent : JsString × BotAction}
    (member : sent ∈ carried spaces target event) (names : Names id sent.2) : event.id = id := by
  rcases List.mem_append.mp member with own | mask
  · obtain ⟨space, _, same⟩ := map_eq_some_iff.mp (Option.mem_toList.mp own)
    subst same
    exact names_bare names
  · obtain ⟨masks, _, made⟩ := List.mem_filterMap.mp mask
    split at made
    · cases made
      exact names
    · cases made

theorem names_sentTo {target : Option JsString} {space : JsString} {action : BotAction}
    (member : action ∈ sentTo space (carried spaces target event)) (names : Names id action) : event.id = id := by
  obtain ⟨sent, inside, same⟩ := mem_map.mp member
  subst same
  exact names_carried (mem_filter.mp inside).1 names

theorem carryOut_other (records : Records) (apart : event.id ≠ id) (space : JsString) :
    carryOut spaces records event space id = records space id :=
  fold_silent space (fun _ member names => apart (names_sentTo member names)) _

variable {records others : Records}

theorem target_congr (same : ∀ space, records space event.id = others space event.id) :
    target spaces records event = target spaces others event := by
  cases event with
  | addBot id bot => rfl
  | removeBot id => exact congrArg spaces.find? (funext fun space => congrArg isBot (same space))
  | updateBot id tags masks => exact congrArg spaces.find? (funext fun space => congrArg isBot (same space))

theorem carryOut_congr (same : ∀ space, records space id = others space id)
    (space : JsString) : carryOut spaces records event space id = carryOut spaces others event space id := by
  by_cases own : event.id = id
  · subst own
    rw [carryOut, carryOut, target_congr same, same space]
  · rw [carryOut_other records own, carryOut_other others own, same space]

theorem fold_filter (events : List Event) (same : ∀ space, records space id = others space id) (space : JsString) :
    events.foldl (carryOut spaces) records space id =
      (events.filter fun event => event.id = id).foldl (carryOut spaces) others space id := by
  induction events generalizing records others with
  | nil => exact same space
  | cons event rest ih =>
    rw [foldl_cons, filter_cons]
    by_cases own : event.id = id
    · rw [if_pos (by simpa using own), foldl_cons]
      exact ih (fun other => carryOut_congr same other)
    · rw [if_neg (by simpa using own)]
      exact ih (fun other => (carryOut_other records own other).trans (same other))

theorem fold_congr (events : List Event) (same : ∀ space, records space id = others space id) (space : JsString) :
    events.foldl (carryOut spaces) records space id = events.foldl (carryOut spaces) others space id :=
  (fold_filter events same space).trans (fold_filter events (fun _ => rfl) space).symm

theorem fold_other (events : List Event) (records : Records) (apart : ∀ event ∈ events, event.id ≠ id)
    (space : JsString) : events.foldl (carryOut spaces) records space id = records space id := by
  have none' : events.filter (fun event => event.id = id) = [] :=
    List.filter_eq_nil_iff.mpr (fun event member => by simpa using apart event member)
  rw [fold_filter events (fun _ => rfl), none']
  rfl

theorem maskEvents_eq (partitions : Partitions) (event : Event) : maskEvents partitions event =
    event.masks.filterMap fun masks => if masks.1 ∈ spacesOf partitions then
      some (masks.1, .updateBot event.id none (some masks.2)) else none := by
  apply List.filterMap_congr
  intro masks _
  rw [partitionForBotType]
  split
  · next known => exact (if_pos known).symm
  · next unknown => exact (if_neg unknown).symm

theorem sends_eq {partitions : Partitions} {space : Option JsString}
    (kept : space = none → event.isAdd = true ∨ maskEvents partitions event = []) :
    sends partitions space event = carried (spacesOf partitions) space event := by
  rw [carried, ← maskEvents_eq]
  cases space with
  | some space => rfl
  | none =>
    rw [sends]
    rcases kept rfl with added | nothing
    · rw [if_pos added]
      rfl
    · rw [nothing, ite_self]
      rfl

theorem routed_fold {partitions : Partitions} (events : List Event) {news : List (JsString × JsString)}
    (right : RoutedRight partitions news records events) (space id : JsString) :
    (sentTo space (routed partitions news events)).foldl (effect space id) (records space id) =
      events.foldl (carryOut (spacesOf partitions)) records space id := by
  induction events generalizing news records with
  | nil => rfl
  | cons event rest ih =>
    obtain ⟨same, kept, later⟩ := right
    have own : sends partitions (route partitions news event) event =
        carried (spacesOf partitions) (target (spacesOf partitions) records event) event := by
      rw [← same]
      exact sends_eq kept
    rw [routed, sentTo_append, foldl_append, own, foldl_cons]
    exact ih later

theorem names_routed {partitions : Partitions} {events : List Event} {news : List (JsString × JsString)}
    (right : RoutedRight partitions news records events) {sent : JsString × BotAction}
    (member : sent ∈ routed partitions news events) (names : Names id sent.2) : ∃ event ∈ events, event.id = id := by
  induction events generalizing news records with
  | nil => cases member
  | cons event rest ih =>
    obtain ⟨same, kept, later⟩ := right
    rw [routed, sends_eq kept] at member
    rcases List.mem_append.mp member with own | tail
    · exact ⟨event, List.mem_cons_self, names_carried own names⟩
    · obtain ⟨other, inside, isId⟩ := ih later tail
      exact ⟨other, List.mem_cons_of_mem _ inside, isId⟩

end Meanings

/-! ### Calls that wait -/

section Waiting

variable {initial partitions next : Partitions} {left right : List (List Part)} {parts : List Part}
  {started events : List Event}

/-- Not both calls have something to send for one bot. -/
def Apart (first second : List Part) : Prop := ∀ id, ¬ (Mentions first id ∧ Mentions second id)

/-- What the waiting calls have still to send makes of the partitions what the started events mean. -/
structure Waits (initial : Partitions) (calls : List (List Part)) (partitions : Partitions)
    (started : List Event) : Prop where
  spaces : spacesOf partitions = spacesOf initial
  apart : calls.Pairwise Apart
  records : ∀ space id, (calls.flatMap (partsAt space)).foldl (effect space id) (recordsOf partitions space id) =
    started.foldl (carryOut (spacesOf initial)) (recordsOf initial) space id

theorem waits_start (initial : Partitions) : Waits initial [] initial [] :=
  ⟨rfl, List.Pairwise.nil, fun _ _ => rfl⟩

theorem apart_symm {first second : List Part} (apart : Apart first second) : Apart second first :=
  fun id both => apart id ⟨both.2, both.1⟩

theorem apart_middle : (left ++ parts :: right).Pairwise Apart ↔
    (∀ other ∈ left ++ right, Apart parts other) ∧ (left ++ right).Pairwise Apart := by
  rw [List.pairwise_middle apart_symm, List.pairwise_cons]

theorem flatMap_silent {waiting : List (List Part)} {id : JsString}
    (silent : ∀ parts ∈ waiting, ¬ Mentions parts id) (space : JsString) :
    ∀ action ∈ waiting.flatMap (partsAt space), ¬ Names id action := by
  intro action member
  obtain ⟨parts, inside, listed⟩ := List.mem_flatMap.mp member
  exact partsAt_silent (silent parts inside) space action listed

theorem fold_middle (space : JsString) {id : JsString} (apart : ∀ other ∈ left ++ right, Apart parts other)
    (record : Option Bot) :
    ((left ++ parts :: right).flatMap (partsAt space)).foldl (effect space id) record =
      ((left ++ right).flatMap (partsAt space)).foldl (effect space id)
        ((partsAt space parts).foldl (effect space id) record) := by
  rw [List.flatMap_append, List.flatMap_cons, foldl_append, foldl_append, List.flatMap_append, foldl_append]
  by_cases mentioned : Mentions parts id
  · have silent : ∀ other ∈ left, ¬ Mentions other id := fun other member both =>
      apart other (List.mem_append_left _ member) id ⟨mentioned, both⟩
    rw [fold_silent space (flatMap_silent silent space), fold_silent space (flatMap_silent silent space)]
  · rw [fold_silent space (partsAt_silent mentioned space), fold_silent space (partsAt_silent mentioned space)]

theorem partsAt_cons (space : JsString) (part : Part) (rest : List Part) :
    partsAt space (part :: rest) = (if space = part.1 then part.2 else []) ++ partsAt space rest := by
  rw [partsAt, partsAt]
  by_cases same : space = part.1
  · rw [filter_cons, if_pos (by simpa using same.symm), if_pos same, List.flatMap_cons]
  · rw [filter_cons, if_neg (by simpa using fun equal => same equal.symm), if_neg same, List.nil_append]

variable {rest : List Part}

theorem mentions_rest {part : Part} {id : JsString} (mentioned : Mentions rest id) : Mentions (part :: rest) id := by
  obtain ⟨other, member, named⟩ := mentioned
  exact ⟨other, List.mem_cons_of_mem _ member, named⟩

theorem waits_apply {part : Part} (waits : Waits initial (left ++ (part :: rest) :: right) partitions started)
    (made : applyPart partitions part = some next) : Waits initial (left ++ rest :: right) next started := by
  obtain ⟨spaces, records⟩ := applyPart_spec made
  obtain ⟨others, inside⟩ := apart_middle.mp waits.apart
  have apart : ∀ other ∈ left ++ right, Apart rest other := fun other member id both =>
    others other member id ⟨mentions_rest both.1, both.2⟩
  refine ⟨spaces.trans waits.spaces, apart_middle.mpr ⟨apart, inside⟩, fun space id => ?_⟩
  have before := waits.records space id
  rw [fold_middle space others, partsAt_cons, foldl_append] at before
  rw [fold_middle space apart, records, ← before]
  by_cases same : space = part.1
  · rw [if_pos same, if_pos same]
  · rw [if_neg same, if_neg same]
    rfl

theorem waits_done (waits : Waits initial (left ++ [] :: right) partitions started) :
    Waits initial (left ++ right) partitions started := by
  obtain ⟨others, inside⟩ := apart_middle.mp waits.apart
  refine ⟨waits.spaces, inside, fun space id => ?_⟩
  rw [← waits.records space id, fold_middle space others]
  rfl

/-- A call that no other one disturbs waits with all that it has to send. -/
theorem waits_join (waits : Waits initial (left ++ right) partitions started)
    (undisturbed : Undisturbed (left ++ right) events)
    (routes : RoutedRight partitions [] (recordsOf partitions) events) :
    Waits initial (left ++ partsOf (routed partitions [] events) :: right) partitions (started ++ events) := by
  have named : ∀ id, Mentions (partsOf (routed partitions [] events)) id → ∃ event ∈ events, event.id = id := by
    intro id mentioned
    obtain ⟨space, action, member, names⟩ := mentions_iff.mp mentioned
    rw [partsAt_partsOf] at member
    obtain ⟨sent, inside, same⟩ := mem_map.mp member
    subst same
    exact names_routed routes (mem_filter.mp inside).1 names
  have apart : ∀ other ∈ left ++ right, Apart (partsOf (routed partitions [] events)) other := by
    intro other member id both
    obtain ⟨event, inside, same⟩ := named id both.1
    subst same
    exact undisturbed event inside other member both.2
  refine ⟨waits.spaces, apart_middle.mpr ⟨apart, waits.apart⟩, fun space id => ?_⟩
  have before := waits.records
  rw [fold_middle space apart, partsAt_partsOf, foldl_append]
  by_cases own : ∃ event ∈ events, event.id = id
  · obtain ⟨event, inside, same⟩ := own
    subst same
    have silent := undisturbed event inside
    have settled : ∀ space, recordsOf partitions space event.id =
        started.foldl (carryOut (spacesOf initial)) (recordsOf initial) space event.id := by
      intro space
      rw [← before space event.id, fold_silent space (flatMap_silent silent space)]
    rw [fold_silent space (flatMap_silent silent space), routed_fold events routes, waits.spaces]
    exact fold_congr events settled space
  · have others : ∀ event ∈ events, event.id ≠ id := fun event member same => own ⟨event, member, same⟩
    have unnamed : ∀ action ∈ sentTo space (routed partitions [] events), ¬ Names id action := by
      intro action member names
      obtain ⟨sent, inside, same⟩ := mem_map.mp member
      subst same
      exact own (names_routed routes (mem_filter.mp inside).1 names)
    rw [fold_silent space unnamed, before, fold_other events _ others]

theorem waits_send (waits : Waits initial (left ++ right) partitions started)
    (undisturbed : Undisturbed (left ++ right) events)
    (routes : RoutedRight partitions [] (recordsOf partitions) events)
    (sent : sendEvents partitions events = some (next, rest)) :
    Waits initial (left ++ rest :: right) next (started ++ events) := by
  have joined := waits_join waits undisturbed routes
  rw [sendEvents] at sent
  cases all : partsOf (routed partitions [] events) with
  | nil =>
    rw [all] at sent joined
    cases sent
    exact joined
  | cons part others =>
    rw [all] at sent joined
    obtain ⟨after, made, same⟩ := map_eq_some_iff.mp sent
    cases same
    exact waits_apply joined made

end Waiting

/-! ### Runs -/

section Runs

variable {initial : Partitions} {s next : Helper}

def about (id : JsString) (events : List Event) : List Event := events.filter fun event => event.id = id

/-- The started events and those of the batches that wait are, bot by bot, those that have been issued. -/
structure InOrder (initial : Partitions) (s : Helper) : Prop where
  idle : s.running = none → s.queue = []
  begun : ∃ started, Waits initial (calls s) s.partitions started ∧
    ∀ id, about id s.issued = about id (started ++ s.queue.flatten)

theorem about_append (id : JsString) (first second : List Event) :
    about id (first ++ second) = about id first ++ about id second := List.filter_append ..

theorem inOrder_start (initial : Partitions) : InOrder initial (start initial) :=
  ⟨fun _ => rfl, [], waits_start initial, fun _ => rfl⟩

theorem batch_inOrder {events : List Event} (inOrder : InOrder initial s) (allowed : Allowed s (.batch events))
    (ran : step s (.batch events) = some next) : InOrder initial next := by
  obtain ⟨idle, started, waits, order⟩ := inOrder
  rw [step] at ran
  cases running : s.running with
  | none =>
    rw [running] at ran
    obtain ⟨⟨after, rest⟩, sent, same⟩ := map_eq_some_iff.mp ran
    subst same
    obtain ⟨undisturbed, routes⟩ := allowed running
    have only : calls s = s.direct := by
      rw [calls, running]
      rfl
    rw [only] at waits
    have joined := @waits_send _ _ _ [] _ _ _ _ waits undisturbed routes sent
    refine ⟨fun impossible => (by cases impossible), started ++ events, joined, fun id => ?_⟩
    have before := order id
    rw [idle running, List.flatten_nil, append_nil] at before
    rw [idle running, List.flatten_nil, append_nil, about_append, about_append, before]
  | some parts =>
    rw [running] at ran
    cases ran
    rw [calls, running] at waits
    refine ⟨fun impossible => (by cases impossible), started, waits, fun id => ?_⟩
    rw [about_append, order id, List.flatten_append, List.flatten_singleton, ← append_assoc, ← about_append]

theorem call_inOrder {event : Event} (inOrder : InOrder initial s) (allowed : Allowed s (.call event))
    (ran : step s (.call event) = some next) : InOrder initial next := by
  obtain ⟨idle, started, waits, order⟩ := inOrder
  obtain ⟨undisturbed, unqueued, routes⟩ := allowed
  obtain ⟨⟨after, rest⟩, sent, same⟩ := map_eq_some_iff.mp ran
  subst same
  have whole : calls s ++ [] = calls s := append_nil _
  rw [← whole] at waits undisturbed
  have joined := waits_send waits undisturbed routes sent
  refine ⟨idle, started ++ [event], ?_, fun id => ?_⟩
  · rw [calls, append_assoc] at joined
    exact joined
  · rw [about_append, order id, about_append, append_assoc, about_append, about_append]
    by_cases own : event.id = id
    · have none' : about id s.queue.flatten = [] := by
        apply List.filter_eq_nil_iff.mpr
        intro other member
        obtain ⟨events, listed, inside⟩ := List.mem_flatten.mp member
        rw [← own]
        simpa using unqueued events listed other inside
      rw [none', List.nil_append, append_nil]
    · have none' : about id [event] = [] := by
        rw [about, filter_cons, if_neg (by simpa using own)]
        rfl
      rw [none', append_nil, append_nil]

theorem resumeBatch_inOrder (inOrder : InOrder initial s) (allowed : Allowed s .resumeBatch)
    (ran : step s .resumeBatch = some next) : InOrder initial next := by
  obtain ⟨idle, started, waits, order⟩ := inOrder
  rw [step] at ran
  cases running : s.running with
  | none =>
    rw [running] at ran
    cases ran
  | some parts =>
    have whole : calls s = [] ++ parts :: s.direct := by
      rw [calls, running]
      rfl
    rw [whole] at waits
    cases parts with
    | cons part rest =>
      rw [running] at ran
      obtain ⟨after, made, same⟩ := map_eq_some_iff.mp ran
      subst same
      exact ⟨fun impossible => (by cases impossible), started, waits_apply waits made, order⟩
    | nil =>
      have left := waits_done waits
      cases queued : s.queue with
      | nil =>
        rw [running, queued] at ran
        cases ran
        rw [queued] at order
        exact ⟨fun _ => rfl, started, left, order⟩
      | cons events more =>
        rw [running, queued] at ran
        obtain ⟨⟨after, rest⟩, sent, same⟩ := map_eq_some_iff.mp ran
        subst same
        obtain ⟨undisturbed, routes⟩ := allowed running events more queued
        refine ⟨fun impossible => (by cases impossible), started ++ events,
          waits_send left undisturbed routes sent, fun id => ?_⟩
        rw [order id, queued, List.flatten_cons, append_assoc]

theorem resumeCall_inOrder {index : Nat} (inOrder : InOrder initial s)
    (ran : step s (.resumeCall index) = some next) : InOrder initial next := by
  obtain ⟨idle, started, waits, order⟩ := inOrder
  rw [step] at ran
  cases found : s.direct[index]? with
  | none =>
    rw [found] at ran
    cases ran
  | some parts =>
    obtain ⟨inside, isParts⟩ := List.getElem?_eq_some_iff.mp found
    have split : s.direct = s.direct.take index ++ parts :: s.direct.drop (index + 1) := by
      rw [← isParts, List.getElem_cons_drop, List.take_append_drop]
    have whole : calls s = (s.running.toList ++ s.direct.take index) ++ parts :: s.direct.drop (index + 1) := by
      rw [calls, append_assoc, ← split]
    rw [whole] at waits
    cases parts with
    | nil =>
      rw [found] at ran
      cases ran
      refine ⟨idle, started, ?_, order⟩
      have left := waits_done waits
      rw [append_assoc, ← List.eraseIdx_eq_take_drop_succ] at left
      exact left
    | cons part rest =>
      rw [found] at ran
      obtain ⟨after, made, same⟩ := map_eq_some_iff.mp ran
      subst same
      refine ⟨idle, started, ?_, order⟩
      have left := waits_apply waits made
      have renewed : s.direct.set index rest = s.direct.take index ++ rest :: s.direct.drop (index + 1) := by
        rw [List.set_eq_take_append_cons_drop, if_pos inside]
      rw [append_assoc, ← renewed] at left
      exact left

theorem inOrder_of_reaches (reached : Reaches step Allowed (start initial) s) : InOrder initial s := by
  apply reached.invariant (InOrder initial) (inOrder_start initial)
  intro state label next inOrder allowed ran
  cases label with
  | batch events => exact batch_inOrder inOrder allowed ran
  | call event => exact call_inOrder inOrder allowed ran
  | resumeBatch => exact resumeBatch_inOrder inOrder allowed ran
  | resumeCall index => exact resumeCall_inOrder inOrder ran

end Runs

/-! ### A bot that is added with a mask, and a bot that moves -/

section Sample

def one : JsString := lit ['s']

def two : JsString := lit ['t']

def botIn (space : JsString) (tags : Fields) : Bot :=
  { id := some one, space := some space, tags := some tags, signatures := none, masks := none }

def valued : Fields := [(one, .boolean true)]

def empty : Partitions := [(one, []), (two, [])]

def holding (first second : Option Bot) : Partitions :=
  [(one, (first.map (one, ·)).toList), (two, (second.map (one, ·)).toList)]

def adding (id space : JsString) : Event := .addBot id (botIn space [])

def adds : List Event := [adding one one, .updateBot one (some valued) (some [(two, valued)])]

def maskPart : Part := (two, [.updateBot one none (some valued)])

end Sample

end CasualOS.ActionRouting
