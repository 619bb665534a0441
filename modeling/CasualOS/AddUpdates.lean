import Mathlib.Data.Set.Lattice
import CasualOS.Lib.Run
import CasualOS.UpdatesStore

/-! `addUpdates` of the server over `MemoryUpdatesStore`, with its handlers cut at their awaits. -/

namespace CasualOS.AddUpdates

open Run
open List (mem_append mem_cons mem_map not_mem_nil)
open JsString (lit)
open MemoryUpdatesStore (addUpdates_bounded addUpdates_refused addUpdates_single addUpdates_stored clearUpdates_bounded
  get_clearUpdates get_put replaceUpdates_bounded)
open Option (some)

variable {P : Type}

structure AddUpdatesEvent where
  branch : JsString
  updates : Option (List JsString)
  updateId : Option Nat
  deriving DecidableEq, Repr

/-- A call of `addUpdates`; `clears` tells how often its branch had been cleared when the store was last
asked to take its updates. -/
structure Call where
  connectionId : JsString
  event : AddUpdatesEvent
  clears : Nat
  deriving DecidableEq, Repr

def branchNamespace (branch : JsString) : JsString :=
  lit ['/', 'b', 'r', 'a', 'n', 'c', 'h', '/'] ++ branch

def Call.space (call : Call) : JsString := branchNamespace call.event.branch

def Call.updates (call : Call) : List JsString := call.event.updates.getD []

/-- A handler at the await where it stands. -/
inductive Handler where
  | adding (call : Call) (result : AddUpdatesResult)
  | reading (call : Call) (failure : MaxSizeReachedFailure) (updates : StoredUpdates)
  | replacing (call : Call) (result : AddUpdatesResult)
  | connecting (call : Call)
  | sending (call : Call)

inductive Message where
  /-- `ADD_UPDATES`, to every other device of the branch. -/
  | addUpdates (call : Call)
  | updatesReceived (call : Call) (error : Option MaxSizeReachedFailure)

/-- An update that the store took, and how often its branch had been cleared before. -/
structure Taken where
  space : JsString
  clears : Nat
  update : JsString

/-- The updates of the branch before and after the store refused to take those of a call. -/
structure Refusal where
  call : Call
  before : List JsString
  after : List JsString

/-- The server with its store. `clears`, `taken` and `refusals` are the history of the store. -/
structure Server where
  store : MemoryUpdatesStore
  mergeUpdatesOnMaxSizeExceeded : Bool
  handlers : List Handler
  sent : List Message
  clears : JsString → Nat
  taken : List Taken
  refusals : List Refusal

def idle (maxAllowedInstSize : Option Int) (mergeUpdatesOnMaxSizeExceeded : Bool) : Server where
  store := .new maxAllowedInstSize
  mergeUpdatesOnMaxSizeExceeded := mergeUpdatesOnMaxSizeExceeded
  handlers := []
  sent := []
  clears := fun _ => 0
  taken := []
  refusals := []

namespace Server

def push (s : Server) (handler : Handler) : Server := { s with handlers := handler :: s.handlers }

def updatesOf (s : Server) (space : JsString) : List JsString := (s.store.get space).updates

/-- The end of a call, which is answered if it has an `updateId`. -/
def answer (s : Server) (call : Call) (error : Option MaxSizeReachedFailure) : Server :=
  if call.event.updateId.isSome then { s with sent := .updatesReceived call error :: s.sent } else s

def deliver (s : Server) (call : Call) : Server :=
  if call.updates.length > 0 then s.push (.connecting call) else s.answer call none

def withStore (s : Server) (call : Call) (given : List JsString)
    (made : MemoryUpdatesStore × AddUpdatesResult) : Server :=
  match made.2 with
  | .ok _ =>
    { s with
      store := made.1
      taken := given.map (fun u => ⟨call.space, s.clears call.space, u⟩) ++ s.taken }
  | .error _ =>
    { s with
      store := made.1
      refusals := ⟨call, s.updatesOf call.space, (made.1.get call.space).updates⟩ :: s.refusals }

end Server

section Steps

-- `mergeUpdates` on encoded updates; it gives nothing where it throws.
variable (mergeUpdates : List JsString → Option JsString)

/-- A call up to its first await. -/
def begin (s : Server) (call : Call) (now : Nat) : Server :=
  match call.event.updates with
  | none => s.deliver call
  | some updates =>
    let made := s.store.addUpdates call.space updates now
    (s.withStore call updates made).push (.adding call made.2)

/-- A handler goes on from its await to the next one; it is no longer among the handlers of `s`. -/
def resume (s : Server) (now : Nat) : Handler → Server
  | .adding call (.ok _) | .replacing call (.ok _) => s.deliver call
  | .adding call (.error failure) =>
    if s.mergeUpdatesOnMaxSizeExceeded then
      s.push (.reading call failure (s.store.getUpdates call.space))
    else s.answer call (some failure)
  | .reading call failure updates =>
    match mergeUpdates (updates.updates ++ call.updates) with
    | none => s.answer call (some failure)
    | some merged =>
      let call := { call with clears := s.clears call.space }
      let made := s.store.replaceUpdates call.space updates [merged] now
      (s.withStore call [merged] made).push (.replacing call made.2)
  | .replacing call (.error failure) => s.answer call (some failure)
  | .connecting call => { s with sent := .addUpdates call :: s.sent }.push (.sending call)
  | .sending call => s.answer call none

inductive Label where
  | addUpdates (connectionId : JsString) (event : AddUpdatesEvent) (now : Nat)
  | resume (handler : Nat) (now : Nat)
  | clearUpdates (space : JsString)

def step (s : Server) : Label → Option Server
  | .addUpdates connectionId event now =>
    some (begin s ⟨connectionId, event, s.clears (branchNamespace event.branch)⟩ now)
  | .resume i now => (s.handlers[i]?).map
      (resume mergeUpdates { s with handlers := s.handlers.eraseIdx i } now)
  | .clearUpdates space =>
    some { s with
      store := s.store.clearUpdates space
      clears := fun other => if other = space then s.clears other + 1 else s.clears other }

/-- The merged update has room in the place of the snapshot that it was made from, or nothing is lost
with the snapshot. -/
def Replaceable (content : JsString → Set P) (s : Server) (space : JsString) (snapshot : List JsString)
    (merged : JsString) : Prop :=
  let kept := (s.updatesOf space).diff snapshot
  s.store.exceeds (totalLength kept + merged.length) = false ∨
    ∀ u ∈ s.updatesOf space, content u ⊆ ⋃ v ∈ kept, content v

def Allowed (content : JsString → Set P) (s : Server) : Label → Prop
  | .resume i _ => ∀ call failure updates merged, s.handlers[i]? = some (.reading call failure updates) →
      mergeUpdates (updates.updates ++ call.updates) = some merged →
      Replaceable content s call.space updates.updates merged
  | _ => True

end Steps

/-! ### What is kept -/

section Kept

variable (content : JsString → Set P)

def contents (updates : List JsString) : Set P := ⋃ u ∈ updates, content u

/-- `getUpdates` covers the update: it is stored, or what it holds is. -/
def Covered (s : Server) (space update : JsString) : Prop :=
  content update ⊆ contents content (s.store.getUpdates space).updates

/-- No update is lost while its branch is not cleared, and what is refused changes nothing. -/
structure Kept (s : Server) : Prop where
  stored : ∀ taken ∈ s.taken, taken.clears = s.clears taken.space →
    Covered content s taken.space taken.update
  acknowledged : ∀ call, .updatesReceived call none ∈ s.sent → call.clears = s.clears call.space →
    ∀ u ∈ call.updates, Covered content s call.space u
  refused : ∀ refusal ∈ s.refusals,
    contents content refusal.after = contents content refusal.before

def Handler.stored : Handler → Option Call
  | .adding call (.ok _) | .replacing call (.ok _) | .connecting call | .sending call => some call
  | _ => none

structure Sound (s : Server) : Prop where
  kept : Kept content s
  /-- Each call is a past one. -/
  past : ∀ call, (.updatesReceived call none ∈ s.sent ∨ ∃ h ∈ s.handlers, h.stored = some call) →
    call.clears ≤ s.clears call.space
  past_taken : ∀ taken ∈ s.taken, taken.clears ≤ s.clears taken.space
  inHand : ∀ handler ∈ s.handlers, ∀ call, handler.stored = some call →
    call.clears = s.clears call.space → ∀ u ∈ call.updates, Covered content s call.space u
  /-- Everything stored is on record. -/
  recorded : ∀ space, ∀ u ∈ s.updatesOf space, ⟨space, s.clears space, u⟩ ∈ s.taken
  sized : ∀ space, (s.store.get space).Sized

end Kept

/-! ### Every step -/

section Steps

variable {content : JsString → Set P} {mergeUpdates : List JsString → Option JsString} {s : Server}

theorem mem_contents {p : P} {updates : List JsString} :
    p ∈ contents content updates ↔ ∃ u ∈ updates, p ∈ content u := by
  simp [contents]

theorem contents_subset {first second : List JsString} (within : ∀ u ∈ first, u ∈ second) :
    contents content first ⊆ contents content second := by
  intro p member
  have ⟨u, inside, holds⟩ := mem_contents.mp member
  exact mem_contents.mpr ⟨u, within u inside, holds⟩

theorem contents_replaced (merges : ∀ us merged, mergeUpdates us = some merged →
      content merged = contents content us) (stored snapshot given : List JsString) (merged : JsString)
    (made : mergeUpdates (snapshot ++ given) = some merged) :
    contents content stored ⊆ contents content (stored.diff snapshot ++ [merged]) := by
  intro p member
  have ⟨u, inside, holds⟩ := mem_contents.mp member
  by_cases removed : u ∈ snapshot
  · have inMerged : p ∈ content merged := by
      rw [merges _ _ made]
      exact mem_contents.mpr ⟨u, List.mem_append_left given removed, holds⟩
    exact mem_contents.mpr ⟨merged, by simp, inMerged⟩
  · have stays := List.mem_diff_of_mem inside removed
    exact mem_contents.mpr ⟨u, List.mem_append_left _ stays, holds⟩

theorem Sound.drop (sound : Sound content s) (i : Nat) :
    Sound content { s with handlers := s.handlers.eraseIdx i } where
  kept := ⟨sound.kept.stored, sound.kept.acknowledged, sound.kept.refused⟩
  past call gone := by
    apply sound.past call
    exact gone.imp id (fun ⟨h, member, stored⟩ => ⟨h, List.mem_of_mem_eraseIdx member, stored⟩)
  past_taken := sound.past_taken
  inHand handler member := sound.inHand handler (List.mem_of_mem_eraseIdx member)
  recorded := sound.recorded
  sized := sound.sized

/-- What the server may say or do for a call whose updates are stored. -/
def Served (content : JsString → Set P) (s : Server) (call : Call) : Prop :=
  call.clears ≤ s.clears call.space ∧
    (call.clears = s.clears call.space → ∀ u ∈ call.updates, Covered content s call.space u)

theorem Sound.push (sound : Sound content s) (handler : Handler)
    (served : ∀ call, handler.stored = some call → Served content s call) :
    Sound content (s.push handler) where
  kept := ⟨sound.kept.stored, sound.kept.acknowledged, sound.kept.refused⟩
  past call gone := by
    rcases gone with sent | ⟨h, member, stored⟩
    · exact sound.past call (.inl sent)
    · rcases mem_cons.mp member with rfl | later
      · exact (served call stored).1
      · exact sound.past call (.inr ⟨h, later, stored⟩)
  past_taken := sound.past_taken
  inHand h member call stored := by
    rcases mem_cons.mp member with rfl | later
    · exact (served call stored).2
    · exact sound.inHand h later call stored
  recorded := sound.recorded
  sized := sound.sized

theorem Sound.send (sound : Sound content s) (message : Message)
    (served : ∀ call, message = .updatesReceived call none → Served content s call) :
    Sound content { s with sent := message :: s.sent } where
  kept := by
    refine ⟨sound.kept.stored, fun call member => ?_, sound.kept.refused⟩
    rcases mem_cons.mp member with same | earlier
    · exact (served call same.symm).2
    · exact sound.kept.acknowledged call earlier
  past call gone := by
    rcases gone with sent | held
    · rcases mem_cons.mp sent with same | earlier
      · exact (served call same.symm).1
      · exact sound.past call (.inl earlier)
    · exact sound.past call (.inr held)
  past_taken := sound.past_taken
  inHand := sound.inHand
  recorded := sound.recorded
  sized := sound.sized

theorem Sound.answer (sound : Sound content s) (call : Call) (error : Option MaxSizeReachedFailure)
    (served : error = none → Served content s call) : Sound content (s.answer call error) := by
  unfold Server.answer
  split
  · apply sound.send
    intro other same
    have parts := Message.updatesReceived.inj same
    exact parts.1 ▸ served parts.2
  · exact sound

theorem Sound.deliver (sound : Sound content s) (call : Call) (served : Served content s call) :
    Sound content (s.deliver call) := by
  unfold Server.deliver
  split
  · apply sound.push
    intro other same
    exact some.inj same ▸ served
  · exact sound.answer call none (fun _ => served)

theorem Sound.served (sound : Sound content s) {handler : Handler} (member : handler ∈ s.handlers)
    {call : Call} (stored : handler.stored = some call) : Served content s call :=
  ⟨sound.past call (.inr ⟨handler, member, stored⟩), sound.inHand handler member call stored⟩

/-- The store may change as long as it covers what it covered. -/
theorem Sound.withStore (sound : Sound content s) (store : MemoryUpdatesStore)
    (taken : List Taken) (refusals : List Refusal)
    (grows : ∀ space, contents content (s.updatesOf space) ⊆
      contents content (store.get space).updates)
    (fresh : ∀ t ∈ taken, t.clears = s.clears t.space ∧ t.update ∈ (store.get t.space).updates)
    (recorded : ∀ space, ∀ u ∈ (store.get space).updates, u ∈ s.updatesOf space ∨
      ⟨space, s.clears space, u⟩ ∈ taken) (sized : ∀ space, (store.get space).Sized)
    (refused : ∀ r ∈ refusals, contents content r.after = contents content r.before) :
    Sound content
      { s with store := store, taken := taken ++ s.taken, refusals := refusals ++ s.refusals } where
  kept := by
    refine ⟨fun t member current => ?_, fun call sent current u inside => ?_, fun r member => ?_⟩
    · rcases mem_append.mp member with new | old
      · exact fun _ holds => mem_contents.mpr ⟨t.update, (fresh t new).2, holds⟩
      · exact (sound.kept.stored t old current).trans (grows t.space)
    · exact (sound.kept.acknowledged call sent current u inside).trans (grows call.space)
    · exact (mem_append.mp member).elim (refused r) (sound.kept.refused r)
  past := sound.past
  past_taken t member := by
    rcases mem_append.mp member with new | old
    · exact le_of_eq (fresh t new).1
    · exact sound.past_taken t old
  inHand h member call stored current u inside :=
    (sound.inHand h member call stored current u inside).trans (grows call.space)
  recorded space u member := by
    apply mem_append.mpr
    exact (recorded space u member).symm.imp id (fun old => sound.recorded space u old)
  sized := sized

theorem Sound.asked (sound : Sound content s) (call : Call) (given : List JsString)
    (made : MemoryUpdatesStore × AddUpdatesResult) (wrap : AddUpdatesResult → Handler)
    (wrapped : ∀ result, (wrap result).stored = if result.isOk then some call else none)
    (current : call.clears = s.clears call.space)
    (stored : ∀ store, made = (store, .ok ()) →
      (∀ other, other ≠ call.space → store.get other = s.store.get other) ∧
        contents content (s.updatesOf call.space) ⊆ contents content (store.get call.space).updates ∧
        (∀ u ∈ given, u ∈ (store.get call.space).updates) ∧
        (∀ u ∈ (store.get call.space).updates, u ∈ s.updatesOf call.space ∨ u ∈ given) ∧
        (∀ u ∈ call.updates, content u ⊆ contents content (store.get call.space).updates) ∧
        (store.get call.space).Sized)
    (refused : ∀ store failure, made = (store, .error failure) →
      (∀ other, other ≠ call.space → store.get other = s.store.get other) ∧
        (∀ u ∈ (store.get call.space).updates, u ∈ s.updatesOf call.space) ∧
        contents content (store.get call.space).updates = contents content (s.updatesOf call.space) ∧
        (store.get call.space).Sized) : Sound content ((s.withStore call given made).push (wrap made.2)) := by
  rcases made with ⟨store, result⟩
  cases result with
  | ok done =>
    have ⟨frame, grows, taken, known, served, sized⟩ := stored store rfl
    have kept : Sound content (s.withStore call given (store, .ok done)) := by
      apply sound.withStore store _ [] (fun space => ?_) (fun t member => ?_)
        (fun space u member => ?_) (fun space => ?_) (fun r member => by cases member)
      · by_cases same : space = call.space
        · exact same ▸ grows
        · rw [frame space same]
          exact subset_rfl
      · have ⟨u, inside, same⟩ := mem_map.mp member
        rw [← same]
        exact ⟨rfl, taken u inside⟩
      · by_cases same : space = call.space
        · subst same
          exact (known u member).imp id (fun new => mem_map.mpr ⟨u, new, rfl⟩)
        · rw [frame space same] at member
          exact .inl member
      · by_cases same : space = call.space
        · exact same ▸ sized
        · rw [frame space same]
          exact sound.sized space
    apply kept.push
    intro other holds
    rw [wrapped] at holds
    have same : call = other := some.inj holds
    exact same ▸ ⟨le_of_eq current, fun _ u inside => served u inside⟩
  | error failure =>
    have ⟨frame, known, same, sized⟩ := refused store failure rfl
    have kept : Sound content (s.withStore call given (store, .error failure)) := by
      apply sound.withStore store [] [_] (fun space => ?_) (fun t member => by cases member)
        (fun space u member => ?_) (fun space => ?_) (fun r member => ?_)
      · by_cases here : space = call.space
        · rw [here, same]
        · rw [frame space here]
          exact subset_rfl
      · by_cases here : space = call.space
        · exact .inl (here ▸ known u (here ▸ member))
        · rw [frame space here] at member
          exact .inl member
      · by_cases here : space = call.space
        · exact here ▸ sized
        · rw [frame space here]
          exact sound.sized space
      · rw [List.mem_singleton.mp member]
        exact same
    apply kept.push
    intro other holds
    rw [wrapped] at holds
    cases holds

theorem Sound.begin (sound : Sound content s) (call : Call) (now : Nat)
    (current : call.clears = s.clears call.space) : Sound content (begin s call now) := by
  unfold AddUpdates.begin
  split
  · next none =>
      apply sound.deliver
      refine ⟨le_of_eq current, fun _ u inside => ?_⟩
      simp [Call.updates, none] at inside
  · next updates given =>
      apply sound.asked call updates _ (.adding call)
        (fun result => by cases result <;> rfl) current (fun store ran => ?_)
        (fun store failure ran => ?_)
      · have ⟨frame, list, size⟩ := addUpdates_stored _ _ _ _ _ ran
        rw [list]
        refine ⟨frame, contents_subset (fun u => List.mem_append_left updates),
          fun u => List.mem_append_right _, fun u => mem_append.mp, fun u inside => ?_, ?_⟩
        · have mine : u ∈ updates := by simpa [Call.updates, given] using inside
          exact fun p holds => mem_contents.mpr ⟨u, List.mem_append_right _ mine, holds⟩
        · have before := sound.sized call.space
          unfold BranchUpdates.Sized at before ⊢
          rw [size, list, totalLength_append, before]
      · have same := addUpdates_refused _ _ _ _ _ _ ran
        rw [same]
        exact ⟨fun other _ => same other, fun u => id, rfl, sound.sized call.space⟩

theorem Sound.replace (merges : ∀ us merged, mergeUpdates us = some merged →
      content merged = contents content us) (sound : Sound content s) (call : Call)
    (updates : StoredUpdates) (merged : JsString) (now : Nat)
    (made : mergeUpdates (updates.updates ++ call.updates) = some merged)
    (current : call.clears = s.clears call.space)
    (safe : Replaceable content s call.space updates.updates merged) :
    Sound content ((s.withStore call [merged]
      (s.store.replaceUpdates call.space updates [merged] now)).push
        (.replacing call (s.store.replaceUpdates call.space updates [merged] now).2)) := by
  let space := call.space
  let cut := (s.store.get space).removeAll updates.updates
  let store := s.store.put space cut
  have cutUpdates : cut.updates = (s.updatesOf space).diff updates.updates :=
    BranchUpdates.removeAll_updates _ _
  have cutSized : cut.Sized := BranchUpdates.removeAll_sized _ _ (sound.sized space)
  have here : store.get space = cut := by
    rw [get_put, if_pos rfl]
  have there : ∀ other, other ≠ space → store.get other = s.store.get other := by
    intro other apart
    rw [get_put, if_neg apart]
  apply sound.asked call [merged] _ (.replacing call)
    (fun result => by cases result <;> rfl) current (fun next ran => ?_)
    (fun next failure ran => ?_)
  · have ⟨frame, list, size⟩ := addUpdates_stored store next space _ _ ran
    rw [here, cutUpdates] at list
    rw [here] at size
    rw [list]
    refine ⟨fun other apart => (frame other apart).trans (there other apart),
      contents_replaced merges _ _ _ merged made, fun u => List.mem_append_right _,
      fun u member => ?_, fun u inside p holds => ?_, ?_⟩
    · exact (mem_append.mp member).imp (fun kept => List.diff_subset _ _ kept) id
    · have inMerged : p ∈ content merged := by
        rw [merges _ _ made]
        exact mem_contents.mpr ⟨u, List.mem_append_right _ inside, holds⟩
      exact mem_contents.mpr ⟨merged, by simp, inMerged⟩
    · unfold BranchUpdates.Sized at cutSized ⊢
      rw [size, list, totalLength_append, cutSized, cutUpdates]
  · have same := addUpdates_refused store next space _ _ _ ran
    have full : s.store.exceeds (cut.instSizeInBytes + merged.length) = true := by
      have single : (store.addUpdates space [merged] now).2.isOk =
          !s.store.exceeds ((store.get space).instSizeInBytes + merged.length) :=
        addUpdates_single store space merged now
      have refused : (store.addUpdates space [merged] now).2.isOk = false := by
        have second := congrArg Prod.snd ran
        exact (congrArg Except.isOk second).trans rfl
      rw [refused, here] at single
      simpa using single.symm
    rw [same, here, cutUpdates]
    refine ⟨fun other apart => (same other).trans (there other apart),
      fun u kept => List.diff_subset _ _ kept, ?_, cutSized⟩
    rcases safe with fits | nothingLost
    · unfold BranchUpdates.Sized at cutSized
      rw [cutSized, cutUpdates] at full
      rw [full] at fits
      cases fits
    · apply Set.Subset.antisymm
      · exact contents_subset (fun u kept => List.diff_subset _ _ kept)
      · intro p member
        have ⟨u, inside, holds⟩ := mem_contents.mp member
        exact nothingLost u inside holds

theorem Sound.clear (sound : Sound content s) (space : JsString) : Sound content { s with
        store := s.store.clearUpdates space
        clears := fun other => if other = space then s.clears other + 1 else s.clears other } := by
  have frame : ∀ other, other ≠ space → (s.store.clearUpdates space).get other = s.store.get other := by
    intro other apart
    rw [get_clearUpdates, if_neg apart]
  have apart : ∀ other count, count ≤ s.clears other →
      count = (if other = space then s.clears other + 1 else s.clears other) →
      other ≠ space ∧ count = s.clears other := by
    intro other count past current
    by_cases same : other = space
    · rw [if_pos same] at current
      omega
    · rw [if_neg same] at current
      exact ⟨same, current⟩
  have covered : ∀ other u, other ≠ space → Covered content s other u → content u ⊆
      contents content ((s.store.clearUpdates space).get other).updates := by
    intro other u other_ne holds
    rw [frame other other_ne]
    exact holds
  refine ⟨⟨fun t member current => ?_, fun call sent current u inside => ?_, sound.kept.refused⟩,
    fun call gone => ?_, fun t member => ?_, fun h member call stored current u inside => ?_,
    fun other u member => ?_, fun other => ?_⟩
  · have ⟨ne, same⟩ := apart _ _ (sound.past_taken t member) current
    exact covered _ _ ne (sound.kept.stored t member same)
  · have ⟨ne, same⟩ := apart _ _ (sound.past call (.inl sent)) current
    exact covered _ _ ne (sound.kept.acknowledged call sent same u inside)
  · have past := sound.past call gone
    by_cases same : call.space = space
    · simp only [same, if_true] at past ⊢
      omega
    · simpa only [same, if_false] using past
  · have past := sound.past_taken t member
    by_cases same : t.space = space
    · simp only [same, if_true] at past ⊢
      omega
    · simpa only [same, if_false] using past
  · have ⟨ne, same⟩ := apart _ _ (sound.past call (.inr ⟨h, member, stored⟩)) current
    exact covered _ _ ne (sound.inHand h member call stored same u inside)
  · by_cases same : other = space
    · have gone : ((s.store.clearUpdates space).get other).updates = [] := by
        rw [get_clearUpdates, if_pos same]
        rfl
      have inside : u ∈ ((s.store.clearUpdates space).get other).updates := member
      rw [gone] at inside
      cases inside
    · have inside : u ∈ ((s.store.clearUpdates space).get other).updates := member
      rw [frame other same] at inside
      simpa only [same, if_false] using sound.recorded other u inside
  · by_cases same : other = space
    · have gone : (s.store.clearUpdates space).get other = .empty := by
        rw [get_clearUpdates, if_pos same]
      exact (congrArg BranchUpdates.Sized gone).mpr rfl
    · exact (congrArg BranchUpdates.Sized (frame other same)).mpr (sound.sized other)

theorem resume_sound (merges : ∀ us merged, mergeUpdates us = some merged →
      content merged = contents content us) (sound : Sound content s) (i : Nat) (now : Nat)
    (handler : Handler) (found : s.handlers[i]? = some handler)
    (allowed : Allowed mergeUpdates content s (.resume i now)) :
    Sound content (resume mergeUpdates { s with handlers := s.handlers.eraseIdx i } now handler) := by
  have rest := sound.drop i
  have member := List.mem_of_getElem? found
  cases handler with
  | adding call result =>
    cases result with
    | ok done => exact rest.deliver call (sound.served member rfl)
    | error failure =>
      simp only [resume]
      split
      · exact rest.push _ (fun other holds => by cases holds)
      · exact rest.answer call _ (fun same => by cases same)
  | reading call failure updates =>
    simp only [resume]
    split
    · exact rest.answer call _ (fun same => by cases same)
    · next merged made =>
        have safe := allowed call failure updates merged found made
        exact Sound.replace merges rest { call with clears := s.clears call.space } updates merged
          now made rfl safe
  | replacing call result =>
    cases result with
    | ok done => exact rest.deliver call (sound.served member rfl)
    | error failure => exact rest.answer call _ (fun same => by cases same)
  | connecting call =>
    have served : Served content s call := sound.served member rfl
    apply (rest.send _ (fun other same => by cases same)).push
    intro other holds
    exact some.inj holds ▸ served
  | sending call => exact rest.answer call none (fun _ => sound.served member rfl)

theorem step_sound (merges : ∀ us merged, mergeUpdates us = some merged →
      content merged = contents content us) (label : Label) (next : Server)
    (sound : Sound content s) (allowed : Allowed mergeUpdates content s label)
    (ran : step mergeUpdates s label = some next) : Sound content next := by
  cases label with
  | addUpdates connectionId event now =>
    rw [← some.inj ran]
    exact sound.begin _ now rfl
  | resume i now =>
    have ⟨handler, found, went⟩ := Option.map_eq_some_iff.mp ran
    rw [← went]
    exact resume_sound merges sound i now handler found allowed
  | clearUpdates space =>
    rw [← some.inj ran]
    exact sound.clear space

/-- A replacement that is not safe is on record as a refusal that has lost something. -/
theorem replaceable_of_kept (sound : Sound content s) (label : Label)
    (kept : ∀ next, step mergeUpdates s label = some next → Kept content next) :
    Allowed mergeUpdates content s label := by
  cases label with
  | addUpdates connectionId event now => trivial
  | clearUpdates space => trivial
  | resume i now =>
    intro call failure updates merged found made
    let space := call.space
    let cut := (s.store.get space).removeAll updates.updates
    have cutUpdates : cut.updates = (s.updatesOf space).diff updates.updates :=
      BranchUpdates.removeAll_updates _ _
    have cutSized : cut.Sized := BranchUpdates.removeAll_sized _ _ (sound.sized space)
    have here : (s.store.put space cut).get space = cut := by
      rw [get_put, if_pos rfl]
    have single : (s.store.replaceUpdates space updates [merged] now).2.isOk =
        !s.store.exceeds (((s.store.put space cut).get space).instSizeInBytes + merged.length) :=
      addUpdates_single (s.store.put space cut) space merged now
    rw [here, show cut.instSizeInBytes = _ from cutSized, cutUpdates] at single
    cases beyond : s.store.exceeds
        (totalLength ((s.updatesOf space).diff updates.updates) + merged.length) with
    | false => exact .inl beyond
    | true =>
      right
      intro u member p holds
      have goesOn : step mergeUpdates s (.resume i now) = some (resume mergeUpdates
          { s with handlers := s.handlers.eraseIdx i } now (.reading call failure updates)) := by
        rw [step, found, Option.map_some]
      have shown := (kept _ goesOn).refused
      cases result : s.store.replaceUpdates space updates [merged] now with
      | mk store answer =>
        cases answer with
        | ok done =>
          rw [result, beyond] at single
          cases single
        | error refusal =>
          have list := addUpdates_refused (s.store.put space cut) store space _ now refusal result space
          rw [here] at list
          let refused : Refusal := ⟨{ call with clears := s.clears space },
            s.updatesOf space, (store.get space).updates⟩
          have onRecord : refused ∈ (resume mergeUpdates { s with handlers := s.handlers.eraseIdx i } now
                (.reading call failure updates)).refusals := by
            simp only [resume, made, Server.withStore]
            have again : s.store.replaceUpdates (Call.space { call with clears := s.clears space })
                updates [merged] now = (store, .error refusal) := result
            rw [again]
            exact List.mem_cons_self
          have same := shown refused onRecord
          have inOld : p ∈ contents content (s.updatesOf space) :=
            mem_contents.mpr ⟨u, member, holds⟩
          have inRest : p ∈ contents content (store.get space).updates := same ▸ inOld
          rw [list, cutUpdates] at inRest
          exact inRest

theorem sound_idle (max : Option Int) (merge : Bool) : Sound content (idle max merge) where
  kept := ⟨fun t member => (not_mem_nil member).elim,
    fun call member => (not_mem_nil member).elim,
    fun r member => (not_mem_nil member).elim⟩
  past call gone := by
    rcases gone with sent | ⟨h, member, _⟩
    · cases sent
    · cases member
  past_taken t member := (not_mem_nil member).elim
  inHand h member := (not_mem_nil member).elim
  recorded space u member := (not_mem_nil member).elim
  sized space := rfl

/-- Nothing is lost exactly in the runs whose replacements are all safe. -/
theorem updates_kept_iff (merges : ∀ us merged, mergeUpdates us = some merged →
      content merged = contents content us) (max : Option Int) (merge : Bool) (labels : List Label) :
    Throughout (step mergeUpdates) (Kept content) (idle max merge) labels ↔
      AllAllowed (step mergeUpdates) (Allowed mergeUpdates content) (idle max merge) labels :=
  throughout_iff (fun _ sound => sound.kept)
    (fun _ label next sound allowed ran => step_sound merges label next sound allowed ran)
    (fun _ label sound kept => replaceable_of_kept sound label kept) _ (sound_idle max merge) labels

/-! ### The sizes in every run -/

variable {limit : Option Int}

theorem answer_store (call : Call) (error : Option MaxSizeReachedFailure) : (s.answer call error).store = s.store := by
  rw [Server.answer]
  split <;> rfl

theorem deliver_store (call : Call) : (s.deliver call).store = s.store := by
  rw [Server.deliver]
  split
  · rfl
  · exact answer_store call _

theorem withStore_store (call : Call) (given : List JsString) (made : MemoryUpdatesStore × AddUpdatesResult) :
    (s.withStore call given made).store = made.1 := by
  rw [Server.withStore]
  split <;> rfl

theorem begin_bounded (bounded : s.store.Bounded limit) (call : Call) (now : Nat) :
    (begin s call now).store.Bounded limit := by
  rw [begin]
  split
  · rwa [deliver_store]
  · simp only [Server.push, withStore_store]
    exact addUpdates_bounded bounded _ _ now

theorem resume_bounded (bounded : s.store.Bounded limit) (now : Nat) (handler : Handler) :
    (resume mergeUpdates s now handler).store.Bounded limit := by
  cases handler with
  | adding call result =>
    cases result with
    | ok => rwa [resume, deliver_store]
    | error failure =>
      rw [resume]
      split
      · exact bounded
      · rwa [answer_store]
  | reading call failure updates =>
    rw [resume]
    split
    · rwa [answer_store]
    · next merged _ =>
        simp only [Server.push, withStore_store]
        exact replaceUpdates_bounded bounded _ updates [merged] now
  | replacing call result =>
    cases result with
    | ok => rwa [resume, deliver_store]
    | error failure => rwa [resume, answer_store]
  | connecting call => exact bounded
  | sending call => rwa [resume, answer_store]

/-- Whatever handlers come between, the sizes of the branches are those of their updates and within the limit. -/
theorem sizes_bounded (max : Option Int) (merge : Bool) (labels : List Label) :
    Throughout (step mergeUpdates) (fun s => s.store.Bounded max) (idle max merge) labels := by
  refine throughout_of (fun _ bounded => bounded) (fun s label next bounded _ ran => ?_) _
    ⟨rfl, fun _ => .empty max⟩ labels (allAllowed_true _ labels)
  cases label with
  | addUpdates connectionId event now =>
    rw [← some.inj ran]
    exact begin_bounded bounded _ now
  | resume i now =>
    obtain ⟨handler, _, went⟩ := Option.map_eq_some_iff.mp ran
    rw [← went]
    exact @resume_bounded _ { s with handlers := s.handlers.eraseIdx i } _ bounded now handler
  | clearUpdates space =>
    rw [← some.inj ran]
    exact clearUpdates_bounded bounded space

end Steps

/-! ### A merged update that does not fit -/

section Sample

/-- A merge that puts the updates one after the other; what an update holds is its code units. -/
def concat (updates : List JsString) : Option JsString := some updates.flatten

def unitsOf (update : JsString) : Set CodeUnit := { u | u ∈ update }

theorem concat_merges (updates : List JsString) (merged : JsString) (made : concat updates = some merged) :
    unitsOf merged = contents unitsOf updates := by
  rw [← some.inj made]
  ext u
  simp [unitsOf, contents]

def firstUpdate : JsString := lit ['A', 'A', 'A', 'A']

def secondUpdate : JsString := lit ['B', 'B', 'B', 'B']

def sampleEvent (update : JsString) : AddUpdatesEvent :=
  { branch := lit ['b'], updates := some [update], updateId := some 1 }

/-- An update that does not fit, with a merge of it alone that does not fit either. -/
def tooLarge : List Label :=
  [.addUpdates (lit ['c']) (sampleEvent firstUpdate) 0, .resume 0 0, .resume 0 0, .resume 0 0]

/-- An update that fits alone but not together with the one that is stored. -/
def second : List Label :=
  [.addUpdates (lit ['c']) (sampleEvent firstUpdate) 0,
    .addUpdates (lit ['d']) (sampleEvent secondUpdate) 0, .resume 0 0, .resume 0 0]

theorem tooLarge_kept_iff :
    Throughout (step concat) (Kept unitsOf) (idle (some 3) true) tooLarge ↔
      AllAllowed (step concat) (Allowed concat unitsOf) (idle (some 3) true) tooLarge :=
  updates_kept_iff concat_merges (some 3) true tooLarge

/-- The stored update is removed for a merged one that does not fit. -/
theorem stored_update_lost :
    (∀ updates merged, concat updates = some merged → unitsOf merged = contents unitsOf updates) ∧
      ¬ Throughout (step concat) (Kept unitsOf) (idle (some 6) true) second := by
  refine ⟨concat_merges, fun all => ?_⟩
  have run : (runAll (step concat) (idle (some 6) true) second).map
      (fun s => s.refusals.map (fun r => (r.before, r.after))) =
        some [([firstUpdate], []), ([firstUpdate], [firstUpdate])] := by decide +kernel
  have ⟨last, ran, shown⟩ := Option.map_eq_some_iff.mp run
  have kept := all.last second ran
  have ⟨refusal, onRecord, same⟩ : ∃ r ∈ last.refusals, (r.before, r.after) = ([firstUpdate], []) := by
    have inside : ([firstUpdate], []) ∈ last.refusals.map (fun r => (r.before, r.after)) := by
      rw [shown]
      exact List.mem_cons_self
    exact mem_map.mp inside
  simp only [Prod.mk.injEq] at same
  have equal := kept.refused refusal onRecord
  rw [same.1, same.2] at equal
  have lost : Fin.ofNat 65536 65 ∈ contents unitsOf [] := by
    rw [equal]
    exact mem_contents.mpr ⟨firstUpdate, List.mem_cons_self, List.mem_cons_self⟩
  simp [contents] at lost

end Sample

end CasualOS.AddUpdates
