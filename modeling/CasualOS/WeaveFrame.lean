import CasualOS.Lib.DllFrame
import CasualOS.WeaveNodes
import CasualOS.WeaveRead

/-! Which nodes an operation of the weave can change: those that the maps lead to, and new ones. -/

namespace CasualOS.WeaveFrame

open Dll (Ref Heap Within BackIn Confined)
open WeaveHeap WeaveNodes WeaveRepr
open List (mem_append mem_cons_self)
open Dll (nextAt)
open Option (some)

variable {T : Type} {L : Ref → Prop} {w w' w'' : Weave T}

/-- The maps lead to these nodes, the links lead from there to these, and all nodes that are still to be
made are among these. -/
structure Sealed (L : Ref → Prop) (w : Weave T) : Prop where
  within : Within w.nodes L
  fresh : ∀ r, w.nodes.length ≤ r → L r
  ids : ∀ key n, w.idMap.get key = some n → L n
  waiting : ∀ key n, w.reorderBuffer.get key = some n → L n

structure Stays (L : Ref → Prop) (w w' : Weave T) : Prop where
  isSealed : Sealed L w'
  same : ∀ r, ¬ L r → w'.nodes[r]? = w.nodes[r]?

theorem Sealed.stays (isSealed : Sealed L w) : Stays L w w := ⟨isSealed, fun _ _ => rfl⟩

theorem Stays.trans (first : Stays L w w') (second : Stays L w' w'') : Stays L w w'' where
  isSealed := second.isSealed
  same r outside := (second.same r outside).trans (first.same r outside)

theorem Sealed.relinked {nodes : Heap (Atom T)} (isSealed : Sealed L w)
    (confined : Confined L w.nodes nodes) (roots : List Ref) :
    Stays L w { w with nodes := nodes, roots := roots } where
  isSealed :=
    { within := confined.within
      fresh := fun r new => isSealed.fresh r (confined.grown.trans new)
      ids := isSealed.ids
      waiting := isSealed.waiting }
  same := confined.same

/-! ### The maps -/

variable {node start cause atomNode : Ref} {h : Heap (Atom T)} {atom : Atom T} {buffered : Bool}

theorem Sealed.addNodeToMaps (isSealed : Sealed L w) (here : L node) (buffered : Bool) :
    Stays L w (w.addNodeToMaps node buffered) := by
  unfold Weave.addNodeToMaps
  split
  · next atom found =>
      have set : ∀ (m : OrderedMap JsString Ref) (key : JsString), (∀ k n, m.get k = some n → L n) →
          ∀ k n, (m.set key node).get k = some n → L n := by
        intro m key inside k n got
        rw [OrderedMap.get_set] at got
        split at got
        · exact some.inj got ▸ here
        · exact inside k n got
      split
      · exact ⟨⟨isSealed.within, isSealed.fresh, isSealed.ids, set _ _ isSealed.waiting⟩, fun _ _ => rfl⟩
      · exact ⟨⟨isSealed.within, isSealed.fresh, set _ _ isSealed.ids, isSealed.waiting⟩, fun _ _ => rfl⟩
  · exact isSealed.stays

theorem Sealed.removeNodeIdFromMaps (isSealed : Sealed L w) (node : Ref) (buffered : Bool) :
    Stays L w (w.removeNodeIdFromMaps node buffered) := by
  unfold Weave.removeNodeIdFromMaps
  split
  · next atom found =>
      have delete : ∀ (m : OrderedMap JsString Ref) (key : JsString), (∀ k n, m.get k = some n → L n) →
          ∀ k n, (m.delete key).get k = some n → L n := by
        intro m key inside k n got
        rw [OrderedMap.get_delete] at got
        split at got
        · cases got
        · exact inside k n got
      split
      · exact ⟨⟨isSealed.within, isSealed.fresh, isSealed.ids, delete _ _ isSealed.waiting⟩, fun _ _ => rfl⟩
      · exact ⟨⟨isSealed.within, isSealed.fresh, delete _ _ isSealed.ids, isSealed.waiting⟩, fun _ _ => rfl⟩
  · exact isSealed.stays

theorem Sealed.foldl {step : Weave T → Ref → Weave T} (nodes : List Ref) (isSealed : Sealed L w)
    (stays : ∀ w, ∀ n ∈ nodes, Sealed L w → Stays L w (step w n)) : Stays L w (nodes.foldl step w) := by
  induction nodes generalizing w with
  | nil => exact isSealed.stays
  | cons n rest ih =>
    have first := stays w n mem_cons_self isSealed
    exact first.trans (ih first.isSealed (fun w m later => stays w m (List.mem_cons_of_mem _ later)))

theorem Sealed.foldlM {step : Weave T → Ref → Except Failure (Weave T)} (nodes : List Ref)
    (isSealed : Sealed L w) (stays : ∀ w n w', n ∈ nodes → Sealed L w → step w n = .ok w' → Stays L w w')
    (ran : nodes.foldlM step w = .ok w') : Stays L w w' := by
  induction nodes generalizing w with
  | nil => exact Except.ok.inj ran ▸ isSealed.stays
  | cons n rest ih =>
    rw [List.foldlM_cons] at ran
    obtain ⟨mid, first, later⟩ := ok_of_bind _ _ _ ran
    have one := stays w n mid mem_cons_self isSealed first
    exact one.trans (ih one.isSealed (fun w m w' inside => stays w m w' (List.mem_cons_of_mem _ inside)) later)

theorem ok_of_orDiverges {α : Type} {x : Option α} {a : α} (ran : orDiverges x = .ok a) : x = some a := by
  cases x with
  | none => cases ran
  | some b => exact congrArg some (Except.ok.inj ran)

theorem Sealed.iterateFrom (isSealed : Sealed L w) {nodes : List Ref} (here : L start)
    (walked : w.iterateFrom (some start) = some nodes) : ∀ n ∈ nodes, L n :=
  Dll.follow_all (fun r inside n next => (isSealed.within r inside n next).1) _ _ nodes
    (fun _ same => some.inj same ▸ here) walked

theorem Sealed.removeListFromMaps (isSealed : Sealed L w)
    (ran : w.removeListFromMaps node buffered = .ok w') : Stays L w w' := by
  obtain ⟨nodes, _, last⟩ := ok_of_bind _ _ _ ran
  have first := isSealed.removeNodeIdFromMaps node buffered
  rw [← Except.ok.inj last]
  exact first.trans (first.isSealed.foldl nodes (fun w n _ later => later.removeNodeIdFromMaps n buffered))

/-! ### Linking -/

theorem Sealed.allocated (isSealed : Sealed L w) (atom : Atom T) :
    Confined L w.nodes (Dll.alloc w.nodes atom none none).1 := by
  refine Dll.confined_alloc atom none none isSealed.within (isSealed.fresh _ (le_refl _)) ?_ ?_
  · exact fun n same => by cases same
  · exact fun p same => by cases same

theorem Sealed.addRoot (isSealed : Sealed L w) (atom : Atom T) : Stays L w (w.addRoot atom).1 := by
  have new := isSealed.fresh _ (le_refl _)
  have first := isSealed.relinked (isSealed.allocated atom) (w.roots ++ [w.nodes.length])
  exact first.trans (first.isSealed.addNodeToMaps new false)

theorem Sealed.addToReorderBuffer (isSealed : Sealed L w) (atom : Atom T) :
    Stays L w (w.addToReorderBuffer atom).1 := by
  have new := isSealed.fresh _ (le_refl _)
  have first := isSealed.relinked (isSealed.allocated atom) w.roots
  exact first.trans (first.isSealed.addNodeToMaps new true)

/-- Where the scan under a cause stops. -/
def Reached (L : Ref → Prop) (h : Heap (Atom T)) : Position → Prop
  | .before r => L r ∧ BackIn h L r
  | .after last => ∀ r, last = some r → L r

theorem scan_within (within : Within h L) (cause : Atom T) (id : AtomId) (fuel : Nat)
    (current last : Option Ref) (position : Position)
    (here : ∀ n, current = some n → L n ∧ BackIn h L n) (before : ∀ r, last = some r → L r)
    (scanned : scanUnder h cause id fuel current last = some position) : Reached L h position := by
  fun_induction scanUnder h cause id fuel current last with
  | case1 | case3 | case4 => exact some.inj scanned ▸ before
  | case2 => cases scanned
  | case5 fuel r => exact some.inj scanned ▸ here r rfl
  | case6 fuel r last node found newer other ih =>
    have next : nextAt h r = node.next := by simp [nextAt, found]
    have inside := (here r rfl).1
    exact ih (fun n same => within r inside n (next.trans same)) (fun p same => some.inj same ▸ inside) scanned

theorem Sealed.positionUnder (isSealed : Sealed L w) {id : AtomId} {position : Position}
    (here : L cause) (ran : w.positionUnder cause id = .ok position) : Reached L w.nodes position := by
  unfold Weave.positionUnder at ran
  split at ran
  · exact scan_within isSealed.within _ _ _ _ _ _ (isSealed.within cause here) (fun r same => by cases same)
      (ok_of_orDiverges ran)
  · rw [← Except.ok.inj ran]
    exact fun r same => by cases same

theorem Sealed.insertUnder (isSealed : Sealed L w)
    {made : Weave T × Ref} (here : L cause) (ran : w.insertUnder cause atom buffered = .ok made) :
    Stays L w made.1 := by
  have new := isSealed.fresh _ (le_refl _)
  obtain ⟨position, placed, last⟩ := ok_of_bind _ _ _ ran
  have reached := isSealed.positionUnder here placed
  cases position with
  | before node =>
    rw [← Except.ok.inj last]
    have first := isSealed.relinked (Dll.confined_insertBefore atom isSealed.within new reached.1 reached.2) w.roots
    exact first.trans (first.isSealed.addNodeToMaps new buffered)
  | after found =>
    rw [← Except.ok.inj last]
    have place : L (found.getD cause) := by
      cases found with
      | none => exact here
      | some r => exact reached r rfl
    have first := isSealed.relinked (Dll.confined_insertAfter atom isSealed.within new place) w.roots
    exact first.trans (first.isSealed.addNodeToMaps new buffered)

theorem insertUnder_node {made : Weave T × Ref}
    (ran : w.insertUnder cause atom buffered = .ok made) : made.2 = w.nodes.length := by
  obtain ⟨position, _, last⟩ := ok_of_bind _ _ _ ran
  cases position with
  | before node => exact Except.ok.inj last ▸ rfl
  | after found => exact Except.ok.inj last ▸ rfl

theorem Sealed.insertNodeUnder (isSealed : Sealed L w) {stop : Ref} (here : L cause)
    (first : L start) (last : L stop) (ran : w.insertNodeUnder cause start stop = .ok w') : Stays L w w' := by
  unfold Weave.insertNodeUnder at ran
  split at ran
  · obtain ⟨position, placed, made⟩ := ok_of_bind _ _ _ ran
    have reached := isSealed.positionUnder here placed
    cases position with
    | before node =>
      rw [← Except.ok.inj made]
      exact isSealed.relinked (Dll.confined_spliceBefore isSealed.within reached.1 reached.2 first last) w.roots
    | after found =>
      rw [← Except.ok.inj made]
      have place : L (found.getD cause) := by
        cases found with
        | none => exact here
        | some r => exact reached r rfl
      exact isSealed.relinked (Dll.confined_spliceAfter isSealed.within place first last) w.roots
  · exact Except.ok.inj ran ▸ isSealed.stays

/-! ### Taking a span out -/

theorem group_within (within : Within h L) (timestamp : Int) (fuel : Nat)
    (current : Option Ref) (nodes : List Ref) (here : ∀ n, current = some n → L n)
    (read : causalGroupFrom h timestamp fuel current = some nodes) : ∀ n ∈ nodes, L n := by
  fun_induction causalGroupFrom h timestamp fuel current generalizing nodes with
  | case1 | case3 | case4 =>
    rw [← some.inj read]
    exact fun n member => by cases member
  | case2 => cases read
  | case5 fuel r node found newer ih =>
    obtain ⟨rest, later, rfl⟩ := Option.map_eq_some_iff.mp read
    have next : nextAt h r = node.next := by simp [nextAt, found]
    intro n member
    rcases List.mem_cons.mp member with first | inRest
    · exact first ▸ here r rfl
    · exact ih rest (fun m same => (within r (here r rfl) m (next.trans same)).1) later n inRest

theorem Sealed.lastInCausalGroup (isSealed : Sealed L w) {last : Ref} (here : L start)
    (ran : w.lastInCausalGroup start = .ok last) : L last := by
  obtain ⟨group, read, made⟩ := ok_of_bind _ _ _ ran
  have listed : ∀ n ∈ group, L n := by
    have found := ok_of_orDiverges read
    unfold Weave.iterateCausalGroup at found
    split at found
    · exact group_within isSealed.within _ _ _ _ (fun n same => (isSealed.within start here n same).1) found
    · rw [← some.inj found]
      exact fun n member => by cases member
  rw [← Except.ok.inj made]
  cases final : group.getLast? with
  | none => exact here
  | some n => exact listed n (List.mem_of_getLast? final)

theorem Sealed.removeSpan (isSealed : Sealed L w) {stop : Ref} (first : L start)
    (back : BackIn w.nodes L start) (last : L stop) (ran : w.removeSpan start stop = .ok w') :
    Stays L w w' := by
  obtain ⟨mid, cleared, final⟩ := ok_of_bind _ _ _ ran
  have cut := isSealed.relinked (Dll.confined_cut isSealed.within first back last) w.roots
  have before := cut.trans (cut.isSealed.removeListFromMaps cleared)
  split at final
  · split at final
    · rw [← Except.ok.inj final]
      exact ⟨⟨before.isSealed.within, before.isSealed.fresh, before.isSealed.ids, before.isSealed.waiting⟩, before.same⟩
    · exact Except.ok.inj final ▸ before
  · exact Except.ok.inj final ▸ before

theorem Sealed.removeNode (isSealed : Sealed L w) (here : L node)
    (back : BackIn w.nodes L node) (ran : w.removeNode node = .ok w') : Stays L w w' := by
  obtain ⟨last, group, removed⟩ := ok_of_bind _ _ _ ran
  exact isSealed.removeSpan here back (isSealed.lastInCausalGroup here group) removed

/-! ### The reorder buffer -/

theorem Sealed.addMissingChild (isSealed : Sealed L w)
    (here : L atomNode) (waits : L node) (ran : w.addMissingChild atomNode node buffered = .ok w') :
    Stays L w w' := by
  obtain ⟨list, walked, last⟩ := ok_of_bind _ _ _ ran
  have inside := isSealed.iterateFrom waits (ok_of_orDiverges walked)
  have stop : L (list.getLast?.getD node) := by
    cases final : list.getLast? with
    | none => exact waits
    | some n => exact inside n (List.mem_of_getLast? final)
  cases buffered with
  | true => exact isSealed.insertNodeUnder here waits stop last
  | false =>
    have moved := isSealed.foldl list (fun w n member later =>
      have out := later.removeNodeIdFromMaps n true
      out.trans (out.isSealed.addNodeToMaps (inside n member) false))
    exact moved.trans (moved.isSealed.insertNodeUnder here waits stop last)

theorem Sealed.addMissingChildren (isSealed : Sealed L w) {made : Weave T × Bool}
    (here : L atomNode) (ran : w.addMissingChildren atomNode buffered = .ok made) :
    Stays L w made.1 := by
  obtain ⟨mid, moved, last⟩ := ok_of_bind _ _ _ ran
  rw [← Except.ok.inj last]
  refine isSealed.foldlM _ (fun w n w' member later => ?_) moved
  obtain ⟨key, found⟩ := (OrderedMap.mem_values _ n).mp (List.mem_filter.mp member).1
  exact later.addMissingChild here (isSealed.waiting key n found)

theorem Sealed.releaseMissing (isSealed : Sealed L w) {made : Weave T × WeaveResult T}
    (here : L atomNode) (ran : w.releaseMissing atomNode atom = .ok made) :
    Stays L w made.1 := by
  unfold Weave.releaseMissing at ran
  split at ran
  · obtain ⟨released, first, last⟩ := ok_of_bind _ _ _ ran
    have stays := isSealed.addMissingChildren here first
    simp only at last
    split at last
    · obtain ⟨group, _, final⟩ := ok_of_bind _ _ _ last
      exact Except.ok.inj final ▸ stays
    · exact Except.ok.inj last ▸ stays
  · exact Except.ok.inj ran ▸ isSealed.stays

/-! ### The operations -/

/-- The nodes of the id map have nodes of `L` before them. -/
def Backed (L : Ref → Prop) (w : Weave T) : Prop := ∀ key n, w.idMap.get key = some n → BackIn w.nodes L n

theorem Sealed.resolveConflict (isSealed : Sealed L w) {made : Weave T × WeaveResult T} {existing : Ref}
    {causeNode : Option Ref} (here : L existing) (back : BackIn w.nodes L existing)
    (cause : ∀ n, causeNode = some n → L n)
    (ran : w.resolveConflict existing atom causeNode = .ok made) : Stays L w made.1 := by
  unfold Weave.resolveConflict at ran
  split at ran
  · split at ran
    · split at ran
      · exact Except.ok.inj ran ▸ isSealed.stays
      · obtain ⟨cleared, first, later⟩ := ok_of_bind _ _ _ ran
        have removed := isSealed.removeNode here back first
        cases causeNode with
        | none =>
          obtain ⟨grown, second, last⟩ := ok_of_bind _ _ _ later
          rw [← Except.ok.inj last, ← Except.ok.inj second]
          exact removed.trans (removed.isSealed.addRoot atom)
        | some n =>
          obtain ⟨grown, second, last⟩ := ok_of_bind _ _ _ later
          rw [← Except.ok.inj last]
          cases placed : cleared.insertUnder n atom false with
          | error failure => simp [placed, Except.map] at second
          | ok put =>
            simp only [placed, Except.map, Except.ok.injEq] at second
            exact second ▸ removed.trans (removed.isSealed.insertUnder (cause n rfl) placed)
    · exact Except.ok.inj ran ▸ isSealed.stays
  · exact Except.ok.inj ran ▸ isSealed.stays

theorem Sealed.countCardinality (isSealed : Sealed L w)
    (counted : w.countCardinality atom = some w') : Stays L w w' := by
  unfold Weave.countCardinality at counted
  split at counted
  · exact some.inj counted ▸ isSealed.stays
  · have bumped : ∀ cardinality, Stays L w { w with cardinality := cardinality } := fun _ =>
      ⟨⟨isSealed.within, isSealed.fresh, isSealed.ids, isSealed.waiting⟩, fun _ _ => rfl⟩
    simp only at counted
    split at counted
    · split at counted
      · cases counted
      · exact some.inj counted ▸ bumped _
    · exact some.inj counted ▸ bumped _

variable {getHash : AtomHashInput T → JsString} {made : Weave T × WeaveResult T}

theorem Sealed.insertCheckedRoot (isSealed : Sealed L w) (backed : Backed L w)
    (ran : insertCheckedRoot w atom = .ok made) : Stays L w made.1 := by
  unfold WeaveNodes.insertCheckedRoot at ran
  split at ran
  · next existing found =>
      exact isSealed.resolveConflict (isSealed.ids _ _ found) (backed _ _ found) (fun n same => by cases same) ran
  · split at ran
    · exact Except.ok.inj ran ▸ isSealed.stays
    · next counted _ bumped =>
        have first := isSealed.countCardinality bumped
        have new := first.isSealed.fresh _ (le_refl _)
        have second := first.trans (first.isSealed.addRoot atom)
        exact second.trans (second.isSealed.releaseMissing new ran)

theorem Sealed.insertRoot (isSealed : Sealed L w) (backed : Backed L w)
    (ran : w.insertRoot getHash atom = .ok made) : Stays L w made.1 := by
  unfold Weave.insertRoot at ran
  split at ran
  · exact Except.ok.inj ran ▸ isSealed.stays
  · simp only at ran
    split at ran
    · exact isSealed.insertCheckedRoot backed ran
    · cases ran
    · split at ran
      · exact Except.ok.inj ran ▸ isSealed.stays
      · exact isSealed.insertCheckedRoot backed ran

theorem Sealed.insertMissing (isSealed : Sealed L w) {cause : AtomId}
    (ran : w.insertMissing getHash atom cause = .ok made) : Stays L w made.1 := by
  unfold Weave.insertMissing at ran
  split at ran
  · exact Except.ok.inj ran ▸ isSealed.stays
  · simp only at ran
    split at ran
    · exact Except.ok.inj ran ▸ isSealed.stays
    · have new := isSealed.fresh _ (le_refl _)
      have buffered := isSealed.addToReorderBuffer atom
      split at ran
      · next causeNode found =>
          obtain ⟨linked, first, later⟩ := ok_of_bind _ _ _ ran
          obtain ⟨waited, second, last⟩ := ok_of_bind _ _ _ later
          have one := buffered.trans (buffered.isSealed.insertNodeUnder (isSealed.waiting _ _ found) new new first)
          exact Except.ok.inj last ▸ one.trans (one.isSealed.addMissingChildren new second)
      · obtain ⟨linked, first, later⟩ := ok_of_bind _ _ _ ran
        obtain ⟨waited, second, last⟩ := ok_of_bind _ _ _ later
        rw [← Except.ok.inj first] at second
        exact Except.ok.inj last ▸ buffered.trans (buffered.isSealed.addMissingChildren new second)

theorem Sealed.insertChild (isSealed : Sealed L w) (backed : Backed L w) {causeNode : Ref}
    (here : L causeNode) (ran : w.insertChild getHash atom causeNode = .ok made) : Stays L w made.1 := by
  unfold Weave.insertChild at ran
  split at ran
  · exact Except.ok.inj ran ▸ isSealed.stays
  · split at ran
    · next existing found =>
        exact isSealed.resolveConflict (isSealed.ids _ _ found) (backed _ _ found)
          (fun n same => some.inj same ▸ here) ran
    · obtain ⟨placed, first, later⟩ := ok_of_bind _ _ _ ran
      have one := isSealed.insertUnder here first
      have new : L placed.2 := isSealed.fresh _ (le_of_eq (insertUnder_node first).symm)
      exact one.trans (one.isSealed.releaseMissing new later)

theorem Sealed.insert (isSealed : Sealed L w) (backed : Backed L w)
    (ran : w.insert getHash atom = .ok made) : Stays L w made.1 := by
  unfold Weave.insert at ran
  split at ran
  · exact isSealed.insertRoot backed ran
  · split at ran
    · exact isSealed.insertMissing ran
    · next causeNode found => exact isSealed.insertChild backed (isSealed.ids _ _ found) ran

theorem Sealed.remove (isSealed : Sealed L w) (backed : Backed L w) (ran : w.remove atom = .ok made) :
    Stays L w made.1 := by
  unfold Weave.remove at ran
  split at ran
  · exact Except.ok.inj ran ▸ isSealed.stays
  · next node found =>
      obtain ⟨cleared, removed, last⟩ := ok_of_bind _ _ _ ran
      exact Except.ok.inj last ▸ isSealed.removeNode (isSealed.ids _ _ found) (backed _ _ found) removed

theorem siblings_within (within : Within h L) (cause : Option AtomId) (fuel : Nat)
    (current : Option Ref) (nodes : List Ref) (here : ∀ n, current = some n → L n ∧ BackIn h L n)
    (read : siblingsFrom h cause fuel current = some nodes) : ∀ n ∈ nodes, L n ∧ BackIn h L n := by
  fun_induction siblingsFrom h cause fuel current generalizing nodes with
  | case1 | case3 | case4 =>
    rw [← some.inj read]
    exact fun n member => by cases member
  | case2 => cases read
  | case5 fuel r node found newer sibling ih =>
    obtain ⟨others, later, rfl⟩ := Option.map_eq_some_iff.mp read
    have next : nextAt h r = node.next := by simp [nextAt, found]
    intro n member
    rcases List.mem_cons.mp member with first | inOthers
    · exact first ▸ here r rfl
    · exact ih others (fun m same => within r (here r rfl).1 m (next.trans same)) later n inOthers
  | case6 fuel r node found newer other ih =>
    have next : nextAt h r = node.next := by simp [nextAt, found]
    exact ih nodes (fun m same => within r (here r rfl).1 m (next.trans same)) read

theorem Sealed.removeSiblingsBefore (isSealed : Sealed L w) (ran : w.removeSiblingsBefore atom = .ok made) :
    Stays L w made.1 := by
  unfold Weave.removeSiblingsBefore at ran
  split at ran
  · exact Except.ok.inj ran ▸ isSealed.stays
  · next node found =>
      obtain ⟨siblings, read, later⟩ := ok_of_bind _ _ _ ran
      have here := isSealed.ids _ _ found
      have inside : ∀ n ∈ siblings, L n ∧ BackIn w.nodes L n := by
        have iterated := ok_of_orDiverges read
        unfold Weave.iterateSiblings at iterated
        split at iterated
        · exact siblings_within isSealed.within _ _ _ _ (isSealed.within node here) iterated
        · rw [← some.inj iterated]
          exact fun n member => by cases member
      split at later
      · exact Except.ok.inj later ▸ isSealed.stays
      · next first others =>
          obtain ⟨last, group, third⟩ := ok_of_bind _ _ _ later
          obtain ⟨cut, removed, final⟩ := ok_of_bind _ _ _ third
          have ends : L (others.getLast?.getD first) := by
            cases final : others.getLast? with
            | none => exact (inside first mem_cons_self).1
            | some n => exact (inside n (List.mem_cons_of_mem _ (List.mem_of_getLast? final))).1
          have front := inside first mem_cons_self
          exact Except.ok.inj final ▸
            isSealed.removeSpan front.1 front.2 (isSealed.lastInCausalGroup ends group) removed

/-! ### The nodes of the lists -/

section Lists

variable {lists buffered : List (List (Cell T))}

/-- The node is listed, buffered or not made yet. -/
def InUse (w : Weave T) (lists buffered : List (List (Cell T))) (r : Ref) : Prop :=
  r ∈ refs (lists ++ buffered).flatten ∨ w.nodes.length ≤ r

theorem inUse_of_cell (w : Weave T) {c : Cell T} (member : c ∈ (lists ++ buffered).flatten) :
    InUse w lists buffered c.1 := .inl (mem_refs c _ member)

theorem next_cell {h : Heap (Atom T)} {front after : List (Cell T)} {c : Cell T} {all : List (List (Cell T))}
    (heap : HeapRepr h ((front ++ c :: after) :: all)) (n : Ref) (next : nextAt h c.1 = some n) :
    (∃ d ∈ after, d.1 = n) ∧ Dll.prevAt h n = some c.1 := by
  rw [heap.next] at next
  cases after with
  | nil => cases next
  | cons d after =>
    have same : d.1 = n := some.inj next
    have closed := heap.closed _ mem_cons_self
    have shape : front ++ c :: d :: after = (front ++ [c]) ++ d :: after := by simp
    rw [shape, refs_append] at closed
    have before := Dll.closed_prev h _ _ d.1 closed (by simp) (by simp)
    refine ⟨⟨d, mem_cons_self, same⟩, ?_⟩
    rw [← same, before]
    simp

theorem sealed_of_repr (repr : Repr w lists buffered) : Sealed (InUse w lists buffered) w where
  within r live n next := by
    rcases live with member | new
    · obtain ⟨c, inside, rfl⟩ := List.mem_map.mp member
      obtain ⟨l, present, inL⟩ := List.mem_flatten.mp inside
      obtain ⟨others, moved⟩ : ∃ others, (lists ++ buffered).Perm (l :: others) := by
        obtain ⟨before, later, shape⟩ := List.append_of_mem present
        exact ⟨before ++ later, shape ▸ List.perm_middle⟩
      obtain ⟨front, after, rfl⟩ := List.append_of_mem inL
      obtain ⟨⟨d, later, rfl⟩, before⟩ := next_cell (repr.heap.perm moved) n next
      refine ⟨inUse_of_cell w (List.mem_flatten.mpr ⟨_, present, by simp [later]⟩), fun p found => ?_⟩
      rw [before, some.injEq] at found
      exact found ▸ inUse_of_cell w inside
    · rw [nextAt, List.getElem?_eq_none new] at next
      cases next
  fresh r new := .inr new
  ids key n found := by
    obtain ⟨c, member, rfl, _⟩ := (repr.idMap key n).mp found
    exact inUse_of_cell w (by simp only [List.flatten_append, mem_append]; exact .inl member)
  waiting key n found := by
    obtain ⟨c, member, rfl, _⟩ := (repr.buffer key n).mp found
    exact inUse_of_cell w (by simp only [List.flatten_append, mem_append]; exact .inr member)

theorem backed_of_repr (repr : Repr w lists buffered) : Backed (InUse w lists buffered) w := by
  intro key n found p before
  obtain ⟨c, member, rfl, _⟩ := (repr.idMap key n).mp found
  have listed := (WeaveRead.listed_iff repr c.1).mpr ⟨c, member, rfl⟩
  have found := ((WeaveRead.links_agree repr).prev_next p c.1 listed before).1
  obtain ⟨d, inside, rfl⟩ := (WeaveRead.listed_iff repr p).mp found
  exact inUse_of_cell w (by simp only [List.flatten_append, mem_append]; exact .inl inside)

end Lists

/-! ### Lists that are out of the weave -/

section Apart

variable {lists buffered lists' buffered' : List (List (Cell T))} {chain : List (Cell T)}

/-- The list is in the heap, and nothing of it is listed or buffered. -/
structure Apart (w : Weave T) (lists buffered : List (List (Cell T))) (chain : List (Cell T)) : Prop where
  heap : HeapRepr w.nodes [chain]
  outside : ∀ r ∈ refs chain, ¬ InUse w lists buffered r

theorem Apart.atomsFrom {start : Cell T} {rest : List (Cell T)} (apart : Apart w lists buffered (start :: rest)) :
    w.atomsFrom start.1 = some (atoms (start :: rest)) := by
  have walk : w.iterateFrom (some start.1) = some (refs (start :: rest)) := apart.heap.walk_all
  rw [Weave.atomsFrom, walk, Option.map_some, WeaveRead.filterMap_atomAt w _ (apart.heap.atomAt _ mem_cons_self)]

theorem Apart.stays (apart : Apart w lists buffered chain) (repr : Repr w' lists' buffered')
    (stays : Stays (InUse w lists buffered) w w') : Apart w' lists' buffered' chain where
  heap := by
    have same : ∀ r ∈ refs chain, w'.nodes[r]? = w.nodes[r]? := fun r member =>
      stays.same r (apart.outside r member)
    refine ⟨fun l member => ?_, fun l member c inside => ?_, apart.heap.distinct⟩
    · obtain ⟨before, seg⟩ := apart.heap.closed l member
      exact ⟨before, seg.unchanged (List.mem_singleton.mp member ▸ same)⟩
    · rw [Dll.valAt, same c.1 (mem_refs c chain (List.mem_singleton.mp member ▸ inside))]
      exact apart.heap.vals l member c inside
  outside r member live := by
    apply apart.outside r member
    rcases live with listed | new
    · obtain ⟨c, inside, rfl⟩ := List.mem_map.mp listed
      rw [List.flatten_append, mem_append] at inside
      rcases inside with inLists | inBuffer
      · exact stays.isSealed.ids _ _ (repr.idMap.get c inLists)
      · exact stays.isSealed.waiting _ _ (repr.buffer.get c inBuffer)
    · exact stays.isSealed.fresh r new

end Apart

end CasualOS.WeaveFrame
