import CasualOS.HashText
import CasualOS.Lib.Run
import CasualOS.WeaveNodes

/-! How many roots of a cardinality group are listed, beside what the weave has counted of it. -/

namespace CasualOS.RootCardinality

open Dll (Ref Targets)
open HashText Run WeaveNodes
open Dll (valAt)
open Option (some)

variable {T : Type}

/-! ### What stays when the roots are left alone -/

def HasCause (w : Weave T) (n : Ref) : Prop := ∃ x, w.atomAt n = some x ∧ x.cause ≠ none

/-- The id map leads to the nodes of its keys, a root that it leads to is listed, and no list runs into
a root. -/
structure Sound (w : Weave T) : Prop where
  mapped : ∀ key n, w.idMap.get key = some n → ∃ x, w.atomAt n = some x ∧
    atomIdToString x.id = key ∧ (x.cause = none → n ∈ w.roots)
  linked : Targets w.nodes (HasCause w)
  waiting : ∀ key n, w.reorderBuffer.get key = some n → HasCause w n
  roots : ∀ r ∈ w.roots, ∃ x, w.atomAt r = some x ∧ x.cause = none
  distinct : w.roots.Nodup

theorem sound_new (size : Option Int) : Sound (Weave.new size : Weave T) where
  mapped _ _ found := by cases found
  linked _ _ found := by simp [Weave.new, Dll.nextAt] at found
  waiting _ _ found := by cases found
  roots _ member := by cases member
  distinct := List.nodup_nil

variable {w w' w'' : Weave T} {n : Ref} {a : Atom T}

def KeepsAtoms (w w' : Weave T) : Prop := ∀ r a, w.atomAt r = some a → w'.atomAt r = some a

theorem HasCause.mono (caused : HasCause w n) (atoms : KeepsAtoms w w') : HasCause w' n := by
  obtain ⟨x, found, cause⟩ := caused
  exact ⟨x, atoms n x found, cause⟩

/-- The roots and their counts are as they were. -/
structure Leaves (w w' : Weave T) : Prop where
  roots : w'.roots = w.roots
  cardinality : w'.cardinality = w.cardinality
  atoms : KeepsAtoms w w'
  sound : Sound w'

theorem Leaves.refl (sound : Sound w) : Leaves w w := ⟨rfl, rfl, fun _ _ found => found, sound⟩

theorem Leaves.trans (first : Leaves w w') (second : Leaves w' w'') : Leaves w w'' :=
  ⟨second.roots.trans first.roots, second.cardinality.trans first.cardinality,
    fun r a found => second.atoms r a (first.atoms r a found), second.sound⟩

theorem leaves_of (sound : Sound w) (roots : w'.roots = w.roots)
    (cardinality : w'.cardinality = w.cardinality) (atoms : KeepsAtoms w w')
    (mapped : ∀ key n, w'.idMap.get key = some n → w.idMap.get key = some n ∨
      ∃ x, w'.atomAt n = some x ∧ atomIdToString x.id = key ∧ x.cause ≠ none)
    (linked : Targets w'.nodes (HasCause w'))
    (waiting : ∀ key n, w'.reorderBuffer.get key = some n → w.reorderBuffer.get key = some n ∨
      HasCause w' n) : Leaves w w' := by
  refine ⟨roots, cardinality, atoms, ⟨fun key n found => ?_, linked, fun key n found => ?_,
    fun r member => ?_, roots ▸ sound.distinct⟩⟩
  · rcases mapped key n found with old | ⟨x, shown, named, caused⟩
    · obtain ⟨x, shown, named, listed⟩ := sound.mapped key n old
      exact ⟨x, atoms n x shown, named, fun noCause => roots ▸ listed noCause⟩
    · exact ⟨x, shown, named, fun noCause => absurd noCause caused⟩
  · rcases waiting key n found with old | new
    · exact (sound.waiting key n old).mono atoms
    · exact new
  · rw [roots] at member
    obtain ⟨x, shown, noCause⟩ := sound.roots r member
    exact ⟨x, atoms r x shown, noCause⟩

theorem Sound.linked_mono (sound : Sound w) (atoms : KeepsAtoms w w') : Targets w.nodes (HasCause w') :=
  fun x s found => (sound.linked x s found).mono atoms

theorem leaves_nodes (sound : Sound w) (nodes : Dll.Heap (Atom T))
    (atoms : ∀ r a, valAt w.nodes r = some a → valAt nodes r = some a)
    (linked : Targets nodes (HasCause { w with nodes := nodes })) :
    Leaves w { w with nodes := nodes } :=
  leaves_of sound rfl rfl atoms (fun _ _ found => .inl found) linked (fun _ _ found => .inl found)

/-! ### The maps -/

theorem leaves_addNodeToMaps (sound : Sound w) (caused : HasCause w n) (buffered : Bool) :
    Leaves w (w.addNodeToMaps n buffered) := by
  obtain ⟨x, found, cause⟩ := caused
  cases buffered with
  | true =>
    simp only [Weave.addNodeToMaps, found, if_true]
    refine leaves_of sound rfl rfl (fun _ _ found => found) (fun _ _ found => .inl found)
      sound.linked (fun key m waits => ?_)
    rw [OrderedMap.get_set] at waits
    split at waits
    · rw [some.injEq] at waits
      exact .inr ⟨x, waits ▸ found, cause⟩
    · exact .inl waits
  | false =>
    simp only [Weave.addNodeToMaps, found, Bool.false_eq_true, if_false]
    refine leaves_of sound rfl rfl (fun _ _ found => found) (fun key m mapped => ?_) sound.linked
      (fun _ _ found => .inl found)
    rw [OrderedMap.get_set] at mapped
    split at mapped
    · next same =>
        rw [some.injEq] at mapped
        exact .inr ⟨x, mapped ▸ found, same.symm, cause⟩
    · exact .inl mapped

theorem leaves_removeNodeIdFromMaps (sound : Sound w) (n : Ref) (buffered : Bool) :
    Leaves w (w.removeNodeIdFromMaps n buffered) := by
  cases found : w.atomAt n with
  | none =>
    simp only [Weave.removeNodeIdFromMaps, found]
    exact Leaves.refl sound
  | some x =>
    have less : ∀ (m : OrderedMap JsString Ref) (gone key : JsString) (r : Ref),
        (m.delete gone).get key = some r → m.get key = some r := by
      intro m gone key r left
      rw [OrderedMap.get_delete] at left
      split at left
      · cases left
      · exact left
    cases buffered with
    | true =>
      simp only [Weave.removeNodeIdFromMaps, found, if_true]
      exact leaves_of sound rfl rfl (fun _ _ found => found) (fun _ _ found => .inl found)
        sound.linked (fun key m waits => .inl (less _ _ key m waits))
    | false =>
      simp only [Weave.removeNodeIdFromMaps, found, Bool.false_eq_true, if_false]
      exact leaves_of sound rfl rfl (fun _ _ found => found)
        (fun key m mapped => .inl (less _ _ key m mapped)) sound.linked
        (fun _ _ found => .inl found)

theorem leaves_foldl (good : Weave T → Ref → Prop) (step : Weave T → Ref → Weave T)
    (stays : ∀ w w' n, KeepsAtoms w w' → good w n → good w' n)
    (leaves : ∀ w n, Sound w → good w n → Leaves w (step w n)) (nodes : List Ref) (sound : Sound w)
    (all : ∀ n ∈ nodes, good w n) : Leaves w (nodes.foldl step w) := by
  induction nodes generalizing w with
  | nil => exact Leaves.refl sound
  | cons n rest ih =>
    have first := leaves w n sound (all n List.mem_cons_self)
    exact first.trans (ih first.sound (fun m later => stays _ _ m first.atoms (all m (List.mem_cons_of_mem _ later))))

theorem leaves_foldlM (step : Weave T → Ref → Except Failure (Weave T))
    (leaves : ∀ w n w', Sound w → HasCause w n → step w n = .ok w' → Leaves w w') (nodes : List Ref)
    (sound : Sound w) (all : ∀ n ∈ nodes, HasCause w n) (ran : nodes.foldlM step w = .ok w') :
    Leaves w w' := by
  induction nodes generalizing w with
  | nil =>
    have same : w = w' := Except.ok.inj ran
    exact same ▸ Leaves.refl sound
  | cons n rest ih =>
    rw [List.foldlM_cons] at ran
    obtain ⟨mid, first, later⟩ := ok_of_bind _ _ _ ran
    have left := leaves w n mid sound (all n List.mem_cons_self) first
    exact left.trans (ih left.sound (fun m inRest => (all m (List.mem_cons_of_mem _ inRest)).mono left.atoms) later)

theorem leaves_removeListFromMaps (sound : Sound w) (n : Ref) (buffered : Bool)
    (ran : w.removeListFromMaps n buffered = .ok w') : Leaves w w' := by
  obtain ⟨nodes, _, last⟩ := ok_of_bind _ _ _ ran
  have first := leaves_removeNodeIdFromMaps sound n buffered
  have rest := leaves_foldl (fun _ _ => True) (fun w n => w.removeNodeIdFromMaps n buffered)
    (fun _ _ _ _ good => good) (fun w n sound _ => leaves_removeNodeIdFromMaps sound n buffered) nodes
    first.sound (fun _ _ => trivial)
  rw [← Except.ok.inj last]
  exact first.trans rest

/-! ### Linking nodes that have a cause -/

theorem scan_caused (h : Dll.Heap (Atom T)) (cause : Atom T) (id : AtomId) (fuel : Nat)
    (current last : Option Ref) (r : Ref)
    (found : scanUnder h cause id fuel current last = some (.before r)) :
    ∃ x, valAt h r = some x ∧ x.cause ≠ none := by
  fun_induction scanUnder h cause id fuel current last with
  | case1 | case2 | case3 | case4 => simp at found
  | case5 fuel m last node shown newer here =>
    rw [some.injEq, Position.before.injEq] at found
    subst found
    refine ⟨node.val, by simp [valAt, shown], fun noCause => ?_⟩
    simp [noCause, idEquals] at here
  | case6 fuel m last node shown newer other ih => exact ih found

theorem position_caused (w : Weave T) (cause r : Ref) (id : AtomId)
    (found : w.positionUnder cause id = .ok (.before r)) : HasCause w r := by
  unfold Weave.positionUnder at found
  split at found
  · next atom shown =>
      cases scanned : scanUnder w.nodes atom id w.nodes.length (Dll.nextAt w.nodes cause) none with
      | none => simp [scanned, orDiverges] at found
      | some position =>
        rw [scanned, orDiverges, Except.ok.injEq] at found
        exact scan_caused _ _ _ _ _ _ r (found ▸ scanned)
  · cases found

theorem atoms_grow {h h' : Dll.Heap (Atom T)} {new : Atom T}
    (grown : ∀ x, valAt h' x = if x = h.length then some new else valAt h x) (r : Ref)
    (a : Atom T) (found : valAt h r = some a) : valAt h' r = some a := by
  rw [grown]
  split
  · next fresh =>
      subst fresh
      simp [valAt] at found
  · exact found

/-- The new node of a caused atom, which is all that there is more than before. -/
theorem leaves_grown (sound : Sound w) (caused : a.cause ≠ none) {nodes : Dll.Heap (Atom T)} {buffered : Bool}
    (grown : ∀ x, valAt nodes x = if x = w.nodes.length then some a else valAt w.nodes x)
    (linked : KeepsAtoms w { w with nodes := nodes } → HasCause { w with nodes := nodes } w.nodes.length →
      Targets nodes (HasCause { w with nodes := nodes })) :
    Leaves w (({ w with nodes := nodes } : Weave T).addNodeToMaps w.nodes.length buffered) ∧
      HasCause (({ w with nodes := nodes } : Weave T).addNodeToMaps w.nodes.length buffered) w.nodes.length := by
  have atoms : KeepsAtoms w { w with nodes := nodes } := atoms_grow grown
  have new : HasCause { w with nodes := nodes } w.nodes.length := ⟨a, by simp [Weave.atomAt, grown], caused⟩
  have leaves := leaves_nodes sound nodes atoms (linked atoms new)
  have added := leaves_addNodeToMaps leaves.sound new buffered
  exact ⟨leaves.trans added, new.mono added.atoms⟩

theorem leaves_insertBefore (sound : Sound w) (pos : Ref) (caused : a.cause ≠ none)
    (before : HasCause w pos) (buffered : Bool) : Leaves w (w.insertBefore pos a buffered).1 :=
  (leaves_grown sound caused (fun x => Dll.valAt_insertBefore w.nodes pos x a) fun atoms =>
    Dll.targets_insertBefore (sound.linked_mono atoms) pos a (before.mono atoms)).1

theorem leaves_insertAfter (sound : Sound w) (pos : Ref) (caused : a.cause ≠ none) (buffered : Bool) :
    Leaves w (w.insertAfter pos a buffered).1 :=
  (leaves_grown sound caused (fun x => Dll.valAt_insertAfter w.nodes pos x a) fun atoms =>
    Dll.targets_insertAfter (sound.linked_mono atoms) pos a).1

theorem leaves_insertUnder (sound : Sound w) (cause : Ref) (caused : a.cause ≠ none) (buffered : Bool)
    (made : Weave T × Ref) (ran : w.insertUnder cause a buffered = .ok made) : Leaves w made.1 := by
  obtain ⟨position, found, last⟩ := ok_of_bind _ _ _ ran
  cases position with
  | before r =>
    rw [← Except.ok.inj last]
    exact leaves_insertBefore sound r caused (position_caused w cause r a.id found) buffered
  | after r =>
    rw [← Except.ok.inj last]
    exact leaves_insertAfter sound (r.getD cause) caused buffered

theorem leaves_insertNodeUnder (sound : Sound w) (cause start stop : Ref) (caused : HasCause w start)
    (ran : w.insertNodeUnder cause start stop = .ok w') : Leaves w w' := by
  unfold Weave.insertNodeUnder at ran
  split at ran
  · obtain ⟨position, found, last⟩ := ok_of_bind _ _ _ ran
    cases position with
    | before r =>
      rw [← Except.ok.inj last]
      have atoms : KeepsAtoms w (w.insertNodeBefore r start stop) :=
        fun s a found => (Dll.valAt_spliceBefore ..).trans found
      exact leaves_nodes sound _ atoms (Dll.targets_spliceBefore (sound.linked_mono atoms) r
        start stop ((position_caused w cause r _ found).mono atoms) (caused.mono atoms))
    | after r =>
      rw [← Except.ok.inj last]
      have atoms : KeepsAtoms w (w.insertNodeAfter (r.getD cause) start stop) :=
        fun s a found => (Dll.valAt_spliceAfter ..).trans found
      exact leaves_nodes sound _ atoms (Dll.targets_spliceAfter (sound.linked_mono atoms) _
        start stop (caused.mono atoms))
  · exact Except.ok.inj ran ▸ Leaves.refl sound

/-! ### The reorder buffer -/

theorem leaves_addToReorderBuffer (sound : Sound w) (caused : a.cause ≠ none) :
    Leaves w (w.addToReorderBuffer a).1 ∧ HasCause (w.addToReorderBuffer a).1 w.nodes.length :=
  leaves_grown sound caused (Dll.valAt_alloc w.nodes a none none) fun atoms _ =>
    Dll.targets_alloc (sound.linked_mono atoms) a none none (fun s absent => by cases absent)

theorem leaves_addMissingChild (sound : Sound w) (atomNode : Ref) (caused : HasCause w n)
    (buffered : Bool) (ran : w.addMissingChild atomNode n buffered = .ok w') : Leaves w w' := by
  obtain ⟨list, walked, last⟩ := ok_of_bind _ _ _ ran
  cases buffered with
  | true => exact leaves_insertNodeUnder sound _ _ _ caused last
  | false =>
    have inside : ∀ r ∈ list, HasCause w r := by
      unfold Weave.iterateFrom Dll.walk at walked
      cases found : Dll.follow w.nodes w.nodes.length (some n) with
      | none => simp [found, orDiverges] at walked
      | some nodes =>
        rw [found, orDiverges, Except.ok.injEq] at walked
        exact walked ▸ Dll.follow_all (fun r _ => sound.linked r) _ _ nodes (Dll.targets_some caused) found
    have moved := leaves_foldl HasCause (fun w n => (w.removeNodeIdFromMaps n true).addNodeToMaps n false)
      (fun _ _ _ atoms caused => caused.mono atoms)
      (fun w n sound caused =>
        have gone := leaves_removeNodeIdFromMaps sound n true
        gone.trans (leaves_addNodeToMaps gone.sound (caused.mono gone.atoms) false))
      list sound inside
    exact moved.trans (leaves_insertNodeUnder moved.sound _ _ _ (caused.mono moved.atoms) last)

theorem leaves_addMissingChildren (sound : Sound w) (made : Weave T × Bool) (atomNode : Ref)
    (buffered : Bool) (ran : w.addMissingChildren atomNode buffered = .ok made) : Leaves w made.1 := by
  obtain ⟨mid, first, last⟩ := ok_of_bind _ _ _ ran
  rw [← Except.ok.inj last]
  refine leaves_foldlM _ (fun w n w' sound caused ran =>
    leaves_addMissingChild sound atomNode caused buffered ran) _ sound (fun n member => ?_) first
  obtain ⟨key, found⟩ := (OrderedMap.mem_values _ n).mp (List.mem_of_mem_filter member)
  exact sound.waiting key n found

theorem leaves_releaseMissing (sound : Sound w) (made : Weave T × WeaveResult T) (atomNode : Ref)
    (ran : w.releaseMissing atomNode a = .ok made) :
    Leaves w made.1 ∧ ∀ b, made.2 ≠ .cardinalityViolated b := by
  unfold Weave.releaseMissing at ran
  split at ran
  · obtain ⟨released, first, last⟩ := ok_of_bind _ _ _ ran
    have kept := leaves_addMissingChildren sound released atomNode false first
    simp only at last
    split at last
    · obtain ⟨group, _, final⟩ := ok_of_bind _ _ _ last
      rw [← Except.ok.inj final]
      exact ⟨kept, fun b same => by cases same⟩
    · rw [← Except.ok.inj last]
      exact ⟨kept, fun b same => by cases same⟩
  · rw [← Except.ok.inj ran]
    exact ⟨Leaves.refl sound, fun b same => by cases same⟩

/-! ### The listed roots -/

def rootAtoms (w : Weave T) : List (Atom T) := w.roots.filterMap w.atomAt

def rootPart (a : Atom T) : List (Atom T) := if a.cause = none then [a] else []

theorem rootAtoms_of {roots : List Ref} (known : ∀ r ∈ roots, ∃ x, w.atomAt r = some x)
    (atoms : KeepsAtoms w w') : roots.filterMap w'.atomAt = roots.filterMap w.atomAt := by
  refine List.filterMap_congr fun r member => ?_
  obtain ⟨x, shown⟩ := known r member
  rw [shown, atoms r x shown]

theorem Sound.known (sound : Sound w) : ∀ r ∈ w.roots, ∃ x, w.atomAt r = some x := by
  intro r member
  obtain ⟨x, shown, _⟩ := sound.roots r member
  exact ⟨x, shown⟩

theorem Leaves.rootAtoms (leaves : Leaves w w') (sound : Sound w) : rootAtoms w' = rootAtoms w := by
  rw [RootCardinality.rootAtoms, leaves.roots]
  exact rootAtoms_of sound.known leaves.atoms

/-- What of the roots a removed node takes away. -/
structure Drops (w w' : Weave T) (old : Atom T) : Prop where
  cardinality : w'.cardinality = w.cardinality
  atoms : KeepsAtoms w w'
  roots : (RootCardinality.rootAtoms w).Perm (rootPart old ++ RootCardinality.rootAtoms w')
  sound : Sound w'

theorem absent_foldl (nodes : List Ref) (key : JsString) (absent : w.idMap.get key = none) :
    (nodes.foldl (fun w n => w.removeNodeIdFromMaps n false) w).idMap.get key = none := by
  induction nodes generalizing w with
  | nil => exact absent
  | cons m rest ih =>
    apply ih
    cases found : w.atomAt m with
    | none => simpa [Weave.removeNodeIdFromMaps, found] using absent
    | some x => simp [Weave.removeNodeIdFromMaps, found, OrderedMap.get_delete, absent]

theorem removeListFromMaps_gone (n : Ref) (old : Atom T) (found : w.atomAt n = some old)
    (ran : w.removeListFromMaps n false = .ok w') : w'.idMap.get (atomIdToString old.id) = none := by
  obtain ⟨nodes, _, last⟩ := ok_of_bind _ _ _ ran
  rw [← Except.ok.inj last]
  apply absent_foldl
  simp [Weave.removeNodeIdFromMaps, found, OrderedMap.get_delete]

theorem drops_removeSpan (sound : Sound w) (n stop : Ref) (old : Atom T) (found : w.atomAt n = some old)
    (listed : old.cause = none → n ∈ w.roots) (ran : w.removeSpan n stop = .ok w') : Drops w w' old := by
  obtain ⟨mid, first, last⟩ := ok_of_bind _ _ _ ran
  have atoms : KeepsAtoms w { w with nodes := Dll.cut w.nodes n stop } :=
    fun r a shown => (Dll.valAt_cut ..).trans shown
  have cut := leaves_nodes sound _ atoms (Dll.targets_cut (sound.linked_mono atoms) n stop)
  have left := cut.trans (leaves_removeListFromMaps cut.sound n false first)
  have gone := removeListFromMaps_gone n old (atoms n old found) first
  have shown := left.atoms n old found
  simp only [shown] at last
  by_cases noCause : old.cause = none
  · simp only [noCause, Option.isNone_none, if_true] at last
    rw [← Except.ok.inj last]
    have member : n ∈ mid.roots := left.roots ▸ listed noCause
    refine ⟨left.cardinality, left.atoms, ?_, ⟨fun key m mapped => ?_, left.sound.linked,
      left.sound.waiting, fun r inside => left.sound.roots r (List.mem_of_mem_erase inside),
      left.sound.distinct.erase n⟩⟩
    · rw [← left.rootAtoms sound, rootPart, if_pos noCause]
      have whole := (List.perm_cons_erase member).filterMap mid.atomAt
      rw [List.filterMap_cons_some shown] at whole
      exact whole
    · obtain ⟨x, atom, named, root⟩ := left.sound.mapped key m mapped
      refine ⟨x, atom, named, fun noCause => (List.mem_erase_of_ne ?_).mpr (root noCause)⟩
      rintro rfl
      rw [shown, some.injEq] at atom
      subst atom
      subst named
      exact Option.some_ne_none m (mapped.symm.trans gone)
  · have caused : old.cause.isNone = false := by
      cases cause : old.cause with
      | none => exact absurd cause noCause
      | some _ => rfl
    simp only [caused, Bool.false_eq_true, if_false] at last
    rw [← Except.ok.inj last]
    refine ⟨left.cardinality, left.atoms, ?_, left.sound⟩
    rw [rootPart, if_neg noCause, List.nil_append, left.rootAtoms sound]

theorem drops_removeNode (sound : Sound w) (n : Ref) (old : Atom T) (found : w.atomAt n = some old)
    (listed : old.cause = none → n ∈ w.roots) (ran : w.removeNode n = .ok w') : Drops w w' old := by
  obtain ⟨last, _, later⟩ := ok_of_bind _ _ _ ran
  exact drops_removeSpan sound n last old found listed later

theorem addRoot_roots (sound : Sound w) (noCause : a.cause = none) :
    (w.addRoot a).1.cardinality = w.cardinality ∧ Sound (w.addRoot a).1 ∧
      rootAtoms (w.addRoot a).1 = rootAtoms w ++ [a] := by
  have grown := Dll.valAt_alloc w.nodes a none none
  have atoms : KeepsAtoms w { w with nodes := (Dll.alloc w.nodes a none none).1 } := atoms_grow grown
  have shown : valAt (Dll.alloc w.nodes a none none).1 w.nodes.length = some a := by
    rw [grown, if_pos rfl]
  have fresh : w.nodes.length ∉ w.roots := by
    intro member
    obtain ⟨x, found, _⟩ := sound.roots _ member
    simp [Weave.atomAt, valAt] at found
  have made : (w.addRoot a).1 = { w with
      nodes := (Dll.alloc w.nodes a none none).1
      roots := w.roots ++ [w.nodes.length]
      idMap := w.idMap.set (atomIdToString a.id) w.nodes.length
      hashMap := w.hashMap.set a.hash w.nodes.length } := by
    simp only [Weave.addRoot, Weave.addNodeToMaps, Weave.atomAt, Dll.alloc_ref, shown, Bool.false_eq_true, if_false]
  rw [made]
  refine ⟨rfl, ⟨fun key m mapped => ?_, ?_, fun key m waits => ?_, fun r member => ?_, ?_⟩, ?_⟩
  · rw [OrderedMap.get_set] at mapped
    split at mapped
    · next same =>
        rw [some.injEq] at mapped
        subst mapped
        exact ⟨a, shown, same.symm, fun _ => by simp⟩
    · obtain ⟨x, found, named, root⟩ := sound.mapped key m mapped
      exact ⟨x, atoms m x found, named, fun top => List.mem_append_left _ (root top)⟩
  · exact Dll.targets_alloc (sound.linked_mono atoms) a none none (fun s absent => by cases absent)
  · exact (sound.waiting key m waits).mono atoms
  · rcases List.mem_append.mp member with old | new
    · obtain ⟨x, found, top⟩ := sound.roots r old
      exact ⟨x, atoms r x found, top⟩
    · rw [List.mem_singleton.mp new]
      exact ⟨a, shown, noCause⟩
  · exact List.nodup_append.mpr ⟨sound.distinct, List.nodup_singleton _,
      fun r old s new same => fresh (List.mem_singleton.mp new ▸ same ▸ old)⟩
  · rw [RootCardinality.rootAtoms, List.filterMap_append, RootCardinality.rootAtoms]
    have first := rootAtoms_of sound.known atoms
    have second : [w.nodes.length].filterMap (valAt (Dll.alloc w.nodes a none none).1) = [a] := by
      simp [shown]
    exact congrArg₂ (· ++ ·) first second

/-! ### What one insertion does to the roots -/

section Insert

variable (getHash : AtomHashInput T → JsString)

def passes (w : Weave T) (a : Atom T) : Bool :=
  match a.cause with
  | none =>
    atomMatchesHash getHash a none &&
      match a.id.cardinality with
      | .value cardinality => decide (0 < cardinality.number)
      | _ => true
  | some cause =>
    match w.getNode cause with
    | none => false
    | some n => ((w.atomAt n).bind (Weave.checkCause getHash a)).isNone

inductive Effect (w : Weave T) (a : Atom T) : Weave T → WeaveResult T → Prop where
  | left {w' : Weave T} {r : WeaveResult T} (leaves : Leaves w w')
      (answered : ∀ b, r ≠ .cardinalityViolated b) : Effect w a w' r
  | refused (noCause : a.cause = none) (full : w.countCardinality a = none) :
      Effect w a w (.cardinalityViolated a)
  | listed {mid w' : Weave T} {r : WeaveResult T} (passed : passes getHash w a = true)
      (fresh : w.getNode a.id = none) (noCause : a.cause = none)
      (counted : w.countCardinality a = some mid) (cardinality : w'.cardinality = mid.cardinality)
      (roots : rootAtoms w' = rootAtoms w ++ [a]) (sound : Sound w')
      (answered : ∀ b, r ≠ .cardinalityViolated b) : Effect w a w' r
  | replaced {w' : Weave T} {r : WeaveResult T} {e : Ref} {old : Atom T} {rest : List (Atom T)}
      (passed : passes getHash w a = true) (found : w.getNode a.id = some e)
      (shown : w.atomAt e = some old) (smaller : a.hash < old.hash)
      (cardinality : w'.cardinality = w.cardinality) (before : (rootAtoms w).Perm (rootPart old ++ rest))
      (after : rootAtoms w' = rest ++ rootPart a) (sound : Sound w')
      (answered : ∀ b, r ≠ .cardinalityViolated b) : Effect w a w' r

variable {getHash} {made : Weave T × WeaveResult T}

theorem effect_resolveConflict (sound : Sound w) {e : Ref} (found : w.getNode a.id = some e)
    (passed : passes getHash w a = true) (causeNode : Option Ref) (kind : causeNode = none ↔ a.cause = none)
    (ran : w.resolveConflict e a causeNode = .ok made) : Effect getHash w a made.1 made.2 := by
  obtain ⟨old, shown, _, listed⟩ := sound.mapped _ e found
  have unchanged : ∀ r : WeaveResult T, (∀ b, r ≠ .cardinalityViolated b) → Effect getHash w a w r :=
    fun r answered => .left (Leaves.refl sound) answered
  simp only [Weave.resolveConflict, shown] at ran
  split at ran
  · next apart =>
      split at ran
      · rw [← Except.ok.inj ran]
        exact unchanged _ (fun b same => by cases same)
      · next notLess =>
          have smaller : a.hash < old.hash := lt_of_le_of_ne (not_lt.mp notLess) (Ne.symm apart)
          obtain ⟨mid, removed, later⟩ := ok_of_bind _ _ _ ran
          have drops := drops_removeNode sound e old shown listed removed
          cases causeNode with
          | none =>
            obtain ⟨last, added, final⟩ := ok_of_bind _ _ _ later
            rw [← Except.ok.inj final]
            have noCause := kind.mp rfl
            rw [← Except.ok.inj added]
            have ⟨cardinality, grown, roots⟩ := addRoot_roots drops.sound noCause
            refine .replaced passed found shown smaller (cardinality.trans drops.cardinality)
              drops.roots ?_ grown (fun b same => by cases same)
            rw [roots, rootPart, if_pos noCause]
          | some cause =>
            obtain ⟨last, added, final⟩ := ok_of_bind _ _ _ later
            rw [← Except.ok.inj final]
            have caused : a.cause ≠ none := fun absent => Option.some_ne_none cause (kind.mpr absent)
            cases placed : mid.insertUnder cause a false with
            | error failure => simp [placed, Except.map] at added
            | ok made =>
              rw [placed, Except.map, Except.ok.injEq] at added
              have leaves := leaves_insertUnder drops.sound cause caused false made placed
              rw [added] at leaves
              refine .replaced passed found shown smaller
                (leaves.cardinality.trans drops.cardinality) drops.roots ?_ leaves.sound
                (fun b same => by cases same)
              rw [leaves.rootAtoms drops.sound, rootPart, if_neg caused, List.append_nil]
  · rw [← Except.ok.inj ran]
    exact unchanged _ (fun b same => by cases same)

theorem countCardinality_leaves (sound : Sound w) {mid : Weave T} (counted : w.countCardinality a = some mid) :
    Sound mid ∧ rootAtoms mid = rootAtoms w ∧ mid.nodes = w.nodes := by
  have same : ∀ cardinality, Sound { w with cardinality := cardinality } := fun _ =>
    ⟨sound.mapped, sound.linked, sound.waiting, sound.roots, sound.distinct⟩
  unfold Weave.countCardinality at counted
  split at counted
  · rw [← some.inj counted]
    exact ⟨sound, rfl, rfl⟩
  · simp only at counted
    split at counted
    · split at counted
      · cases counted
      · rw [← some.inj counted]
        exact ⟨same _, rfl, rfl⟩
    · rw [← some.inj counted]
      exact ⟨same _, rfl, rfl⟩

theorem effect_checkedRoot (sound : Sound w) (noCause : a.cause = none)
    (passed : passes getHash w a = true) (ran : insertCheckedRoot w a = .ok made) :
    Effect getHash w a made.1 made.2 := by
  unfold insertCheckedRoot at ran
  split at ran
  · next e found =>
      exact effect_resolveConflict sound found passed none (iff_of_true rfl noCause) ran
  · next fresh =>
      split at ran
      · next full =>
          rw [← Except.ok.inj ran]
          exact .refused noCause full
      · next mid counted =>
          have ⟨still, same, _⟩ := countCardinality_leaves sound counted
          have ⟨cardinality, grown, roots⟩ := addRoot_roots still noCause
          have ⟨leaves, answered⟩ := leaves_releaseMissing grown made _ ran
          refine .listed passed fresh noCause counted (leaves.cardinality.trans cardinality) ?_ leaves.sound answered
          rw [leaves.rootAtoms grown, roots, same]

theorem effect_insertRoot (sound : Sound w) (noCause : a.cause = none)
    (ran : w.insertRoot getHash a = .ok made) : Effect getHash w a made.1 made.2 := by
  have unchanged : ∀ r : WeaveResult T, (∀ b, r ≠ .cardinalityViolated b) → Effect getHash w a w r :=
    fun r answered => .left (Leaves.refl sound) answered
  unfold Weave.insertRoot at ran
  split at ran
  · rw [← Except.ok.inj ran]
    exact unchanged _ (fun b same => by cases same)
  · next valid =>
      have hashed : atomMatchesHash getHash a none = true := by simpa using valid
      simp only at ran
      split at ran
      · next plain =>
          have passed : passes getHash w a = true := by simp [passes, noCause, hashed, plain]
          exact effect_checkedRoot sound noCause passed ran
      · cases ran
      · next cardinality set =>
          split at ran
          · rw [← Except.ok.inj ran]
            exact unchanged _ (fun b same => by cases same)
          · next positive =>
              have passed : passes getHash w a = true := by
                simp [passes, noCause, hashed, set, not_le.mp positive]
              exact effect_checkedRoot sound noCause passed ran

theorem effect_insertMissing (sound : Sound w) (cause : AtomId) (caused : a.cause ≠ none)
    (ran : w.insertMissing getHash a cause = .ok made) : Effect getHash w a made.1 made.2 := by
  unfold Weave.insertMissing at ran
  split at ran
  · rw [← Except.ok.inj ran]
    exact .left (Leaves.refl sound) (fun b same => by cases same)
  · simp only at ran
    split at ran
    · next rejection rejected =>
        rw [← Except.ok.inj ran]
        refine .left (Leaves.refl sound) (fun b same => ?_)
        obtain ⟨c, _, checked⟩ := Option.bind_eq_some_iff.mp rejected
        simp only [Weave.checkCause] at checked
        split_ifs at checked <;> simp_all
    · obtain ⟨queued, node⟩ := leaves_addToReorderBuffer sound caused
      have finish : ∀ linked, Leaves (w.addToReorderBuffer a).1 linked →
          ∀ waited, linked.addMissingChildren (w.addToReorderBuffer a).2 true = .ok waited →
          Effect getHash w a waited.1 (.causeNotFound a true) := by
        intro linked leaves waited second
        exact .left ((queued.trans leaves).trans (leaves_addMissingChildren leaves.sound waited _ _ second))
          (fun b same => by cases same)
      split at ran
      · obtain ⟨linked, first, later⟩ := ok_of_bind _ _ _ ran
        obtain ⟨waited, second, last⟩ := ok_of_bind _ _ _ later
        rw [← Except.ok.inj last]
        have under : HasCause (w.addToReorderBuffer a).1 (w.addToReorderBuffer a).2 := node
        exact finish linked (leaves_insertNodeUnder queued.sound _ _ _ under first) waited second
      · obtain ⟨linked, first, later⟩ := ok_of_bind _ _ _ ran
        obtain ⟨waited, second, last⟩ := ok_of_bind _ _ _ later
        rw [← Except.ok.inj last]
        have same := Except.ok.inj first
        exact finish linked (same ▸ Leaves.refl queued.sound) waited second

theorem effect_insertChild (sound : Sound w) (cause : AtomId) (caused : a.cause = some cause) (c : Ref)
    (node : w.getNode cause = some c) (ran : w.insertChild getHash a c = .ok made) :
    Effect getHash w a made.1 made.2 := by
  have hasCause : a.cause ≠ none := caused ▸ Option.some_ne_none cause
  unfold Weave.insertChild at ran
  split at ran
  · next rejection rejected =>
      rw [← Except.ok.inj ran]
      refine .left (Leaves.refl sound) (fun b same => ?_)
      obtain ⟨x, _, checked⟩ := Option.bind_eq_some_iff.mp rejected
      simp only [Weave.checkCause] at checked
      split_ifs at checked <;> simp_all
  · next accepted =>
      have passed : passes getHash w a = true := by simp [passes, caused, node, accepted]
      split at ran
      · next e found =>
          refine effect_resolveConflict sound found passed (some c) ?_ ran
          exact iff_of_false (Option.some_ne_none c) hasCause
      · obtain ⟨placed, first, later⟩ := ok_of_bind _ _ _ ran
        have leaves := leaves_insertUnder sound c hasCause false placed first
        have ⟨released, answered⟩ := leaves_releaseMissing leaves.sound made placed.2 later
        exact .left (leaves.trans released) answered

/-- One case for each way in which an insertion can touch the roots. -/
theorem effect_insert (sound : Sound w) (ran : w.insert getHash a = .ok made) : Effect getHash w a made.1 made.2 := by
  unfold Weave.insert at ran
  split at ran
  · next noCause => exact effect_insertRoot sound noCause ran
  · next cause caused =>
      split at ran
      · exact effect_insertMissing sound cause (caused ▸ Option.some_ne_none cause) ran
      · next c node => exact effect_insertChild sound cause caused c node ran

end Insert

/-! ### Counting -/

def rootLimit (a : Atom T) : Option AtomCardinality :=
  if a.cause = none then a.id.cardinality.get? else none

def limitIn (group : JsString) : Option AtomCardinality → Option Int
  | some limit => if limit.group = group then some limit.number else none
  | none => none

def numbersOf (roots : List (Atom T)) (group : JsString) : List Int :=
  roots.filterMap fun a => limitIn group (rootLimit a)

def groupNumbers (w : Weave T) (group : JsString) : List Int := numbersOf (rootAtoms w) group

theorem numbersOf_part (a : Atom T) (group : JsString) :
    numbersOf (rootPart a) group = (limitIn group (rootLimit a)).toList := by
  by_cases noCause : a.cause = none
  · rw [rootPart, if_pos noCause, numbersOf, List.filterMap_cons, List.filterMap_nil]
    cases limitIn group (rootLimit a) <;> rfl
  · simp [rootPart, rootLimit, noCause, numbersOf, limitIn]

theorem numbersOf_append (first second : List (Atom T)) (group : JsString) :
    numbersOf (first ++ second) group = numbersOf first group ++ numbersOf second group :=
  List.filterMap_append

/-- What is counted of a group, beside the numbers of its listed roots. -/
def Tracks (numbers : List Int) : Option CardinalityStats → Prop
  | none => numbers = []
  | some stats => stats.current = numbers.length ∧ stats.max ∈ numbers ∧
      (∀ n ∈ numbers, stats.max ≤ n) ∧ stats.current ≤ stats.max

variable {numbers : List Int} {stats : Option CardinalityStats}

theorem Tracks.perm {numbers' : List Int}
    (tracks : Tracks numbers stats) (same : numbers.Perm numbers') : Tracks numbers' stats := by
  cases stats with
  | none =>
    have empty : numbers = [] := tracks
    subst empty
    exact same.nil_eq.symm
  | some stats =>
    obtain ⟨current, least, below, fits⟩ := tracks
    exact ⟨current.trans (by rw [same.length_eq]), same.mem_iff.mp least,
      fun n member => below n (same.mem_iff.mpr member), fits⟩

theorem Tracks.within (tracks : Tracks numbers stats) : ∀ n ∈ numbers, (numbers.length : Int) ≤ n := by
  intro n member
  cases stats with
  | none =>
    have empty : numbers = [] := tracks
    rw [empty] at member
    cases member
  | some stats =>
    obtain ⟨current, _, below, fits⟩ := tracks
    have least := below n member
    omega

def bumped (stats : Option CardinalityStats) (number : Int) : CardinalityStats :=
  match stats with
  | some stats => { current := stats.current + 1, max := min stats.max number }
  | none => { current := 1, max := number }

/-- There is room for one more beside the listed ones, as far as these say. -/
def Roomy (numbers : List Int) : Prop := ∀ n ∈ numbers, (numbers.length : Int) < n

instance (numbers : List Int) : Decidable (Roomy numbers) :=
  inferInstanceAs (Decidable (∀ n ∈ numbers, (numbers.length : Int) < n))

theorem Tracks.bump {number : Int} (tracks : Tracks numbers stats) (room : ∀ s, stats = some s → s.current < s.max)
    (fits : Roomy numbers → (numbers.length : Int) < number) :
    Tracks (numbers ++ [number]) (some (bumped stats number)) := by
  cases stats with
  | none =>
    have empty : numbers = [] := tracks
    subst empty
    have positive := fits (fun n member => by cases member)
    simp only [List.length_nil] at positive
    refine ⟨rfl, by simp [bumped], by simp [bumped], ?_⟩
    simp only [bumped]
    omega
  | some stats =>
    obtain ⟨current, least, below, _⟩ := tracks
    have free := room stats rfl
    have larger : (numbers.length : Int) < number := by
      refine fits (fun n member => ?_)
      have bound := below n member
      omega
    refine ⟨?_, ?_, fun n member => ?_, ?_⟩
    · simp only [bumped, List.length_append, List.length_singleton]
      omega
    · by_cases lower : stats.max ≤ number
      · simp [bumped, min_eq_left lower, least]
      · simp [bumped, min_eq_right (le_of_not_ge lower)]
    · rcases List.mem_append.mp member with old | new
      · exact (min_le_left _ _).trans (below n old)
      · exact List.mem_singleton.mp new ▸ min_le_right _ _
    · simp only [bumped]
      have bound : stats.current + 1 ≤ min stats.max number := le_min (by omega) (by omega)
      exact bound

theorem counted_group {mid : Weave T} (counted : w.countCardinality a = some mid) (group : JsString) :
    match limitIn group a.id.cardinality.get? with
    | some number => mid.cardinality.get group = some (bumped (w.cardinality.get group) number) ∧
        ∀ stats, w.cardinality.get group = some stats → stats.current < stats.max
    | none => mid.cardinality.get group = w.cardinality.get group := by
  unfold Weave.countCardinality at counted
  split at counted
  · next absent =>
      rw [← some.inj counted]
      simp [absent, limitIn]
  · next wanted set =>
      simp only at counted
      by_cases same : wanted.group = group
      · subst same
        simp only [set, limitIn, if_true]
        split at counted
        · next stats found =>
            split at counted
            · cases counted
            · next room =>
                rw [← some.inj counted]
                refine ⟨by simp [found, bumped, OrderedMap.get_set], fun other again => ?_⟩
                rw [found, some.injEq] at again
                exact again ▸ not_le.mp room
        · next absent =>
            rw [← some.inj counted]
            exact ⟨by simp [absent, bumped, OrderedMap.get_set], fun other again => by
              rw [absent] at again
              cases again⟩
      · have other : ∀ stats, (w.cardinality.set wanted.group stats).get group = w.cardinality.get group := by
          intro stats
          rw [OrderedMap.get_set, if_neg (Ne.symm same)]
        simp only [set, limitIn, if_neg same]
        split at counted
        · split at counted
          · cases counted
          · rw [← some.inj counted]
            exact other _
        · rw [← some.inj counted]
          exact other _

theorem full_group (full : w.countCardinality a = none) : ∃ limit stats,
    a.id.cardinality.get? = some limit ∧ w.cardinality.get limit.group = some stats ∧
      stats.max ≤ stats.current := by
  unfold Weave.countCardinality at full
  split at full
  · cases full
  · next wanted set =>
      simp only at full
      split at full
      · next stats found =>
          split at full
          · next reached => exact ⟨wanted, stats, set, found, reached⟩
          · cases full
      · cases full

/-! ### Runs -/

/-- Every group has at most as many listed roots as any of them allows. -/
def WithinLimits (w : Weave T) : Prop :=
  ∀ group, ∀ n ∈ groupNumbers w group, ((groupNumbers w group).length : Int) ≤ n

/-- With the atom its group would be larger than the atom, or a listed root, allows. -/
def Exceeds (w : Weave T) (a : Atom T) : Prop :=
  ∃ limit ∈ rootLimit a, ∃ n ∈ limit.number :: groupNumbers w limit.group,
    n < ((groupNumbers w limit.group).length : Int) + 1

instance (w : Weave T) (a : Atom T) : Decidable (Exceeds w a) :=
  inferInstanceAs (Decidable (∃ limit ∈ rootLimit a, ∃ n ∈ limit.number :: groupNumbers w limit.group,
    n < ((groupNumbers w limit.group).length : Int) + 1))

inductive Call (T : Type) where
  | insert (atom : Atom T)
  | remove (atom : Atom T)

/-- A weave, and whether every refusal for its cardinality was called for. -/
structure State (T : Type) where
  weave : Weave T
  founded : Bool

def Exact (state : State T) : Prop := WithinLimits state.weave ∧ state.founded = true

def calledFor (w : Weave T) : WeaveResult T → Bool
  | .cardinalityViolated a => decide (Exceeds w a)
  | _ => true

def start (size : Option Int) : State T := { weave := Weave.new size, founded := true }

section Runs

variable (getHash : AtomHashInput T → JsString)

def answer (w : Weave T) : Call T → Except Failure (Weave T × WeaveResult T)
  | .insert a => w.insert getHash a
  | .remove a => w.remove a

/-- A call that throws or never returns ends the run. -/
def step (state : State T) (call : Call T) : Option (State T) :=
  match answer getHash state.weave call with
  | .ok (w, r) => some { weave := w, founded := state.founded && calledFor state.weave r }
  | .error _ => none

/-- A root with a cardinality stays listed, an atom that replaces another sets the same limit, and a
new root allows for the roots that are listed. -/
def Allowed (state : State T) : Call T → Prop
  | .insert a => passes getHash state.weave a = true →
      match state.weave.getNode a.id with
      | some e => ∀ old ∈ state.weave.atomAt e, a.hash < old.hash → rootLimit a = rootLimit old
      | none => ∀ limit ∈ rootLimit a, Roomy (groupNumbers state.weave limit.group) →
          ((groupNumbers state.weave limit.group).length : Int) < limit.number
  | .remove a => ∀ e ∈ state.weave.getNode a.id, ∀ old ∈ state.weave.atomAt e, rootLimit old = none

instance (state : State T) (call : Call T) : Decidable (Allowed getHash state call) :=
  match call with
  | .insert a =>
    match found : state.weave.getNode a.id with
    | some e => decidable_of_iff (passes getHash state.weave a = true →
        ∀ old ∈ state.weave.atomAt e, a.hash < old.hash → rootLimit a = rootLimit old)
        (by simp only [Allowed, found])
    | none => decidable_of_iff (passes getHash state.weave a = true → ∀ limit ∈ rootLimit a,
        Roomy (groupNumbers state.weave limit.group) →
          ((groupNumbers state.weave limit.group).length : Int) < limit.number)
        (by simp only [Allowed, found])
  | .remove a => inferInstanceAs (Decidable (∀ e ∈ state.weave.getNode a.id,
      ∀ old ∈ state.weave.atomAt e, rootLimit old = none))

structure Inv (state : State T) : Prop where
  sound : Sound state.weave
  tracks : ∀ group, Tracks (groupNumbers state.weave group) (state.weave.cardinality.get group)
  founded : state.founded = true

theorem inv_start (size : Option Int) : Inv (start size : State T) where
  sound := sound_new size
  tracks _ := rfl
  founded := rfl

theorem Inv.exact {state : State T} (inv : Inv state) : Exact state :=
  ⟨fun group => (inv.tracks group).within, inv.founded⟩

variable {getHash} {state : State T} {r : WeaveResult T}

theorem tracks_perm (tracks : ∀ group, Tracks (groupNumbers w group) (w.cardinality.get group))
    (cardinality : w'.cardinality = w.cardinality) (before after rest : List (Atom T))
    (first : (rootAtoms w).Perm (before ++ rest)) (second : (rootAtoms w').Perm (rest ++ after))
    (same : ∀ group, numbersOf before group = numbersOf after group) (group : JsString) :
    Tracks (groupNumbers w' group) (w'.cardinality.get group) := by
  rw [cardinality]
  apply (tracks group).perm
  have left : (groupNumbers w group).Perm (numbersOf (before ++ rest) group) := first.filterMap _
  have right : (groupNumbers w' group).Perm (numbersOf (rest ++ after) group) := second.filterMap _
  rw [numbersOf_append, same group] at left
  rw [numbersOf_append] at right
  exact left.trans (List.perm_append_comm.trans right.symm)

theorem Inv.refused (inv : Inv state) (noCause : a.cause = none)
    (full : state.weave.countCardinality a = none) : Exceeds state.weave a := by
  obtain ⟨limit, stats, set, found, reached⟩ := full_group full
  have tracks := inv.tracks limit.group
  rw [found] at tracks
  obtain ⟨current, least, _, _⟩ := tracks
  refine ⟨limit, by simp [rootLimit, noCause, set], stats.max, List.mem_cons_of_mem _ least, ?_⟩
  omega

theorem inv_insert (inv : Inv state) (allowed : Allowed getHash state (.insert a))
    (ran : state.weave.insert getHash a = .ok (w', r)) :
    Inv { weave := w', founded := state.founded && calledFor state.weave r } := by
  have silent : (∀ b, r ≠ .cardinalityViolated b) → (state.founded && calledFor state.weave r) = true := by
    intro answered
    cases r with
    | cardinalityViolated b => exact absurd rfl (answered b)
    | _ => simp [calledFor, inv.founded]
  cases effect_insert inv.sound ran with
  | left leaves answered =>
    refine ⟨leaves.sound, fun group => ?_, silent answered⟩
    rw [groupNumbers, leaves.rootAtoms inv.sound, leaves.cardinality]
    exact inv.tracks group
  | refused noCause full =>
    refine ⟨inv.sound, inv.tracks, ?_⟩
    simp [calledFor, inv.founded, inv.refused noCause full]
  | listed passed fresh noCause counted cardinality roots sound answered =>
    refine ⟨sound, fun group => ?_, silent answered⟩
    have fits := allowed passed
    simp only [fresh] at fits
    have limits : rootLimit a = a.id.cardinality.get? := if_pos noCause
    have single : [a] = rootPart a := by rw [rootPart, if_pos noCause]
    have group' := counted_group counted group
    rw [cardinality, groupNumbers, roots, numbersOf_append, single, numbersOf_part, limits]
    cases number : limitIn group a.id.cardinality.get? with
    | none =>
      rw [number] at group'
      rw [group', Option.toList_none, List.append_nil]
      exact inv.tracks group
    | some n =>
      rw [number] at group'
      rw [group'.1]
      refine (inv.tracks group).bump group'.2 (fun room => ?_)
      cases set : a.id.cardinality.get? with
      | none => simp [set, limitIn] at number
      | some limit =>
        simp only [set, limitIn] at number
        split at number
        · next same =>
            rw [some.injEq] at number
            subst number
            subst same
            exact fits limit (limits.trans set) room
        · cases number
  | replaced passed found shown smaller cardinality before after sound answered =>
    have same := allowed passed
    simp only [found] at same
    refine ⟨sound, tracks_perm inv.tracks cardinality _ _ _ before (.of_eq after) (fun group => ?_), silent answered⟩
    rw [numbersOf_part, numbersOf_part, same _ shown smaller]

theorem inv_remove (inv : Inv state) (allowed : Allowed getHash state (.remove a))
    (ran : state.weave.remove a = .ok (w', r)) :
    Inv { weave := w', founded := state.founded && calledFor state.weave r } := by
  unfold Weave.remove at ran
  split at ran
  · obtain ⟨rfl, rfl⟩ := Prod.mk.inj (Except.ok.inj ran)
    exact ⟨inv.sound, inv.tracks, by simp [calledFor, inv.founded]⟩
  · next e found =>
      obtain ⟨mid, removed, last⟩ := ok_of_bind _ _ _ ran
      obtain ⟨rfl, rfl⟩ := Prod.mk.inj (Except.ok.inj last)
      obtain ⟨old, shown, _, listed⟩ := inv.sound.mapped _ e found
      have drops := drops_removeNode inv.sound e old shown listed removed
      have limits := allowed e found old shown
      refine ⟨drops.sound, tracks_perm inv.tracks drops.cardinality _ [] _ drops.roots
        (.of_eq (List.append_nil _).symm) (fun group => ?_), by simp [calledFor, inv.founded]⟩
      rw [numbersOf_part, limits]
      rfl

theorem inv_step (state : State T) (call : Call T) (next : State T) (inv : Inv state)
    (allowed : Allowed getHash state call) (ran : step getHash state call = some next) : Inv next := by
  simp only [step] at ran
  split at ran
  · next w' r answered =>
      rw [← some.inj ran]
      cases call with
      | insert a => exact inv_insert inv allowed answered
      | remove a => exact inv_remove inv allowed answered
  · cases ran

end Runs

/-! ### Sample -/

def group : JsString := JsString.lit ['g']

def rootOf (timestamp number : Int) : Atom Unit :=
  newAtom unitHash { sampleId timestamp .undefined with
    cardinality := .value { group := group, number := number } } none ()

end CasualOS.RootCardinality
