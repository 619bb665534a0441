import CasualOS.Weave2

/-! What every insertion keeps: a node keeps its atom, and the maps lead to nodes. -/

namespace CasualOS.WeaveNodes

open Dll (Ref)

variable {T : Type}

/-- The nodes of the id map are in the heap. -/
def Valid (w : Weave T) : Prop := ∀ key n, w.idMap.get key = some n → w.atomAt n ≠ none

structure Keeps (w w' : Weave T) : Prop where
  atoms : ∀ r a, w.atomAt r = some a → w'.atomAt r = some a
  valid : Valid w → Valid w'

theorem Keeps.refl (w : Weave T) : Keeps w w := ⟨fun _ _ found => found, fun valid => valid⟩

theorem Keeps.trans {w w' w'' : Weave T} (first : Keeps w w') (second : Keeps w' w'') : Keeps w w'' :=
  ⟨fun r a found => second.atoms r a (first.atoms r a found),
    fun valid => second.valid (first.valid valid)⟩

theorem keeps_same_map (w w' : Weave T) (same : w'.idMap = w.idMap)
    (atoms : ∀ r a, w.atomAt r = some a → w'.atomAt r = some a) : Keeps w w' := by
  refine ⟨atoms, fun valid key n found => ?_⟩
  rw [same] at found
  cases atom : w.atomAt n with
  | none => exact absurd atom (valid key n found)
  | some a => simp [atoms n a atom]

theorem ok_of_bind {α β : Type} (x : Except Failure α) (f : α → Except Failure β) (b : β)
    (ran : (x >>= f) = .ok b) : ∃ a, x = .ok a ∧ f a = .ok b := by
  cases x with
  | error failure => cases ran
  | ok a => exact ⟨a, rfl, ran⟩

/-! ### The maps -/

theorem keeps_addNodeToMaps (w : Weave T) (node : Ref) (buffered : Bool) : Keeps w (w.addNodeToMaps node buffered) := by
  cases atom : w.atomAt node with
  | none =>
    simp only [Weave.addNodeToMaps, atom]
    exact Keeps.refl w
  | some a =>
    cases buffered with
    | true =>
      simp only [Weave.addNodeToMaps, atom, if_true]
      exact keeps_same_map _ _ rfl (fun _ _ found => found)
    | false =>
      simp only [Weave.addNodeToMaps, atom, Bool.false_eq_true, if_false]
      refine ⟨fun _ _ found => found, fun valid key n found => ?_⟩
      rw [OrderedMap.get_set] at found
      by_cases same : key = atomIdToString a.id
      · rw [if_pos same, Option.some.injEq] at found
        subst found
        exact (show w.atomAt node ≠ none by simp [atom])
      · rw [if_neg same] at found
        exact valid key n found

theorem keeps_removeNodeIdFromMaps (w : Weave T) (node : Ref) (buffered : Bool) :
    Keeps w (w.removeNodeIdFromMaps node buffered) := by
  cases atom : w.atomAt node with
  | none =>
    simp only [Weave.removeNodeIdFromMaps, atom]
    exact Keeps.refl w
  | some a =>
    cases buffered with
    | true =>
      simp only [Weave.removeNodeIdFromMaps, atom, if_true]
      exact keeps_same_map _ _ rfl (fun _ _ found => found)
    | false =>
      simp only [Weave.removeNodeIdFromMaps, atom, Bool.false_eq_true, if_false]
      refine ⟨fun _ _ found => found, fun valid key n found => ?_⟩
      rw [OrderedMap.get_delete] at found
      split at found
      · cases found
      · exact valid key n found

theorem keeps_foldl (step : Weave T → Ref → Weave T) (keeps : ∀ w n, Keeps w (step w n))
    (nodes : List Ref) (w : Weave T) : Keeps w (nodes.foldl step w) := by
  induction nodes generalizing w with
  | nil => exact Keeps.refl w
  | cons n rest ih => exact (keeps w n).trans (ih _)

theorem keeps_foldlM (step : Weave T → Ref → Except Failure (Weave T))
    (keeps : ∀ w n w', step w n = .ok w' → Keeps w w') (nodes : List Ref) (w w' : Weave T)
    (ran : nodes.foldlM step w = .ok w') : Keeps w w' := by
  induction nodes generalizing w with
  | nil =>
    have same : w = w' := Except.ok.inj ran
    exact same ▸ Keeps.refl w
  | cons n rest ih =>
    rw [List.foldlM_cons] at ran
    rcases ok_of_bind _ _ _ ran with ⟨mid, first, later⟩
    exact (keeps w n mid first).trans (ih mid later)

theorem keeps_removeListFromMaps (w w' : Weave T) (node : Ref) (buffered : Bool)
    (ran : w.removeListFromMaps node buffered = .ok w') : Keeps w w' := by
  rcases ok_of_bind _ _ _ ran with ⟨nodes, _, last⟩
  have all := keeps_foldl (fun w n => w.removeNodeIdFromMaps n buffered)
    (fun w n => keeps_removeNodeIdFromMaps w n buffered) nodes (w.removeNodeIdFromMaps node buffered)
  rw [← Except.ok.inj last]
  exact (keeps_removeNodeIdFromMaps w node buffered).trans all

/-! ### Linking -/

theorem atomAt_alloc (h : Dll.Heap (Atom T)) (val : Atom T) (next prev : Option Ref) (r : Ref)
    (a : Atom T) (found : Dll.valAt h r = some a) : Dll.valAt (Dll.alloc h val next prev).1 r = some a := by
  rw [Dll.valAt_alloc]
  by_cases fresh : r = h.length
  · subst fresh
    simp [Dll.valAt] at found
  · rwa [if_neg fresh]

theorem keeps_nodes (w : Weave T) (nodes : Dll.Heap (Atom T)) (roots : List Ref)
    (atoms : ∀ r a, Dll.valAt w.nodes r = some a → Dll.valAt nodes r = some a) :
    Keeps w { w with nodes := nodes, roots := roots } :=
  keeps_same_map w { w with nodes := nodes, roots := roots } rfl atoms

theorem keeps_addRoot (w : Weave T) (atom : Atom T) : Keeps w (w.addRoot atom).1 :=
  (keeps_nodes w _ _ (atomAt_alloc w.nodes atom none none)).trans (keeps_addNodeToMaps _ _ _)

theorem keeps_addToReorderBuffer (w : Weave T) (atom : Atom T) : Keeps w (w.addToReorderBuffer atom).1 :=
  (keeps_nodes w _ w.roots (atomAt_alloc w.nodes atom none none)).trans (keeps_addNodeToMaps _ _ _)

theorem keeps_insertBefore (w : Weave T) (pos : Ref) (atom : Atom T) (buffered : Bool) :
    Keeps w (w.insertBefore pos atom buffered).1 := by
  have same := keeps_nodes w (Dll.insertBefore w.nodes pos atom).1 w.roots (fun r a found => by
    rw [Dll.valAt_insertBefore]
    by_cases fresh : r = w.nodes.length
    · subst fresh
      simp [Dll.valAt] at found
    · rwa [if_neg fresh])
  exact same.trans (keeps_addNodeToMaps _ _ _)

theorem keeps_insertAfter (w : Weave T) (pos : Ref) (atom : Atom T) (buffered : Bool) :
    Keeps w (w.insertAfter pos atom buffered).1 := by
  have same := keeps_nodes w (Dll.insertAfter w.nodes pos atom).1 w.roots (fun r a found => by
    rw [Dll.valAt_insertAfter]
    by_cases fresh : r = w.nodes.length
    · subst fresh
      simp [Dll.valAt] at found
    · rwa [if_neg fresh])
  exact same.trans (keeps_addNodeToMaps _ _ _)

theorem keeps_insertUnder (w : Weave T) (cause : Ref) (atom : Atom T) (buffered : Bool)
    (made : Weave T × Ref) (ran : w.insertUnder cause atom buffered = .ok made) : Keeps w made.1 := by
  rcases ok_of_bind _ _ _ ran with ⟨position, _, last⟩
  cases position with
  | before node => exact Except.ok.inj last ▸ keeps_insertBefore w node atom buffered
  | after found => exact Except.ok.inj last ▸ keeps_insertAfter w (found.getD cause) atom buffered

theorem keeps_insertNodeUnder (w w' : Weave T) (cause start stop : Ref)
    (ran : w.insertNodeUnder cause start stop = .ok w') : Keeps w w' := by
  unfold Weave.insertNodeUnder at ran
  cases atom : w.atomAt start with
  | none =>
    simp only [atom] at ran
    exact Except.ok.inj ran ▸ Keeps.refl w
  | some a =>
    simp only [atom] at ran
    rcases ok_of_bind _ _ _ ran with ⟨position, _, last⟩
    cases position with
    | before node =>
      rw [← Except.ok.inj last]
      exact keeps_nodes w _ w.roots (fun r a found => by rwa [Dll.valAt_spliceBefore])
    | after found =>
      rw [← Except.ok.inj last]
      exact keeps_nodes w _ w.roots (fun r a found => by rwa [Dll.valAt_spliceAfter])

theorem keeps_removeSpan (w w' : Weave T) (start stop : Ref) (ran : w.removeSpan start stop = .ok w') : Keeps w w' := by
  rcases ok_of_bind _ _ _ ran with ⟨mid, first, last⟩
  have cut : Keeps w { w with nodes := Dll.cut w.nodes start stop } :=
    keeps_nodes w _ w.roots (fun r a found => by rwa [Dll.valAt_cut])
  have before := cut.trans (keeps_removeListFromMaps _ mid start false first)
  cases atom : mid.atomAt start with
  | none =>
    simp only [atom] at last
    exact Except.ok.inj last ▸ before
  | some a =>
    simp only [atom] at last
    split at last
    · rw [← Except.ok.inj last]
      exact before.trans (keeps_nodes mid mid.nodes _ (fun _ _ found => found))
    · exact Except.ok.inj last ▸ before

theorem keeps_removeNode (w w' : Weave T) (node : Ref) (ran : w.removeNode node = .ok w') : Keeps w w' := by
  rcases ok_of_bind _ _ _ ran with ⟨last, _, later⟩
  exact keeps_removeSpan w w' node last later

/-! ### The reorder buffer -/

theorem keeps_addMissingChild (w w' : Weave T) (atomNode node : Ref) (buffered : Bool)
    (ran : w.addMissingChild atomNode node buffered = .ok w') : Keeps w w' := by
  rcases ok_of_bind _ _ _ ran with ⟨list, _, last⟩
  refine Keeps.trans ?_ (keeps_insertNodeUnder _ w' _ _ _ last)
  cases buffered with
  | true => exact Keeps.refl w
  | false =>
    exact keeps_foldl _ (fun w n => (keeps_removeNodeIdFromMaps w n true).trans (keeps_addNodeToMaps _ n false)) list w

theorem keeps_addMissingChildren (w : Weave T) (made : Weave T × Bool) (atomNode : Ref) (buffered : Bool)
    (ran : w.addMissingChildren atomNode buffered = .ok made) : Keeps w made.1 := by
  rcases ok_of_bind _ _ _ ran with ⟨mid, first, last⟩
  rw [← Except.ok.inj last]
  exact keeps_foldlM _ (fun w n w' ran => keeps_addMissingChild w w' atomNode n buffered ran) _ w mid first

theorem keeps_releaseMissing (w : Weave T) (made : Weave T × WeaveResult T) (atomNode : Ref)
    (atom : Atom T) (ran : w.releaseMissing atomNode atom = .ok made) : Keeps w made.1 := by
  unfold Weave.releaseMissing at ran
  split at ran
  · rcases ok_of_bind _ _ _ ran with ⟨released, first, last⟩
    have kept := keeps_addMissingChildren w released atomNode false first
    simp only at last
    split at last
    · rcases ok_of_bind _ _ _ last with ⟨group, _, final⟩
      exact Except.ok.inj final ▸ kept
    · exact Except.ok.inj last ▸ kept
  · exact Except.ok.inj ran ▸ Keeps.refl w

/-! ### Insertion -/

theorem keeps_resolveConflict (w : Weave T) (made : Weave T × WeaveResult T) (existing : Ref)
    (atom : Atom T) (causeNode : Option Ref)
    (ran : w.resolveConflict existing atom causeNode = .ok made) : Keeps w made.1 := by
  unfold Weave.resolveConflict at ran
  cases found : w.atomAt existing with
  | none =>
    simp only [found] at ran
    exact Except.ok.inj ran ▸ Keeps.refl w
  | some old =>
    simp only [found] at ran
    split at ran
    · split at ran
      · exact Except.ok.inj ran ▸ Keeps.refl w
      · rcases ok_of_bind _ _ _ ran with ⟨cleared, first, later⟩
        have removed := keeps_removeNode w cleared existing first
        cases causeNode with
        | none =>
          rcases ok_of_bind _ _ _ later with ⟨grown, second, last⟩
          rw [← Except.ok.inj last, ← Except.ok.inj second]
          exact removed.trans (keeps_addRoot cleared atom)
        | some cause =>
          rcases ok_of_bind _ _ _ later with ⟨grown, second, last⟩
          rw [← Except.ok.inj last]
          simp only [Except.map] at second
          split at second
          · cases second
          · next placed =>
              exact Except.ok.inj second ▸ removed.trans (keeps_insertUnder cleared cause atom false _ placed)
    · exact Except.ok.inj ran ▸ Keeps.refl w

theorem keeps_countCardinality (w w' : Weave T) (atom : Atom T)
    (counted : w.countCardinality atom = some w') : Keeps w w' := by
  have bumped : ∀ cardinality, Keeps w { w with cardinality := cardinality } := fun cardinality =>
    keeps_same_map w { w with cardinality := cardinality } rfl (fun _ _ found => found)
  unfold Weave.countCardinality at counted
  split at counted
  · exact Option.some.inj counted ▸ Keeps.refl w
  · simp only at counted
    split at counted
    · split at counted
      · cases counted
      · exact Option.some.inj counted ▸ bumped _
    · exact Option.some.inj counted ▸ bumped _

variable (getHash : AtomHashInput T → JsString)

/-- What is left of `insertRoot` once the root is checked. -/
def insertCheckedRoot (w : Weave T) (atom : Atom T) : Except Failure (Weave T × WeaveResult T) :=
  match w.getNode atom.id with
  | some existing => w.resolveConflict existing atom none
  | none =>
    match w.countCardinality atom with
    | none => .ok (w, .cardinalityViolated atom)
    | some w => (w.addRoot atom).1.releaseMissing (w.addRoot atom).2 atom

theorem keeps_insertCheckedRoot (w : Weave T) (made : Weave T × WeaveResult T) (atom : Atom T)
    (ran : insertCheckedRoot w atom = .ok made) : Keeps w made.1 := by
  unfold insertCheckedRoot at ran
  split at ran
  · exact keeps_resolveConflict w made _ atom none ran
  · split at ran
    · exact Except.ok.inj ran ▸ Keeps.refl w
    · next counted =>
        exact ((keeps_countCardinality w _ atom counted).trans (keeps_addRoot _ atom)).trans
          (keeps_releaseMissing _ made _ atom ran)

theorem keeps_insertRoot (w : Weave T) (made : Weave T × WeaveResult T) (atom : Atom T)
    (ran : w.insertRoot getHash atom = .ok made) : Keeps w made.1 := by
  unfold Weave.insertRoot at ran
  split at ran
  · exact Except.ok.inj ran ▸ Keeps.refl w
  · simp only at ran
    split at ran
    · exact keeps_insertCheckedRoot w made atom ran
    · cases ran
    · split at ran
      · exact Except.ok.inj ran ▸ Keeps.refl w
      · exact keeps_insertCheckedRoot w made atom ran

theorem keeps_insertMissing (w : Weave T) (made : Weave T × WeaveResult T) (atom : Atom T)
    (cause : AtomId) (ran : w.insertMissing getHash atom cause = .ok made) : Keeps w made.1 := by
  unfold Weave.insertMissing at ran
  split at ran
  · exact Except.ok.inj ran ▸ Keeps.refl w
  · simp only at ran
    split at ran
    · exact Except.ok.inj ran ▸ Keeps.refl w
    · have buffered := keeps_addToReorderBuffer w atom
      split at ran
      · rcases ok_of_bind _ _ _ ran with ⟨linked, first, later⟩
        rcases ok_of_bind _ _ _ later with ⟨waited, second, last⟩
        rw [← Except.ok.inj last]
        exact (buffered.trans (keeps_insertNodeUnder _ linked _ _ _ first)).trans
          (keeps_addMissingChildren linked waited _ true second)
      · rcases ok_of_bind _ _ _ ran with ⟨linked, first, later⟩
        rcases ok_of_bind _ _ _ later with ⟨waited, second, last⟩
        rw [← Except.ok.inj last]
        exact buffered.trans (Except.ok.inj first ▸ keeps_addMissingChildren linked waited _ true second)

theorem keeps_insertChild (w : Weave T) (made : Weave T × WeaveResult T) (atom : Atom T)
    (causeNode : Ref) (ran : w.insertChild getHash atom causeNode = .ok made) : Keeps w made.1 := by
  unfold Weave.insertChild at ran
  split at ran
  · exact Except.ok.inj ran ▸ Keeps.refl w
  · split at ran
    · exact keeps_resolveConflict w made _ atom _ ran
    · rcases ok_of_bind _ _ _ ran with ⟨placed, first, later⟩
      exact (keeps_insertUnder w causeNode atom false placed first).trans
        (keeps_releaseMissing placed.1 made placed.2 atom later)

theorem keeps_insert (w : Weave T) (made : Weave T × WeaveResult T) (atom : Atom T)
    (ran : w.insert getHash atom = .ok made) : Keeps w made.1 := by
  unfold Weave.insert at ran
  split at ran
  · exact keeps_insertRoot getHash w made atom ran
  · split at ran
    · exact keeps_insertMissing getHash w made atom _ ran
    · exact keeps_insertChild getHash w made atom _ ran

end CasualOS.WeaveNodes
