import CasualOS.CausalOrder
import CasualOS.WeaveRead

/-! What the operations do to the atoms of the lists while nothing is buffered. -/

namespace CasualOS.WeaveInsert

open Dll (Ref)
open WeaveHeap WeaveRepr WeaveRead CausalOrder

variable {T : Type}

/-- The weave holds these lists of atoms, one for each root in order, and nothing is buffered. -/
def Holds (w : Weave T) (lists : List (List (Atom T))) : Prop :=
  ∃ cells, Repr w cells [] ∧ cells.map atoms = lists

def placed (cause : Atom T) (id : AtomId) (s after : List (Atom T)) : List (Atom T) :=
  after.takeWhile (keeps cause id) ++ s ++ after.dropWhile (keeps cause id)

theorem atoms_place (cause : Atom T) (id : AtomId) (s after : List (Cell T)) :
    atoms (place cause id s after) = placed cause id (atoms s) (atoms after) := by
  simp only [place, placed, atoms_append, atoms_takeWhile, atoms_dropWhile]

theorem atoms_flatten (cells : List (List (Cell T))) : (cells.map atoms).flatten = atoms cells.flatten := by
  induction cells with
  | nil => rfl
  | cons l cells ih => simp [ih]

/-- The lists with a new atom in them: at the end as a root, or under a listed atom that its cause
names. -/
inductive Placed (atom : Atom T) : List (List (Atom T)) → List (List (Atom T)) → Prop where
  | root (lists : List (List (Atom T))) (noCause : atom.cause = none) :
      Placed atom lists (lists ++ [[atom]])
  | child (pre post : List (List (Atom T))) (front after : List (Atom T)) (cause : AtomId)
      (c : Atom T) (caused : atom.cause = some cause)
      (named : atomIdToString c.id = atomIdToString cause) :
      Placed atom (pre ++ (front ++ c :: after) :: post)
        (pre ++ (front ++ c :: placed c atom.id [atom] after) :: post)

theorem placed_perm (cause : Atom T) (id : AtomId) (a : Atom T) (after : List (Atom T)) :
    (placed cause id [a] after).Perm (a :: after) := by
  have split := List.takeWhile_append_dropWhile (p := keeps cause id) (l := after)
  have moved : (after.takeWhile (keeps cause id) ++ a :: after.dropWhile (keeps cause id)).Perm
      (a :: (after.takeWhile (keeps cause id) ++ after.dropWhile (keeps cause id))) :=
    List.perm_middle
  rw [split] at moved
  rw [placed, List.append_assoc, List.singleton_append]
  exact moved

theorem Placed.perm {a : Atom T} {lists lists' : List (List (Atom T))}
    (step : Placed a lists lists') : lists'.flatten.Perm (a :: lists.flatten) := by
  cases step with
  | root noCause =>
    rw [List.flatten_append]
    simp
  | child pre post front after cause c =>
    have inner : (front ++ c :: placed c a.id [a] after).Perm (a :: (front ++ c :: after)) :=
      calc
        (front ++ c :: placed c a.id [a] after).Perm (front ++ c :: a :: after) :=
          ((placed_perm c a.id a after).cons c).append_left front
        _ = (front ++ [c]) ++ a :: after := by simp
        _ |>.Perm (a :: ((front ++ [c]) ++ after)) := List.perm_middle
        _ = a :: (front ++ c :: after) := by simp
    simp only [List.flatten_append, List.flatten_cons]
    exact ((inner.append_right _).append_left _).trans (by simp)

/-- The atoms of `l` keep their order in `l'`, and its first stays first. -/
def Extends (l l' : List (Atom T)) : Prop := l.Sublist l' ∧ l'.head? = l.head?

theorem placed_sublist (cause : Atom T) (id : AtomId) (s after : List (Atom T)) :
    after.Sublist (placed cause id s after) := by
  conv_lhs => rw [← List.takeWhile_append_dropWhile (p := keeps cause id) (l := after)]
  rw [placed]
  exact (List.sublist_append_left _ _).append_right _

theorem Placed.extends {a : Atom T} {lists lists' : List (List (Atom T))}
    (step : Placed a lists lists') (l : List (Atom T)) (member : l ∈ lists) (filled : l ≠ []) :
    ∃ l' ∈ lists', Extends l l' := by
  cases step with
  | root noCause => exact ⟨l, List.mem_append_left _ member, List.Sublist.refl l, rfl⟩
  | child pre post front after cause c =>
    rcases List.mem_append.mp member with before | here
    · exact ⟨l, List.mem_append_left _ before, List.Sublist.refl l, rfl⟩
    · rcases List.mem_cons.mp here with rfl | later
      · refine ⟨_, List.mem_append_right _ List.mem_cons_self,
          ((placed_sublist c a.id [a] after).cons_cons c).append_left front, ?_⟩
        cases front <;> rfl
      · exact ⟨l, List.mem_append_right _ (List.mem_cons_of_mem _ later), List.Sublist.refl l, rfl⟩

/-- Only the first atom of a list has no cause. -/
def Rooted (l : List (Atom T)) : Prop :=
  ∃ root rest, l = root :: rest ∧ root.cause = none ∧ ∀ a ∈ rest, a.cause ≠ none

theorem Rooted.part {l m : List (Atom T)} (rooted : Rooted l) (sub : m.Sublist l)
    (head : m.head? = l.head?) : Rooted m := by
  obtain ⟨root, rest, rfl, noCause, others⟩ := rooted
  cases m with
  | nil => simp at head
  | cons first tail =>
    obtain rfl : first = root := by simpa using head
    exact ⟨first, tail, rfl, noCause, fun a inside => others a (sub.tail.subset inside)⟩

theorem Placed.rooted {a : Atom T} {lists lists' : List (List (Atom T))}
    (step : Placed a lists lists') (rooted : ∀ l ∈ lists, Rooted l) : ∀ l ∈ lists', Rooted l := by
  cases step with
  | root lists noCause =>
    intro l member
    rcases List.mem_append.mp member with old | new
    · exact rooted l old
    · exact ⟨a, [], List.mem_singleton.mp new, noCause, by simp⟩
  | child pre post front after cause c caused named =>
    intro l member
    have inPlace : ∀ b, b ∈ placed c a.id [a] after → b = a ∨ b ∈ after := by
      intro b inside
      exact List.mem_cons.mp ((placed_perm c a.id a after).mem_iff.mp inside)
    rcases List.mem_append.mp member with before | here
    · exact rooted l (List.mem_append_left _ before)
    · rcases List.mem_cons.mp here with rfl | later
      · obtain ⟨root, rest, split, noCause, others⟩ :=
          rooted (front ++ c :: after) (List.mem_append_right _ List.mem_cons_self)
        cases front with
        | nil =>
          obtain ⟨rfl, rfl⟩ := List.cons.inj split
          refine ⟨c, _, rfl, noCause, fun b inside => ?_⟩
          rcases inPlace b inside with rfl | old
          · simp [caused]
          · exact others b old
        | cons first front =>
          obtain ⟨rfl, rfl⟩ := List.cons.inj split
          refine ⟨first, _, rfl, noCause, fun b inside => ?_⟩
          rcases List.mem_append.mp inside with old | tail
          · exact others b (List.mem_append_left _ old)
          · rcases List.mem_cons.mp tail with rfl | tail
            · exact others b (by simp)
            · rcases inPlace b tail with rfl | old
              · simp [caused]
              · exact others b (by simp [old])
      · exact rooted l (List.mem_append_right _ (List.mem_cons_of_mem _ later))

variable {w : Weave T} {cells : List (List (Cell T))} {lists : List (List (Atom T))}

theorem size_zero (repr : Repr w cells []) : w.reorderBuffer.size = 0 := by
  by_contra filled
  obtain ⟨r, found⟩ := (OrderedMap.size_pos_iff _).mp (Nat.pos_of_ne_zero filled)
  obtain ⟨k, found⟩ := (OrderedMap.mem_values _ r).mp found
  obtain ⟨c, member, _⟩ := (repr.buffer k r).mp found
  simp at member

theorem releaseMissing_none (repr : Repr w cells []) (node : Ref) (atom : Atom T) :
    w.releaseMissing node atom = .ok (w, .atomAdded atom) := by
  simp [Weave.releaseMissing, size_zero repr]

section Insert

variable (getHash : AtomHashInput T → JsString)

theorem insertRoot_fresh (repr : Repr w cells []) (atom : Atom T) (noCause : atom.cause = none)
    (valid : atomMatchesHash getHash atom none = true) (simple : atom.id.cardinality = .undefined)
    (fresh : ∀ c ∈ cells.flatten, idKey c ≠ atomIdToString atom.id) :
    w.insert getHash atom = .ok ((w.addRoot atom).1, .atomAdded atom) := by
  have absent := (repr.getNode_none atom.id).mpr fresh
  have grown := addRoot_repr repr atom fresh
  simp only [Weave.insert, noCause, Weave.insertRoot, valid, simple, Bool.not_true,
    Bool.false_eq_true, if_false, absent, Weave.countCardinality, Field.get?]
  exact releaseMissing_none grown _ atom

theorem insert_child_of (repr : Repr w cells []) (atom : Atom T) (cause : AtomId) (c : Cell T)
    (caused : atom.cause = some cause) (found : c ∈ cells.flatten) (named : idKey c = atomIdToString cause) :
    w.insert getHash atom = w.insertChild getHash atom c.1 := by
  have node := (repr.getNode cause c.1).mpr ⟨c, found, rfl, named⟩
  simp only [Weave.insert, caused, node]

theorem checkCause_none (atom cause : Atom T) (valid : atomMatchesHash getHash atom (some cause) = true)
    (newer : cause.id.timestamp < atom.id.timestamp) : Weave.checkCause getHash atom cause = none := by
  simp [Weave.checkCause, valid, not_le.mpr newer]

theorem insert_child_fresh {pre post : List (List (Cell T))} {front after : List (Cell T)} {c : Cell T}
    (repr : Repr w (pre ++ (front ++ c :: after) :: post) []) (atom : Atom T) (cause : AtomId)
    (caused : atom.cause = some cause) (named : idKey c = atomIdToString cause)
    (valid : Weave.checkCause getHash atom c.2 = none)
    (fresh : ∀ d ∈ (pre ++ (front ++ c :: after) :: post).flatten,
      idKey d ≠ atomIdToString atom.id) :
    ∃ w', w.insert getHash atom = .ok (w', .atomAdded atom) ∧
      Repr w' (pre ++ (front ++ c :: place c.2 atom.id [(w.nodes.length, atom)] after) :: post) [] ∧
      w'.hashMap = w.hashMap.set atom.hash w.nodes.length := by
  have member : c ∈ (pre ++ (front ++ c :: after) :: post).flatten :=
    (flatten_middle ..).mpr (.inl (by simp))
  have absent := (repr.getNode_none atom.id).mpr fresh
  obtain ⟨w', run, grown, hashes, _⟩ := insertUnder_repr repr atom fresh
  refine ⟨w', ?_, grown, hashes⟩
  rw [insert_child_of getHash repr atom cause c caused member named]
  simp only [Weave.insertChild, repr.atomAt c (.inl member), Option.bind_some, valid, absent, run, bind, Except.bind]
  exact releaseMissing_none grown _ atom

theorem split_cells (cells : List (List (Cell T))) (pre post : List (List (Atom T)))
    (front after : List (Atom T)) (c : Atom T)
    (same : cells.map atoms = pre ++ (front ++ c :: after) :: post) :
    ∃ pre' front' d after' post', cells = pre' ++ (front' ++ d :: after') :: post' ∧
      pre'.map atoms = pre ∧ atoms front' = front ∧ d.2 = c ∧ atoms after' = after ∧
      post'.map atoms = post := by
  obtain ⟨pre', rest, rfl, rfl, split⟩ := List.map_eq_append_iff.mp same
  obtain ⟨l, post', rfl, list, rfl⟩ := List.map_eq_cons_iff.mp split
  obtain ⟨front', tail, rfl, rfl, split'⟩ := List.map_eq_append_iff.mp list
  obtain ⟨d, after', rfl, rfl, rfl⟩ := List.map_eq_cons_iff.mp split'
  exact ⟨pre', front', d, after', post', rfl, rfl, rfl, rfl, rfl, rfl⟩

theorem fresh_cells (cells : List (List (Cell T))) (id : AtomId)
    (fresh : ∀ a ∈ (cells.map atoms).flatten, atomIdToString a.id ≠ atomIdToString id) :
    ∀ c ∈ cells.flatten, idKey c ≠ atomIdToString id := by
  intro c member
  refine fresh c.2 ?_
  rw [atoms_flatten]
  exact List.mem_map_of_mem member

theorem insert_under {pre post : List (List (Atom T))} {front after : List (Atom T)} {c : Atom T}
    (holds : Holds w (pre ++ (front ++ c :: after) :: post)) (atom : Atom T) (cause : AtomId)
    (caused : atom.cause = some cause) (named : atomIdToString c.id = atomIdToString cause)
    (valid : Weave.checkCause getHash atom c = none)
    (fresh : ∀ a ∈ (pre ++ (front ++ c :: after) :: post).flatten,
      atomIdToString a.id ≠ atomIdToString atom.id) :
    ∃ w', w.insert getHash atom = .ok (w', .atomAdded atom) ∧
      Holds w' (pre ++ (front ++ c :: placed c atom.id [atom] after) :: post) := by
  obtain ⟨cells, repr, same⟩ := holds
  rw [← same] at fresh
  obtain ⟨pre', front', d, after', post', rfl, rfl, rfl, rfl, rfl, rfl⟩ :=
    split_cells cells _ _ _ _ _ same
  obtain ⟨w', run, grown, _⟩ := insert_child_fresh getHash repr atom cause caused named valid (fresh_cells _ _ fresh)
  refine ⟨w', run, _, grown, ?_⟩
  simp only [List.map_append, List.map_cons, atoms_append, atoms_cons, atoms_place, atoms_nil]

theorem insert_root (holds : Holds w lists) (atom : Atom T) (noCause : atom.cause = none)
    (valid : atomMatchesHash getHash atom none = true) (simple : atom.id.cardinality = .undefined)
    (fresh : ∀ a ∈ lists.flatten, atomIdToString a.id ≠ atomIdToString atom.id) :
    ∃ w', w.insert getHash atom = .ok (w', .atomAdded atom) ∧ Holds w' (lists ++ [[atom]]) := by
  obtain ⟨cells, repr, rfl⟩ := holds
  have freshCells := fresh_cells _ _ fresh
  refine ⟨_, insertRoot_fresh getHash repr atom noCause valid simple freshCells,
    _, addRoot_repr repr atom freshCells, ?_⟩
  rw [List.map_append]
  rfl

theorem insert_fresh (holds : Holds w lists) (atom : Atom T)
    (fresh : ∀ a ∈ lists.flatten, atomIdToString a.id ≠ atomIdToString atom.id)
    (simple : atom.id.cardinality = .undefined)
    (valid : match atom.cause with
      | none => atomMatchesHash getHash atom none = true
      | some cause => ∃ p ∈ lists.flatten, atomIdToString p.id = atomIdToString cause ∧
          Weave.checkCause getHash atom p = none) :
    ∃ w' lists', w.insert getHash atom = .ok (w', .atomAdded atom) ∧ Holds w' lists' ∧ Placed atom lists lists' := by
  cases caused : atom.cause with
  | none =>
    simp only [caused] at valid
    obtain ⟨w', run, grown⟩ := insert_root getHash holds atom caused valid simple fresh
    exact ⟨w', _, run, grown, .root _ caused⟩
  | some cause =>
    simp only [caused] at valid
    obtain ⟨p, listed, named, checked⟩ := valid
    obtain ⟨l, present, inside⟩ := List.mem_flatten.mp listed
    obtain ⟨pre, post, rfl⟩ := List.append_of_mem present
    obtain ⟨front, after, rfl⟩ := List.append_of_mem inside
    obtain ⟨w', run, grown⟩ := insert_under getHash holds atom cause caused named checked fresh
    exact ⟨w', _, run, grown, .child _ _ _ _ cause p caused named⟩

end Insert

/-! ### Reading the lists back -/

def listAt (w : Weave T) (atom : Atom T) : Option (List (Atom T)) :=
  (w.getNode atom.id).bind w.atomsFrom

theorem listAt_holds (holds : Holds w lists) (root : Atom T) (l : List (Atom T))
    (member : root :: l ∈ lists) : listAt w root = some (root :: l) := by
  obtain ⟨cells, repr, rfl⟩ := holds
  obtain ⟨m, present, same⟩ := List.mem_map.mp member
  cases m with
  | nil => cases same
  | cons start s =>
    simp only [atoms_cons, List.cons.injEq] at same
    obtain ⟨rfl, rfl⟩ := same
    have listed : start ∈ cells.flatten := List.mem_flatten.mpr ⟨_, present, List.mem_cons_self⟩
    have node := (repr.getNode start.2.id start.1).mpr ⟨start, listed, rfl, rfl⟩
    rw [listAt, node, Option.bind_some, atomsFrom_repr repr present, atoms_cons]

theorem holds_new (size : Option Int) : Holds (Weave.new size : Weave T) [] :=
  ⟨[], repr_new size, rfl⟩

end CasualOS.WeaveInsert
