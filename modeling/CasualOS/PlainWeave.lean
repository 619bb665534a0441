import CasualOS.HashText
import CasualOS.TreeOrder
import CasualOS.WeaveInsert

/-! Weaves of atoms without priority that are added after their causes: every list is the preorder of
a causal tree. -/

namespace CasualOS.PlainWeave

open Dll (Ref)
open PathOrder WeaveHeap WeaveRepr WeaveRead CausalOrder TreeOrder WeaveInsert
open List (cons_append map_append map_eq_append_iff mem_append mem_append_left mem_append_right mem_cons
  mem_cons_of_mem mem_flatten mem_map mem_map_of_mem)
open Option (some)

variable {T : Type} {getHash : AtomHashInput T → JsString}

/-- The hash was computed from the id and the value. -/
def Signed (getHash : AtomHashInput T → JsString) (a : Atom T) : Prop :=
  ∃ causeHash, a.hash = atomHash getHash a.id causeHash a.value

theorem signed_of_matches (a : Atom T) (cause : Option (Atom T))
    (valid : atomMatchesHash getHash a cause = true) : Signed getHash a :=
  ⟨cause.map Atom.hash, (of_decide_eq_true valid).symm⟩

theorem signed_of_checked (a cause : Atom T) (valid : Weave.checkCause getHash a cause = none) :
    Signed getHash a ∧ cause.id.timestamp < a.id.timestamp := by
  simp only [Weave.checkCause, Bool.not_eq_true'] at valid
  split at valid
  · cases valid
  · next hashed =>
      split at valid
      · cases valid
      · next newer =>
          exact ⟨signed_of_matches a (some cause) (by simpa using hashed), not_le.mp newer⟩

theorem signed_string (injective : Function.Injective getHash) (a b : Atom T)
    (left : Signed getHash a) (right : Signed getHash b) (same : a.hash = b.hash) :
    atomIdToString a.id = atomIdToString b.id := by
  obtain ⟨first, hashA⟩ := left
  obtain ⟨second, hashB⟩ := right
  rw [hashA, hashB] at same
  have inputs := injective same
  simp only [AtomHashInput.mk.injEq] at inputs
  obtain ⟨_, site, timestamp, priority, cardinality, _⟩ := inputs
  exact idEquals_string _ _ ((idEquals_iff _ _).mpr ⟨site.symm, timestamp.symm, priority.symm, cardinality.symm⟩)

/-- The lists are causal trees in preorder, and the maps hold exactly their nodes. -/
structure InStep (getHash : AtomHashInput T → JsString) (w : Weave T) (cells : List (List (Cell T)))
    (path : Atom T → List Key) : Prop where
  repr : Repr w cells []
  hashed : Hashed w cells
  trees : ∀ l ∈ cells, CausalList path (atoms l)
  rooted : ∀ l ∈ cells, Rooted (atoms l)
  plain : ∀ c ∈ cells.flatten, PlainAtom c.2
  signed : ∀ c ∈ cells.flatten, Signed getHash c.2

theorem inStep_new (size : Option Int) : InStep getHash (Weave.new size) [] (fun _ => []) where
  repr := repr_new size
  hashed := OrderedMap.indexes_empty _ _
  trees := by simp
  rooted := by simp
  plain := by simp
  signed := by simp

variable {w : Weave T} {cells pre post : List (List (Cell T))} {path : Atom T → List Key}

theorem mem_atoms (c : Cell T) (l : List (Cell T)) (member : c ∈ l) : c.2 ∈ atoms l :=
  mem_map_of_mem member

theorem InStep.fresh_hash (step : InStep getHash w cells path) (injective : Function.Injective getHash)
    (atom : Atom T) (signed : Signed getHash atom)
    (fresh : ∀ d ∈ cells.flatten, idKey d ≠ atomIdToString atom.id) :
    ∀ d ∈ cells.flatten, hashKey d ≠ atom.hash :=
  fun d member same => fresh d member (signed_string injective d.2 atom (step.signed d member) signed same)

theorem InStep.fresh_atom (atom : Atom T)
    (fresh : ∀ d ∈ cells.flatten, idKey d ≠ atomIdToString atom.id) (l : List (Cell T))
    (member : l ∈ cells) : ∀ b ∈ atoms l, b ≠ atom ∧ atomIdToString b.id ≠ atomIdToString atom.id := by
  intro b inside
  obtain ⟨d, inL, rfl⟩ := mem_map.mp inside
  have apart := fresh d (mem_flatten.mpr ⟨l, member, inL⟩)
  exact ⟨fun same => apart (by rw [idKey, same]), apart⟩

theorem InStep.addRoot (step : InStep getHash w cells path) (injective : Function.Injective getHash)
    (atom : Atom T) (plain : PlainAtom atom) (noCause : atom.cause = none) (signed : Signed getHash atom)
    (fresh : ∀ d ∈ cells.flatten, idKey d ≠ atomIdToString atom.id) :
    ∃ cells', InStep getHash (w.addRoot atom).1 cells' path ∧
      ∀ d, d ∈ cells'.flatten ↔ d = (w.nodes.length, atom) ∨ d ∈ cells.flatten := by
  have grown := addRoot_repr step.repr atom fresh
  have members : ∀ d, d ∈ (cells ++ [[(w.nodes.length, atom)]]).flatten ↔
      d = (w.nodes.length, atom) ∨ d ∈ cells.flatten := by simp [or_comm]
  have placed : Placed atom (cells.map atoms) ((cells ++ [[(w.nodes.length, atom)]]).map atoms) := by
    rw [map_append]
    exact .root _ noCause
  refine ⟨_, ⟨grown, ?_, fun l member => ?_, fun l member => ?_, fun c member => ?_,
    fun c member => ?_⟩, members⟩
  · exact addRoot_hashed step.repr step.hashed atom (step.fresh_hash injective atom signed fresh)
  · rcases mem_append.mp member with old | new
    · exact step.trees l old
    · rw [List.mem_singleton.mp new]
      exact ⟨by simp, by simp, by simp⟩
  · exact placed.rooted (fun m inMap => by
      obtain ⟨k, inCells, rfl⟩ := mem_map.mp inMap
      exact step.rooted k inCells) _ (mem_map_of_mem member)
  · exact ((members c).mp member).elim (fun same => same ▸ plain) (step.plain c)
  · exact ((members c).mp member).elim (fun same => same ▸ signed) (step.signed c)

theorem InStep.insertUnder {front after : List (Cell T)} {c : Cell T}
    (step : InStep getHash w (pre ++ (front ++ c :: after) :: post) path)
    (injective : Function.Injective getHash) (atom : Atom T) (plain : PlainAtom atom)
    (signed : Signed getHash atom) (link : idEquals atom.cause (some c.2.id) = true)
    (newer : c.2.id.timestamp < atom.id.timestamp)
    (fresh : ∀ d ∈ (pre ++ (front ++ c :: after) :: post).flatten,
      idKey d ≠ atomIdToString atom.id) :
    ∃ w' cells' path', w.insertUnder c.1 atom false = .ok (w', w.nodes.length) ∧
      InStep getHash w' cells' path' ∧ ∀ d, d ∈ cells'.flatten ↔
        d = (w.nodes.length, atom) ∨ d ∈ (pre ++ (front ++ c :: after) :: post).flatten := by
  obtain ⟨w', run, grown, hashes, _⟩ := insertUnder_repr step.repr atom fresh
  have members := mem_placed pre post front after c atom.id (w.nodes.length, atom)
  have apart := InStep.fresh_atom atom fresh
  have inList : front ++ c :: after ∈ pre ++ (front ++ c :: after) :: post := by simp
  obtain ⟨cause, caused, named⟩ := idEquals_cause _ _ link
  classical
  let path' := Function.update path atom (path c.2 ++ [key atom.id])
  have moved : ∀ l ∈ pre ++ (front ++ c :: after) :: post, CausalList path' (atoms l) := by
    intro l member
    exact (step.trees l member).congr fun b inside =>
      Function.update_of_ne (apart l member b inside).1 _ _
  have placed : Placed atom ((pre ++ (front ++ c :: after) :: post).map atoms)
      ((pre ++ (front ++ c :: place c.2 atom.id [(w.nodes.length, atom)] after) :: post).map atoms) := by
    simp only [map_append, List.map_cons, atoms_append, atoms_cons, atoms_place, atoms_nil]
    exact .child _ _ _ _ cause c.2 caused (idEquals_string _ _ named).symm
  refine ⟨w', _, path', run, ⟨grown, ?_, fun l member => ?_, fun l member => ?_, fun d member => ?_,
    fun d member => ?_⟩, members⟩
  · rw [Hashed, hashes]
    exact OrderedMap.Indexes.set step.hashed (w.nodes.length, atom)
      (step.fresh_hash injective atom signed fresh) members
  · rcases mem_append.mp member with before | here
    · exact moved l (mem_append_left _ before)
    · rcases mem_cons.mp here with rfl | later
      · have tree := moved _ inList
        have own := apart _ inList
        have plainList : ∀ a ∈ atoms (front ++ c :: after), TreeOrder.Plain a.id := by
          intro a inside
          obtain ⟨d, inL, rfl⟩ := mem_map.mp inside
          exact (step.plain d (mem_flatten.mpr ⟨_, inList, inL⟩)).id
        simp only [atoms_append, atoms_cons] at tree own plainList ⊢
        rw [atoms_place]
        have child : ChildOf path' atom c.2 := by
          refine ⟨link, newer, ?_⟩
          rw [show path' atom = _ from Function.update_self .., show path' c.2 = _ from
            Function.update_of_ne (own c.2 (by simp)).1 _ _]
        refine tree.graft (⟨by simp, by simp, by simp⟩ : CausalList path' [atom])
          (settled_plain plainList c.2) rfl child (fun y inAfter within => ?_) (fun x isAtom y inY => ?_)
        · obtain ⟨h, head⟩ := exists_head (atoms front) (atoms after) c.2
          have base := tree.preordered.head_prefix h head c.2 (by simp)
          obtain ⟨z, inZ, pathZ⟩ := tree.preordered.complete h head y (by simp [inAfter]) (path' atom)
            (child.path ▸ base.trans (List.prefix_append _ _)) within
          obtain ⟨_, _, _, _, same⟩ := tree.parent_of_path h head inZ _ _ (pathZ.trans child.path) base
          exact (own z inZ).2 (idEquals_string _ _ (idEquals_of_key _ _ (plainList z inZ) plain.id same.symm))
        · rw [List.mem_singleton.mp isAtom]
          cases equal : idEquals (some atom.id) (some y.id) with
          | false => rfl
          | true => exact absurd (idEquals_string _ _ equal).symm (own y inY).2
      · exact moved l (mem_append_right _ (mem_cons_of_mem _ later))
  · exact placed.rooted (fun m inMap => by
      obtain ⟨k, inCells, rfl⟩ := mem_map.mp inMap
      exact step.rooted k inCells) _ (mem_map_of_mem member)
  · exact ((members d).mp member).elim (fun same => same ▸ plain) (step.plain d)
  · exact ((members d).mp member).elim (fun same => same ▸ signed) (step.signed d)

/-! ### Taking a subtree out -/

theorem atoms_kept (l : List (Cell T)) : (kept l).map atoms = kept (atoms l) := by
  cases l <;> simp [kept]

section Remove

variable {front after : List (Cell T)} {c : Cell T}

theorem InStep.tree_at (step : InStep getHash w (pre ++ (front ++ c :: after) :: post) path) :
    CausalList path (atoms front ++ c.2 :: atoms after) ∧
      (∀ a ∈ atoms front ++ c.2 :: atoms after, TreeOrder.Plain a.id) ∧
      Rooted (atoms front ++ c.2 :: atoms after) := by
  have inList : front ++ c :: after ∈ pre ++ (front ++ c :: after) :: post := by simp
  have tree := step.trees _ inList
  have root := step.rooted _ inList
  simp only [atoms_append, atoms_cons] at tree root
  refine ⟨tree, fun a inside => ?_, root⟩
  rw [← atoms_cons, ← atoms_append] at inside
  obtain ⟨d, inL, rfl⟩ := mem_map.mp inside
  exact (step.plain d (mem_flatten.mpr ⟨_, inList, inL⟩)).id

theorem InStep.group_eq (step : InStep getHash w (pre ++ (front ++ c :: after) :: post) path) :
    (atoms after).takeWhile (isNewer c.2.id.timestamp) = (atoms after).takeWhile (under path c.2) ∧
      (atoms after).dropWhile (isNewer c.2.id.timestamp) =
        (atoms after).dropWhile (under path c.2) := by
  obtain ⟨tree, plain, _⟩ := step.tree_at
  exact tree.group_eq (settled_plain plain c.2)

theorem InStep.removeNode (step : InStep getHash w (pre ++ (front ++ c :: after) :: post) path) :
    ∃ w', w.removeNode c.1 = .ok w' ∧ InStep getHash w'
      (pre ++ kept (front ++ after.dropWhile (onAtom (isNewer c.2.id.timestamp))) ++ post) path := by
  obtain ⟨tree, _, root⟩ := step.tree_at
  have whole : front = [] → c.2.cause = none ∧ ∀ d ∈ after, isNewer c.2.id.timestamp d.2 = true := by
    rintro rfl
    obtain ⟨r, rest, split, noCause, _⟩ := root
    obtain ⟨rfl, rfl⟩ := List.cons.inj split
    refine ⟨noCause, fun d member => ?_⟩
    have inside := mem_atoms d after member
    exact decide_eq_true (tree.newer (by simp) (by simp [inside])
      (tree.preordered.head_prefix c.2 rfl d.2 (by simp [inside]))
      (ne_of_lt (ordered_after tree.ordered d.2 inside)))
  obtain ⟨w', run, left, hashed, _⟩ := removeNode_repr step.repr whole
  have sub := rest_subset pre post front after c (onAtom (isNewer c.2.id.timestamp))
  have cases : ∀ l ∈ pre ++ kept (front ++ after.dropWhile (onAtom (isNewer c.2.id.timestamp))) ++ post,
      l ∈ pre ++ (front ++ c :: after) :: post ∨
        front ≠ [] ∧ l = front ++ after.dropWhile (onAtom (isNewer c.2.id.timestamp)) := by
    intro l member
    simp only [mem_append] at member
    rcases member with (before | here) | later
    · exact .inl (by simp [before])
    · by_cases empty : front = []
      · obtain ⟨_, newer⟩ := whole empty
        subst empty
        have gone : after.dropWhile (onAtom (isNewer c.2.id.timestamp)) = [] :=
          List.dropWhile_eq_nil_iff.mpr newer
        simp [gone, kept] at here
      · rw [kept_filled (by simp [empty]), List.mem_singleton] at here
        exact .inr ⟨empty, here⟩
    · exact .inl (by simp [later])
  refine ⟨w', run, left, hashed step.hashed, fun l member => ?_, fun l member => ?_,
    fun d member => step.plain d (sub d member), fun d member => step.signed d (sub d member)⟩
  · rcases cases l member with old | ⟨inner, rfl⟩
    · exact step.trees l old
    · rw [atoms_append, atoms_dropWhile, step.group_eq.2]
      exact tree.cut (by simpa [atoms] using inner)
  · rcases cases l member with old | ⟨inner, rfl⟩
    · exact step.rooted l old
    · have inList : front ++ c :: after ∈ pre ++ (front ++ c :: after) :: post := by simp
      refine (step.rooted _ inList).part ?_ ?_
      · exact (((List.dropWhile_sublist _).trans (List.sublist_cons_self c after)).append_left front).map _
      · obtain ⟨first, front, rfl⟩ := List.exists_cons_of_ne_nil inner
        rfl

end Remove

/-! ### Inserting -/

section Insert

variable {front after : List (Cell T)} {c : Cell T}

theorem InStep.group_parent (step : InStep getHash w (pre ++ (front ++ c :: after) :: post) path)
    (d : Cell T) (member : d ∈ after.takeWhile (onAtom (isNewer c.2.id.timestamp))) :
    ∃ p ∈ c :: after.takeWhile (onAtom (isNewer c.2.id.timestamp)), ChildOf path d.2 p.2 := by
  obtain ⟨tree, _, _⟩ := step.tree_at
  have group : (atoms front ++ c.2 :: atoms after).filter (under path c.2) =
      c.2 :: atoms (after.takeWhile (onAtom (isNewer c.2.id.timestamp))) := by
    rw [tree.preordered.filter_under, atoms_takeWhile, step.group_eq.1]
  have inGroup : d.2 ∈ (atoms front ++ c.2 :: atoms after).filter (under path c.2) := by
    rw [group]
    exact mem_cons_of_mem _ (mem_atoms d _ member)
  rw [List.mem_filter, under_iff] at inGroup
  have apart : path c.2 ≠ path d.2 :=
    ne_of_lt (ordered_after tree.ordered d.2 (mem_atoms d _ ((List.takeWhile_sublist _).subset member)))
  obtain ⟨h, head⟩ := exists_head (atoms front) (atoms after) c.2
  rcases tree.parent d.2 inGroup.1 with first | ⟨p, inside, child⟩
  · rw [head, some.injEq] at first
    have above := tree.preordered.head_prefix h head c.2 (by simp)
    rw [first] at above
    exact absurd (inGroup.2.eq_of_length_le above.length_le) apart
  · have below : path c.2 <+: path p := by
      have longer := inGroup.2
      rw [child.path, List.prefix_concat_iff] at longer
      exact longer.resolve_left (fun same => apart (same.trans child.path.symm))
    have found : p ∈ (atoms front ++ c.2 :: atoms after).filter (under path c.2) :=
      List.mem_filter.mpr ⟨inside, (under_iff c.2 p).mpr below⟩
    rw [group, ← atoms_cons] at found
    obtain ⟨q, inQ, rfl⟩ := mem_map.mp found
    exact ⟨q, inQ, child⟩

theorem group_gone {buffered : List (List (Cell T))}
    (repr : Repr w (pre ++ (front ++ c :: after) :: post) buffered) (p : Cell T → Bool) (d : Cell T)
    (member : d ∈ c :: after.takeWhile p) :
    d ∉ (pre ++ kept (front ++ after.dropWhile p) ++ post).flatten := by
  intro stays
  have distinct := (repr.heap.perm (middle_perm pre post buffered _)).distinct
  have split := List.takeWhile_append_dropWhile (p := p) (l := after)
  have moved : ((front ++ c :: after) :: (pre ++ post ++ buffered)).flatten.Perm
      ((c :: after.takeWhile p) ++ (front ++ after.dropWhile p ++ (pre ++ post ++ buffered).flatten)) := by
    conv_lhs => rw [← split]
    simp only [List.flatten_cons, List.append_assoc, cons_append]
    exact List.perm_middle.trans ((List.perm_append_comm_assoc ..).cons c)
  rw [refs, (moved.map Prod.fst).nodup_iff, map_append, List.nodup_append] at distinct
  refine distinct.2.2 d.1 (mem_map_of_mem member) d.1 (mem_map_of_mem ?_) rfl
  simp only [List.flatten_append, kept_flatten, mem_append] at stays ⊢
  tauto

/-- A node with the id of a new atom goes with all that it caused; what is not newer stays. -/
theorem InStep.removeExisting (step : InStep getHash w cells path) (e : Cell T)
    (member : e ∈ cells.flatten) : ∃ w' cells', w.removeNode e.1 = .ok w' ∧
      InStep getHash w' cells' path ∧ (∀ d ∈ cells'.flatten, idKey d ≠ idKey e) ∧
      (∀ d ∈ cells.flatten, d.2.id.timestamp < e.2.id.timestamp → d ∈ cells'.flatten) ∧
      (∀ d ∈ cells'.flatten, d ∈ cells.flatten) ∧
      ∀ d ∈ cells.flatten, d ∉ cells'.flatten → d = e ∨
        ∃ p ∈ cells.flatten, p ∉ cells'.flatten ∧ ChildOf path d.2 p.2 := by
  obtain ⟨pre, front, after, post, rfl⟩ := split_at cells e member
  obtain ⟨w', run, left⟩ := step.removeNode
  refine ⟨w', _, run, left, fun d inLeft same => ?_, fun d found older => ?_,
    rest_subset pre post front after e _, fun d found gone => ?_⟩
  · have sub := rest_subset pre post front after e _ d inLeft
    have equal := step.repr.id_unique d e sub member same
    exact step.repr.removed_absent _ (equal ▸ inLeft)
  · apply rest_of pre post front after e _ d found
    intro inGroup
    rcases mem_cons.mp inGroup with same | inside
    · exact absurd (same ▸ older) (lt_irrefl _)
    · have newer := List.mem_takeWhile_imp inside
      exact absurd (of_decide_eq_true newer) (not_lt.mpr (le_of_lt older))
  · have inGroup : d ∈ e :: after.takeWhile (onAtom (isNewer e.2.id.timestamp)) := by
      by_contra outside
      exact gone (rest_of pre post front after e _ d found outside)
    rcases mem_cons.mp inGroup with here | inside
    · exact .inl here
    · obtain ⟨p, inP, child⟩ := step.group_parent d inside
      refine .inr ⟨p, (flatten_middle ..).mpr (.inl (mem_append_right _ ?_)), group_gone step.repr _ p inP, child⟩
      rcases mem_cons.mp inP with first | later
      · exact first ▸ List.mem_cons_self
      · exact mem_cons_of_mem _ ((List.takeWhile_sublist _).subset later)

theorem InStep.insert (step : InStep getHash w cells path) (injective : Function.Injective getHash)
    (atom : Atom T) (plain : PlainAtom atom)
    (listed : ∀ cause, atom.cause = some cause → w.getNode cause ≠ none) :
    ∃ w' result cells' path', w.insert getHash atom = .ok (w', result) ∧ InStep getHash w' cells' path' := by
  have unchanged : ∀ result, ∃ w' result' cells' path',
      (Except.ok (w, result) : Except Failure (Weave T × WeaveResult T)) = .ok (w', result') ∧
        InStep getHash w' cells' path' := fun result => ⟨w, result, cells, path, rfl, step⟩
  cases caused : atom.cause with
  | none =>
    simp only [Weave.insert, caused, Weave.insertRoot, plain.id.cardinality]
    cases valid : atomMatchesHash getHash atom none with
    | false => exact unchanged _
    | true =>
      have signed := signed_of_matches atom none valid
      simp only [Bool.not_true, Bool.false_eq_true, if_false]
      cases found : w.getNode atom.id with
      | none =>
        obtain ⟨cells', grown, _⟩ := step.addRoot injective atom plain caused signed
          ((step.repr.getNode_none atom.id).mp found)
        simp only [Weave.countCardinality, plain.id.cardinality, Field.get?]
        exact ⟨_, _, cells', path, releaseMissing_none grown.repr _ atom, grown⟩
      | some existing =>
        obtain ⟨e, member, rfl, same⟩ := (step.repr.getNode atom.id existing).mp found
        simp only [Weave.resolveConflict, step.repr.atomAt e (.inl member)]
        split
        · split
          · exact unchanged _
          · obtain ⟨mid, mids, run, left, fresh, _⟩ := step.removeExisting e member
            obtain ⟨cells', grown, _⟩ := left.addRoot injective atom plain caused signed
              (fun d inside => same ▸ fresh d inside)
            rw [run]
            exact ⟨_, _, cells', path, rfl, grown⟩
        · exact unchanged _
  | some cause =>
    obtain ⟨node, found⟩ := Option.ne_none_iff_exists'.mp (listed cause caused)
    obtain ⟨c, member, rfl, named⟩ := (step.repr.getNode cause node).mp found
    simp only [Weave.insert, caused, found, Weave.insertChild, step.repr.atomAt c (.inl member), Option.bind_some]
    cases valid : Weave.checkCause getHash atom c.2 with
    | some rejection => exact unchanged _
    | none =>
      obtain ⟨signed, newer⟩ := signed_of_checked atom c.2 valid
      have link : idEquals atom.cause (some c.2.id) = true := by
        rw [caused]
        exact idEquals_of_string _ _ (plain.cause cause caused) (step.plain c member).id named.symm
      simp only
      cases existing : w.getNode atom.id with
      | none =>
        obtain ⟨pre, front, after, post, rfl⟩ := split_at cells c member
        obtain ⟨w', cells', path', run, grown, _⟩ := step.insertUnder injective atom plain signed link
          newer ((step.repr.getNode_none atom.id).mp existing)
        simp only [run, bind, Except.bind]
        exact ⟨_, _, cells', path', releaseMissing_none grown.repr _ atom, grown⟩
      | some node =>
        obtain ⟨e, inCells, rfl, same⟩ := (step.repr.getNode atom.id node).mp existing
        simp only [Weave.resolveConflict, step.repr.atomAt e (.inl inCells)]
        split
        · split
          · exact unchanged _
          · obtain ⟨mid, mids, run, left, fresh, stays, _⟩ := step.removeExisting e inCells
            -- the cause is older than the atom that goes, as both atoms have one id
            have time : e.2.id.timestamp = atom.id.timestamp := ((idEquals_iff _ _).mp
              (idEquals_of_string _ _ (step.plain e inCells).id plain.id same)).2.1.symm
            obtain ⟨pre, front, after, post, rfl⟩ :=
              split_at mids c (stays c member (time ▸ newer))
            obtain ⟨w', cells', path', run', grown, _⟩ := left.insertUnder injective atom plain
              signed link newer (fun d inside => same ▸ fresh d inside)
            simp only [run, run', bind, Except.bind, Except.map]
            exact ⟨_, _, cells', path', rfl, grown⟩
        · exact unchanged _

end Insert

/-! ### The trees of the lists -/

theorem InStep.nodup (step : InStep getHash w cells path) : (atoms cells.flatten).Nodup := by
  have distinct := step.repr.heap.distinct
  rw [List.append_nil] at distinct
  refine List.Nodup.map_on (fun c left d right same => ?_) (List.Nodup.of_map _ distinct)
  exact step.repr.id_unique c d left right (by rw [idKey, idKey, same])

theorem InStep.cell_of_atom (step : InStep getHash w cells path) (c d : Cell T)
    (left : c ∈ cells.flatten) (right : d ∈ cells.flatten) (same : c.2 = d.2) : c = d :=
  step.repr.id_unique c d left right (by rw [idKey, idKey, same])

theorem InStep.treeList (step : InStep getHash w cells path) (l : List (Cell T)) (member : l ∈ cells) :
    TreeList path (atoms cells.flatten) (atoms l) where
  tree := step.trees l member
  plain a inside := by
    obtain ⟨d, inL, rfl⟩ := mem_map.mp inside
    exact (step.plain d (mem_flatten.mpr ⟨l, member, inL⟩)).id
  root a head := by
    obtain ⟨root, rest, split, noCause, _⟩ := step.rooted l member
    rw [split, List.head?_cons, some.injEq] at head
    exact head ▸ noCause
  sub a inside := by
    obtain ⟨d, inL, rfl⟩ := mem_map.mp inside
    exact mem_atoms d _ (mem_flatten.mpr ⟨l, member, inL⟩)
  closed c found a inside caused := by
    -- the cause is in one list only, and there the caused atom has it as its parent
    obtain ⟨d, inCells, rfl⟩ := mem_map.mp found
    obtain ⟨m, present, inM⟩ := mem_flatten.mp inCells
    have hasCause : d.2.cause ≠ none := by
      obtain ⟨_, shown, _⟩ := idEquals_cause _ _ caused
      simp [shown]
    rcases (step.trees m present).parent d.2 (mem_atoms d m inM) with first | ⟨p, inP, child⟩
    · obtain ⟨root, rest, split, noCause, _⟩ := step.rooted m present
      rw [split, List.head?_cons, some.injEq] at first
      exact absurd (first ▸ noCause) hasCause
    · obtain ⟨e, inE, rfl⟩ := mem_map.mp inP
      obtain ⟨f, inF, rfl⟩ := mem_map.mp inside
      have same : e = f := step.repr.id_unique e f (mem_flatten.mpr ⟨m, present, inE⟩)
        (mem_flatten.mpr ⟨l, member, inF⟩) (idEquals_string _ _
          (idEquals_trans _ _ _ (idEquals_symm _ _ child.caused) caused))
      have lists : m = l := by
        obtain ⟨before, after, rfl⟩ := List.append_of_mem present
        rcases mem_append.mp member with early | here
        · exact absurd (mem_refs f l inF) ((step.repr.heap.perm (middle_perm before after [] m)).head_apart
            l (by simp [early]) f.1 (mem_refs f l inF) (same ▸ mem_refs e m inE)).elim
        · rcases mem_cons.mp here with rfl | late
          · rfl
          · exact absurd (mem_refs f l inF) ((step.repr.heap.perm (middle_perm before after [] m)).head_apart
              l (by simp [late]) f.1 (mem_refs f l inF) (same ▸ mem_refs e m inE)).elim
      exact lists ▸ mem_atoms d m inM

/-! ### Removing the later siblings -/

section RemoveSiblings

variable {front after : List (Cell T)} {c : Cell T}

theorem takeWhile_cells (p : Atom T → Bool) (l m : List (Cell T)) (sub : m <+: l)
    (same : (atoms l).takeWhile p = atoms m) : l.takeWhile (onAtom p) = m := by
  have lengths : (l.takeWhile (onAtom p)).length = m.length := by
    have mapped := congrArg List.length ((atoms_takeWhile p l).trans same)
    simpa [atoms] using mapped
  exact (List.prefix_of_prefix_length_le (List.takeWhile_prefix _) sub (le_of_eq lengths)).eq_of_length lengths

theorem InStep.sibling_span (step : InStep getHash w (pre ++ (front ++ c :: after) :: post) path)
    {p : Atom T} (parent : p ∈ atoms front ++ c.2 :: atoms after) (child : ChildOf path c.2 p)
    (some_later : laterSiblings (atoms (pre ++ (front ++ c :: after) :: post).flatten) c.2 ≠ []) :
    ∃ (D S B : List (Cell T)) (start : Cell T) (first : Ref) (others : List Ref), after = D ++ (start :: S) ++ B ∧
      atoms D = (atoms after).takeWhile (under path c.2) ∧
      atoms (start :: S) = (laterSiblings (atoms (pre ++ (front ++ c :: after) :: post).flatten)
        c.2).flatMap (fun s => (atoms front ++ c.2 :: atoms after).filter (under path s)) ∧
      w.iterateSiblings c.1 = some (first :: others) ∧ first = start.1 ∧
      w.lastInCausalGroup (others.getLast?.getD first) =
        .ok ((refs (start :: S)).getLast?.getD start.1) := by
  have inList : front ++ c :: after ∈ pre ++ (front ++ c :: after) :: post := by simp
  have list := step.treeList _ inList
  simp only [atoms_append front, atoms_cons] at list
  have distinct := step.nodup
  have found := iterateSiblings_heap (step.repr.heap.perm (middle_perm pre post [] _))
  have siblings := list.siblings_eq distinct parent child
  have parts := list.after_siblings distinct parent child
  generalize atoms (pre ++ (front ++ c :: after) :: post).flatten = listed at *
  obtain ⟨initial, last, split⟩ := List.eq_nil_or_concat' (laterSiblings listed c.2) |>.resolve_left some_later
  have inLast : last ∈ atoms front ++ c.2 :: atoms after :=
    ((list.laterSiblings_sorted distinct parent child).2 last).mp (by simp [split]) |>.1
  have subtree : ∀ s ∈ atoms front ++ c.2 :: atoms after, ∃ t,
      (atoms front ++ c.2 :: atoms after).filter (under path s) = s :: t := by
    intro s member
    obtain ⟨f, a, shape⟩ := List.append_of_mem member
    rw [shape] at list ⊢
    exact ⟨_, list.tree.preordered.filter_under⟩
  obtain ⟨lastTail, lastTree⟩ := subtree last inLast
  obtain ⟨a0, rest, cons⟩ := List.exists_cons_of_ne_nil some_later
  obtain ⟨firstTail, firstTree⟩ := subtree a0
    ((list.laterSiblings_sorted distinct parent child).2 a0 |>.mp (by simp [cons])).1
  -- the parts of the list after the node
  obtain ⟨DS, B, rfl, atomsDS, atomsB⟩ := map_eq_append_iff.mp parts
  obtain ⟨D, S, rfl, atomsD, atomsS⟩ := map_eq_append_iff.mp atomsDS
  have startsWith := atomsS
  rw [cons, List.flatMap_cons, firstTree, cons_append] at startsWith
  obtain ⟨start, S, rfl, startAtom, _⟩ := List.map_eq_cons_iff.mp startsWith
  have endsWith := atomsS
  rw [split, List.flatMap_append, List.flatMap_singleton, lastTree] at endsWith
  obtain ⟨S1, zS2, shape, _, atomsZ⟩ := map_eq_append_iff.mp endsWith
  obtain ⟨z, S2, rfl, zAtom, atomsS2⟩ := List.map_eq_cons_iff.mp atomsZ
  -- the siblings as nodes
  have nodes : atoms (((D ++ start :: S ++ B).takeWhile (onAtom (notOlder c.2.cause))).filter
      (onAtom (isSibling c.2.cause))) = laterSiblings listed c.2 := by
    rw [atoms_filter, atoms_takeWhile]
    exact siblings
  have inAfter : ∀ d ∈ ((D ++ start :: S ++ B).takeWhile (onAtom (notOlder c.2.cause))).filter
      (onAtom (isSibling c.2.cause)), d ∈ D ++ start :: S ++ B := fun d member =>
    (List.takeWhile_sublist _).subset (List.filter_sublist.subset member)
  have inCells : ∀ d ∈ D ++ start :: S ++ B,
      d ∈ (pre ++ (front ++ c :: (D ++ start :: S ++ B)) :: post).flatten := fun d member =>
    (flatten_middle ..).mpr (.inl (by
      rw [mem_append, mem_cons]
      exact .inr (.inr member)))
  generalize ((D ++ start :: S ++ B).takeWhile (onAtom (notOlder c.2.cause))).filter
    (onAtom (isSibling c.2.cause)) = G at *
  have nodesCons := nodes
  rw [cons] at nodesCons
  obtain ⟨g0, G', rfl, g0Atom, _⟩ := List.map_eq_cons_iff.mp nodesCons
  have nodesLast := nodes
  rw [split] at nodesLast
  obtain ⟨G0, gs, shapeG, _, gsAtoms⟩ := map_eq_append_iff.mp nodesLast
  obtain ⟨gz, none, rfl, gzAtom, noneLeft⟩ := List.map_eq_cons_iff.mp gsAtoms
  obtain rfl : none = [] := List.map_eq_nil_iff.mp noneLeft
  have sameStart : g0 = start := step.cell_of_atom g0 start
    (inCells g0 (inAfter g0 List.mem_cons_self)) (inCells start (by simp)) (g0Atom.trans startAtom.symm)
  have inZ : z ∈ D ++ start :: S ++ B := by
    rw [shape]
    simp
  have sameLast : gz = z := step.cell_of_atom gz z
    (inCells gz (inAfter gz (by simp [shapeG]))) (inCells z inZ) (gzAtom.trans zAtom.symm)
  refine ⟨D, S, B, start, g0.1, refs G', rfl, atomsD, atomsS, found, by rw [sameStart], ?_⟩
  have lastRef : (refs G').getLast?.getD g0.1 = z.1 := by
    have ends : (refs (g0 :: G')).getLast? = some z.1 := by
      rw [shapeG, sameLast]
      simp
    rw [refs_cons, List.getLast?_cons, some.injEq] at ends
    exact ends
  have whole : front ++ c :: (D ++ start :: S ++ B) = (front ++ c :: (D ++ S1)) ++ z :: (S2 ++ B) := by
    rw [shape]
    simp
  rw [lastRef]
  rw [whole] at step inCells
  have heap := step.repr.heap.perm (middle_perm pre post [] _)
  rw [lastInCausalGroup_heap heap]
  have group : (S2 ++ B).takeWhile (onAtom (isNewer z.2.id.timestamp)) = S2 := by
    refine takeWhile_cells _ _ _ (List.prefix_append _ _) ?_
    obtain ⟨tree, _, _⟩ := step.tree_at
    rw [step.group_eq.1]
    have again := tree.preordered.filter_under
    have sameList : atoms front ++ c.2 :: atoms (D ++ start :: S ++ B) =
        atoms (front ++ c :: (D ++ S1)) ++ z.2 :: atoms (S2 ++ B) := by
      rw [← atoms_cons, ← atoms_append, whole, atoms_append, atoms_cons]
    rw [← sameList, zAtom, lastTree, List.cons.injEq] at again
    rw [zAtom]
    exact again.2.symm.trans atomsS2.symm
  rw [group, shape]
  simp [List.getLast?_append, List.getLast?_cons]

/-- The siblings go with all below them, as one span. -/
theorem InStep.removeSiblingSpan (step : InStep getHash w (pre ++ (front ++ c :: after) :: post) path)
    {p : Atom T} (parent : p ∈ atoms front ++ c.2 :: atoms after) (child : ChildOf path c.2 p)
    {D S B : List (Cell T)} {start : Cell T} (parts : after = D ++ (start :: S) ++ B)
    (atomsD : atoms D = (atoms after).takeWhile (under path c.2))
    (atomsB : atoms B = (atoms after).dropWhile (within path (path p))) :
    ∃ w', w.removeSpan start.1 ((refs (start :: S)).getLast?.getD start.1) = .ok w' ∧
      InStep getHash w' (pre ++ (front ++ c :: (D ++ B)) :: post) path := by
  have inList : front ++ c :: after ∈ pre ++ (front ++ c :: after) :: post := by simp
  have list := step.treeList _ inList
  simp only [atoms_append front, atoms_cons] at list
  have cut := list.cut_siblings step.nodup parent child
  rw [← atomsD, ← atomsB] at cut
  subst parts
  have shape : front ++ c :: (D ++ (start :: S) ++ B) = (front ++ c :: D) ++ (start :: S) ++ B := by simp
  have shape' : front ++ c :: (D ++ B) = (front ++ c :: D) ++ B := by simp
  have source := step.repr
  rw [shape] at source
  obtain ⟨w', run, left, _, hashed, _⟩ := removeSpan_repr source (by simp)
  rw [← shape'] at left hashed
  have hashedAll := step.hashed
  rw [shape] at hashedAll
  have sub : ∀ d, d ∈ (pre ++ (front ++ c :: (D ++ B)) :: post).flatten →
      d ∈ (pre ++ (front ++ c :: (D ++ (start :: S) ++ B)) :: post).flatten := by
    intro d member
    rw [flatten_middle, shape'] at member
    rw [flatten_middle, shape]
    refine member.imp (fun inside => ?_) id
    rcases mem_append.mp inside with left | right
    · exact mem_append_left _ (mem_append_left _ left)
    · exact mem_append_right _ right
  refine ⟨w', run, left, hashed hashedAll, fun l member => ?_, fun l member => ?_,
    fun d member => step.plain d (sub d member), fun d member => step.signed d (sub d member)⟩
  · rcases mem_append.mp member with before | here
    · exact step.trees l (mem_append_left _ before)
    · rcases mem_cons.mp here with rfl | later
      · simpa using cut
      · exact step.trees l (mem_append_right _ (mem_cons_of_mem _ later))
  · rcases mem_append.mp member with before | here
    · exact step.rooted l (mem_append_left _ before)
    · rcases mem_cons.mp here with rfl | later
      · have subAtoms : (atoms (front ++ c :: (D ++ B))).Sublist (atoms (front ++ c :: (D ++ start :: S ++ B))) :=
          (((((List.sublist_append_left D _).append_right B)).cons_cons c).append_left front).map _
        exact (step.rooted _ inList).part subAtoms (by cases front <;> rfl)
      · exact step.rooted l (mem_append_right _ (mem_cons_of_mem _ later))

end RemoveSiblings

/-! ### What a weave shows -/

/-- The linked lists, the maps and the causal tree of the listed atoms agree. -/
structure IsCausalTree (w : Weave T) : Prop where
  preorder : ∃ lists, rootLists w = some lists ∧ ∀ l ∈ lists, ∃ root, root.cause = none ∧
    l = preorder lists.flatten lists.flatten.length root
  links : LinksAgree w
  idMap : ∀ id r, w.idMap.get id = some r ↔
    Listed w r ∧ ∃ a, w.atomAt r = some a ∧ atomIdToString a.id = id
  hashMap : ∀ hash r, w.hashMap.get hash = some r ↔
    Listed w r ∧ ∃ a, w.atomAt r = some a ∧ a.hash = hash

/-- `remove` takes out the named atom with all that it caused, and nothing else moves. -/
def RemovesSubtree (w : Weave T) (a : Atom T) : Prop :=
  match w.getNode a.id with
  | none => w.remove a = .ok (w, .atomNotFound a)
  | some node => ∃ w' x lists pre front back post, w.atomAt node = some x ∧
      w.remove a = .ok (w', .atomRemoved node) ∧ rootLists w = some lists ∧
      lists = pre ++ (front ++ preorder lists.flatten lists.flatten.length x ++ back) :: post ∧
      rootLists w' = some (pre ++ kept (front ++ back) ++ post)

/-- `removeSiblingsBefore` takes out the later siblings of the named atom with all that they caused. -/
def RemovesLaterSiblings (w : Weave T) (a : Atom T) : Prop :=
  match w.getNode a.id with
  | none => w.removeSiblingsBefore a = .ok (w, .atomNotFound a)
  | some node => ∃ w' result x lists pre front back post, w.atomAt node = some x ∧
      w.removeSiblingsBefore a = .ok (w', result) ∧ rootLists w = some lists ∧
      lists = pre ++ (front ++ preorder lists.flatten lists.flatten.length x ++
        (laterSiblings lists.flatten x).flatMap (preorder lists.flatten lists.flatten.length) ++
          back) :: post ∧
      rootLists w' = some (pre ++ (front ++ preorder lists.flatten lists.flatten.length x ++
        back) :: post)

theorem InStep.isCausalTree (step : InStep getHash w cells path) : IsCausalTree w where
  preorder := by
    refine ⟨_, rootLists_repr step.repr, fun l member => ?_⟩
    obtain ⟨m, present, rfl⟩ := mem_map.mp member
    obtain ⟨root, rest, split, noCause, _⟩ := step.rooted m present
    refine ⟨root, noCause, ?_⟩
    rw [atoms_flatten]
    exact (step.treeList m present).whole step.nodup root (by rw [split]; rfl)
  links := links_agree step.repr
  idMap := index_iff step.repr w.idMap (fun a => atomIdToString a.id) step.repr.idMap
  hashMap := index_iff step.repr w.hashMap Atom.hash step.hashed

theorem InStep.subtree_at {front after : List (Cell T)} {c : Cell T}
    (step : InStep getHash w (pre ++ (front ++ c :: after) :: post) path) :
    preorder (atoms (pre ++ (front ++ c :: after) :: post).flatten)
        (atoms (pre ++ (front ++ c :: after) :: post).flatten).length c.2 =
      c.2 :: (atoms after).takeWhile (under path c.2) := by
  have inList : front ++ c :: after ∈ pre ++ (front ++ c :: after) :: post := by simp
  have list := step.treeList _ inList
  obtain ⟨tree, _, _⟩ := step.tree_at
  have whole := tree.preordered.filter_under
  have short : ((atoms (front ++ c :: after)).filter (under path c.2)).length ≤
      (atoms (pre ++ (front ++ c :: after) :: post).flatten).length := by
    refine (List.length_filter_le _ _).trans ?_
    exact ((List.sublist_flatten_of_mem inList).map _).length_le
  rw [list.preorder_eq step.nodup _ c.2 (mem_atoms c _ (by simp)) short, atoms_append, atoms_cons, whole]

theorem InStep.remove (step : InStep getHash w cells path) (a : Atom T) :
    RemovesSubtree w a ∧ ∀ w' result, w.remove a = .ok (w', result) →
      ∃ cells', InStep getHash w' cells' path := by
  cases found : w.getNode a.id with
  | none =>
    simp only [RemovesSubtree, found, Weave.remove]
    refine ⟨rfl, fun w' result run => ?_⟩
    simp only [pure, Except.pure, Except.ok.injEq, Prod.mk.injEq] at run
    exact ⟨cells, run.1 ▸ step⟩
  | some node =>
    obtain ⟨c, member, rfl, _⟩ := (step.repr.getNode a.id node).mp found
    have atom := step.repr.atomAt c (.inl member)
    obtain ⟨pre, front, after, post, rfl⟩ := split_at cells c member
    obtain ⟨w', run, left⟩ := step.removeNode
    have called : w.remove a = .ok (w', .atomRemoved c.1) := by
      simp only [Weave.remove, found, run, bind, Except.bind, pure, Except.pure]
    simp only [RemovesSubtree, found]
    refine ⟨⟨w', c.2, _, pre.map atoms, atoms front, (atoms after).dropWhile (under path c.2),
      post.map atoms, atom, called, rootLists_repr step.repr, ?_, ?_⟩, fun w'' result again => ?_⟩
    · rw [atoms_flatten, step.subtree_at, map_append, List.map_cons, atoms_append, atoms_cons,
        List.append_assoc, cons_append, List.takeWhile_append_dropWhile]
    · rw [rootLists_repr left.repr, map_append, map_append, atoms_kept, atoms_append, atoms_dropWhile, step.group_eq.2]
    · rw [called, Except.ok.injEq, Prod.mk.injEq] at again
      exact ⟨_, again.1 ▸ left⟩

/-- The whole effect of `removeSiblingsBefore` on an atom that is no root. -/
theorem InStep.removeSiblings_child {front after : List (Cell T)} {c : Cell T}
    (step : InStep getHash w (pre ++ (front ++ c :: after) :: post) path) (a : Atom T)
    (found : w.getNode a.id = some c.1) {p : Atom T} (parent : p ∈ atoms front ++ c.2 :: atoms after)
    (child : ChildOf path c.2 p) :
    ∃ w' result D B, w.removeSiblingsBefore a = .ok (w', result) ∧ atoms D = (atoms after).takeWhile (under path c.2) ∧
      atoms after = atoms D ++ (laterSiblings (atoms (pre ++ (front ++ c :: after) :: post).flatten)
        c.2).flatMap (fun s => (atoms front ++ c.2 :: atoms after).filter (under path s)) ++ atoms B ∧
      InStep getHash w' (pre ++ (front ++ c :: (D ++ B)) :: post) path := by
  have inList : front ++ c :: after ∈ pre ++ (front ++ c :: after) :: post := by simp
  have list := step.treeList _ inList
  simp only [atoms_append front, atoms_cons] at list
  have parts := list.after_siblings step.nodup parent child
  by_cases none_later : laterSiblings (atoms (pre ++ (front ++ c :: after) :: post).flatten) c.2 = []
  · have siblings := list.siblings_eq step.nodup parent child
    have iterated := iterateSiblings_heap (step.repr.heap.perm (middle_perm pre post [] _))
    rw [none_later, ← atoms_takeWhile, ← atoms_filter] at siblings
    rw [List.map_eq_nil_iff.mp siblings] at iterated
    rw [none_later] at parts ⊢
    rw [List.flatMap_nil, List.append_nil] at parts
    obtain ⟨D, B, rfl, atomsD, atomsB⟩ := map_eq_append_iff.mp parts
    refine ⟨w, .nothingHappened, D, B, ?_, atomsD, by simp, step⟩
    simp only [Weave.removeSiblingsBefore, found, iterated, orDiverges, bind, Except.bind, refs_nil]
    rfl
  · obtain ⟨D, S, B, start, first, others, rfl, atomsD, atomsS, iterated, rfl, last⟩ :=
      step.sibling_span parent child none_later
    have atomsB : atoms B = (atoms (D ++ start :: S ++ B)).dropWhile (within path (path p)) := by
      rw [← atomsD, ← atomsS] at parts
      conv_lhs at parts => rw [atoms_append, atoms_append]
      exact List.append_cancel_left parts
    obtain ⟨w', run, left⟩ := step.removeSiblingSpan parent child rfl atomsD atomsB
    refine ⟨w', .atomRemoved start.1, D, B, ?_, atomsD, ?_, left⟩
    · simp only [Weave.removeSiblingsBefore, found, iterated, orDiverges, bind, Except.bind, last, run]
      rfl
    · rw [← atomsS]
      simp only [atoms_append]

theorem InStep.removeSiblings_root {after : List (Cell T)} {c : Cell T}
    (step : InStep getHash w (pre ++ (c :: after) :: post) path) (a : Atom T)
    (found : w.getNode a.id = some c.1) :
    c.2.cause = none ∧ w.removeSiblingsBefore a = .ok (w, .nothingHappened) := by
  obtain ⟨root, rest, split, noCause, others⟩ := step.rooted (c :: after) (by simp)
  obtain ⟨rfl, rfl⟩ := List.cons.inj split
  refine ⟨noCause, ?_⟩
  have heap : HeapRepr w.nodes (([] ++ c :: after) :: (pre ++ post ++ [])) :=
    step.repr.heap.perm (middle_perm pre post [] _)
  have iterated := iterateSiblings_heap heap
  have empty : (after.takeWhile (onAtom (notOlder c.2.cause))).filter (onAtom (isSibling c.2.cause)) = [] := by
    rw [List.filter_eq_nil_iff]
    intro d member sibling
    have hasCause := others d.2 (mem_atoms d _ ((List.takeWhile_sublist _).subset member))
    simp only [onAtom, isSibling, noCause] at sibling
    cases caused : d.2.cause with
    | none => exact hasCause caused
    | some cause => simp [caused, idEquals] at sibling
  rw [empty] at iterated
  simp only [Weave.removeSiblingsBefore, found, iterated, orDiverges, bind, Except.bind, refs_nil]
  rfl

theorem InStep.removeSiblingsBefore (step : InStep getHash w cells path) (a : Atom T) :
    RemovesLaterSiblings w a ∧ ∀ w' result, w.removeSiblingsBefore a = .ok (w', result) →
      ∃ cells', InStep getHash w' cells' path := by
  cases found : w.getNode a.id with
  | none =>
    simp only [RemovesLaterSiblings, found, Weave.removeSiblingsBefore]
    refine ⟨rfl, fun w' result run => ?_⟩
    simp only [pure, Except.pure, Except.ok.injEq, Prod.mk.injEq] at run
    exact ⟨cells, run.1 ▸ step⟩
  | some node =>
    obtain ⟨c, member, rfl, _⟩ := (step.repr.getNode a.id node).mp found
    have atom := step.repr.atomAt c (.inl member)
    obtain ⟨pre, front, after, post, rfl⟩ := split_at cells c member
    have below := step.subtree_at
    obtain ⟨tree, _, rooted⟩ := step.tree_at
    have inList : front ++ c :: after ∈ pre ++ (front ++ c :: after) :: post := by simp
    have list := step.treeList _ inList
    simp only [RemovesLaterSiblings, found]
    rcases tree.parent c.2 (by simp) with first | ⟨p, parent, child⟩
    · have empty : front = [] := by
        cases front with
        | nil => rfl
        | cons d front =>
          have low : path c.2 ≤ path d.2 := le_of_eq (by
            rw [atoms_cons, cons_append, List.head?_cons, some.injEq] at first
            rw [first])
          have above := (List.pairwise_append.mp tree.ordered).2.2 d.2 (by simp) c.2 List.mem_cons_self
          exact absurd above (not_lt.mpr low)
      subst empty
      obtain ⟨noCause, called⟩ := InStep.removeSiblings_root step a found
      have whole : (atoms after).takeWhile (under path c.2) = atoms after := by
        refine List.takeWhile_eq_self_iff.mpr fun y inside => ?_
        exact (under_iff c.2 y).mpr (tree.preordered.head_prefix c.2 rfl y (by simp [inside]))
      refine ⟨⟨w, _, c.2, _, pre.map atoms, [], [], post.map atoms, atom, called,
        rootLists_repr step.repr, ?_, ?_⟩, fun w' result again => ?_⟩
      · rw [atoms_flatten, below, whole]
        simp [laterSiblings, noCause]
      · rw [rootLists_repr step.repr, atoms_flatten, below, whole]
        simp
      · rw [called, Except.ok.injEq, Prod.mk.injEq] at again
        exact ⟨_, again.1 ▸ step⟩
    · obtain ⟨w', result, D, B, called, atomsD, parts, left⟩ :=
        step.removeSiblings_child a found parent child
      have subtrees : ∀ s ∈ laterSiblings (atoms (pre ++ (front ++ c :: after) :: post).flatten) c.2,
          (atoms front ++ c.2 :: atoms after).filter (under path s) =
            preorder (atoms (pre ++ (front ++ c :: after) :: post).flatten)
              (atoms (pre ++ (front ++ c :: after) :: post).flatten).length s := by
        intro s inside
        have list' := list
        simp only [atoms_append front, atoms_cons] at list'
        have inL := (((list'.laterSiblings_sorted step.nodup parent child).2 s).mp inside).1
        refine (list'.preorder_eq step.nodup _ s inL ((List.length_filter_le _ _).trans ?_)).symm
        rw [← atoms_cons, ← atoms_append]
        exact ((List.sublist_flatten_of_mem inList).map _).length_le
      rw [List.flatMap_congr subtrees] at parts
      refine ⟨⟨w', result, c.2, _, pre.map atoms, atoms front, atoms B, post.map atoms, atom, called,
        rootLists_repr step.repr, ?_, ?_⟩, fun w'' result' again => ?_⟩
      · rw [atoms_flatten, below, ← atomsD, map_append, List.map_cons, atoms_append, atoms_cons]
        conv_lhs => rw [parts]
        simp only [List.append_assoc, cons_append]
      · rw [rootLists_repr left.repr, atoms_flatten, below, ← atomsD]
        simp
      · rw [called, Except.ok.injEq, Prod.mk.injEq] at again
        exact ⟨_, again.1 ▸ left⟩

/-- The weaves that inserting plain atoms after their causes and removing atoms leads to. -/
inductive Reached (getHash : AtomHashInput T → JsString) : Weave T → Prop where
  | new (size : Option Int) : Reached getHash (Weave.new size)
  | insert {w w' : Weave T} {result : WeaveResult T} (reached : Reached getHash w) (atom : Atom T)
      (plain : PlainAtom atom)
      (listed : ∀ cause, atom.cause = some cause → w.getNode cause ≠ none)
      (run : w.insert getHash atom = .ok (w', result)) : Reached getHash w'
  | remove {w w' : Weave T} {result : WeaveResult T} (reached : Reached getHash w) (atom : Atom T)
      (run : w.remove atom = .ok (w', result)) : Reached getHash w'
  | removeSiblingsBefore {w w' : Weave T} {result : WeaveResult T} (reached : Reached getHash w)
      (atom : Atom T) (run : w.removeSiblingsBefore atom = .ok (w', result)) : Reached getHash w'

theorem Reached.inStep (reached : Reached getHash w) (injective : Function.Injective getHash) :
    ∃ cells path, InStep getHash w cells path := by
  induction reached with
  | new size => exact ⟨[], _, inStep_new size⟩
  | insert reached atom plain listed run ih =>
    obtain ⟨cells, path, step⟩ := ih
    obtain ⟨w', result, cells', path', called, left⟩ := step.insert injective atom plain listed
    rw [called, Except.ok.injEq, Prod.mk.injEq] at run
    exact ⟨cells', path', run.1 ▸ left⟩
  | remove reached atom run ih =>
    obtain ⟨cells, path, step⟩ := ih
    obtain ⟨cells', left⟩ := (step.remove atom).2 _ _ run
    exact ⟨cells', path, left⟩
  | removeSiblingsBefore reached atom run ih =>
    obtain ⟨cells, path, step⟩ := ih
    obtain ⟨cells', left⟩ := (step.removeSiblingsBefore atom).2 _ _ run
    exact ⟨cells', path, left⟩

section Sample

open HashText

def plainRoot : Atom Unit := newAtom unitHash (sampleId 1 .undefined) none ()

end Sample

end CasualOS.PlainWeave
