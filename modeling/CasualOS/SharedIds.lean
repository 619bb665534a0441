import CasualOS.CheckedWeave
import CasualOS.PlainWeave

/-! Inserting several atoms of one id, in any order: the atom with the smallest hash is listed in the end. -/

namespace CasualOS.SharedIds

open Dll (Ref)
open HashText WeaveHeap WeaveRepr WeaveRead CausalOrder WeaveInsert CheckedWeave
open PlainWeave (Signed signed_of_matches signed_of_checked signed_string)
open List (mem_cons mem_cons_self)

variable {T : Type} {getHash : AtomHashInput T → JsString}

/-- The maps hold exactly the nodes of the lists and of the reorder buffer, and the listed atoms are
signed and without priority. -/
structure Formed (getHash : AtomHashInput T → JsString) (w : Weave T)
    (cells buffered : List (List (Cell T))) : Prop where
  repr : Repr w cells buffered
  hashed : Hashed w cells
  signed : ∀ c ∈ cells.flatten, Signed getHash c.2
  free : ∀ c ∈ cells.flatten, c.2.id.priority.get? = none

def PriorityFree (getHash : AtomHashInput T → JsString) (w : Weave T) : Prop :=
  ∃ cells buffered, Formed getHash w cells buffered

theorem priorityFree_of_reached (injective : Function.Injective getHash) {w : Weave T}
    (reached : PlainWeave.Reached getHash w) : PriorityFree getHash w := by
  obtain ⟨cells, path, step⟩ := reached.inStep injective
  exact ⟨cells, [], step.repr, step.hashed, step.signed, fun c member => (step.plain c member).id.priority⟩

/-! ### Lists with one more cell -/

def putUnder (c : Ref) (new : Cell T) : List (Cell T) → List (Cell T)
  | [] => []
  | d :: l => if d.1 = c then d :: place d.2 new.2.id [new] l else d :: putUnder c new l

def beside (cells : List (List (Cell T))) (new : Cell T) : Option Ref → List (List (Cell T))
  | none => cells ++ [[new]]
  | some c => cells.map (putUnder c new)

variable {w w' : Weave T} {cells buffered pre post : List (List (Cell T))} {front after : List (Cell T)}
  {c new : Cell T} {a m : Atom T} {n : Ref}

theorem putUnder_absent (l : List (Cell T)) (absent : n ∉ refs l) : putUnder n new l = l := by
  induction l with
  | nil => rfl
  | cons d l ih =>
    rw [refs_cons, mem_cons, not_or] at absent
    rw [putUnder, if_neg (Ne.symm absent.1), ih absent.2]

theorem putUnder_split (front after : List (Cell T)) (absent : c.1 ∉ refs front) :
    putUnder c.1 new (front ++ c :: after) = front ++ c :: place c.2 new.2.id [new] after := by
  induction front with
  | nil => rw [List.nil_append, putUnder, if_pos rfl, List.nil_append]
  | cons d front ih =>
    rw [refs_cons, mem_cons, not_or] at absent
    rw [List.cons_append, putUnder, if_neg (Ne.symm absent.1), ih absent.2, List.cons_append]

theorem putUnder_atoms (c n n' : Ref) (a : Atom T) (l : List (Cell T)) :
    atoms (putUnder c (n, a) l) = atoms (putUnder c (n', a) l) := by
  induction l with
  | nil => rfl
  | cons d l ih =>
    simp only [putUnder]
    split
    · simp only [atoms_cons, atoms_place, atoms_nil]
    · rw [atoms_cons, atoms_cons, ih]

/-- What the lists show does not depend on the node of the new cell. -/
theorem beside_atoms (cells : List (List (Cell T))) (n n' : Ref) (a : Atom T) (cause : Option Ref) :
    (beside cells (n, a) cause).map atoms = (beside cells (n', a) cause).map atoms := by
  cases cause with
  | none => simp [beside]
  | some c =>
    rw [beside, beside, List.map_map, List.map_map]
    exact List.map_congr_left fun l _ => putUnder_atoms c n n' a l

theorem beside_split (repr : Repr w (pre ++ (front ++ c :: after) :: post) buffered) (new : Cell T) :
    beside (pre ++ (front ++ c :: after) :: post) new (some c.1) =
      pre ++ (front ++ c :: place c.2 new.2.id [new] after) :: post := by
  have source := repr.heap.perm (middle_perm pre post buffered _)
  have absent : c.1 ∉ refs front := by
    have distinct := source.head_distinct
    rw [refs_append, refs_cons] at distinct
    intro member
    exact (List.nodup_append.mp distinct).2.2 c.1 member c.1 mem_cons_self rfl
  have others : ∀ l ∈ pre ++ post, putUnder c.1 new l = l := by
    intro l member
    refine putUnder_absent l fun inside => ?_
    exact source.head_apart l (List.mem_append_left _ member) c.1 inside (by simp)
  have same : ∀ ls : List (List (Cell T)), (∀ l ∈ ls, l ∈ pre ++ post) → ls.map (putUnder c.1 new) = ls := by
    intro ls sub
    conv_rhs => rw [← List.map_id ls]
    exact List.map_congr_left fun l member => others l (sub l member)
  rw [beside, List.map_append, List.map_cons, putUnder_split front after absent,
    same pre (fun l member => List.mem_append_left _ member),
    same post (fun l member => List.mem_append_right _ member)]

variable {cause : Option Ref}

theorem mem_beside (repr : Repr w cells buffered) (goes : GoesTo getHash cells a cause) (d : Cell T) :
    d ∈ (beside cells (n, a) cause).flatten ↔ d = (n, a) ∨ d ∈ cells.flatten := by
  cases cause with
  | none => simp [beside, or_comm]
  | some r =>
    obtain ⟨c, member, rfl, _⟩ := goes
    obtain ⟨pre, front, after, post, rfl⟩ := split_at cells c member
    rw [beside_split repr]
    exact mem_placed pre post front after c a.id (n, a) d

/-! ### Adding and taking out the one cell -/

/-- The weave holds `cells` and, beside them, a node of `a`. -/
structure Stands (cells buffered : List (List (Cell T))) (a : Atom T) (cause : Option Ref) (w : Weave T) :
    Prop where
  holds : ∃ n, Repr w (beside cells (n, a) cause) buffered ∧ Hashed w (beside cells (n, a) cause) ∧
    w.getNode a.id = some n ∧ w.atomAt n = some a

def addNode (w : Weave T) (a : Atom T) : Option Ref → Except Failure (Weave T × Ref)
  | none => .ok (w.addRoot a)
  | some c => w.insertUnder c a false

theorem add_beside (repr : Repr w cells buffered) (hashed : Hashed w cells)
    (goes : GoesTo getHash cells a cause) (fresh : ∀ d ∈ cells.flatten, idKey d ≠ atomIdToString a.id)
    (freshHash : ∀ d ∈ cells.flatten, hashKey d ≠ a.hash) :
    ∃ w', addNode w a cause = .ok (w', w.nodes.length) ∧ Repr w' (beside cells (w.nodes.length, a) cause) buffered ∧
      Hashed w' (beside cells (w.nodes.length, a) cause) := by
  cases cause with
  | none =>
    exact ⟨_, rfl, addRoot_repr repr a fresh, addRoot_hashed repr hashed a freshHash⟩
  | some r =>
    have goes' := goes
    obtain ⟨c, member, rfl, _⟩ := goes
    obtain ⟨pre, front, after, post, rfl⟩ := split_at cells c member
    obtain ⟨w', run, grown, hashes, _⟩ := insertUnder_repr repr a fresh
    refine ⟨w', run, ?_, ?_⟩
    · rw [beside_split repr]
      exact grown
    · rw [Hashed, hashes]
      exact OrderedMap.Indexes.set hashed (w.nodes.length, a) freshHash (mem_beside repr goes')

/-- Whatever comes after a new atom without priority is not newer than it. -/
theorem after_placed (child : c.2.id.timestamp < a.id.timestamp) (bare : a.id.priority.get? = none)
    (free : ∀ d ∈ after, d.2.id.priority.get? = none) :
    (after.dropWhile (onAtom (keeps c.2 a.id))).dropWhile (onAtom (isNewer a.id.timestamp)) =
      after.dropWhile (onAtom (keeps c.2 a.id)) := by
  cases rest : after.dropWhile (onAtom (keeps c.2 a.id)) with
  | nil => rfl
  | cons d tail =>
    have inAfter : d ∈ after := by
      refine (List.dropWhile_sublist (onAtom (keeps c.2 a.id))).subset ?_
      rw [rest]
      exact mem_cons_self
    have stops : onAtom (keeps c.2 a.id) d = false := by
      have first := List.head?_dropWhile_not (onAtom (keeps c.2 a.id)) after
      simpa [rest] using first
    have older : d.2.id.timestamp ≤ a.id.timestamp := by
      simp only [onAtom, keeps, isNewer, Bool.and_eq_false_iff, decide_eq_false_iff_not, not_lt,
        Bool.not_eq_false', Bool.and_eq_true, decide_eq_true_eq] at stops
      rcases stops with notNewer | ⟨_, sorted⟩
      · exact notNewer.trans (le_of_lt child)
      · rw [compare_neg, key_lt] at sorted
        simp only [getPriority, bare, free d inAfter, Option.getD_none, lt_irrefl, false_or, true_and] at sorted
        rcases sorted with newer | ⟨same, _⟩
        · exact le_of_lt newer
        · exact le_of_eq same.symm
    have stays : onAtom (isNewer a.id.timestamp) d = false := decide_eq_false (not_lt.mpr older)
    rw [List.dropWhile_cons, stays]
    simp

theorem remove_beside (base : Repr w' cells buffered)
    (goes : GoesTo getHash cells m cause) (bare : m.id.priority.get? = none)
    (free : ∀ d ∈ cells.flatten, d.2.id.priority.get? = none)
    (repr : Repr w (beside cells (n, m) cause) buffered) (hashed : Hashed w (beside cells (n, m) cause)) :
    ∃ w'', w.removeNode n = .ok w'' ∧ Repr w'' cells buffered ∧ Hashed w'' cells := by
  cases cause with
  | none =>
    have shape : beside cells (n, m) none = cells ++ ([] ++ (n, m) :: []) :: [] := by simp [beside]
    rw [shape] at repr hashed
    obtain ⟨w'', run, left, kept, _⟩ := removeNode_repr repr (fun _ => ⟨goes, by simp⟩)
    have rest := kept hashed
    simp only [List.dropWhile_nil, List.append_nil, WeaveRepr.kept, List.isEmpty_nil, if_true] at left rest
    exact ⟨w'', run, left, rest⟩
  | some r =>
    obtain ⟨c, member, rfl, vouched⟩ := goes
    obtain ⟨pre, front, after, post, rfl⟩ := split_at cells c member
    rw [beside_split base, place_split] at repr hashed
    obtain ⟨w'', run, left, kept, _⟩ := removeNode_repr repr (fun empty => by simp at empty)
    have rest := kept hashed
    have tail := after_placed (a := m) (vouches_older c (n, m) (vouched n)) bare
      (fun d (inside : d ∈ after) => free d ((flatten_middle ..).mpr (.inl (by simp [inside]))))
    have joined : front ++ c :: after.takeWhile (onAtom (keeps c.2 m.id)) ++
        after.dropWhile (onAtom (keeps c.2 m.id)) = front ++ c :: after := by
      rw [List.append_assoc, List.cons_append, List.takeWhile_append_dropWhile]
    simp only at left rest tail
    rw [tail, joined, kept_filled (by simp), List.append_assoc, List.singleton_append] at left rest
    exact ⟨w'', run, left, rest⟩

/-! ### One insertion -/

theorem releaseMissing_idle (repr : Repr w cells buffered) (shown : w.atomAt n = some a)
    (uncaused : ∀ d ∈ buffered.flatten, ¬ Names d.2 a.id) : w.releaseMissing n a = .ok (w, .atomAdded a) := by
  have idle : w.reorderBuffer.values.filter (w.isMissingChild n) = [] := by
    refine List.filter_eq_nil_iff.mpr fun r member waits => ?_
    obtain ⟨d, inside, rfl⟩ := (repr.buffer.mem_values r).mp member
    simp only [Weave.isMissingChild, shown, repr.atomAt d (.inr inside)] at waits
    exact uncaused d inside (names_of_equals a d.2 waits)
  unfold Weave.releaseMissing
  split
  · simp only [Weave.addMissingChildren, idle, List.foldlM_nil, List.isEmpty_nil, Bool.not_true, pure,
      Except.pure, bind, Except.bind, Bool.false_eq_true, if_false]
  · rfl

/-- The checks of a root, before a look at its id. -/
def RootPasses (getHash : AtomHashInput T → JsString) (a : Atom T) : Prop :=
  a.cause = none → atomMatchesHash getHash a none = true ∧ a.id.cardinality ≠ .null ∧
    ∀ cardinality, a.id.cardinality = .value cardinality → 0 < cardinality.number

theorem insertRoot_passes (noCause : a.cause = none) (passes : RootPasses getHash a) :
    w.insert getHash a = WeaveNodes.insertCheckedRoot w a := by
  obtain ⟨valid, defined, positive⟩ := passes noCause
  simp only [Weave.insert, noCause, Weave.insertRoot, valid, Bool.not_true, Bool.false_eq_true, if_false]
  cases set : a.id.cardinality with
  | undefined => rfl
  | null => exact absurd set defined
  | value cardinality =>
    have refuses : ¬ cardinality.number ≤ 0 := not_le.mpr (positive cardinality set)
    simp only [if_neg refuses]
    rfl

theorem insertChild_passes (repr : Repr w cells buffered) {d : Cell T} (member : d ∈ cells.flatten)
    (vouched : Vouches getHash d (0, a)) : w.insert getHash a =
      match w.getNode a.id with
      | some existing => w.resolveConflict existing a (some d.1)
      | none => w.insertUnder d.1 a false >>= fun made => made.1.releaseMissing made.2 a := by
  obtain ⟨⟨cause, caused, named⟩, accepted⟩ := vouched
  have node := (repr.getNode cause d.1).mpr ⟨d, member, rfl, named.symm⟩
  have accepted' : Weave.checkCause getHash a d.2 = none := accepted
  have caused' : a.cause = some cause := caused
  cases existing : w.getNode a.id <;>
    simp only [Weave.insert, caused', node, Weave.insertChild, repr.atomAt d (.inl member),
      Option.bind_some, accepted', existing]

theorem insert_conflict (repr : Repr w cells buffered)
    (goes : GoesTo getHash cells a cause) (passes : RootPasses getHash a) {e : Ref}
    (found : w.getNode a.id = some e) : w.insert getHash a = w.resolveConflict e a cause := by
  cases cause with
  | none =>
    rw [insertRoot_passes goes passes]
    simp only [WeaveNodes.insertCheckedRoot, found]
  | some r =>
    obtain ⟨d, member, rfl, vouched⟩ := goes
    rw [insertChild_passes repr member (vouched 0)]
    simp only [found]

theorem stands_of (repr : Repr w cells buffered)
    (goes : GoesTo getHash cells a cause) (grown : Repr w' (beside cells (n, a) cause) buffered)
    (hashed : Hashed w' (beside cells (n, a) cause)) : Stands cells buffered a cause w' := by
  have member := (mem_beside (n := n) repr goes (n, a)).mpr (.inl rfl)
  exact ⟨n, grown, hashed, (grown.getNode a.id n).mpr ⟨(n, a), member, rfl, rfl⟩, grown.atomAt (n, a) (.inl member)⟩

theorem insert_first (repr : Repr w cells buffered) (hashed : Hashed w cells)
    (goes : GoesTo getHash cells a cause) (passes : RootPasses getHash a)
    (room : a.cause = none → w.countCardinality a ≠ none)
    (fresh : ∀ d ∈ cells.flatten, idKey d ≠ atomIdToString a.id)
    (freshHash : ∀ d ∈ cells.flatten, hashKey d ≠ a.hash)
    (uncaused : ∀ d ∈ buffered.flatten, ¬ Names d.2 a.id) :
    ∃ w', w.insert getHash a = .ok (w', .atomAdded a) ∧ Stands cells buffered a cause w' := by
  have absent := (repr.getNode_none a.id).mpr fresh
  cases cause with
  | none =>
    obtain ⟨mid, counted⟩ := Option.ne_none_iff_exists'.mp (room goes)
    obtain ⟨cardinality, same⟩ := countCardinality_eq w mid a counted
    have still : Repr mid cells buffered := by
      rw [same]
      exact ⟨repr.heap, repr.starts, repr.filled, repr.roots, repr.idMap, repr.buffer⟩
    have hashes : Hashed mid cells := by
      rw [same]
      exact hashed
    obtain ⟨w', run, grown, hashed'⟩ := add_beside still hashes goes fresh freshHash
    have stands := stands_of still goes grown hashed'
    refine ⟨w', ?_, stands⟩
    rw [addNode, Except.ok.injEq] at run
    rw [insertRoot_passes goes passes]
    simp only [WeaveNodes.insertCheckedRoot, absent, counted, run]
    exact releaseMissing_idle grown (grown.atomAt _ (.inl
      ((mem_beside still goes (mid.nodes.length, a)).mpr (.inl rfl)))) uncaused
  | some r =>
    obtain ⟨w', run, grown, hashed'⟩ := add_beside repr hashed goes fresh freshHash
    have stands := stands_of repr goes grown hashed'
    have shown := grown.atomAt _ (.inl ((mem_beside repr goes (w.nodes.length, a)).mpr (.inl rfl)))
    obtain ⟨d, member, rfl, vouched⟩ := goes
    refine ⟨w', ?_, stands⟩
    rw [addNode] at run
    rw [insertChild_passes repr member (vouched 0)]
    simp only [absent, run, bind, Except.bind]
    exact releaseMissing_idle grown shown uncaused

theorem insert_next (base : Repr w' cells buffered) (free : ∀ d ∈ cells.flatten, d.2.id.priority.get? = none)
    (fresh : ∀ d ∈ cells.flatten, idKey d ≠ atomIdToString a.id)
    (freshHash : ∀ d ∈ cells.flatten, hashKey d ≠ a.hash) {first second : Option Ref}
    (goesM : GoesTo getHash cells m first) (bare : m.id.priority.get? = none)
    (goesA : GoesTo getHash cells a second) (passes : RootPasses getHash a)
    (same : atomIdToString m.id = atomIdToString a.id) (stands : Stands cells buffered m first w) :
    ∃ v r, w.insert getHash a = .ok (v, r) ∧ (m.hash ≤ a.hash ∧ Stands cells buffered m first v ∨
        a.hash < m.hash ∧ Stands cells buffered a second v) := by
  obtain ⟨n, repr, hashed, node, shown⟩ := stands.holds
  have listed : ∀ d ∈ cells.flatten, d ∈ (beside cells (n, m) first).flatten :=
    fun d member => (mem_beside base goesM d).mpr (.inr member)
  have goes : GoesTo getHash (beside cells (n, m) first) a second := by
    cases second with
    | none => exact goesA
    | some r =>
      obtain ⟨d, member, here, vouched⟩ := goesA
      exact ⟨d, listed d member, here, vouched⟩
  have found : w.getNode a.id = some n := by rw [Weave.getNode, ← same]; exact node
  rw [insert_conflict repr goes passes found]
  simp only [Weave.resolveConflict, shown]
  by_cases apart : m.hash = a.hash
  · simp only [apart, ne_eq, not_true_eq_false, if_false]
    exact ⟨w, _, rfl, .inl ⟨le_refl _, stands⟩⟩
  · by_cases less : m.hash < a.hash
    · simp only [ne_eq, apart, not_false_eq_true, if_true, less]
      exact ⟨w, _, rfl, .inl ⟨le_of_lt less, stands⟩⟩
    · obtain ⟨mid, removed, left, rest⟩ := remove_beside base goesM bare free repr hashed
      obtain ⟨v, run, grown, hashed'⟩ := add_beside left rest goesA fresh freshHash
      have smaller : a.hash < m.hash := lt_of_le_of_ne (not_lt.mp less) (Ne.symm apart)
      simp only [ne_eq, apart, not_false_eq_true, if_true, less, if_false, removed, bind, Except.bind]
      cases second with
      | none =>
        rw [addNode, Except.ok.injEq] at run
        exact ⟨v, .conflict a m (some n), by rw [run]; rfl, .inr ⟨smaller, stands_of left goesA grown hashed'⟩⟩
      | some r =>
        rw [addNode] at run
        exact ⟨v, .conflict a m (some n), by simp only [run, Except.map, pure, Except.pure],
          .inr ⟨smaller, stands_of left goesA grown hashed'⟩⟩

/-! ### Runs -/

/-- Atoms of one id that is not listed, with hashes of their own, each of which may go into the weave,
and none of which is waited for. -/
structure Rivals (getHash : AtomHashInput T → JsString) (w : Weave T) (id : JsString)
    (A : List (Atom T)) : Prop where
  shared : ∀ a ∈ A, atomIdToString a.id = id
  unlisted : w.idMap.get id = none
  apart : ∀ a ∈ A, ∀ b ∈ A, a.hash = b.hash → a = b
  bare : ∀ a ∈ A, a.id.priority.get? = none
  joins : ∀ a ∈ A, Joins getHash w a
  defined : ∀ a ∈ A, a.cause = none → a.id.cardinality ≠ .null
  uncaused : ∀ b ∈ bufferedAtoms w, ∀ cause, b.cause = some cause → atomIdToString cause ≠ id

/-- The weave has become what the insertion of the winner alone makes of it: one more listed atom, and
nothing of the others. -/
structure ResolvedTo (getHash : AtomHashInput T → JsString) (w : Weave T) (id : JsString)
    (A : List (Atom T)) (winner : Atom T) (w' : Weave T) : Prop where
  placed : ∃ alone lists lists', w.insert getHash winner = .ok (alone, .atomAdded winner) ∧
    rootLists w = some lists ∧ rootLists alone = some lists' ∧ rootLists w' = some lists' ∧
    Placed winner lists lists' ∧ ∀ a ∈ A, a ∈ lists'.flatten ↔ a = winner
  found : ∃ r, w'.atomAt r = some winner ∧ w'.getNode winner.id = some r ∧
    w'.getNodeByHash winner.hash = some r
  ids : ∀ key, key ≠ id → w'.idMap.get key = w.idMap.get key
  hashes : ∀ hash, hash ≠ winner.hash → w'.hashMap.get hash = w.hashMap.get hash
  atoms : ∀ r a, Listed w r → w.atomAt r = some a → w'.atomAt r = some a
  unnamed : ∀ key r, w'.idMap.get key = some r ∨ w'.hashMap.get key = some r →
    ∀ a ∈ A, w'.atomAt r = some a → a = winner

section Runs

variable {A : List (Atom T)} {id : JsString}

theorem Rivals.goes (rivals : Rivals getHash w id A) (repr : Repr w cells buffered) (member : a ∈ A) :
    ∃ cause, GoesTo getHash cells a cause := by
  have joins := rivals.joins a member
  unfold Joins at joins
  split at joins
  · next noCause => exact ⟨none, noCause⟩
  · next cause caused =>
      obtain ⟨n, c, node, shown, accepted⟩ := joins
      obtain ⟨d, inCells, rfl, named⟩ := (repr.getNode cause n).mp node
      rw [repr.atomAt d (.inl inCells), Option.some.injEq] at shown
      exact ⟨some d.1, d, inCells, rfl, fun _ => ⟨⟨cause, caused, named.symm⟩, shown ▸ accepted⟩⟩

theorem Rivals.passes (rivals : Rivals getHash w id A) (member : a ∈ A) : RootPasses getHash a := by
  intro noCause
  have joins := rivals.joins a member
  simp only [Joins, noCause] at joins
  exact ⟨joins.1, rivals.defined a member noCause, joins.2.1⟩

theorem Rivals.signed (rivals : Rivals getHash w id A) (member : a ∈ A) : Signed getHash a := by
  have joins := rivals.joins a member
  unfold Joins at joins
  split at joins
  · exact signed_of_matches a none joins.1
  · obtain ⟨_, c, _, _, accepted⟩ := joins
    exact (signed_of_checked a c accepted).1

theorem Rivals.fresh (rivals : Rivals getHash w id A) (formed : Formed getHash w cells buffered)
    (injective : Function.Injective getHash) (member : a ∈ A) :
    (∀ d ∈ cells.flatten, idKey d ≠ atomIdToString a.id) ∧ ∀ d ∈ cells.flatten, hashKey d ≠ a.hash := by
  have ids : ∀ d ∈ cells.flatten, idKey d ≠ atomIdToString a.id := by
    rw [rivals.shared a member]
    exact formed.repr.idMap.absent id |>.mp rivals.unlisted
  exact ⟨ids, fun d inside same =>
    ids d inside (signed_string injective d.2 a (formed.signed d inside) (rivals.signed member) same)⟩

theorem Rivals.run (rivals : Rivals getHash w id A) (formed : Formed getHash w cells buffered)
    (injective : Function.Injective getHash) (delivered : List (Atom T)) (sub : ∀ a ∈ delivered, a ∈ A)
    {v : Weave T} {first : Option Ref} (inA : m ∈ A) (goes : GoesTo getHash cells m first)
    (stands : Stands cells buffered m first v) :
    ∃ v' l cause, insertAll getHash v delivered = .ok v' ∧ l ∈ A ∧ (∀ b ∈ m :: delivered, l.hash ≤ b.hash) ∧
      GoesTo getHash cells l cause ∧ Stands cells buffered l cause v' := by
  induction delivered generalizing v m first with
  | nil => exact ⟨v, m, first, rfl, inA, by simp, goes, stands⟩
  | cons a rest ih =>
    have member := sub a mem_cons_self
    have subRest : ∀ b ∈ rest, b ∈ A := fun b inside => sub b (List.mem_cons_of_mem _ inside)
    obtain ⟨second, goesA⟩ := rivals.goes formed.repr member
    obtain ⟨ids, hashes⟩ := rivals.fresh formed injective member
    obtain ⟨mid, r, ran, next⟩ := insert_next formed.repr formed.free ids hashes goes
      (rivals.bare m inA) goesA (rivals.passes member)
      ((rivals.shared m inA).trans (rivals.shared a member).symm) stands
    rw [insertAll_cons v a rest mid r ran]
    rcases next with ⟨less, stays⟩ | ⟨less, stays⟩
    · obtain ⟨v', l, cause, run, inA', least, goes', stands'⟩ := ih subRest inA goes stays
      refine ⟨v', l, cause, run, inA', fun b inside => ?_, goes', stands'⟩
      rcases mem_cons.mp inside with here | later
      · exact here ▸ least m mem_cons_self
      · rcases mem_cons.mp later with here | later
        · exact here ▸ (least m mem_cons_self).trans less
        · exact least b (List.mem_cons_of_mem _ later)
    · obtain ⟨v', l, cause, run, inA', least, goes', stands'⟩ := ih subRest member goesA stays
      refine ⟨v', l, cause, run, inA', fun b inside => ?_, goes', stands'⟩
      rcases mem_cons.mp inside with here | later
      · exact here ▸ (least a mem_cons_self).trans (le_of_lt less)
      · exact least b later

theorem placed_beside (repr : Repr w cells buffered) {cause : Option Ref} (goes : GoesTo getHash cells a cause) :
    Placed a (cells.map atoms) ((beside cells (n, a) cause).map atoms) := by
  cases cause with
  | none =>
    rw [beside, List.map_append]
    exact .root _ goes
  | some r =>
    obtain ⟨c, member, rfl, vouched⟩ := goes
    obtain ⟨cause, caused, named⟩ := (vouched 0).1
    obtain ⟨pre, front, after, post, rfl⟩ := split_at cells c member
    rw [beside_split repr]
    simp only [List.map_append, List.map_cons, atoms_append, atoms_cons, atoms_place, atoms_nil]
    exact .child _ _ _ _ cause c.2 caused named.symm

theorem Rivals.resolved (rivals : Rivals getHash w id A) (formed : Formed getHash w cells buffered)
    (injective : Function.Injective getHash) (inA : a ∈ A) {cause : Option Ref}
    (goes : GoesTo getHash cells a cause) {alone : Weave T}
    (inserted : w.insert getHash a = .ok (alone, .atomAdded a)) (once : Stands cells buffered a cause alone)
    (stands : Stands cells buffered a cause w') : ResolvedTo getHash w id A a w' := by
  obtain ⟨n, repr, hashed, node, shown⟩ := stands.holds
  obtain ⟨n', repr', _, _, _⟩ := once.holds
  have members := mem_beside (n := n) formed.repr goes
  have old : ∀ b ∈ A, ∀ d ∈ cells.flatten, d.2 ≠ b := by
    intro b inside d member same
    exact (rivals.fresh formed injective inside).1 d member (by rw [idKey, same])
  have named : ∀ d ∈ (beside cells (n, a) cause).flatten, ∀ b ∈ A, w'.atomAt d.1 = some b → b = a := by
    intro d member b inside atom
    rw [repr.atomAt d (.inl member), Option.some.injEq] at atom
    rcases (members d).mp member with new | listed
    · rw [← atom, new]
    · exact absurd atom (old b inside d listed)
  refine ⟨⟨alone, _, _, inserted, rootLists_repr formed.repr, rootLists_repr repr',
    (rootLists_repr repr).trans (congrArg some (beside_atoms cells n n' a cause)),
    placed_beside formed.repr goes, fun b inside => ?_⟩, ⟨n, shown, node, ?_⟩, fun key other => ?_,
    fun hash other => ?_, fun r b listed atom => ?_, fun key r found b inside atom => ?_⟩
  · rw [← beside_atoms cells n n' a cause, atoms_flatten]
    constructor
    · intro listed
      obtain ⟨d, member, rfl⟩ := List.mem_map.mp listed
      exact named d member d.2 inside (repr.atomAt d (.inl member))
    · rintro rfl
      exact List.mem_map_of_mem (f := Prod.snd) ((members (n, b)).mpr (.inl rfl))
  · exact OrderedMap.Indexes.get hashed (n, a) ((members (n, a)).mpr (.inl rfl))
  · have apart : idKey (n, a) ≠ key := fun same => other (same ▸ rivals.shared a inA)
    refine Option.ext fun r => ?_
    rw [repr.idMap key r, formed.repr.idMap key r]
    simp only [members]
    constructor
    · rintro ⟨d, new | listed, rest⟩
      · exact absurd (new ▸ rest.2) apart
      · exact ⟨d, listed, rest⟩
    · rintro ⟨d, listed, rest⟩
      exact ⟨d, .inr listed, rest⟩
  · refine Option.ext fun r => ?_
    rw [hashed hash r, formed.hashed hash r]
    simp only [members]
    constructor
    · rintro ⟨d, new | listed, rest⟩
      · have named := rest.2
        rw [new] at named
        exact absurd named.symm other
      · exact ⟨d, listed, rest⟩
    · rintro ⟨d, listed, rest⟩
      exact ⟨d, .inr listed, rest⟩
  · obtain ⟨d, member, rfl⟩ := (listed_iff formed.repr r).mp listed
    rw [formed.repr.atomAt d (.inl member)] at atom
    exact atom ▸ repr.atomAt d (.inl ((members d).mpr (.inr member)))
  · rcases found with byId | byHash
    · obtain ⟨d, member, rfl, _⟩ := (repr.idMap key r).mp byId
      exact named d member b inside atom
    · obtain ⟨d, member, rfl, _⟩ := (hashed key r).mp byHash
      exact named d member b inside atom

/-- However the atoms of one id are delivered, the one with the smallest hash is listed as if it had
come alone. -/
theorem same_id_resolved (injective : Function.Injective getHash) (weave : PriorityFree getHash w)
    (rivals : Rivals getHash w id A) (delivered : List (Atom T)) (all : ∀ a, a ∈ delivered ↔ a ∈ A)
    (winner : Atom T) (member : winner ∈ A) (least : ∀ a ∈ A, winner.hash ≤ a.hash) :
    ∃ w', insertAll getHash w delivered = .ok w' ∧ ResolvedTo getHash w id A winner w' := by
  obtain ⟨cells, buffered, formed⟩ := weave
  have first : ∀ a ∈ A, ∀ cause, GoesTo getHash cells a cause →
      ∃ v, w.insert getHash a = .ok (v, .atomAdded a) ∧ Stands cells buffered a cause v := by
    intro a inA cause goes
    obtain ⟨ids, hashes⟩ := rivals.fresh formed injective inA
    refine insert_first formed.repr formed.hashed goes (rivals.passes inA) (fun noCause => ?_) ids hashes ?_
    · have joins := rivals.joins a inA
      simp only [Joins, noCause] at joins
      exact joins.2.2 ((formed.repr.getNode_none a.id).mpr ids)
    · rintro d inside ⟨cause, caused, named⟩
      exact rivals.uncaused d.2 (buffered_atom formed.repr d inside) cause caused
        (named.trans (rivals.shared a inA))
  cases delivered with
  | nil => cases (all winner).mpr member
  | cons a rest =>
    have inA := (all a).mp mem_cons_self
    obtain ⟨cause, goes⟩ := rivals.goes formed.repr inA
    obtain ⟨v, run, stands⟩ := first a inA cause goes
    obtain ⟨w', l, other, runs, inL, lowest, goesL, last⟩ := rivals.run formed injective rest
      (fun b inside => (all b).mp (List.mem_cons_of_mem _ inside)) inA goes stands
    have same : l = winner := by
      refine rivals.apart l inL winner member (le_antisymm ?_ (least l inL))
      exact lowest winner ((all winner).mpr member)
    subst same
    obtain ⟨alone, inserted, once⟩ := first l inL other goesL
    refine ⟨w', (insertAll_cons w a rest v _ run).trans runs, ?_⟩
    exact rivals.resolved formed injective inL goesL inserted once last

end Runs

section Sample

def parentAtom : Atom Unit := newAtom unitHash (sampleId 1 .undefined) none ()

def rootTwin : Atom Unit := newAtom unitHash (sampleId 5 .undefined) none ()

/-- The same id as `rootTwin`, and a larger hash. -/
def childTwin : Atom Unit := newAtom unitHash (sampleId 5 .undefined) (some parentAtom) ()

def parentWeave : Weave Unit :=
  match (Weave.new none).insert unitHash parentAtom with
  | .ok made => made.1
  | .error _ => Weave.new none

theorem parentWeave_priorityFree : PriorityFree unitHash parentWeave := by
  have plain : TreeOrder.PlainAtom parentAtom := { id := ⟨rfl, rfl⟩, cause := nofun }
  have reached : PlainWeave.Reached unitHash parentWeave := by
    unfold parentWeave
    cases run : (Weave.new none).insert unitHash parentAtom with
    | ok made => exact .insert (.new none) parentAtom plain nofun run
    | error failure => exact .new none
  exact priorityFree_of_reached unitHash_injective reached

theorem twins_rivals : Rivals unitHash parentWeave (atomIdToString (sampleId 5 .undefined)) [rootTwin, childTwin] where
  shared := by decide
  unlisted := by decide +kernel
  apart := by decide +kernel
  bare := by decide
  joins := by
    have root : Joins unitHash parentWeave rootTwin := by
      refine ⟨by decide +kernel, fun cardinality same => ?_, fun _ => by decide +kernel⟩
      cases same
    have child : Joins unitHash parentWeave childTwin := by
      have found : (parentWeave.getNode parentAtom.id).bind (fun n => (parentWeave.atomAt n).map fun c =>
          (n, c)) = some (0, parentAtom) := by decide +kernel
      obtain ⟨n, node, shown⟩ := Option.bind_eq_some_iff.mp found
      obtain ⟨c, atom, same⟩ := Option.map_eq_some_iff.mp shown
      cases same
      exact ⟨0, parentAtom, node, atom, by decide +kernel⟩
    simpa using ⟨root, child⟩
  defined := by decide
  uncaused := by
    have empty : bufferedAtoms parentWeave = [] := by decide +kernel
    simp [empty]

theorem twins_resolved :
    ∃ w', insertAll unitHash parentWeave [childTwin, rootTwin, childTwin] = .ok w' ∧
      ResolvedTo unitHash parentWeave (atomIdToString (sampleId 5 .undefined)) [rootTwin, childTwin]
        rootTwin w' := by
  refine same_id_resolved unitHash_injective parentWeave_priorityFree twins_rivals _ (fun a => ?_) rootTwin
    mem_cons_self (by decide +kernel)
  simp only [mem_cons, List.not_mem_nil, or_false]
  tauto

end Sample

end CasualOS.SharedIds
