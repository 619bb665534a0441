import CasualOS.BatchDiff
import CasualOS.PlainWeave
import CasualOS.WeaveOutcome

/-! What a call does to a weave that safe calls have led to, and to the hashes that are listed. -/

namespace CasualOS.BatchCalls

open Dll (Ref)
open BatchDiff CheckedWeave PlainWeave Supported WeaveFrame WeaveHeap WeaveInsert WeaveNodes WeaveOutcome WeaveRead
  WeaveRepr
open List (mem_append_left mem_append_right mem_cons mem_cons_of_mem mem_cons_self mem_map mem_singleton)
open Option (some)

variable {T : Type} (getHash : AtomHashInput T → JsString)

/-! ### What stands in the weave -/

def Under (p d : Cell T) : Prop := p.2.id.timestamp < d.2.id.timestamp ∧ d.2.cause ≠ none

/-- The listed atoms are newer than their root, have a cause, and were hashed with the hash function. -/
structure Standing (w : Weave T) (lists buffered : List (List (Cell T))) : Prop where
  checked : Checked getHash Under w lists buffered
  signed : ∀ d ∈ lists.flatten, Signed getHash d.2

/-- A list has been taken out. -/
structure Taken (lists buffered : List (List (Cell T))) (w' : Weave T) (lists' : List (List (Cell T)))
    (chain : List (Cell T)) : Prop where
  standing : Standing getHash w' lists' buffered
  apart : Apart w' lists' buffered chain
  parts : ∀ d, d ∈ lists.flatten ↔ d ∈ chain ∨ d ∈ lists'.flatten

variable {getHash} {w w' : Weave T} {lists buffered pre post : List (List (Cell T))}

theorem under_orders : Orders getHash (Under (T := T)) where
  vouch p d link := by
    rcases link.1 with ⟨cause, caused, _⟩
    exact ⟨vouches_older p d link, by simp [caused]⟩
  older p d link := link.1

theorem under_root {root : Cell T} {l : List (Cell T)} (grounded : Grounded Under (root :: l)) (d : Cell T)
    (member : d ∈ l) : Under root d := by
  rcases grounded.parent_of member with ⟨p, _, link⟩
  exact ⟨newer_than_head (fun _ _ link => link.1) grounded d member, link.2⟩

variable {front : List (Cell T)}

theorem grounded_part {back m : List (Cell T)} (grounded : Grounded Under (front ++ m ++ back))
    (inner : front ≠ []) : Grounded Under (front ++ back) := by
  cases front with
  | nil => exact absurd rfl inner
  | cons root front =>
    apply covered_of_root root (mem_singleton.mpr rfl)
    intro d member
    apply under_root grounded d
    rcases List.mem_append.mp member with inFront | inBack
    · exact mem_append_left _ (mem_append_left _ inFront)
    · exact mem_append_right _ inBack

theorem cuts_under (checked : Checked getHash Under w lists buffered) (a : Atom T) : Cuts Under lists a := by
  intro pre front e after post shape _ _ inner
  have whole : Grounded Under (front ++ (e :: after.takeWhile (onAtom (isNewer e.2.id.timestamp))) ++
      after.dropWhile (onAtom (isNewer e.2.id.timestamp))) := by
    rw [List.append_assoc, List.cons_append, List.takeWhile_append_dropWhile]
    exact checked.listed _ (by simp [shape])
  exact grounded_part whole inner

theorem apart_of_heap {chain : List (Cell T)} (heap : HeapRepr w.nodes (chain :: (lists ++ buffered))) :
    Apart w lists buffered chain where
  heap :=
    { closed := fun l member => heap.closed l (mem_singleton.mp member ▸ mem_cons_self)
      vals := fun l member => heap.vals l (mem_singleton.mp member ▸ mem_cons_self)
      distinct := by simpa using heap.head_distinct }
  outside r member live := by
    rcases live with listed | new
    · rcases mem_map.mp listed with ⟨c, inside, rfl⟩
      rcases List.mem_flatten.mp inside with ⟨l, present, inL⟩
      exact heap.head_apart l present _ (mem_refs c l inL) member
    · exact absurd (heap.bound _ mem_cons_self r member) (not_lt.mpr new)

theorem Standing.takeSpan {s back : List (Cell T)} {start : Cell T}
    (standing : Standing getHash w (pre ++ (front ++ (start :: s) ++ back) :: post) buffered)
    (inner : front ≠ []) :
    ∃ w', w.removeSpan start.1 ((refs (start :: s)).getLast?.getD start.1) = .ok w' ∧
      Taken getHash (pre ++ (front ++ (start :: s) ++ back) :: post) buffered w'
        (pre ++ (front ++ back) :: post) (start :: s) := by
  rcases removeSpan_repr standing.checked.repr inner with ⟨w', run, repr, heap, _⟩
  have present : front ++ (start :: s) ++ back ∈ pre ++ (front ++ (start :: s) ++ back) :: post := by simp
  refine ⟨w', run, ⟨⟨repr, fun l member => ?_, fun l member root head => ?_, standing.checked.waiting⟩,
    fun d member => standing.signed d ((mem_cut ..).mpr (.inr member))⟩, apart_of_heap heap, mem_cut _ _ _ _ _⟩
  · rcases List.mem_append.mp member with early | here
    · exact standing.checked.listed l (mem_append_left _ early)
    · rcases mem_cons.mp here with same | late
      · exact same ▸ grounded_part (standing.checked.listed _ present) inner
      · exact standing.checked.listed l (mem_append_right _ (mem_cons_of_mem _ late))
  · rcases List.mem_append.mp member with early | here
    · exact standing.checked.roots l (mem_append_left _ early) root head
    · rcases mem_cons.mp here with same | late
      · apply standing.checked.roots _ present root
        rw [same] at head
        cases front with
        | nil => exact absurd rfl inner
        | cons first front => exact head
      · exact standing.checked.roots l (mem_append_right _ (mem_cons_of_mem _ late)) root head

theorem Standing.takeNode {after : List (Cell T)} {c : Cell T}
    (standing : Standing getHash w (pre ++ (front ++ c :: after) :: post) buffered) :
    ∃ w', w.removeNode c.1 = .ok w' ∧ Taken getHash (pre ++ (front ++ c :: after) :: post) buffered w'
        (pre ++ kept (front ++ after.dropWhile (onAtom (isNewer c.2.id.timestamp))) ++ post)
        (c :: after.takeWhile (onAtom (isNewer c.2.id.timestamp))) := by
  have inList : front ++ c :: after ∈ pre ++ (front ++ c :: after) :: post := by simp
  have grounded := standing.checked.listed _ inList
  have closed : front ≠ [] → Grounded Under (front ++ after.dropWhile (onAtom (isNewer c.2.id.timestamp))) := by
    intro inner
    have whole : Grounded Under (front ++ (c :: after.takeWhile (onAtom (isNewer c.2.id.timestamp))) ++
        after.dropWhile (onAtom (isNewer c.2.id.timestamp))) := by
      rw [List.append_assoc, List.cons_append, List.takeWhile_append_dropWhile]
      exact grounded
    exact grounded_part whole inner
  have whole : front = [] → c.2.cause = none ∧ ∀ d ∈ after, isNewer c.2.id.timestamp d.2 = true := by
    rintro rfl
    refine ⟨standing.checked.roots _ inList c rfl, fun d inside => ?_⟩
    exact decide_eq_true (under_root grounded d inside).1
  rcases standing.checked.removeLoser under_orders closed with ⟨w', run, checked⟩
  rcases removeNode_repr standing.checked.repr whole with ⟨same, again, _, _, _, _, heap⟩
  rw [run, Except.ok.injEq] at again
  subst again
  refine ⟨w', run, ⟨⟨checked, fun d member => ?_⟩, apart_of_heap heap, fun d => ⟨fun member => ?_, fun member => ?_⟩⟩⟩
  · exact standing.signed d (rest_subset pre post front after c _ d member)
  · by_cases inGroup : d ∈ c :: after.takeWhile (onAtom (isNewer c.2.id.timestamp))
    · exact .inl inGroup
    · exact .inr (rest_of pre post front after c _ d member inGroup)
  · rcases member with inGroup | inRest
    · refine (flatten_middle ..).mpr (.inl (mem_append_right _ ?_))
      rcases mem_cons.mp inGroup with first | later
      · exact first ▸ mem_cons_self
      · exact mem_cons_of_mem _ ((List.takeWhile_sublist _).subset later)
    · exact rest_subset pre post front after c _ d inRest

theorem Standing.remove (standing : Standing getHash w lists buffered) {a : Atom T} {r : WeaveResult T}
    (ran : w.remove a = .ok (w', r)) :
    (Silent r ∧ w' = w) ∨
      ∃ start rest lists', r = .atomRemoved start.1 ∧ Taken getHash lists buffered w' lists' (start :: rest) := by
  unfold Weave.remove at ran
  split at ran
  · have final := Prod.mk.inj (Except.ok.inj ran)
    exact .inl ⟨final.2 ▸ trivial, final.1.symm⟩
  · next node found =>
      rcases ok_of_bind _ _ _ ran with ⟨cleared, removed, last⟩
      have final := Prod.mk.inj (Except.ok.inj last)
      rcases (standing.checked.repr.getNode a.id node).mp found with ⟨c, member, rfl, _⟩
      rcases split_at lists c member with ⟨pre, front, after, post, rfl⟩
      rcases standing.takeNode with ⟨w'', run, taken⟩
      rw [removed, Except.ok.injEq] at run
      rw [← run, final.1] at taken
      exact .inr ⟨c, _, _, final.2.symm, taken⟩

theorem sibling_part {after : List (Cell T)} {c g : Cell T} {others : List (Cell T)}
    {all : List (List (Cell T))} (heap : HeapRepr w.nodes ((front ++ c :: after) :: all))
    (siblings : (after.takeWhile (onAtom (notOlder c.2.cause))).filter (onAtom (isSibling c.2.cause)) =
      g :: others) :
    ∃ early s back, after = early ++ (g :: s) ++ back ∧
      w.lastInCausalGroup ((refs others).getLast?.getD g.1) = .ok ((refs (g :: s)).getLast?.getD g.1) := by
  rcases List.filter_eq_cons_iff.mp siblings with ⟨early, rest, split, _, _, left⟩
  have shape : after = early ++ g :: (rest ++ after.dropWhile (onAtom (notOlder c.2.cause))) := by
    conv_lhs => rw [← List.takeWhile_append_dropWhile (p := onAtom (notOlder c.2.cause)) (l := after), split]
    simp
  -- the last sibling `z`, in the rest of the list
  have last : ∃ z ∈ g :: (rest ++ after.dropWhile (onAtom (notOlder c.2.cause))),
      (refs others).getLast?.getD g.1 = z.1 := by
    rcases List.eq_nil_or_concat' others with none | ⟨initial, z, concat⟩
    · exact ⟨g, mem_cons_self, by simp [none]⟩
    · refine ⟨z, mem_cons_of_mem _ (mem_append_left _ ?_), by simp [concat, refs]⟩
      have inOthers : z ∈ others := by simp [concat]
      rw [← left] at inOthers
      exact (List.mem_filter.mp inOthers).1
  rcases last with ⟨z, inside, same⟩
  rw [same]
  rcases List.append_of_mem inside with ⟨before, later, shape'⟩
  have whole : front ++ c :: after = (front ++ c :: (early ++ before)) ++ z :: later := by
    rw [shape, shape']
    simp
  rw [whole] at heap
  have group := lastInCausalGroup_heap heap
  have ends : ∃ s, g :: s = before ++ z :: later.takeWhile (onAtom (isNewer z.2.id.timestamp)) := by
    cases before with
    | nil =>
      have first : z = g := (List.cons.inj shape').1.symm
      exact ⟨_, by rw [first]; rfl⟩
    | cons b before => exact ⟨_, by rw [(List.cons.inj shape').1]; rfl⟩
  rcases ends with ⟨s, ends⟩
  refine ⟨early, s, later.dropWhile (onAtom (isNewer z.2.id.timestamp)), ?_, ?_⟩
  · rw [shape, shape', ends]
    simp
  · rw [group, ends]
    simp [List.getLast?_append, List.getLast?_cons]

theorem Standing.removeSiblings (standing : Standing getHash w lists buffered) {a : Atom T}
    {r : WeaveResult T} (ran : w.removeSiblingsBefore a = .ok (w', r)) :
    (Silent r ∧ w' = w) ∨
      ∃ start rest lists', r = .atomRemoved start.1 ∧ Taken getHash lists buffered w' lists' (start :: rest) := by
  unfold Weave.removeSiblingsBefore at ran
  split at ran
  · have final := Prod.mk.inj (Except.ok.inj ran)
    exact .inl ⟨final.2 ▸ trivial, final.1.symm⟩
  · next node found =>
      rcases ok_of_bind _ _ _ ran with ⟨siblings, read, later⟩
      rcases (standing.checked.repr.getNode a.id node).mp found with ⟨c, member, rfl, _⟩
      rcases split_at lists c member with ⟨pre, front, after, post, rfl⟩
      have heap := standing.checked.repr.heap.perm (middle_perm pre post buffered _)
      have iterated := ok_of_orDiverges read
      rw [iterateSiblings_heap heap, some.injEq] at iterated
      cases group : (after.takeWhile (onAtom (notOlder c.2.cause))).filter (onAtom (isSibling c.2.cause)) with
      | nil =>
        rw [group] at iterated
        rw [← iterated] at later
        have final := Prod.mk.inj (Except.ok.inj later)
        exact .inl ⟨final.2 ▸ trivial, final.1.symm⟩
      | cons g others =>
        rw [group] at iterated
        rw [← iterated] at later
        rcases ok_of_bind _ _ _ later with ⟨last, ended, third⟩
        rcases ok_of_bind _ _ _ third with ⟨cut, removed, ending⟩
        have final := Prod.mk.inj (Except.ok.inj ending)
        rcases sibling_part heap group with ⟨early, s, back, rfl, stop⟩
        have ends := Except.ok.inj (stop.symm.trans ended)
        have shape : front ++ c :: (early ++ (g :: s) ++ back) = (front ++ c :: early) ++ (g :: s) ++ back := by
          simp
        rw [shape] at standing ⊢
        rcases standing.takeSpan (by simp) with ⟨w'', run, taken⟩
        rw [ends, removed, Except.ok.injEq] at run
        rw [← run, final.1] at taken
        exact .inr ⟨g, s, _, final.2.symm, taken⟩

/-! ### Insertions -/

theorem Standing.released_signed (standing : Standing getHash w lists buffered) {a b : Atom T}
    (adopts : AdoptsChecked getHash w a) (released : Released w a b) : Signed getHash b := by
  rcases released with ⟨n, value, start, atom, waits, chain, read, inside⟩
  have repr := standing.checked.repr
  rcases (repr.buffer.mem_values n).mp value with ⟨c, member, rfl⟩
  have same : c.2 = start := some.inj ((repr.atomAt c (.inr member)).symm.trans atom)
  subst same
  rcases List.mem_flatten.mp member with ⟨l, present, inL⟩
  rcases List.append_of_mem inL with ⟨front, after, rfl⟩
  rcases List.append_of_mem present with ⟨before, later, rfl⟩
  have moved : (lists ++ (before ++ (front ++ c :: after) :: later)).Perm
      ((front ++ c :: after) :: (lists ++ before ++ later)) := by
    rw [← List.append_assoc]
    exact List.perm_middle
  have heap := repr.heap.perm moved
  have walk : w.iterateFrom (some c.1) = some (refs (c :: after)) := heap.walk
  rw [Weave.atomsFrom, walk, Option.map_some, filterMap_atomAt w (c :: after) (fun d here =>
    heap.atomAt _ mem_cons_self d (mem_append_right _ here)), some.injEq] at read
  rw [← read] at inside
  rcases mem_map.mp inside with ⟨d, here, rfl⟩
  rcases mem_cons.mp here with first | tail
  · rw [first]
    exact (signed_of_checked c.2 a (adopts c.2 (.inr (buffered_atom repr c member)) waits)).1
  · have inTail : d ∈ (front ++ c :: after).tail := by
      cases front with
      | nil => exact tail
      | cons f front => exact mem_append_right _ (mem_cons_of_mem _ tail)
    rcases (standing.checked.waiting _ present).parent_of inTail with ⟨p, _, link⟩
    exact (signed_of_checked d.2 p.2 link.2).1

theorem joins_signed {a : Atom T} (joins : Joins getHash w a) : Signed getHash a := by
  unfold Joins at joins
  split at joins
  · exact signed_of_matches a none joins.1
  · rcases joins with ⟨n, c, _, _, check⟩
    exact (signed_of_checked a c check).1

theorem Standing.insert (standing : Standing getHash w lists buffered) {a : Atom T} {r : WeaveResult T}
    (safe : Safe getHash w a) (ran : w.insert getHash a = .ok (w', r)) :
    ∃ lists' buffered', Standing getHash w' lists' buffered' := by
  by_cases defined : a.cause = none → a.id.cardinality ≠ .null
  · rcases standing.checked.insert under_orders a safe (fun _ => cuts_under standing.checked a) defined with
      ⟨w'', r', lists', buffered', run, checked, _, _, grown⟩
    rw [ran, Except.ok.injEq, Prod.mk.injEq] at run
    rw [← run.1] at checked
    refine ⟨lists', buffered', checked, fun d member => ?_⟩
    rcases grown d member with old | ⟨_, joins, same | ⟨new, released⟩⟩
    · exact standing.signed d old
    · exact same ▸ joins_signed joins
    · exact standing.released_signed (safe.adopts (.inl ⟨joins, new⟩)) released
  · -- such a root is turned away, or reading its cardinality throws
    rw [not_forall] at defined
    obtain ⟨noCause, null⟩ := defined
    simp only [Weave.insert, noCause, Weave.insertRoot, not_not.mp null] at ran
    split at ran
    · have final := Prod.mk.inj (Except.ok.inj ran)
      exact ⟨lists, buffered, final.1 ▸ standing⟩
    · cases ran

theorem Standing.joins (standing : Standing getHash w lists buffered) {a winner loser : Atom T}
    {ref : Option Ref} {e : Ref} (here : w.getNode a.id = some e)
    (ran : w.insert getHash a = .ok (w', .conflict winner loser ref)) : Joins getHash w a := by
  unfold Joins
  unfold Weave.insert at ran
  cases caused : a.cause with
  | none =>
    simp only [caused] at ran ⊢
    unfold Weave.insertRoot at ran
    split at ran
    · cases (Prod.mk.inj (Except.ok.inj ran)).2
    · next valid =>
        have matched : atomMatchesHash getHash a none = true := by simpa using valid
        refine ⟨matched, fun cardinality same => ?_, fun none => by rw [here] at none; cases none⟩
        rw [same] at ran
        simp only at ran
        split at ran
        · cases (Prod.mk.inj (Except.ok.inj ran)).2
        · next positive => exact not_le.mp positive
  | some cause =>
    simp only [caused] at ran ⊢
    split at ran
    · exact (missing_silent ran).2.elim
    · next node found =>
        rcases (standing.checked.repr.getNode cause node).mp found with ⟨c, member, rfl, _⟩
        have atom := standing.checked.repr.atomAt c (.inl member)
        refine ⟨c.1, c.2, found, atom, ?_⟩
        unfold Weave.insertChild at ran
        rw [atom, Option.bind_some] at ran
        split at ran
        · next rejection rejected =>
            have silent := silent_rejection rejected
            rw [(Prod.mk.inj (Except.ok.inj ran)).2] at silent
            exact silent.elim
        · next check => exact check

/-! ### Which cells and hashes are listed -/

section Listed

variable {lists' buffered' : List (List (Cell T))} {a : Atom T}

theorem listed_of_kept (repr : Repr w lists buffered) (keeps : WeaveNodes.Keeps w w') (d : Cell T)
    (found : w.idMap.get (idKey d) = some d.1) (atom : w'.atomAt d.1 = some d.2) : d ∈ lists.flatten := by
  rcases (repr.idMap _ _).mp found with ⟨c, member, same, _⟩
  have other := keeps.atoms _ _ (repr.atomAt c (.inl member))
  rw [same, atom, some.injEq] at other
  exact (Prod.ext same other.symm : c = d) ▸ member

theorem same_cells (repr : Repr w lists buffered) (repr' : Repr w' lists' buffered')
    (ids : w'.idMap = w.idMap) (keeps : WeaveNodes.Keeps w w') (d : Cell T) :
    d ∈ lists'.flatten ↔ d ∈ lists.flatten := by
  constructor
  · intro member
    exact listed_of_kept repr keeps d (ids ▸ repr'.idMap.get d member) (repr'.atomAt d (.inl member))
  · intro member
    have found : w'.idMap.get (idKey d) = some d.1 := ids ▸ repr.idMap.get d member
    exact listed_of_kept repr' (WeaveNodes.Keeps.refl w') d found (keeps.atoms _ _ (repr.atomAt d (.inl member)))

theorem grown_cells (repr : Repr w lists buffered) (repr' : Repr w' lists' buffered') {n : Ref}
    (ids : w'.idMap = w.idMap.set (atomIdToString a.id) n) (atom : w'.atomAt n = some a)
    (fresh : ∀ d ∈ lists.flatten, idKey d ≠ atomIdToString a.id) (keeps : WeaveNodes.Keeps w w') (d : Cell T) :
    d ∈ lists'.flatten ↔ d = (n, a) ∨ d ∈ lists.flatten := by
  have whole := WeaveNodes.Keeps.refl w'
  constructor
  · intro member
    have found := repr'.idMap.get d member
    have own := repr'.atomAt d (.inl member)
    rw [ids, OrderedMap.get_set] at found
    split at found
    · have same : n = d.1 := some.inj found
      rw [← same, atom, some.injEq] at own
      exact .inl (Prod.ext same.symm own.symm)
    · exact .inr (listed_of_kept repr keeps d found own)
  · rintro (rfl | member)
    · refine listed_of_kept repr' whole _ ?_ atom
      rw [ids, OrderedMap.get_set]
      exact if_pos rfl
    · refine listed_of_kept repr' whole d ?_ (keeps.atoms _ _ (repr.atomAt d (.inl member)))
      rw [ids, OrderedMap.get_set, if_neg (fresh d member)]
      exact repr.idMap.get d member

theorem mem_hashes (repr : Repr w lists buffered) (hash : JsString) :
    hash ∈ hashes w ↔ ∃ d ∈ lists.flatten, d.2.hash = hash := by
  have read : w.getAtoms = some (atoms lists.flatten) := by
    have roots := rootLists_repr repr
    rw [rootLists] at roots
    rw [Weave.getAtoms, roots, Option.map_some, atoms_flatten]
  rw [hashes, read, Option.getD_some, atoms, List.map_map]
  exact mem_map

theorem same_hashes (repr : Repr w lists buffered) (repr' : Repr w' lists' buffered')
    (same : ∀ d, d ∈ lists'.flatten ↔ d ∈ lists.flatten) (hash : JsString) :
    hash ∈ hashes w' ↔ hash ∈ hashes w := by
  simp only [mem_hashes repr, mem_hashes repr', same]

theorem Standing.same_hash (injective : Function.Injective getHash) (standing : Standing getHash w lists buffered)
    (c d : Cell T) (left : c ∈ lists.flatten) (right : d ∈ lists.flatten) (same : c.2.hash = d.2.hash) : c = d :=
  standing.checked.repr.id_unique c d left right
    (signed_string injective c.2 d.2 (standing.signed c left) (standing.signed d right) same)

theorem Standing.new_hash (injective : Function.Injective getHash) (standing : Standing getHash w lists buffered)
    (signed : Signed getHash a) (fresh : ∀ d ∈ lists.flatten, idKey d ≠ atomIdToString a.id) :
    a.hash ∉ hashes w := by
  intro member
  rcases (mem_hashes standing.checked.repr a.hash).mp member with ⟨d, inside, same⟩
  exact fresh d inside (signed_string injective d.2 a (standing.signed d inside) signed same)

theorem apart_cell {chain : List (Cell T)} (apart : Apart w lists buffered chain) (d : Cell T)
    (inside : d ∈ chain) : d ∉ lists.flatten := by
  intro listed
  refine apart.outside d.1 (mem_refs d chain inside) (inUse_of_cell w (c := d) ?_)
  rw [List.flatten_append]
  exact mem_append_left _ listed

section Taken

variable {chain : List (Cell T)}

theorem Taken.cell (taken : Taken getHash lists buffered w' lists' chain) (d : Cell T) (inside : d ∈ chain) :
    d ∈ lists.flatten := (taken.parts d).mpr (.inl inside)

theorem Taken.distinct (injective : Function.Injective getHash) (standing : Standing getHash w lists buffered)
    (taken : Taken getHash lists buffered w' lists' chain) : ((atoms chain).map Atom.hash).Nodup := by
  have nodup : chain.Nodup := by
    have distinct := taken.apart.heap.distinct
    simp only [List.flatten_cons, List.flatten_nil, List.append_nil] at distinct
    exact distinct.of_map _
  rw [atoms, List.map_map]
  refine nodup.map_on (fun c left d right same => ?_)
  exact standing.same_hash injective c d (taken.cell c left) (taken.cell d right) same

theorem Taken.listed (standing : Standing getHash w lists buffered)
    (taken : Taken getHash lists buffered w' lists' chain) : ∀ b ∈ atoms chain, b.hash ∈ hashes w := by
  intro b member
  rcases mem_map.mp member with ⟨d, inside, rfl⟩
  exact (mem_hashes standing.checked.repr _).mpr ⟨d, taken.cell d inside, rfl⟩

theorem Taken.hashes (injective : Function.Injective getHash) (standing : Standing getHash w lists buffered)
    (taken : Taken getHash lists buffered w' lists' chain) (hash : JsString) :
    hash ∈ hashes w' ↔ hash ∈ hashes w ∧ hash ∉ (atoms chain).map Atom.hash := by
  rw [mem_hashes standing.checked.repr, mem_hashes taken.standing.checked.repr]
  constructor
  · rintro ⟨d, inside, rfl⟩
    have old := (taken.parts d).mpr (.inr inside)
    refine ⟨⟨d, old, rfl⟩, fun gone => ?_⟩
    rcases mem_map.mp gone with ⟨b, inChain, same⟩
    rcases mem_map.mp inChain with ⟨c, member, rfl⟩
    have equal := standing.same_hash injective c d (taken.cell c member) old same
    exact apart_cell taken.apart c member (equal ▸ inside)
  · rintro ⟨⟨d, old, rfl⟩, kept⟩
    rcases (taken.parts d).mp old with gone | inside
    · exact absurd (List.mem_map_of_mem (List.mem_map_of_mem gone)) kept
    · exact ⟨d, inside, rfl⟩

end Taken

end Listed

/-! ### What a call does -/

/-- The call puts the atoms `new` in and takes the atoms `gone` out. -/
structure Turn (w w' : Weave T) (r : WeaveResult T) (new gone : List (Atom T)) : Prop where
  result : ∀ changes, addResult w' changes r = some (gone.foldl removeAtom (changes.push new))
  told : entered r = new
  plain : isReleased r = false ∧ stood [r] = []
  fresh : ∀ a ∈ new, a.hash ∉ hashes w
  once : (new.map Atom.hash).Nodup
  listed : ∀ a ∈ gone, a.hash ∈ hashes w
  distinct : (gone.map Atom.hash).Nodup
  now : ∀ hash, hash ∈ hashes w' ↔
    hash ∈ new.map Atom.hash ∨ hash ∈ hashes w ∧ hash ∉ gone.map Atom.hash

inductive Effect (w w' : Weave T) : WeaveResult T → Prop where
  | quiet {r : WeaveResult T} (silent : Silent r) (same : ∀ hash, hash ∈ hashes w' ↔ hash ∈ hashes w) :
      Effect w w' r
  | stood {old loser : Atom T} (here : old.hash ∈ hashes w) (same : ∀ hash, hash ∈ hashes w' ↔ hash ∈ hashes w) :
      Effect w w' (.conflict old loser none)
  | released {atoms : List (Atom T)} (more : ∃ hash ∈ hashes w', hash ∉ hashes w) :
      Effect w w' (.atomsAdded atoms)
  | turned {r : WeaveResult T} {new gone : List (Atom T)} (turn : Turn w w' r new gone) : Effect w w' r

/-- The node of the list that the call has taken out. -/
def takenOut : WeaveResult T → Option Ref
  | .conflict _ _ ref => ref
  | .atomRemoved ref => some ref
  | _ => none

/-- From the node on there is a list that is out of the weave. -/
def Away (w : Weave T) (lists buffered : List (List (Cell T))) (ref : Ref) : Prop :=
  ∃ start rest, start.1 = ref ∧ Apart w lists buffered (start :: rest)

structure Passage (getHash : AtomHashInput T → JsString) (w : Weave T) (lists buffered : List (List (Cell T)))
    (w' : Weave T) (r : WeaveResult T) (lists' buffered' : List (List (Cell T))) : Prop where
  standing : Standing getHash w' lists' buffered'
  stays : Stays (InUse w lists buffered) w w'
  away : ∀ ref, takenOut r = some ref → Away w' lists' buffered' ref
  effect : Effect w w' r

theorem takenOut_silent {r : WeaveResult T} (silent : Silent r) : takenOut r = none := by
  cases r <;> first | rfl | exact silent.elim

theorem nothing_away {r : WeaveResult T} (nothing : takenOut r = none) (ref : Ref)
    (out : takenOut r = some ref) : Away w lists buffered ref := by
  rw [nothing] at out
  cases out

theorem removeRef_away {chain : List (Cell T)} {start : Cell T}
    (apart : Apart w lists buffered (start :: chain)) (changes : Changes T) :
    removeRef w changes start.1 = some ((atoms (start :: chain)).foldl removeAtom changes) := by
  rw [removeRef, apart.atomsFrom, Option.map_some]

section Passages

variable {a : Atom T} {r : WeaveResult T}

theorem passage_same (standing : Standing getHash w lists buffered) (silent : Silent r) :
    Passage getHash w lists buffered w r lists buffered where
  standing := standing
  stays := (sealed_of_repr standing.checked.repr).stays
  away := nothing_away (takenOut_silent silent)
  effect := .quiet silent (fun _ => Iff.rfl)

variable {start : Cell T} {rest : List (Cell T)} {mid : Weave T}

theorem taken_turn (injective : Function.Injective getHash) (standing : Standing getHash w lists buffered)
    {lists' : List (List (Cell T))} (taken : Taken getHash lists buffered w' lists' (start :: rest)) :
    Turn w w' (.atomRemoved start.1) [] (atoms (start :: rest)) where
  result changes := by
    rw [Changes.push, List.append_nil]
    exact removeRef_away taken.apart changes
  told := rfl
  plain := ⟨rfl, rfl⟩
  fresh b member := by cases member
  once := List.nodup_nil
  listed := taken.listed standing
  distinct := taken.distinct injective standing
  now hash := by
    rw [taken.hashes injective standing]
    simp

theorem passage_taken (injective : Function.Injective getHash) (standing : Standing getHash w lists buffered)
    (stays : Stays (InUse w lists buffered) w w')
    {lists' : List (List (Cell T))} (taken : Taken getHash lists buffered w' lists' (start :: rest)) :
    Passage getHash w lists buffered w' (.atomRemoved start.1) lists' buffered where
  standing := taken.standing
  stays := stays
  away _ out := ⟨start, rest, some.inj out, taken.apart⟩
  effect := .turned (taken_turn injective standing taken)

theorem passage_remove (injective : Function.Injective getHash) (standing : Standing getHash w lists buffered)
    (ran : w.remove a = .ok (w', r)) : ∃ lists', Passage getHash w lists buffered w' r lists' buffered := by
  have stays := (sealed_of_repr standing.checked.repr).remove (backed_of_repr standing.checked.repr) ran
  rcases standing.remove ran with ⟨silent, rfl⟩ | ⟨start, rest, lists', rfl, taken⟩
  · exact ⟨lists, passage_same standing silent⟩
  · exact ⟨lists', passage_taken injective standing stays taken⟩

theorem passage_removeSiblings (injective : Function.Injective getHash)
    (standing : Standing getHash w lists buffered) (ran : w.removeSiblingsBefore a = .ok (w', r)) :
    ∃ lists', Passage getHash w lists buffered w' r lists' buffered := by
  have stays := (sealed_of_repr standing.checked.repr).removeSiblingsBefore ran
  rcases standing.removeSiblings ran with ⟨silent, rfl⟩ | ⟨start, rest, lists', rfl, taken⟩
  · exact ⟨lists, passage_same standing silent⟩
  · exact ⟨lists', passage_taken injective standing stays taken⟩

theorem ok_of_map {α β : Type} {f : α → β} {x : Except Failure α} {b : β} (ran : x.map f = .ok b) :
    ∃ a, x = .ok a ∧ f a = b := by
  cases x with
  | error failure => cases ran
  | ok a => exact ⟨a, rfl, Except.ok.inj ran⟩

/-- The new atom goes in under a node of `L`, which keeps what is not of `L` as it is. -/
theorem placed_stays {L : Ref → Prop} (isSealed : Sealed L mid) (placed : Placed w a mid w')
    (cause : ∀ id node, a.cause = some id → w.getNode id = some node → L node) :
    Stays L mid w' ∧ WeaveNodes.Keeps mid w' := by
  cases placed with
  | root noCause made => exact made ▸ ⟨isSealed.addRoot a, keeps_addRoot mid a⟩
  | under caused found made =>
    rcases ok_of_map made with ⟨put, ran, same⟩
    exact same ▸ ⟨isSealed.insertUnder (cause _ _ caused found) ran, keeps_insertUnder mid _ a false put ran⟩

theorem cause_kept {front after : List (Cell T)} {c : Cell T} {lists' : List (List (Cell T))}
    (standing : Standing getHash w (pre ++ (front ++ c :: after) :: post) buffered)
    (same : idKey c = atomIdToString a.id) (smaller : a.hash < c.2.hash) (keeps : KeepsCause w a)
    (taken : Taken getHash (pre ++ (front ++ c :: after) :: post) buffered mid lists'
      (c :: after.takeWhile (onAtom (isNewer c.2.id.timestamp))))
    (id : AtomId) (node : Ref) (caused : a.cause = some id) (found : w.getNode id = some node) :
    InUse mid lists' buffered node := by
  have repr := standing.checked.repr
  rcases (repr.getNode id node).mp found with ⟨q, member, rfl, named⟩
  rcases (taken.parts q).mp member with gone | kept
  · have replaced := (replaced_iff repr a same smaller q.1).mpr (mem_refs q _ gone)
    exact absurd ⟨id, caused, named.symm⟩ (keeps q.1 q.2 replaced (repr.atomAt q (.inl member)))
  · refine inUse_of_cell mid ?_
    rw [List.flatten_append]
    exact mem_append_left _ kept

theorem joined_turn (injective : Function.Injective getHash) (standing : Standing getHash w lists buffered)
    {lists' buffered' : List (List (Cell T))} (standing' : Standing getHash w' lists' buffered') {n : Ref}
    (fresh : ∀ d ∈ lists.flatten, idKey d ≠ atomIdToString a.id)
    (cells : ∀ d, d ∈ lists'.flatten ↔ d = (n, a) ∨ d ∈ lists.flatten) : Turn w w' (.atomAdded a) [a] [] where
  result _ := rfl
  told := rfl
  plain := ⟨rfl, rfl⟩
  fresh b member := by
    have signed := standing'.signed (n, a) ((cells _).mpr (.inl rfl))
    exact mem_singleton.mp member ▸ standing.new_hash injective signed fresh
  once := List.nodup_singleton _
  listed b member := by cases member
  distinct := List.nodup_nil
  now hash := by
    simp [mem_hashes standing.checked.repr, mem_hashes standing'.checked.repr, cells, or_and_right, exists_or, eq_comm]

theorem replaced_turn (injective : Function.Injective getHash) (standing : Standing getHash w lists buffered)
    {between lists' buffered' : List (List (Cell T))}
    (member : start ∈ lists.flatten) (same : idKey start = atomIdToString a.id) (differs : start.2.hash ≠ a.hash)
    (taken : Taken getHash lists buffered mid between (start :: rest))
    (standing' : Standing getHash w' lists' buffered') (apart : Apart w' lists' buffered' (start :: rest)) {n : Ref}
    (cells : ∀ d, d ∈ lists'.flatten ↔ d = (n, a) ∨ d ∈ between.flatten) :
    Turn w w' (.conflict a start.2 (some start.1)) [a] (atoms (start :: rest)) where
  result changes := removeRef_away apart (changes.push [a])
  told := rfl
  plain := ⟨rfl, rfl⟩
  fresh b inside := by
    rw [mem_singleton.mp inside]
    intro listed
    rcases (mem_hashes standing.checked.repr a.hash).mp listed with ⟨d, inLists, hash⟩
    have signed := standing'.signed (n, a) ((cells _).mpr (.inl rfl))
    have named := signed_string injective d.2 a (standing.signed d inLists) signed hash
    have equal := standing.checked.repr.id_unique d start inLists member (named.trans same.symm)
    exact differs (equal ▸ hash)
  once := List.nodup_singleton _
  listed := taken.listed standing
  distinct := taken.distinct injective standing
  now hash := by
    rw [← taken.hashes injective standing]
    simp [mem_hashes taken.standing.checked.repr, mem_hashes standing'.checked.repr, cells, or_and_right,
      exists_or, eq_comm]

theorem fresh_left (standing : Standing getHash w lists buffered) {between : List (List (Cell T))}
    (member : start ∈ lists.flatten) (same : idKey start = atomIdToString a.id)
    (taken : Taken getHash lists buffered mid between (start :: rest)) :
    ∀ d ∈ between.flatten, idKey d ≠ atomIdToString a.id := by
  intro d inside named
  have old := (taken.parts d).mpr (.inr inside)
  have equal := standing.checked.repr.id_unique start d member old (same.trans named.symm)
  exact apart_cell taken.apart start mem_cons_self (equal ▸ inside)

theorem passage_insert (injective : Function.Injective getHash) (standing : Standing getHash w lists buffered)
    (safe : Safe getHash w a) (ran : w.insert getHash a = .ok (w', r)) :
    ∃ lists' buffered', Passage getHash w lists buffered w' r lists' buffered' := by
  have repr := standing.checked.repr
  have stays := (sealed_of_repr repr).insert (backed_of_repr repr) ran
  have keeps := keeps_insert getHash w _ a ran
  rcases standing.insert safe ran with ⟨lists', buffered', standing'⟩
  have repr' := standing'.checked.repr
  cases insert_outcome ran with
  | silent ids silent =>
    have same := same_hashes repr repr' (same_cells repr repr' ids keeps)
    exact ⟨lists', buffered', standing', stays, nothing_away (takenOut_silent silent), .quiet silent same⟩
  | stood here atom same =>
    subst same
    rcases (repr.getNode _ _).mp here with ⟨c, member, rfl, _⟩
    rw [repr.atomAt c (.inl member), some.injEq] at atom
    have listed := (mem_hashes repr _).mpr ⟨c, member, congrArg Atom.hash atom⟩
    exact ⟨lists, buffered, standing, (sealed_of_repr repr).stays, nothing_away rfl, .stood listed (fun _ => Iff.rfl)⟩
  | joined new ids atom =>
    have fresh := (repr.getNode_none a.id).mp new
    have cells := grown_cells repr repr' ids atom fresh keeps
    exact ⟨lists', buffered', standing', stays, nothing_away rfl,
      .turned (joined_turn injective standing standing' fresh cells)⟩
  | released new known =>
    refine ⟨lists', buffered', standing', stays, nothing_away rfl, .released ?_⟩
    rcases Option.ne_none_iff_exists'.mp known with ⟨n, found⟩
    rcases (repr'.getNode a.id n).mp found with ⟨c, member, _, named⟩
    refine ⟨c.2.hash, (mem_hashes repr' _).mpr ⟨c, member, rfl⟩, ?_⟩
    apply standing.new_hash injective (standing'.signed c member)
    exact fun d inside same => (repr.getNode_none a.id).mp new d inside (same.trans named)
  | replaced here atom differs smaller removed placed ids found =>
    have joins := standing.joins here ran
    rcases (repr.getNode _ _).mp here with ⟨c, member, rfl, same⟩
    rw [repr.atomAt c (.inl member), some.injEq] at atom
    subst atom
    have lower : a.hash < c.2.hash := lt_of_le_of_ne (not_lt.mp smaller) (Ne.symm differs)
    rcases split_at lists c member with ⟨pre, front, after, post, rfl⟩
    rcases standing.takeNode with ⟨mid, run, taken⟩
    rw [removed, Except.ok.injEq] at run
    subst run
    have free := cause_kept standing same lower (safe.replaces joins) taken
    rcases placed_stays (sealed_of_repr taken.standing.checked.repr) placed free with ⟨second, kept⟩
    have fresh := fresh_left standing member same taken
    have cells := grown_cells taken.standing.checked.repr repr' ids found fresh kept
    have apart := taken.apart.stays repr' second
    have turn := replaced_turn injective standing member same differs taken standing' apart cells
    exact ⟨lists', buffered', standing', stays, fun ref out => ⟨c, _, some.inj out, apart⟩, .turned turn⟩

theorem passage (injective : Function.Injective getHash) (standing : Standing getHash w lists buffered)
    {call : Call T} (safe : SafeCall getHash w call) (ran : perform getHash w call = .ok (w', r)) :
    ∃ lists' buffered', Passage getHash w lists buffered w' r lists' buffered' := by
  cases call with
  | insert atom => exact passage_insert injective standing safe ran
  | remove atom =>
    rcases passage_remove injective standing ran with ⟨lists', done⟩
    exact ⟨lists', buffered, done⟩
  | removeSiblingsBefore atom =>
    rcases passage_removeSiblings injective standing ran with ⟨lists', done⟩
    exact ⟨lists', buffered, done⟩

end Passages

theorem standing_new (size : Option Int) : Standing getHash (Weave.new size : Weave T) [] [] where
  checked := checked_new size
  signed d member := by cases member

theorem reached_standing (injective : Function.Injective getHash) (reached : BatchDiff.Reached getHash w) :
    ∃ lists buffered, Standing getHash w lists buffered := by
  induction reached with
  | new size => exact ⟨[], [], standing_new size⟩
  | call call reached safe ran ih =>
    rcases ih with ⟨lists, buffered, standing⟩
    rcases passage injective standing safe ran with ⟨lists', buffered', done⟩
    exact ⟨lists', buffered', done.standing⟩

end CasualOS.BatchCalls
