import CasualOS.WeaveRepr

/-! What a weave shows: the lists of its roots, their links, and what the maps find. -/

namespace CasualOS.WeaveRead

open Dll (Ref)
open WeaveHeap WeaveRepr

variable {T : Type} {w : Weave T} {cells buffered : List (List (Cell T))}

theorem filterMap_atomAt (w : Weave T) (l : List (Cell T))
    (found : ∀ c ∈ l, w.atomAt c.1 = some c.2) : (refs l).filterMap w.atomAt = atoms l := by
  induction l with
  | nil => rfl
  | cons c l ih =>
    rw [refs_cons, List.filterMap_cons_some (found c List.mem_cons_self),
      ih (fun d member => found d (List.mem_cons_of_mem _ member)), atoms_cons]

theorem atomsFrom_repr (repr : Repr w cells buffered) {start : Cell T}
    {s : List (Cell T)} (member : start :: s ∈ cells) : w.atomsFrom start.1 = some (atoms (start :: s)) := by
  obtain ⟨pre, post, rfl⟩ := List.append_of_mem member
  have heap := repr.heap.perm (middle_perm pre post buffered _)
  have walk : w.iterateFrom (some start.1) = some (refs (start :: s)) := heap.walk_all
  have found : ∀ c ∈ start :: s, w.atomAt c.1 = some c.2 := heap.atomAt _ List.mem_cons_self
  rw [Weave.atomsFrom, walk, Option.map_some, filterMap_atomAt w _ found]

def rootLists (w : Weave T) : Option (List (List (Atom T))) := w.roots.mapM w.atomsFrom

/-- The node is in the list of a root. -/
def Listed (w : Weave T) (r : Ref) : Prop :=
  ∃ root ∈ w.roots, ∃ nodes, w.iterateFrom (some root) = some nodes ∧ r ∈ nodes

theorem rootLists_repr (repr : Repr w cells buffered) : rootLists w = some (cells.map atoms) := by
  have read : ∀ l ∈ cells, ∃ start s, l = start :: s ∧ w.atomsFrom start.1 = some (atoms l) := by
    intro l member
    obtain ⟨start, s, rfl⟩ := List.exists_cons_of_ne_nil (repr.filled l member)
    exact ⟨start, s, rfl, atomsFrom_repr repr member⟩
  rw [rootLists, repr.roots]
  clear repr
  induction cells with
  | nil => rfl
  | cons l cells ih =>
    obtain ⟨start, s, rfl, found⟩ := read l List.mem_cons_self
    have rest := ih (fun m member => read m (List.mem_cons_of_mem _ member))
    rw [List.filterMap_cons_some (b := start.1) (by simp), List.mapM_cons, found, rest]
    rfl

theorem listed_iff (repr : Repr w cells buffered) (r : Ref) : Listed w r ↔ ∃ c ∈ cells.flatten, c.1 = r := by
  have walk : ∀ start s, start :: s ∈ cells → w.iterateFrom (some start.1) = some (refs (start :: s)) := by
    intro start s member
    obtain ⟨pre, post, rfl⟩ := List.append_of_mem member
    exact (repr.heap.perm (middle_perm pre post buffered _)).walk_all
  constructor
  · rintro ⟨root, member, nodes, found, inside⟩
    rw [repr.roots] at member
    obtain ⟨l, present, head⟩ := List.mem_filterMap.mp member
    obtain ⟨start, s, rfl⟩ := List.exists_cons_of_ne_nil (repr.filled l present)
    obtain rfl : start.1 = root := by simpa using head
    rw [walk start s present, Option.some.injEq] at found
    subst found
    obtain ⟨c, inL, rfl⟩ := List.mem_map.mp inside
    exact ⟨c, List.mem_flatten.mpr ⟨_, present, inL⟩, rfl⟩
  · rintro ⟨c, member, rfl⟩
    obtain ⟨l, present, inside⟩ := List.mem_flatten.mp member
    obtain ⟨start, s, rfl⟩ := List.exists_cons_of_ne_nil (repr.filled l present)
    refine ⟨start.1, ?_, _, walk start s present, mem_refs c _ inside⟩
    rw [repr.roots]
    exact List.mem_filterMap.mpr ⟨_, present, by simp⟩

/-- Among the listed nodes `prev` is the inverse of `next`, and the roots have no node before them. -/
structure LinksAgree (w : Weave T) : Prop where
  next_prev : ∀ r s, Listed w r → Dll.nextAt w.nodes r = some s →
    Listed w s ∧ Dll.prevAt w.nodes s = some r
  prev_next : ∀ r s, Listed w s → Dll.prevAt w.nodes s = some r →
    Listed w r ∧ Dll.nextAt w.nodes r = some s
  roots_prev : ∀ r ∈ w.roots, Dll.prevAt w.nodes r = none

theorem split_at (cells : List (List (Cell T))) (c : Cell T) (member : c ∈ cells.flatten) :
    ∃ pre front after post, cells = pre ++ (front ++ c :: after) :: post := by
  obtain ⟨l, present, inside⟩ := List.mem_flatten.mp member
  obtain ⟨pre, post, rfl⟩ := List.append_of_mem present
  obtain ⟨front, after, rfl⟩ := List.append_of_mem inside
  exact ⟨pre, front, after, post, rfl⟩

theorem links_agree (repr : Repr w cells buffered) : LinksAgree w where
  next_prev r s := by
    rw [listed_iff repr, listed_iff repr]
    rintro ⟨c, member, rfl⟩ next
    obtain ⟨pre, front, after, post, rfl⟩ := split_at cells c member
    have heap := repr.heap.perm (middle_perm pre post buffered _)
    rw [heap.next] at next
    obtain ⟨d, after, rfl⟩ : ∃ d rest, after = d :: rest := by
      cases after with
      | nil => simp at next
      | cons d rest => exact ⟨d, rest, rfl⟩
    obtain rfl : d.1 = s := by simpa using next
    refine ⟨⟨d, (flatten_middle ..).mpr (.inl (by simp)), rfl⟩, ?_⟩
    have linked := repr.linked _ (List.mem_append_right _ List.mem_cons_self)
    rw [show front ++ c :: d :: after = (front ++ [c]) ++ d :: after by simp, refs_append] at linked
    rw [Dll.linked_prev _ _ _ d.1 linked (by simp)]
    simp
  prev_next r s := by
    rw [listed_iff repr, listed_iff repr]
    rintro ⟨d, member, rfl⟩ previous
    obtain ⟨pre, front, after, post, rfl⟩ := split_at cells d member
    have heap := repr.heap.perm (middle_perm pre post buffered _)
    have linked := repr.linked _ (List.mem_append_right _ List.mem_cons_self)
    rw [refs_append] at linked
    rw [Dll.linked_prev _ _ _ d.1 linked (by simp)] at previous
    rcases List.eq_nil_or_concat' front with rfl | ⟨front, c, rfl⟩
    · simp at previous
    · obtain rfl : c.1 = r := by simpa using previous
      refine ⟨⟨c, (flatten_middle ..).mpr (.inl (by simp)), rfl⟩, ?_⟩
      rw [List.append_assoc, List.singleton_append] at heap
      rw [heap.next]
      rfl
  roots_prev r member := by
    rw [repr.roots] at member
    obtain ⟨l, present, head⟩ := List.mem_filterMap.mp member
    exact repr.starts l present r head

theorem index_iff (repr : Repr w cells buffered) (index : OrderedMap JsString Ref) (name : Atom T → JsString)
    (indexes : index.Indexes (fun c => name c.2) Prod.fst cells.flatten) (k : JsString) (r : Ref) :
    index.get k = some r ↔ Listed w r ∧ ∃ a, w.atomAt r = some a ∧ name a = k := by
  rw [indexes k r, listed_iff repr]
  constructor
  · rintro ⟨c, member, rfl, same⟩
    exact ⟨⟨c, member, rfl⟩, c.2, repr.atomAt c (.inl member), same⟩
  · rintro ⟨⟨c, member, rfl⟩, a, found, same⟩
    rw [repr.atomAt c (.inl member), Option.some.injEq] at found
    exact ⟨c, member, rfl, (congrArg name found).trans same⟩

end CasualOS.WeaveRead
