import CasualOS.WeaveHeap
import Mathlib.Data.List.TakeWhile

/-! The lists and maps of a weave kept in step: what each operation does to the lists of cells. -/

namespace CasualOS.WeaveRepr

open Dll (Ref Heap Detached)
open WeaveHeap
open List (append_assoc cons_append flatten_append flatten_cons mem_append mem_append_left mem_cons mem_cons_self
  perm_middle)

variable {T : Type}

def idKey (c : Cell T) : JsString := atomIdToString c.2.id

def hashKey (c : Cell T) : JsString := c.2.hash

/-- `lists` are the lists of the roots, in order, and `buffered` the partial lists that wait for a
cause; the id map and the reorder buffer index exactly their cells. A root has no node before it. -/
structure Repr (w : Weave T) (lists buffered : List (List (Cell T))) : Prop where
  heap : HeapRepr w.nodes (lists ++ buffered)
  starts : ∀ l ∈ lists, ∀ r, (refs l).head? = some r → Dll.prevAt w.nodes r = none
  filled : ∀ l ∈ lists, l ≠ []
  roots : w.roots = lists.filterMap (fun l => (refs l).head?)
  idMap : w.idMap.Indexes idKey Prod.fst lists.flatten
  buffer : w.reorderBuffer.Indexes idKey Prod.fst buffered.flatten

/-- The hash map indexes exactly the listed cells. -/
def Hashed (w : Weave T) (lists : List (List (Cell T))) : Prop :=
  w.hashMap.Indexes hashKey Prod.fst lists.flatten

theorem repr_new (size : Option Int) : Repr (Weave.new size : Weave T) [] [] where
  heap := ⟨by simp, by simp, by simp⟩
  starts := by simp
  filled := by simp
  roots := rfl
  idMap := OrderedMap.indexes_empty _ _
  buffer := OrderedMap.indexes_empty _ _

variable {w : Weave T} {lists buffered pre post : List (List (Cell T))} {l : List (Cell T)}

theorem flatten_middle (pre post : List (List (Cell T))) (l : List (Cell T)) (c : Cell T) :
    c ∈ (pre ++ l :: post).flatten ↔ c ∈ l ∨ c ∈ (pre ++ post).flatten := by
  simp only [flatten_append, flatten_cons, mem_append]
  tauto

theorem Repr.atomAt (repr : Repr w lists buffered) (c : Cell T)
    (member : c ∈ lists.flatten ∨ c ∈ buffered.flatten) : w.atomAt c.1 = some c.2 := by
  have present : c ∈ (lists ++ buffered).flatten := by simpa using member
  obtain ⟨l, inside, member⟩ := List.mem_flatten.mp present
  exact repr.heap.atomAt l inside c member

theorem Repr.cell_unique (repr : Repr w lists buffered) (c d : Cell T) (left : c ∈ lists.flatten ∨ c ∈ buffered.flatten)
    (right : d ∈ lists.flatten ∨ d ∈ buffered.flatten) (same : c.1 = d.1) : c = d := by
  have first := repr.atomAt c left
  rw [same, repr.atomAt d right] at first
  exact Prod.ext same (Option.some.inj first).symm

theorem Repr.id_unique (repr : Repr w lists buffered) (c d : Cell T) (left : c ∈ lists.flatten)
    (right : d ∈ lists.flatten) (same : idKey c = idKey d) : c = d :=
  repr.cell_unique c d (.inl left) (.inl right) (repr.idMap.unique c d left right same)

theorem middle_perm (pre post buffered : List (List (Cell T))) (l : List (Cell T)) :
    (pre ++ l :: post ++ buffered).Perm (l :: (pre ++ post ++ buffered)) := by
  simp only [append_assoc, cons_append]
  exact perm_middle

theorem Repr.linked (repr : Repr w lists buffered) (l : List (Cell T)) (member : l ∈ lists) :
    Dll.Linked w.nodes (refs l) := by
  obtain ⟨o, seg⟩ := repr.heap.closed l (mem_append_left _ member)
  cases l with
  | nil => trivial
  | cons c l =>
    have first := repr.starts _ member c.1 rfl
    obtain ⟨bound, prev, next, rest⟩ := seg
    exact ⟨bound, first, next, rest⟩

theorem Repr.start_apart (repr : Repr w (pre ++ l :: post) buffered) (m : List (Cell T))
    (member : m ∈ pre ++ post) (r : Ref) (head : (refs m).head? = some r) : r ∉ refs l := by
  refine (repr.heap.perm (middle_perm pre post buffered l)).head_apart m ?_ r (List.mem_of_head? head)
  exact mem_append_left _ member

theorem two_perm (pre post buffered : List (List (Cell T))) (l m : List (Cell T)) :
    (pre ++ l :: post ++ m :: buffered).Perm (l :: m :: (pre ++ post ++ buffered)) :=
  (middle_perm pre post (m :: buffered) l).trans (perm_middle.cons l)

theorem Repr.start_listed (repr : Repr w lists buffered) (l m : List (Cell T)) (member : l ∈ lists)
    (waits : m ∈ buffered) (r : Ref) (head : (refs l).head? = some r) : r ∉ refs m := by
  rcases List.append_of_mem waits with ⟨front, after, rfl⟩
  have moved : (lists ++ (front ++ m :: after)).Perm (m :: (lists ++ front ++ after)) := by
    rw [← append_assoc]
    exact perm_middle
  apply (repr.heap.perm moved).head_apart l _ r (List.mem_of_head? head)
  simp [member]

theorem Repr.listed_apart (repr : Repr w lists buffered) (c : Cell T) (listed : c ∈ lists.flatten) :
    c ∉ buffered.flatten := by
  intro waits
  have distinct := repr.heap.distinct
  rw [flatten_append, refs_append] at distinct
  exact (List.nodup_append.mp distinct).2.2 _ (mem_refs c _ listed) _ (mem_refs c _ waits) rfl

theorem Repr.buffered_nodup (repr : Repr w lists buffered) : (atoms buffered.flatten).Nodup := by
  have distinct := repr.heap.distinct
  rw [flatten_append, refs_append] at distinct
  have cells : buffered.flatten.Nodup := ((List.nodup_append.mp distinct).2.1).of_map _
  refine cells.map_on fun c left d right same => ?_
  apply repr.cell_unique c d (.inr left) (.inr right)
  exact repr.buffer.unique c d left right (by rw [idKey, idKey, same])

theorem Repr.buffered_perm (repr : Repr w lists buffered) {buffered' : List (List (Cell T))}
    (same : buffered.Perm buffered') : Repr w lists buffered' where
  heap := repr.heap.perm (same.append_left _)
  starts := repr.starts
  filled := repr.filled
  roots := repr.roots
  idMap := repr.idMap
  buffer := repr.buffer.congr (fun _ => same.flatten.mem_iff)

theorem Repr.getNode (repr : Repr w lists buffered) (id : AtomId) (r : Ref) :
    w.getNode id = some r ↔ ∃ c ∈ lists.flatten, c.1 = r ∧ idKey c = atomIdToString id :=
  repr.idMap _ r

theorem Repr.getNode_none (repr : Repr w lists buffered) (id : AtomId) :
    w.getNode id = none ↔ ∀ c ∈ lists.flatten, idKey c ≠ atomIdToString id :=
  repr.idMap.absent _

theorem filterMap_middle (pre post : List (List (Cell T))) (l m : List (Cell T))
    (same : (refs l).head? = (refs m).head?) :
    (pre ++ l :: post).filterMap (fun l => (refs l).head?) =
      (pre ++ m :: post).filterMap (fun l => (refs l).head?) := by
  simp only [List.filterMap_append, List.filterMap_cons, same]

/-- The roots keep no node before them when only the tail of one list is changed. -/
theorem starts_middle {nodes : Heap (Atom T)} {l m : List (Cell T)}
    (repr : Repr w (pre ++ l :: post) buffered) (heads : (refs l).head? = (refs m).head?)
    (prevs : ∀ k ∈ pre ++ l :: post, ∀ r, (refs k).head? = some r → r ∉ (refs l).tail →
      Dll.prevAt nodes r = Dll.prevAt w.nodes r) :
    ∀ k ∈ pre ++ m :: post, ∀ r, (refs k).head? = some r → Dll.prevAt nodes r = none := by
  have old : ∀ k ∈ pre ++ l :: post, ∀ r, (refs k).head? = some r → r ∉ (refs l).tail → Dll.prevAt nodes r = none := by
    intro k member r head outside
    rw [prevs k member r head outside]
    exact repr.starts k member r head
  intro k member r head
  rcases mem_append.mp member with before | here
  · apply old k (mem_append_left _ before) r head
    intro inside
    exact repr.start_apart k (mem_append_left _ before) r head (List.mem_of_mem_tail inside)
  · rcases mem_cons.mp here with rfl | later
    · rw [← heads] at head
      apply old l (by simp) r head
      intro inside
      have distinct := (repr.heap.perm (middle_perm pre post buffered l)).head_distinct
      cases shape : refs l with
      | nil => simp [shape] at head
      | cons x rest =>
        rw [shape] at head inside distinct
        have same : x = r := by simpa using head
        exact (List.nodup_cons.mp distinct).1 (same ▸ inside)
    · apply old k (by simp [later]) r head
      intro inside
      exact repr.start_apart k (List.mem_append_right _ later) r head (List.mem_of_mem_tail inside)

theorem addNodeToMaps_listed (w : Weave T) (node : Ref) (atom : Atom T)
    (found : w.atomAt node = some atom) : w.addNodeToMaps node false =
      { w with
        idMap := w.idMap.set (atomIdToString atom.id) node
        hashMap := w.hashMap.set atom.hash node } := by
  simp [Weave.addNodeToMaps, found]

theorem addNodeToMaps_buffered (w : Weave T) (node : Ref) (atom : Atom T)
    (found : w.atomAt node = some atom) : w.addNodeToMaps node true =
      { w with reorderBuffer := w.reorderBuffer.set (atomIdToString atom.id) node } := by
  simp [Weave.addNodeToMaps, found]

theorem addRoot_repr (repr : Repr w lists buffered) (atom : Atom T)
    (fresh : ∀ c ∈ lists.flatten, idKey c ≠ atomIdToString atom.id) :
    Repr (w.addRoot atom).1 (lists ++ [[(w.nodes.length, atom)]]) buffered := by
  have heap := repr.heap.alloc atom
  have found : ({ w with
      nodes := (Dll.alloc w.nodes atom none none).1
      roots := w.roots ++ [w.nodes.length] } : Weave T).atomAt w.nodes.length = some atom :=
    heap.atomAt _ mem_cons_self (w.nodes.length, atom) (by simp)
  simp only [Weave.addRoot, Dll.alloc_ref, addNodeToMaps_listed _ _ atom found]
  refine ⟨?_, ?_, ?_, ?_, ?_, repr.buffer⟩
  · refine heap.perm ?_
    rw [append_assoc]
    exact perm_middle.symm
  · intro l member r head
    rw [Dll.prevAt_alloc]
    split
    · rfl
    · next other =>
        rcases mem_append.mp member with old | new
        · exact repr.starts l old r head
        · rw [List.mem_singleton.mp new] at head
          exact absurd (by simpa using head.symm) other
  · intro l member
    rcases mem_append.mp member with member | member
    · exact repr.filled l member
    · simp [List.mem_singleton.mp member]
  · simp [List.filterMap_append, repr.roots]
  · refine repr.idMap.set (w.nodes.length, atom) fresh (fun d => ?_)
    simp [or_comm]

theorem addRoot_hashed (repr : Repr w lists buffered) (hashed : Hashed w lists) (atom : Atom T)
    (fresh : ∀ c ∈ lists.flatten, hashKey c ≠ atom.hash) :
    Hashed (w.addRoot atom).1 (lists ++ [[(w.nodes.length, atom)]]) := by
  have found : ({ w with
      nodes := (Dll.alloc w.nodes atom none none).1
      roots := w.roots ++ [w.nodes.length] } : Weave T).atomAt w.nodes.length = some atom :=
    (repr.heap.alloc atom).atomAt _ mem_cons_self (w.nodes.length, atom) (by simp)
  simp only [Hashed, Weave.addRoot, Dll.alloc_ref, addNodeToMaps_listed _ _ atom found]
  exact OrderedMap.Indexes.set hashed (w.nodes.length, atom) fresh (by simp [or_comm])

theorem mem_place (cause : Atom T) (id : AtomId) (s after : List (Cell T)) (d : Cell T) :
    d ∈ place cause id s after ↔ d ∈ s ∨ d ∈ after := by
  have split : d ∈ after ↔ d ∈ after.takeWhile (onAtom (keeps cause id)) ∨
      d ∈ after.dropWhile (onAtom (keeps cause id)) := by
    rw [← mem_append, List.takeWhile_append_dropWhile]
  rw [split, place, mem_append, mem_append]
  exact ⟨fun h => h.elim (fun h => h.elim (.inr ∘ .inl) .inl) (.inr ∘ .inr),
    fun h => h.elim (.inl ∘ .inr) (fun h => h.elim (.inl ∘ .inl) .inr)⟩

theorem mem_placed (pre post : List (List (Cell T))) (front after : List (Cell T)) (c : Cell T)
    (id : AtomId) (new d : Cell T) :
    d ∈ (pre ++ (front ++ c :: place c.2 id [new] after) :: post).flatten ↔
      d = new ∨ d ∈ (pre ++ (front ++ c :: after) :: post).flatten := by
  simp only [flatten_middle, mem_append, mem_cons, mem_place, List.not_mem_nil, or_false]
  generalize (d ∈ (pre ++ post).flatten) = elsewhere
  constructor
  · rintro ((h | h | h | h) | h) <;> simp [h]
  · rintro (h | (h | h | h) | h) <;> simp [h]

variable {front after s back : List (Cell T)} {c start : Cell T} {all : List (List (Cell T))} {α : Type}

theorem insertUnder_repr (repr : Repr w (pre ++ (front ++ c :: after) :: post) buffered) (atom : Atom T)
    (fresh : ∀ d ∈ (pre ++ (front ++ c :: after) :: post).flatten,
      idKey d ≠ atomIdToString atom.id) :
    ∃ w', w.insertUnder c.1 atom false = .ok (w', w.nodes.length) ∧
      Repr w' (pre ++ (front ++ c :: place c.2 atom.id [(w.nodes.length, atom)] after) :: post)
        buffered ∧
      w'.hashMap = w.hashMap.set atom.hash w.nodes.length ∧
      w'.reorderBuffer = w.reorderBuffer ∧ w'.cardinality = w.cardinality ∧
      w'.maxReorderBufferSize = w.maxReorderBufferSize := by
  obtain ⟨nodes, run, heap, prevs⟩ := insertUnder_heap (repr.heap.perm (middle_perm pre post buffered _)) atom false
  have found : ({ w with nodes := nodes } : Weave T).atomAt w.nodes.length = some atom :=
    heap.atomAt _ mem_cons_self (w.nodes.length, atom) (by simp [place])
  rw [addNodeToMaps_listed _ _ atom found] at run
  have heads : (refs (front ++ c :: after)).head? =
      (refs (front ++ c :: place c.2 atom.id [(w.nodes.length, atom)] after)).head? := by
    cases front <;> simp
  refine ⟨_, run, ⟨heap.perm (middle_perm pre post buffered _).symm,
    starts_middle repr heads (fun k member x head outside => ?_), ?_, ?_, ?_, repr.buffer⟩,
    rfl, rfl, rfl, rfl⟩
  · have below := repr.heap.bound k (mem_append_left _ member) x (List.mem_of_head? head)
    refine prevs x below fun inside => outside ?_
    rcases front with _ | ⟨first, front⟩ <;> simp [inside]
  · intro l member
    simp only [mem_append, mem_cons] at member
    rcases member with member | rfl | member
    · exact repr.filled l (by simp [member])
    · simp
    · exact repr.filled l (by simp [member])
  · rw [← filterMap_middle pre post _ _ heads]
    exact repr.roots
  · exact repr.idMap.set (w.nodes.length, atom) fresh (mem_placed pre post front after c atom.id _)

/-! ### Taking a span out -/

theorem removeNodeId_listed (w : Weave T) (node : Ref) (atom : Atom T)
    (found : w.atomAt node = some atom) : w.removeNodeIdFromMaps node false =
      { w with
        idMap := w.idMap.delete (atomIdToString atom.id)
        hashMap := w.hashMap.delete atom.hash } := by
  simp [Weave.removeNodeIdFromMaps, found]

theorem removeNodeIds_listed (w : Weave T) (l : List (Cell T)) (found : ∀ c ∈ l, w.atomAt c.1 = some c.2) :
    (refs l).foldl (fun w n => w.removeNodeIdFromMaps n false) w =
      { w with
        idMap := (l.map idKey).foldl OrderedMap.delete w.idMap
        hashMap := (l.map hashKey).foldl OrderedMap.delete w.hashMap } := by
  induction l generalizing w with
  | nil => rfl
  | cons c l ih =>
    rw [refs_cons, List.foldl_cons, removeNodeId_listed w c.1 c.2 (found c mem_cons_self)]
    exact ih _ (fun d member => found d (List.mem_cons_of_mem _ member))

theorem removeListFromMaps_heap (heap : HeapRepr w.nodes ((start :: s) :: all)) : w.removeListFromMaps start.1 false =
      .ok { w with
        idMap := ((start :: start :: s).map idKey).foldl OrderedMap.delete w.idMap
        hashMap := ((start :: start :: s).map hashKey).foldl OrderedMap.delete w.hashMap } := by
  have found := heap.atomAt _ mem_cons_self
  have walk : ∀ idMap hashMap, ({ w with idMap := idMap, hashMap := hashMap } : Weave T).iterateFrom (some start.1) =
        some (refs (start :: s)) := fun _ _ => heap.walk_all
  simp only [Weave.removeListFromMaps,
    removeNodeId_listed w start.1 start.2 (found start mem_cons_self), walk, orDiverges, bind,
    Except.bind]
  refine congrArg Except.ok ((removeNodeIds_listed _ (start :: s) ?_).trans rfl)
  exact found

theorem removeSpan_heap (heap : HeapRepr w.nodes ((front ++ (start :: s) ++ back) :: all))
    (linked : Dll.Linked w.nodes (refs (front ++ (start :: s) ++ back))) :
    ∃ nodes, HeapRepr nodes ((front ++ back) :: (start :: s) :: all) ∧
      (∀ x, x ∉ refs (start :: s) → x ∉ refs back → Dll.prevAt nodes x = Dll.prevAt w.nodes x) ∧
      w.removeSpan start.1 ((refs (start :: s)).getLast?.getD start.1) =
        .ok { w with
          nodes := nodes
          roots := if start.2.cause = none then w.roots.erase start.1 else w.roots
          idMap := ((start :: start :: s).map idKey).foldl OrderedMap.delete w.idMap
          hashMap := ((start :: start :: s).map hashKey).foldl OrderedMap.delete w.hashMap } := by
  have final : (refs (start :: s)).getLast? = some ((refs (start :: s)).getLast?.getD start.1) := by
    rw [refs_cons, List.getLast?_cons]
    rfl
  simp only [refs_append] at linked
  have links := Dll.cut_detached w.nodes _ _ _ start.1 _ linked rfl final
  have after := heap.detached linked links (fun x => Dll.valAt_cut ..)
  refine ⟨_, after, fun x notSpan notBack => ?_, ?_⟩
  · rw [links.prevs, if_neg (Dll.not_head _ x notSpan), if_neg (Dll.not_head _ x notBack)]
  have detached := after.perm (List.Perm.swap _ _ _)
  have found : Dll.valAt w.nodes start.1 = some start.2 :=
    heap.vals _ mem_cons_self start (by simp)
  simp only [Weave.removeSpan, bind, Except.bind]
  rw [removeListFromMaps_heap detached]
  simp only [Weave.atomAt, Dll.valAt_cut, found]
  by_cases root : start.2.cause = none
  · simp [root, pure, Except.pure]
  · simp [root, pure, Except.pure]

theorem mem_cut (pre post : List (List (Cell T))) (front s back : List (Cell T)) (d : Cell T) :
    d ∈ (pre ++ (front ++ s ++ back) :: post).flatten ↔
      d ∈ s ∨ d ∈ (pre ++ (front ++ back) :: post).flatten := by
  simp only [flatten_middle, mem_append]
  generalize (d ∈ (pre ++ post).flatten) = elsewhere
  constructor
  · rintro (((h | h) | h) | h) <;> simp [h]
  · rintro (h | (h | h) | h) <;> simp [h]

theorem index_cut {m : OrderedMap JsString Ref} {key : Cell T → JsString}
    (heap : HeapRepr w.nodes ((front ++ back) :: (start :: s) :: all))
    (others : ∀ d ∈ (pre ++ post).flatten, d ∈ all.flatten)
    (index : m.Indexes key Prod.fst (pre ++ (front ++ (start :: s) ++ back) :: post).flatten) :
    (((start :: start :: s).map key).foldl OrderedMap.delete m).Indexes key Prod.fst
      (pre ++ (front ++ back) :: post).flatten := by
  refine index.deleteAll (start :: start :: s) (fun d => ?_) (fun c gone d kept same => ?_)
  · rw [mem_cut]
    simp
  · have gone' : c ∈ start :: s := by simpa using gone
    have equal : c.1 = d.1 := index.unique c d ((mem_cut ..).mpr (.inl gone')) ((mem_cut ..).mpr (.inr kept)) same
    have inS : d.1 ∈ refs (start :: s) := equal ▸ mem_refs c _ gone'
    rcases (flatten_middle pre post _ d).mp kept with inRest | elsewhere
    · exact heap.head_apart _ mem_cons_self _ inS (mem_refs d _ inRest)
    · obtain ⟨l, present, inside⟩ := List.mem_flatten.mp (others d elsewhere)
      exact heap.drop.head_apart l present _ (mem_refs d l inside) inS

theorem others_mem (pre post buffered : List (List (Cell T))) (d : Cell T)
    (member : d ∈ (pre ++ post).flatten) : d ∈ (pre ++ post ++ buffered).flatten := by
  rw [flatten_append]
  exact mem_append_left _ member

theorem removeSpan_repr (repr : Repr w (pre ++ (front ++ (start :: s) ++ back) :: post) buffered) (inner : front ≠ []) :
    ∃ w', w.removeSpan start.1 ((refs (start :: s)).getLast?.getD start.1) = .ok w' ∧
      Repr w' (pre ++ (front ++ back) :: post) buffered ∧
      HeapRepr w'.nodes ((start :: s) :: (pre ++ (front ++ back) :: post ++ buffered)) ∧
      (Hashed w (pre ++ (front ++ (start :: s) ++ back) :: post) →
        Hashed w' (pre ++ (front ++ back) :: post)) ∧
      w'.reorderBuffer = w.reorderBuffer ∧ w'.maxReorderBufferSize = w.maxReorderBufferSize := by
  obtain ⟨nodes, heap, prevs, run⟩ :=
    removeSpan_heap (repr.heap.perm (middle_perm pre post buffered _)) (repr.linked _ (by simp))
  have notRoot : w.roots.erase start.1 = w.roots := by
    refine List.erase_of_not_mem fun member => ?_
    rw [repr.roots] at member
    obtain ⟨l, present, head⟩ := List.mem_filterMap.mp member
    have inL : start.1 ∈ refs l := List.mem_of_head? head
    rcases mem_append.mp present with before | here
    · refine repr.heap.perm (middle_perm pre post buffered _) |>.head_apart l ?_ _ inL (by simp)
      simp [before]
    · rcases mem_cons.mp here with rfl | later
      · obtain ⟨first, front, rfl⟩ := List.exists_cons_of_ne_nil inner
        have distinct := (repr.heap.perm (middle_perm pre post buffered _)).head_distinct
        simp only [cons_append, refs_cons, List.head?_cons, Option.some.injEq] at head distinct
        exact (List.nodup_cons.mp distinct).1 (by simp [head])
      · refine repr.heap.perm (middle_perm pre post buffered _) |>.head_apart l ?_ _ inL (by simp)
        simp [later]
  have others := others_mem pre post buffered
  rw [notRoot, if_congr (Iff.refl _) rfl rfl, ite_self] at run
  have whole : HeapRepr nodes ((start :: s) :: (pre ++ (front ++ back) :: post ++ buffered)) :=
    heap.perm ((List.Perm.swap _ _ _).trans ((middle_perm pre post buffered _).symm.cons _))
  have heads : (refs (front ++ (start :: s) ++ back)).head? = (refs (front ++ back)).head? := by
    obtain ⟨first, front, rfl⟩ := List.exists_cons_of_ne_nil inner
    rfl
  refine ⟨_, run, ⟨whole.drop, starts_middle repr heads (fun _ _ x _ outside => ?_), ?_, ?_, ?_,
    repr.buffer⟩, whole, ?_, rfl, rfl⟩
  · have tail : x ∉ refs (start :: s) ∧ x ∉ refs back := by
      obtain ⟨first, front, rfl⟩ := List.exists_cons_of_ne_nil inner
      simp only [cons_append, refs_cons, List.tail_cons, refs_append, mem_append, mem_cons, not_or] at outside
      simpa using ⟨outside.1.2, outside.2⟩
    exact prevs x tail.1 tail.2
  · intro l member
    simp only [mem_append, mem_cons] at member
    rcases member with member | rfl | member
    · exact repr.filled l (by simp [member])
    · simp [inner]
    · exact repr.filled l (by simp [member])
  · rw [← filterMap_middle pre post _ _ heads]
    exact repr.roots
  · exact index_cut (w := { w with nodes := nodes }) heap others repr.idMap
  · exact fun hashed => index_cut (w := { w with nodes := nodes }) heap others hashed

theorem removeRoot_repr (repr : Repr w (pre ++ (start :: s) :: post) buffered) (root : start.2.cause = none) :
    ∃ w', w.removeSpan start.1 ((refs (start :: s)).getLast?.getD start.1) = .ok w' ∧ Repr w' (pre ++ post) buffered ∧
      HeapRepr w'.nodes ((start :: s) :: (pre ++ post ++ buffered)) ∧
      (Hashed w (pre ++ (start :: s) :: post) → Hashed w' (pre ++ post)) ∧
      w'.reorderBuffer = w.reorderBuffer ∧ w'.maxReorderBufferSize = w.maxReorderBufferSize := by
  have source := repr.heap.perm (middle_perm pre post buffered _)
  have whole : ([] : List (Cell T)) ++ (start :: s) ++ [] = start :: s := by
    rw [List.nil_append, List.append_nil]
  obtain ⟨nodes, heap, prevs, run⟩ := removeSpan_heap (whole.symm ▸ source) (whole.symm ▸ repr.linked _ (by simp))
  have others := others_mem pre post buffered
  have erased : w.roots.erase start.1 = (pre ++ post).filterMap (fun l => (refs l).head?) := by
    have notBefore : start.1 ∉ pre.filterMap (fun l => (refs l).head?) := by
      intro member
      obtain ⟨l, present, head⟩ := List.mem_filterMap.mp member
      exact source.head_apart l (by simp [present]) _ (List.mem_of_head? head) (by simp)
    rw [repr.roots, List.filterMap_append, List.filterMap_append, List.filterMap_cons]
    simp only [refs_cons, List.head?_cons]
    rw [List.erase_append_right _ notBefore, List.erase_cons_head]
  have strip : ∀ d, d ∈ (pre ++ [] :: post).flatten ↔ d ∈ (pre ++ post).flatten := by simp
  have wide : ∀ d, d ∈ (pre ++ (start :: s) :: post).flatten ↔
      d ∈ (pre ++ ([] ++ (start :: s) ++ []) :: post).flatten := by rw [whole]; exact fun d => Iff.rfl
  rw [if_pos root, erased] at run
  refine ⟨_, run, ⟨heap.drop.drop, fun l member r head => ?_, ?_, rfl, ?_, repr.buffer⟩, heap.drop, ?_, rfl, rfl⟩
  · rw [prevs r (repr.start_apart l member r head) (by simp)]
    refine repr.starts l ?_ r head
    rcases mem_append.mp member with before | after
    · exact mem_append_left _ before
    · exact List.mem_append_right _ (List.mem_cons_of_mem _ after)
  · intro l member
    rcases mem_append.mp member with before | after
    · exact repr.filled l (mem_append_left _ before)
    · exact repr.filled l (List.mem_append_right _ (List.mem_cons_of_mem _ after))
  · exact (index_cut (w := { w with nodes := nodes }) heap others (repr.idMap.congr wide)).congr strip
  · intro hashed
    exact (index_cut (w := { w with nodes := nodes }) heap others
      (OrderedMap.Indexes.congr hashed wide)).congr strip

/-- A list that is left when a span has gone: none when it was the whole list. -/
def kept {α : Type} (l : List α) : List (List α) := if l.isEmpty then [] else [l]

theorem kept_filled {l : List α} (filled : l ≠ []) : kept l = [l] := by
  simp [kept, filled]

theorem mem_kept (l m : List α) : m ∈ kept l ↔ m = l ∧ l ≠ [] := by
  cases l <;> simp [kept]

theorem kept_flatten (l : List α) : (kept l).flatten = l := by
  cases l <;> simp [kept]

theorem rest_subset (pre post : List (List (Cell T))) (front after : List (Cell T)) (c : Cell T)
    (p : Cell T → Bool) (d : Cell T)
    (member : d ∈ (pre ++ kept (front ++ after.dropWhile p) ++ post).flatten) :
    d ∈ (pre ++ (front ++ c :: after) :: post).flatten := by
  simp only [flatten_append, flatten_cons, kept_flatten, mem_append] at member ⊢
  rcases member with (before | inFront | inRest) | later
  · exact .inl before
  · exact .inr (.inl (.inl inFront))
  · exact .inr (.inl (.inr (List.mem_cons_of_mem _ ((List.dropWhile_sublist _).subset inRest))))
  · exact .inr (.inr later)

/-- A cell outside the run that goes stays. -/
theorem rest_of (pre post : List (List (Cell T))) (front after : List (Cell T)) (c : Cell T)
    (p : Cell T → Bool) (d : Cell T) (member : d ∈ (pre ++ (front ++ c :: after) :: post).flatten)
    (outside : d ∉ c :: after.takeWhile p) :
    d ∈ (pre ++ kept (front ++ after.dropWhile p) ++ post).flatten := by
  have split := List.takeWhile_append_dropWhile (p := p) (l := after)
  rw [← split] at member
  simp only [flatten_append, flatten_cons, kept_flatten, mem_append, mem_cons]
    at member outside ⊢
  tauto

theorem Repr.removed_absent (repr : Repr w (pre ++ (front ++ c :: after) :: post) buffered) (p : Cell T → Bool) :
    c ∉ (pre ++ kept (front ++ after.dropWhile p) ++ post).flatten := by
  intro member
  have distinct := (repr.heap.perm (middle_perm pre post buffered _)).distinct
  have moved : ((front ++ c :: after) :: (pre ++ post ++ buffered)).flatten.Perm
      (c :: (front ++ after ++ (pre ++ post ++ buffered).flatten)) := by
    simp only [flatten_cons, append_assoc, cons_append]
    exact perm_middle
  rw [refs, (moved.map Prod.fst).nodup_iff, List.map_cons, List.nodup_cons] at distinct
  apply distinct.1
  refine List.mem_map.mpr ⟨c, ?_, rfl⟩
  simp only [flatten_append, kept_flatten, mem_append] at member ⊢
  rcases member with (before | inFront | inRest) | later
  · exact .inr (.inl (.inl before))
  · exact .inl (.inl inFront)
  · exact .inl (.inr ((List.dropWhile_sublist _).subset inRest))
  · exact .inr (.inl (.inr later))

theorem removeNode_repr (repr : Repr w (pre ++ (front ++ c :: after) :: post) buffered)
    (whole : front = [] → c.2.cause = none ∧ ∀ d ∈ after, isNewer c.2.id.timestamp d.2 = true) :
    ∃ w', w.removeNode c.1 = .ok w' ∧
      Repr w' (pre ++ kept (front ++ after.dropWhile (onAtom (isNewer c.2.id.timestamp))) ++ post)
        buffered ∧
      (Hashed w (pre ++ (front ++ c :: after) :: post) →
        Hashed w' (pre ++ kept (front ++ after.dropWhile (onAtom (isNewer c.2.id.timestamp))) ++ post)) ∧
      w'.reorderBuffer = w.reorderBuffer ∧ w'.maxReorderBufferSize = w.maxReorderBufferSize ∧
      HeapRepr w'.nodes ((c :: after.takeWhile (onAtom (isNewer c.2.id.timestamp))) ::
        (pre ++ kept (front ++ after.dropWhile (onAtom (isNewer c.2.id.timestamp))) ++ post ++ buffered)) := by
  have last := lastInCausalGroup_heap (repr.heap.perm (middle_perm pre post buffered _))
  simp only [Weave.removeNode, last, bind, Except.bind]
  by_cases root : front = []
  · subst root
    obtain ⟨noCause, newer⟩ := whole rfl
    have all : after.takeWhile (onAtom (isNewer c.2.id.timestamp)) = after :=
      List.takeWhile_eq_self_iff.mpr newer
    have none_left : after.dropWhile (onAtom (isNewer c.2.id.timestamp)) = [] :=
      List.dropWhile_eq_nil_iff.mpr newer
    simp only [List.nil_append] at repr ⊢
    rw [all, none_left]
    obtain ⟨w', run, left, gone, hashed, buffer, size⟩ := removeRoot_repr repr noCause
    exact ⟨w', run, by simpa [kept] using left, fun h => by simpa [kept] using hashed h, buffer, size,
      by simpa [kept] using gone⟩
  · have split : front ++ c :: after = front ++ (c :: after.takeWhile
        (onAtom (isNewer c.2.id.timestamp))) ++ after.dropWhile (onAtom (isNewer c.2.id.timestamp)) := by
      rw [append_assoc, cons_append, List.takeWhile_append_dropWhile]
    rw [split] at repr ⊢
    obtain ⟨w', run, left, gone, hashed, buffer, size⟩ := removeSpan_repr repr root
    rw [kept_filled (by simp [root])]
    simp only [append_assoc, List.singleton_append] at *
    exact ⟨w', run, left, hashed, buffer, size, gone⟩

end CasualOS.WeaveRepr
