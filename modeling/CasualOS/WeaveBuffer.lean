import CasualOS.WeaveRead

/-! The reorder buffer: partial lists that are moved under the node they wait for. -/

namespace CasualOS.WeaveBuffer

open Dll (Ref)
open WeaveHeap WeaveRepr WeaveRead
open List (flatten_append flatten_cons mem_append mem_append_left mem_append_right mem_cons mem_cons_of_mem
  mem_cons_self mem_flatten perm_middle)

variable {T : Type} {w : Weave T} {lists pre post buffered : List (List (Cell T))}

/-- A partial list: its first cell and the rest. -/
abbrev Block (T : Type) := Cell T × List (Cell T)

def spread (blocks : List (Block T)) : List (List (Cell T)) := blocks.map (fun b => b.1 :: b.2)

@[simp] theorem spread_nil : spread ([] : List (Block T)) = [] := rfl

@[simp] theorem spread_cons (b : Block T) (blocks : List (Block T)) :
    spread (b :: blocks) = (b.1 :: b.2) :: spread blocks := rfl

def adopt (cause : Atom T) (after : List (Cell T)) (b : Block T) : List (Cell T) :=
  place cause b.1.2.id (b.1 :: b.2) after

theorem mem_adopt (cause : Atom T) (after : List (Cell T)) (b : Block T) (d : Cell T) :
    d ∈ adopt cause after b ↔ d ∈ b.1 :: b.2 ∨ d ∈ after := mem_place ..

theorem mem_adoptAll (cause : Atom T) (after : List (Cell T)) (blocks : List (Block T)) (d : Cell T) :
    d ∈ blocks.foldl (adopt cause) after ↔ d ∈ (spread blocks).flatten ∨ d ∈ after := by
  induction blocks generalizing after with
  | nil => simp
  | cons b blocks ih =>
    rw [List.foldl_cons, ih, mem_adopt, spread_cons, flatten_cons, mem_append]
    tauto

theorem adoptAll_perm (cause : Atom T) (after : List (Cell T)) (blocks : List (Block T)) :
    (blocks.foldl (adopt cause) after).Perm (after ++ (spread blocks).flatten) := by
  induction blocks generalizing after with
  | nil => simp
  | cons b blocks ih =>
    have split := List.takeWhile_append_dropWhile (p := onAtom (keeps cause b.1.2.id)) (l := after)
    have moved : (adopt cause after b).Perm (after ++ (b.1 :: b.2)) := by
      conv_rhs => rw [← split]
      rw [adopt, place, List.append_assoc, List.append_assoc]
      exact List.perm_append_comm.append_left _
    rw [List.foldl_cons, spread_cons, flatten_cons, ← List.append_assoc]
    exact (ih _).trans (moved.append_right _)

/-! ### One block -/

theorem moved_maps (w : Weave T) (l : List (Cell T)) (found : ∀ c ∈ l, w.atomAt c.1 = some c.2) :
    (refs l).foldl (fun w n => (w.removeNodeIdFromMaps n true).addNodeToMaps n false) w =
      { w with
        idMap := l.foldl (fun m c => m.set (idKey c) c.1) w.idMap
        hashMap := l.foldl (fun m c => m.set (hashKey c) c.1) w.hashMap
        reorderBuffer := (l.map idKey).foldl OrderedMap.delete w.reorderBuffer } := by
  induction l generalizing w with
  | nil => rfl
  | cons c l ih =>
    have here := found c mem_cons_self
    have taken : w.removeNodeIdFromMaps c.1 true = { w with reorderBuffer := w.reorderBuffer.delete (idKey c) } := by
      simp [Weave.removeNodeIdFromMaps, here, idKey]
    have kept : ({ w with reorderBuffer := w.reorderBuffer.delete (idKey c) } : Weave T).atomAt c.1 = some c.2 := here
    rw [refs_cons, List.foldl_cons, taken, addNodeToMaps_listed _ _ _ kept, ih]
    · rfl
    · intro d member
      exact found d (mem_cons_of_mem _ member)

section Block

variable {front after s : List (Cell T)} {c start : Cell T}

theorem block_apart (repr : Repr w lists ((start :: s) :: buffered)) (d : Cell T) (member : d ∈ start :: s) (e : Cell T)
    (other : e ∈ buffered.flatten) : idKey d ≠ idKey e := by
  intro same
  have first : d ∈ ((start :: s) :: buffered).flatten := by
    rw [flatten_cons]
    exact mem_append_left _ member
  have second : e ∈ ((start :: s) :: buffered).flatten := by
    rw [flatten_cons]
    exact mem_append_right _ other
  have equal : d.1 = e.1 := repr.buffer.unique d e first second same
  have moved : (lists ++ (start :: s) :: buffered).Perm ((start :: s) :: (lists ++ buffered)) :=
    perm_middle
  rcases mem_flatten.mp other with ⟨m, present, inside⟩
  have outside := (repr.heap.perm moved).head_apart m (mem_append_right _ present) e.1 (mem_refs e m inside)
  exact outside (equal ▸ mem_refs d _ member)

theorem block_keys (repr : Repr w lists ((start :: s) :: buffered)) :
    (start :: s).Pairwise (fun d e => idKey d ≠ idKey e) := by
  have moved : (lists ++ (start :: s) :: buffered).Perm ((start :: s) :: (lists ++ buffered)) :=
    perm_middle
  have distinct := (repr.heap.perm moved).head_distinct
  have pairs : (start :: s).Pairwise (fun d e => d.1 ≠ e.1) := List.pairwise_map.mp distinct
  apply pairs.imp_of_mem
  intro d e left right apart same
  apply apart
  refine repr.buffer.unique d e ?_ ?_ same
  · exact mem_append_left _ left
  · exact mem_append_left _ right

theorem addMissingChild_listed (repr : Repr w (pre ++ (front ++ c :: after) :: post) ((start :: s) :: buffered))
    (fresh : ∀ d ∈ start :: s, ∀ e ∈ (pre ++ (front ++ c :: after) :: post).flatten, idKey e ≠ idKey d) :
    ∃ w', w.addMissingChild c.1 start.1 false = .ok w' ∧
      Repr w' (pre ++ (front ++ c :: adopt c.2 after (start, s)) :: post) buffered ∧
      (∀ x, w'.atomAt x = w.atomAt x) ∧ w'.maxReorderBufferSize = w.maxReorderBufferSize := by
  have heap := repr.heap.perm (two_perm pre post buffered (front ++ c :: after) (start :: s))
  have walk : w.iterateFrom (some start.1) = some (refs (start :: s)) :=
    (heap.perm (List.Perm.swap _ _ _)).walk_all
  have found : ∀ d ∈ start :: s, w.atomAt d.1 = some d.2 := heap.atomAt _ (by simp)
  let mapped : Weave T :=
    { w with
      idMap := (start :: s).foldl (fun m d => m.set (idKey d) d.1) w.idMap
      hashMap := (start :: s).foldl (fun m d => m.set (hashKey d) d.1) w.hashMap
      reorderBuffer := ((start :: s).map idKey).foldl OrderedMap.delete w.reorderBuffer }
  have maps := moved_maps w (start :: s) found
  have source : HeapRepr mapped.nodes ((front ++ c :: after) :: (start :: s) :: (pre ++ post ++ buffered)) :=
    heap
  rcases insertNodeUnder_heap source with ⟨nodes, run, vals, grown, prevs⟩
  have heads : (refs (front ++ c :: after)).head? = (refs (front ++ c :: adopt c.2 after (start, s))).head? := by
    cases front <;> simp
  have apart : ∀ k ∈ pre ++ (front ++ c :: after) :: post, ∀ r, (refs k).head? = some r → r ≠ start.1 := by
    intro k member r head same
    exact repr.start_listed k (start :: s) member mem_cons_self r head (by simp [same])
  refine ⟨{ mapped with nodes := nodes }, ?_, ⟨?_, ?_, ?_, ?_, ?_, ?_⟩, vals, rfl⟩
  · simp only [Weave.addMissingChild, walk, orDiverges, bind, Except.bind, Bool.false_eq_true, if_false]
    rw [maps]
    exact run
  · exact grown.perm (middle_perm pre post buffered _).symm
  · apply starts_middle repr heads
    intro k member r head outside
    apply prevs r (apart k member r head)
    intro inside
    apply outside
    rcases front with _ | ⟨first, front⟩ <;> simp [inside]
  · intro l member
    simp only [mem_append, mem_cons] at member
    rcases member with member | rfl | member
    · exact repr.filled l (by simp [member])
    · simp
    · exact repr.filled l (by simp [member])
  · rw [← filterMap_middle pre post _ _ heads]
    exact repr.roots
  · refine repr.idMap.setAll (start :: s) fresh (block_keys repr) (fun d => ?_)
    simp only [flatten_middle, mem_append, mem_cons, mem_adopt]
    tauto
  · refine repr.buffer.deleteAll (start :: s) (fun d => ?_) (fun d member e other => ?_)
    · rw [flatten_cons, mem_append]
    · exact block_apart repr d member e other

/-- A block of the buffer is put under a node of another block. -/
theorem insertNodeUnder_buffered (repr : Repr w lists ((front ++ c :: after) :: (start :: s) :: buffered)) :
    ∃ w', w.insertNodeUnder c.1 start.1 ((refs (start :: s)).getLast?.getD start.1) = .ok w' ∧
      Repr w' lists ((front ++ c :: adopt c.2 after (start, s)) :: buffered) ∧
      (∀ x, w'.atomAt x = w.atomAt x) ∧ w'.reorderBuffer = w.reorderBuffer ∧
      w'.idMap = w.idMap ∧ w'.maxReorderBufferSize = w.maxReorderBufferSize := by
  have moved : (lists ++ (front ++ c :: after) :: (start :: s) :: buffered).Perm
      ((front ++ c :: after) :: (start :: s) :: (lists ++ buffered)) :=
    perm_middle.trans (perm_middle.cons _)
  rcases insertNodeUnder_heap (repr.heap.perm moved) with ⟨nodes, run, vals, grown, prevs⟩
  refine ⟨{ w with nodes := nodes }, run, ⟨?_, ?_, repr.filled, repr.roots, repr.idMap, ?_⟩, vals, rfl,
    rfl, rfl⟩
  · exact grown.perm perm_middle.symm
  · intro l member r head
    have notStart : r ≠ start.1 := by
      intro same
      exact repr.start_listed l (start :: s) member (by simp) r head (by simp [same])
    have notAfter : r ∉ refs after := by
      intro inside
      exact repr.start_listed l (front ++ c :: after) member (by simp) r head (by simp [inside])
    rw [prevs r notStart notAfter]
    exact repr.starts l member r head
  · refine repr.buffer.congr (fun d => ?_)
    simp only [flatten_cons, mem_append, mem_cons, mem_adopt]
    tauto

theorem addMissingChild_buffered (repr : Repr w lists ((front ++ c :: after) :: (start :: s) :: buffered)) :
    ∃ w', w.addMissingChild c.1 start.1 true = .ok w' ∧
      Repr w' lists ((front ++ c :: adopt c.2 after (start, s)) :: buffered) ∧
      (∀ x, w'.atomAt x = w.atomAt x) ∧ w'.reorderBuffer = w.reorderBuffer ∧
      w'.idMap = w.idMap ∧ w'.maxReorderBufferSize = w.maxReorderBufferSize := by
  have moved : (lists ++ (front ++ c :: after) :: (start :: s) :: buffered).Perm
      ((start :: s) :: (front ++ c :: after) :: (lists ++ buffered)) :=
    (perm_middle.trans (perm_middle.cons _)).trans (List.Perm.swap ..)
  have walk : w.iterateFrom (some start.1) = some (refs (start :: s)) :=
    (repr.heap.perm moved).walk_all
  rcases insertNodeUnder_buffered repr with ⟨w', run, held⟩
  refine ⟨w', ?_, held⟩
  simp only [Weave.addMissingChild, walk, orDiverges, bind, Except.bind, if_true]
  exact run

end Block

/-! ### All blocks that wait for a node -/

def waits (a : Atom T) (d : Cell T) : Bool := idEquals (some a.id) d.2.cause

section Blocks

variable {front after : List (Cell T)} {c : Cell T}

theorem addAll_listed (blocks : List (Block T))
    (repr : Repr w (pre ++ (front ++ c :: after) :: post) (spread blocks ++ buffered))
    (fresh : ∀ d ∈ (spread blocks).flatten, ∀ e ∈ (pre ++ (front ++ c :: after) :: post).flatten,
      idKey e ≠ idKey d) :
    ∃ w', (blocks.map (fun b => b.1.1)).foldlM (fun w node => w.addMissingChild c.1 node false) w = .ok w' ∧
      Repr w' (pre ++ (front ++ c :: blocks.foldl (adopt c.2) after) :: post) buffered ∧
      (∀ x, w'.atomAt x = w.atomAt x) ∧ w'.maxReorderBufferSize = w.maxReorderBufferSize := by
  induction blocks generalizing w after with
  | nil => exact ⟨w, rfl, repr, fun _ => rfl, rfl⟩
  | cons b blocks ih =>
    rcases b with ⟨start, s⟩
    have source : Repr w (pre ++ (front ++ c :: after) :: post) ((start :: s) :: (spread blocks ++ buffered)) := repr
    have first := addMissingChild_listed source (fun d member => fresh d (mem_append_left _ member))
    rcases first with ⟨mid, run, moved, same, size⟩
    have rest := ih moved (fun d member e listed => ?_)
    · rcases rest with ⟨w', run', held, same', size'⟩
      refine ⟨w', ?_, held, fun x => (same' x).trans (same x), size'.trans size⟩
      simp only [List.map_cons, List.foldlM_cons, run, bind, Except.bind]
      exact run'
    · have parts : e ∈ start :: s ∨ e ∈ (pre ++ (front ++ c :: after) :: post).flatten := by
        simp only [flatten_middle, mem_append, mem_cons, mem_adopt] at listed ⊢
        tauto
      rcases parts with inBlock | old
      · apply block_apart source e inBlock d
        rw [flatten_append]
        exact mem_append_left _ member
      · exact fresh d (mem_append_right _ member) e old

theorem addAll_buffered (blocks : List (Block T))
    (repr : Repr w lists ((front ++ c :: after) :: (spread blocks ++ buffered))) :
    ∃ w', (blocks.map (fun b => b.1.1)).foldlM (fun w node => w.addMissingChild c.1 node true) w = .ok w' ∧
      Repr w' lists ((front ++ c :: blocks.foldl (adopt c.2) after) :: buffered) ∧
      (∀ x, w'.atomAt x = w.atomAt x) ∧ w'.reorderBuffer = w.reorderBuffer ∧
      w'.idMap = w.idMap ∧ w'.maxReorderBufferSize = w.maxReorderBufferSize := by
  induction blocks generalizing w after with
  | nil => exact ⟨w, rfl, repr, fun _ => rfl, rfl, rfl, rfl⟩
  | cons b blocks ih =>
    rcases b with ⟨start, s⟩
    rcases addMissingChild_buffered repr with ⟨mid, run, moved, same, buffer, ids, size⟩
    rcases ih moved with ⟨w', run', held, same', buffer', ids', size'⟩
    refine ⟨w', ?_, held, fun x => (same' x).trans (same x), buffer'.trans buffer, ids'.trans ids, size'.trans size⟩
    simp only [List.map_cons, List.foldlM_cons, run, bind, Except.bind]
    exact run'

theorem exists_blocks (nodes : List Ref) (distinct : nodes.Nodup) (all : List (List (Cell T)))
    (heads : ∀ r ∈ nodes, ∃ l ∈ all, (refs l).head? = some r) :
    ∃ blocks rest, blocks.map (fun b => b.1.1) = nodes ∧ all.Perm (spread blocks ++ rest) := by
  induction nodes generalizing all with
  | nil => exact ⟨[], all, rfl, List.Perm.refl _⟩
  | cons r nodes ih =>
    have apart := List.nodup_cons.mp distinct
    rcases heads r mem_cons_self with ⟨l, member, head⟩
    rcases List.append_of_mem member with ⟨before, later, rfl⟩
    cases l with
    | nil => simp at head
    | cons start s =>
      have same : start.1 = r := by simpa using head
      have others : ∀ q ∈ nodes, ∃ m ∈ before ++ later, (refs m).head? = some q := by
        intro q inside
        rcases heads q (mem_cons_of_mem _ inside) with ⟨m, present, first⟩
        refine ⟨m, ?_, first⟩
        rcases mem_append.mp present with early | here
        · exact mem_append_left _ early
        · rcases mem_cons.mp here with equal | late
          · rw [equal, head, Option.some.injEq] at first
            exact absurd (first ▸ inside) apart.1
          · exact mem_append_right _ late
      rcases ih apart.2 (before ++ later) others with ⟨blocks, rest, heads', split⟩
      refine ⟨(start, s) :: blocks, rest, ?_, ?_⟩
      · rw [List.map_cons, heads', same]
      · exact perm_middle.trans (split.cons _)

theorem waiting_blocks {extra : List (List (Cell T))} (repr : Repr w lists (extra ++ buffered))
    (node : w.atomAt c.1 = some c.2) (outside : ∀ d ∈ extra.flatten, waits c.2 d = false)
    (tails : ∀ l ∈ buffered, ∀ d ∈ l.tail, waits c.2 d = false) :
    ∃ blocks rest, blocks.map (fun b => b.1.1) = w.reorderBuffer.values.filter (w.isMissingChild c.1) ∧
      buffered.Perm (spread blocks ++ rest) ∧ (∀ b ∈ blocks, waits c.2 b.1 = true) ∧
      ∀ d ∈ rest.flatten, waits c.2 d = false := by
  have missing : ∀ d ∈ (extra ++ buffered).flatten, w.isMissingChild c.1 d.1 = waits c.2 d := by
    intro d member
    simp [Weave.isMissingChild, node, repr.atomAt d (.inr member), waits]
  have distinct : w.reorderBuffer.values.Nodup := by
    apply OrderedMap.values_nodup
    intro k k' r first second
    rcases (repr.buffer k r).mp first with ⟨d, left, sameD, keyD⟩
    rcases (repr.buffer k' r).mp second with ⟨e, right, sameE, keyE⟩
    have equal := repr.cell_unique d e (.inr left) (.inr right) (sameD.trans sameE.symm)
    rw [← keyD, ← keyE, equal]
  have heads : ∀ r ∈ w.reorderBuffer.values.filter (w.isMissingChild c.1), ∃ l ∈ buffered, (refs l).head? = some r := by
    intro r member
    rcases List.mem_filter.mp member with ⟨value, waiting⟩
    rcases (repr.buffer.mem_values r).mp value with ⟨d, inside, rfl⟩
    rw [missing d inside] at waiting
    rw [flatten_append] at inside
    rcases mem_append.mp inside with early | late
    · rw [outside d early] at waiting
      cases waiting
    · rcases mem_flatten.mp late with ⟨l, present, inL⟩
      refine ⟨l, present, ?_⟩
      cases l with
      | nil => cases inL
      | cons start s =>
        rcases mem_cons.mp inL with first | inTail
        · simp [first]
        · rw [tails _ present d inTail] at waiting
          cases waiting
  rcases exists_blocks _ (distinct.filter _) buffered heads with ⟨blocks, rest, starts, split⟩
  have listed : ∀ d, d ∈ (spread blocks).flatten ∨ d ∈ rest.flatten → d ∈ (extra ++ buffered).flatten := by
    intro d member
    rw [flatten_append, mem_append]
    refine .inr (split.flatten.mem_iff.mpr ?_)
    rw [flatten_append]
    exact mem_append.mpr member
  refine ⟨blocks, rest, starts, split, ?_, ?_⟩
  · intro b member
    have inSpread : b.1 ∈ (spread blocks).flatten :=
      mem_flatten.mpr ⟨_, List.mem_map_of_mem member, mem_cons_self⟩
    have start : b.1.1 ∈ w.reorderBuffer.values.filter (w.isMissingChild c.1) :=
      starts ▸ List.mem_map_of_mem member
    rw [← missing b.1 (listed b.1 (.inl inSpread))]
    exact (List.mem_filter.mp start).2
  · intro d member
    cases waiting : waits c.2 d with
    | false => rfl
    | true =>
      have inside := listed d (.inr member)
      have value : d.1 ∈ w.reorderBuffer.values := (repr.buffer.mem_values _).mpr ⟨d, inside, rfl⟩
      have start : d.1 ∈ blocks.map (fun b => b.1.1) := by
        rw [starts]
        exact List.mem_filter.mpr ⟨value, (missing d inside).trans waiting⟩
      rcases List.mem_map.mp start with ⟨b, inBlocks, same⟩
      have whole := ((repr.buffered_perm (split.append_left extra)).heap).distinct
      have parted : (refs (spread blocks).flatten ++ refs rest.flatten).Nodup := by
        rw [flatten_append, flatten_append, refs_append, refs_append, flatten_append, refs_append] at whole
        exact (List.nodup_append.mp (List.nodup_append.mp whole).2.1).2.1
      have inSpread : b.1 ∈ (spread blocks).flatten :=
        mem_flatten.mpr ⟨_, List.mem_map_of_mem inBlocks, mem_cons_self⟩
      exact absurd same ((List.nodup_append.mp parted).2.2 _ (mem_refs _ _ inSpread) _ (mem_refs _ _ member))

theorem addMissingChildren_listed (repr : Repr w (pre ++ (front ++ c :: after) :: post) buffered)
    (tails : ∀ l ∈ buffered, ∀ d ∈ l.tail, waits c.2 d = false)
    (fresh : ∀ l ∈ buffered, ∀ start, l.head? = some start → waits c.2 start = true → ∀ d ∈ l,
      ∀ e ∈ (pre ++ (front ++ c :: after) :: post).flatten, idKey e ≠ idKey d) :
    ∃ w' blocks rest, w.addMissingChildren c.1 false = .ok (w', !blocks.isEmpty) ∧
      buffered.Perm (spread blocks ++ rest) ∧ (∀ b ∈ blocks, waits c.2 b.1 = true) ∧
      (∀ d ∈ rest.flatten, waits c.2 d = false) ∧
      Repr w' (pre ++ (front ++ c :: blocks.foldl (adopt c.2) after) :: post) rest ∧
      w'.maxReorderBufferSize = w.maxReorderBufferSize := by
  have node : w.atomAt c.1 = some c.2 :=
    repr.atomAt c (.inl ((flatten_middle ..).mpr (.inl (by simp))))
  have source : Repr w (pre ++ (front ++ c :: after) :: post) ([] ++ buffered) := repr
  rcases waiting_blocks source node (by simp) tails with ⟨blocks, rest, starts, split, waiting, left⟩
  have freshAll : ∀ d ∈ (spread blocks).flatten, ∀ e ∈ (pre ++ (front ++ c :: after) :: post).flatten,
      idKey e ≠ idKey d := by
    intro d member
    rcases mem_flatten.mp member with ⟨l, present, inside⟩
    rcases List.mem_map.mp present with ⟨b, inBlocks, rfl⟩
    exact fresh _ (split.mem_iff.mpr (mem_append_left _ present)) b.1 rfl (waiting b inBlocks) d inside
  rcases addAll_listed blocks (repr.buffered_perm split) freshAll with ⟨w', run, held, _, size⟩
  refine ⟨w', blocks, rest, ?_, split, waiting, left, held, size⟩
  simp only [Weave.addMissingChildren, ← starts, run, bind, Except.bind, pure, Except.pure, List.isEmpty_map]

theorem addMissingChildren_buffered (repr : Repr w lists ((front ++ c :: after) :: buffered))
    (own : ∀ d ∈ front ++ c :: after, waits c.2 d = false)
    (tails : ∀ l ∈ buffered, ∀ d ∈ l.tail, waits c.2 d = false) :
    ∃ w' blocks rest, w.addMissingChildren c.1 true = .ok (w', !blocks.isEmpty) ∧
      buffered.Perm (spread blocks ++ rest) ∧ (∀ b ∈ blocks, waits c.2 b.1 = true) ∧
      (∀ d ∈ rest.flatten, waits c.2 d = false) ∧
      Repr w' lists ((front ++ c :: blocks.foldl (adopt c.2) after) :: rest) ∧
      w'.idMap = w.idMap ∧ w'.maxReorderBufferSize = w.maxReorderBufferSize := by
  have node : w.atomAt c.1 = some c.2 := by
    apply repr.atomAt c (.inr _)
    rw [flatten_cons]
    exact mem_append_left _ (by simp)
  have source : Repr w lists ([front ++ c :: after] ++ buffered) := repr
  rcases waiting_blocks source node (by simpa using own) tails with
    ⟨blocks, rest, starts, split, waiting, left⟩
  rcases addAll_buffered blocks (repr.buffered_perm (split.cons _)) with
    ⟨w', run, held, _, _, ids, size⟩
  refine ⟨w', blocks, rest, ?_, split, waiting, left, held, ids, size⟩
  simp only [Weave.addMissingChildren, ← starts, run, bind, Except.bind, pure, Except.pure, List.isEmpty_map]

/-- What `releaseMissing` answers when the blocks have gone under `c`. -/
def releaseResult (c : Cell T) (blocks : List (Block T)) (after : List (Cell T)) : WeaveResult T :=
  if blocks.isEmpty then .atomAdded c.2
  else .atomsAdded (c.2 :: atoms (after.takeWhile (onAtom (isNewer c.2.id.timestamp))))

theorem releaseMissing_listed (repr : Repr w (pre ++ (front ++ c :: after) :: post) buffered)
    (tails : ∀ l ∈ buffered, ∀ d ∈ l.tail, waits c.2 d = false)
    (fresh : ∀ l ∈ buffered, ∀ start, l.head? = some start → waits c.2 start = true → ∀ d ∈ l,
      ∀ e ∈ (pre ++ (front ++ c :: after) :: post).flatten, idKey e ≠ idKey d) :
    ∃ w' blocks rest, w.releaseMissing c.1 c.2 = .ok (w', releaseResult c blocks (blocks.foldl (adopt c.2) after)) ∧
      buffered.Perm (spread blocks ++ rest) ∧ (∀ b ∈ blocks, waits c.2 b.1 = true) ∧
      (∀ d ∈ rest.flatten, waits c.2 d = false) ∧
      Repr w' (pre ++ (front ++ c :: blocks.foldl (adopt c.2) after) :: post) rest ∧
      w'.maxReorderBufferSize = w.maxReorderBufferSize := by
  by_cases filled : w.reorderBuffer.size > 0
  · rcases addMissingChildren_listed repr tails fresh with
      ⟨w', blocks, rest, run, split, waiting, left, held, size⟩
    refine ⟨w', blocks, rest, ?_, split, waiting, left, held, size⟩
    simp only [Weave.releaseMissing, if_pos filled, run, bind, Except.bind, releaseResult]
    cases blocks with
    | nil => rfl
    | cons b blocks =>
      have heap := held.heap.perm (middle_perm pre post rest _)
      have group := iterateCausalGroup_heap heap
      have found : ∀ d ∈ c :: (List.foldl (adopt c.2) after (b :: blocks)).takeWhile
          (onAtom (isNewer c.2.id.timestamp)), w'.atomAt d.1 = some d.2 := by
        intro d member
        apply heap.atomAt _ mem_cons_self d
        apply mem_append_right
        rcases mem_cons.mp member with first | later
        · exact first ▸ mem_cons_self
        · exact mem_cons_of_mem _ ((List.takeWhile_sublist _).subset later)
      have read := filterMap_atomAt w' _ found
      simp only [List.isEmpty_cons, Bool.not_false, if_true, group, orDiverges, pure, Except.pure,
        Bool.false_eq_true, if_false]
      rw [refs_cons, atoms_cons] at read
      rw [read]
  · have none_left : ∀ d, d ∉ buffered.flatten := by
      intro d member
      have value := (repr.buffer.mem_values d.1).mpr ⟨d, member, rfl⟩
      exact filled ((OrderedMap.size_pos_iff _).mpr ⟨_, value⟩)
    refine ⟨w, [], buffered, ?_, List.Perm.refl _, by simp, ?_, repr, rfl⟩
    · simp only [Weave.releaseMissing, if_neg filled, releaseResult, List.isEmpty_nil, if_true]
    · intro d member
      exact absurd member (none_left d)

end Blocks

/-! ### Into the buffer -/

theorem tail_closed {h : Dll.Heap (Atom T)} {old : Cell T} {tail : List (Cell T)}
    {all : List (List (Cell T))} (heap : HeapRepr h ((old :: tail) :: all)) :
    HeapRepr h (kept tail ++ all) := by
  have parts : ((old :: tail) :: all).flatten = old :: (kept tail ++ all).flatten := by
    rw [flatten_append, kept_flatten, flatten_cons, List.cons_append]
  refine ⟨fun l member => ?_, fun l member c inside => ?_, ?_⟩
  · rcases mem_append.mp member with rest | other
    · have source : HeapRepr h (([old] ++ tail) :: all) := heap
      have same : l = tail := by
        cases tail with
        | nil => simp [kept] at rest
        | cons d tail => simpa [kept] using rest
      exact same ▸ source.seg
    · exact heap.closed l (mem_cons_of_mem _ other)
  · rcases mem_append.mp member with rest | other
    · have inTail : c ∈ tail := by
        rw [← kept_flatten tail]
        exact mem_flatten.mpr ⟨l, rest, inside⟩
      exact heap.vals _ mem_cons_self c (mem_cons_of_mem _ inTail)
    · exact heap.vals l (mem_cons_of_mem _ other) c inside
  · have distinct := heap.distinct
    rw [parts, refs_cons] at distinct
    exact (List.nodup_cons.mp distinct).2

theorem addToReorderBuffer_eq (heap : HeapRepr w.nodes lists) (atom : Atom T) : w.addToReorderBuffer atom = ({ w with
        nodes := (Dll.alloc w.nodes atom none none).1
        reorderBuffer := w.reorderBuffer.set (atomIdToString atom.id) w.nodes.length },
        w.nodes.length) := by
  have found : ({ w with nodes := (Dll.alloc w.nodes atom none none).1 } : Weave T).atomAt w.nodes.length = some atom :=
    (heap.alloc atom).atomAt _ mem_cons_self (w.nodes.length, atom) (by simp)
  simp only [Weave.addToReorderBuffer, Dll.alloc_ref, addNodeToMaps_buffered _ _ atom found]

theorem addToReorderBuffer_fresh (repr : Repr w lists buffered) (atom : Atom T)
    (fresh : ∀ d ∈ buffered.flatten, idKey d ≠ atomIdToString atom.id) :
    Repr (w.addToReorderBuffer atom).1 lists ([(w.nodes.length, atom)] :: buffered) := by
  rw [addToReorderBuffer_eq repr.heap]
  refine ⟨(repr.heap.alloc atom).perm perm_middle.symm, fun l member r head => ?_, repr.filled,
    repr.roots, repr.idMap, ?_⟩
  · rw [Dll.prevAt_alloc]
    split
    · rfl
    · exact repr.starts l member r head
  · exact repr.buffer.set (w.nodes.length, atom) fresh (fun d => by simp)

theorem addToReorderBuffer_again {old : Cell T} {tail : List (Cell T)}
    (repr : Repr w lists ((old :: tail) :: buffered)) (atom : Atom T)
    (same : idKey old = atomIdToString atom.id) :
    Repr (w.addToReorderBuffer atom).1 lists
      ([(w.nodes.length, atom)] :: (kept tail ++ buffered)) := by
  have moved : (lists ++ (old :: tail) :: buffered).Perm ((old :: tail) :: (lists ++ buffered)) :=
    perm_middle
  have heap := tail_closed (repr.heap.perm moved)
  have left : (kept tail ++ (lists ++ buffered)).Perm (lists ++ (kept tail ++ buffered)) :=
    List.perm_append_comm_assoc ..
  rw [addToReorderBuffer_eq repr.heap]
  refine ⟨((heap.perm left).alloc atom).perm perm_middle.symm, fun l member r head => ?_,
    repr.filled, repr.roots, repr.idMap, ?_⟩
  · rw [Dll.prevAt_alloc]
    split
    · rfl
    · exact repr.starts l member r head
  · have index : w.reorderBuffer.Indexes idKey Prod.fst (old :: (kept tail ++ buffered).flatten) := by
      rw [flatten_append, kept_flatten]
      exact repr.buffer
    have others : ∀ d ∈ (kept tail ++ buffered).flatten, idKey d ≠ idKey old := by
      intro d member equal
      rw [flatten_append, kept_flatten, mem_append] at member
      rcases member with inTail | other
      · exact (List.pairwise_cons.mp (block_keys repr)).1 d inTail equal.symm
      · exact block_apart repr old mem_cons_self d other equal.symm
    exact (index.replace (w.nodes.length, atom) same.symm others).congr (fun d => by simp)

end CasualOS.WeaveBuffer
