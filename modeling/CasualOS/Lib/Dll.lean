import Mathlib.Data.List.Nodup
import Mathlib.Data.List.Perm.Subperm

/-! Doubly linked lists in a heap of mutable nodes. Nodes are never freed, so a node's address is
its place in the heap. -/

namespace Dll

open List (mem_append_left mem_append_right mem_cons_of_mem nodup_append)
open Option (or_none)

abbrev Ref := Nat

structure Node (α : Type) where
  val : α
  next : Option Ref
  prev : Option Ref
  deriving DecidableEq, Repr

abbrev Heap (α : Type) := List (Node α)

variable {α : Type}

def nextAt (h : Heap α) (r : Ref) : Option Ref := h[r]?.bind Node.next

def prevAt (h : Heap α) (r : Ref) : Option Ref := h[r]?.bind Node.prev

def valAt (h : Heap α) (r : Ref) : Option α := h[r]?.map Node.val

def setNext (h : Heap α) (r : Ref) (next : Option Ref) : Heap α :=
  h.modify r (fun n => { n with next := next })

def setPrev (h : Heap α) (r : Ref) (prev : Option Ref) : Heap α :=
  h.modify r (fun n => { n with prev := prev })

/-- The nodes reached from `start` by following `next`; `none` when `fuel` nodes do not reach the end. -/
def follow (h : Heap α) : Nat → Option Ref → Option (List Ref)
  | _, none => some []
  | 0, some _ => none
  | fuel + 1, some r => (follow h fuel (nextAt h r)).map (r :: ·)

/-- A walk that visits more nodes than the heap has goes round a cycle, so `none` is a walk that never ends. -/
def walk (h : Heap α) (start : Option Ref) : Option (List Ref) := follow h h.length start

theorem follow_all {h : Heap α} {good : Ref → Prop} (step : ∀ r, good r → ∀ n, nextAt h r = some n → good n)
    (fuel : Nat) (start : Option Ref) (l : List Ref) (first : ∀ r, start = some r → good r)
    (walked : follow h fuel start = some l) : ∀ r ∈ l, good r := by
  fun_induction follow h fuel start generalizing l with
  | case1 =>
    rw [← Option.some.inj walked]
    exact fun r member => by cases member
  | case2 => cases walked
  | case3 fuel s ih =>
    obtain ⟨rest, later, rfl⟩ := Option.map_eq_some_iff.mp walked
    intro r member
    rcases List.mem_cons.mp member with here | inRest
    · exact here ▸ first s rfl
    · exact ih rest (fun n next => step s (first s rfl) n next) later r inRest

@[simp] theorem length_setNext (h : Heap α) (r : Ref) (next : Option Ref) :
    (setNext h r next).length = h.length := List.length_modify ..

@[simp] theorem length_setPrev (h : Heap α) (r : Ref) (prev : Option Ref) :
    (setPrev h r prev).length = h.length := List.length_modify ..

@[simp] theorem nextAt_setPrev (h : Heap α) (r x : Ref) (prev : Option Ref) :
    nextAt (setPrev h r prev) x = nextAt h x := by
  simp only [nextAt, setPrev, List.getElem?_modify]
  cases h[x]? with
  | none => rfl
  | some n => by_cases same : r = x <;> simp [same]

@[simp] theorem prevAt_setNext (h : Heap α) (r x : Ref) (next : Option Ref) :
    prevAt (setNext h r next) x = prevAt h x := by
  simp only [prevAt, setNext, List.getElem?_modify]
  cases h[x]? with
  | none => rfl
  | some n => by_cases same : r = x <;> simp [same]

theorem nextAt_setNext (h : Heap α) (r x : Ref) (next : Option Ref) (bound : r < h.length) :
    nextAt (setNext h r next) x = if x = r then next else nextAt h x := by
  simp only [nextAt, setNext, List.getElem?_modify]
  by_cases same : x = r
  · subst x
    simp [bound]
  · cases h[x]? <;> simp [same, Ne.symm same]

theorem prevAt_setPrev (h : Heap α) (r x : Ref) (prev : Option Ref) (bound : r < h.length) :
    prevAt (setPrev h r prev) x = if x = r then prev else prevAt h x := by
  simp only [prevAt, setPrev, List.getElem?_modify]
  by_cases same : x = r
  · subst x
    simp [bound]
  · cases h[x]? <;> simp [same, Ne.symm same]

@[simp] theorem valAt_setNext (h : Heap α) (r x : Ref) (next : Option Ref) :
    valAt (setNext h r next) x = valAt h x := by
  simp only [valAt, setNext, List.getElem?_modify]
  cases h[x]? with
  | none => rfl
  | some n => by_cases same : r = x <;> simp [same]

@[simp] theorem valAt_setPrev (h : Heap α) (r x : Ref) (prev : Option Ref) :
    valAt (setPrev h r prev) x = valAt h x := by
  simp only [valAt, setPrev, List.getElem?_modify]
  cases h[x]? with
  | none => rfl
  | some n => by_cases same : r = x <;> simp [same]

/-! Segments: `Seg h p l q` says that the nodes `l` follow one another in both directions,
between the node `p` before them and the node `q` after them. -/

def Seg (h : Heap α) : Option Ref → List Ref → Option Ref → Prop
  | _, [], _ => True
  | p, r :: rest, q =>
    r < h.length ∧ prevAt h r = p ∧ nextAt h r = rest.head?.or q ∧ Seg h (some r) rest q

/-- A whole list: nothing before its first node and nothing after its last. -/
def Linked (h : Heap α) (l : List Ref) : Prop := Seg h none l none

/-- A list that ends properly; its first node may still point back to a node of another list. -/
def Closed (h : Heap α) (l : List Ref) : Prop := ∃ p, Seg h p l none

theorem Linked.closed {h : Heap α} {l : List Ref} (linked : Linked h l) : Closed h l := ⟨none, linked⟩

theorem seg_append (h : Heap α) (p q : Option Ref) (l m : List Ref) :
    Seg h p (l ++ m) q ↔ Seg h p l (m.head?.or q) ∧ Seg h (l.getLast?.or p) m q := by
  induction l generalizing p with
  | nil => simp [Seg]
  | cons r l ih =>
    simp only [List.cons_append, Seg, ih]
    have first : (l ++ m).head?.or q = l.head?.or (m.head?.or q) := by
      cases l <;> simp
    have last : l.getLast?.or (some r) = (r :: l).getLast?.or p := by
      cases l with
      | nil => simp
      | cons x l =>
        rw [List.getLast?_cons_cons, List.getLast?_cons]
        simp
    rw [first, last]
    tauto

theorem seg_bound (h : Heap α) (p q : Option Ref) (l : List Ref) (seg : Seg h p l q) (r : Ref)
    (member : r ∈ l) : r < h.length := by
  induction l generalizing p with
  | nil => cases member
  | cons x l ih =>
    rcases List.mem_cons.mp member with rfl | later
    · exact seg.1
    · exact ih (some x) seg.2.2.2 later

theorem seg_prev_head (h : Heap α) (p q : Option Ref) (l : List Ref) (seg : Seg h p l q) (r : Ref)
    (head : l.head? = some r) : prevAt h r = p := by
  cases l with
  | nil => simp at head
  | cons x l =>
    simp only [List.head?_cons, Option.some.injEq] at head
    exact head ▸ seg.2.1

theorem seg_next_last (h : Heap α) (p q : Option Ref) (l : List Ref) (seg : Seg h p l q) (r : Ref)
    (last : l.getLast? = some r) : nextAt h r = q := by
  obtain ⟨front, rfl⟩ := List.getLast?_eq_some_iff.mp last
  have end_ := ((seg_append h p q front [r]).mp seg).2
  simpa [Seg] using end_.2.2.1

/-- What has to be known of a changed heap: only the outer links of the segment may differ. -/
theorem seg_relink (h h' : Heap α) (p q p' q' : Option Ref) (l : List Ref) (distinct : l.Nodup)
    (seg : Seg h p l q) (grown : h.length ≤ h'.length) (head : ∀ r, l.head? = some r → prevAt h' r = p')
    (last : ∀ r, l.getLast? = some r → nextAt h' r = q')
    (prevs : ∀ r ∈ l, l.head? ≠ some r → prevAt h' r = prevAt h r)
    (nexts : ∀ r ∈ l, l.getLast? ≠ some r → nextAt h' r = nextAt h r) : Seg h' p' l q' := by
  induction l generalizing p p' with
  | nil => trivial
  | cons x l ih =>
    obtain ⟨bound, _, next, rest⟩ := seg
    obtain ⟨fresh, distinct⟩ := List.nodup_cons.mp distinct
    have apart : ∀ r ∈ l, x ≠ r := by
      rintro r member rfl
      exact fresh member
    refine ⟨Nat.lt_of_lt_of_le bound grown, head x rfl, ?_, ?_⟩
    · cases l with
      | nil => exact last x rfl
      | cons y l =>
        rw [nexts x List.mem_cons_self, next]
        · rfl
        · intro same
          rw [List.getLast?_cons_cons] at same
          exact fresh (List.mem_of_getLast? same)
    · apply ih (some x) (some x) distinct rest
      · intro r first
        have member : r ∈ l := List.mem_of_head? first
        have kept := prevs r (mem_cons_of_mem _ member) (by simpa using apart r member)
        rw [kept, seg_prev_head h (some x) q l rest r first]
      · intro r end_
        apply last r
        cases l with
        | nil => simp at end_
        | cons y l => rw [List.getLast?_cons_cons, end_]
      · intro r member _
        exact prevs r (mem_cons_of_mem _ member) (by simpa using apart r member)
      · intro r member inner
        apply nexts r (mem_cons_of_mem _ member)
        cases l with
        | nil => cases member
        | cons y l => rwa [List.getLast?_cons_cons]

theorem seg_frame (h h' : Heap α) (p q : Option Ref) (l : List Ref) (seg : Seg h p l q)
    (grown : h.length ≤ h'.length) (prevs : ∀ r ∈ l, prevAt h' r = prevAt h r)
    (nexts : ∀ r ∈ l, nextAt h' r = nextAt h r) : Seg h' p l q := by
  induction l generalizing p with
  | nil => trivial
  | cons x l ih =>
    obtain ⟨bound, prev, next, rest⟩ := seg
    refine ⟨Nat.lt_of_lt_of_le bound grown, ?_, ?_, ?_⟩
    · rw [prevs x List.mem_cons_self, prev]
    · rw [nexts x List.mem_cons_self, next]
    · exact ih (some x) rest (fun r member => prevs r (mem_cons_of_mem _ member))
        (fun r member => nexts r (mem_cons_of_mem _ member))

theorem follow_seg (h : Heap α) (p : Option Ref) (l : List Ref) (fuel : Nat)
    (seg : Seg h p l none) (enough : l.length ≤ fuel) : follow h fuel l.head? = some l := by
  induction l generalizing p fuel with
  | nil => cases fuel <;> rfl
  | cons x l ih =>
    cases fuel with
    | zero => simp at enough
    | succ fuel =>
      obtain ⟨_, _, next, rest⟩ := seg
      rw [or_none] at next
      have tail := ih (some x) fuel rest (by simpa using enough)
      simp only [List.head?_cons, follow, next, tail, Option.map_some]

/-- Distinct nodes of the heap are at most as many as the heap has. -/
theorem nodup_length_le (bound : Nat) (l : List Ref) (distinct : l.Nodup)
    (below : ∀ r ∈ l, r < bound) : l.length ≤ bound := by
  have sub : l ⊆ List.range bound := fun r member => List.mem_range.mpr (below r member)
  simpa using (List.subperm_of_subset distinct sub).length_le

/-- Walking from any node of a whole list gives the rest of the list. -/
theorem walk_closed (h : Heap α) (front back : List Ref) (closed : Closed h (front ++ back))
    (distinct : (front ++ back).Nodup) : walk h back.head? = some back := by
  obtain ⟨o, whole⟩ := closed
  have seg := ((seg_append h o none front back).mp whole).2
  refine follow_seg h _ back h.length seg ?_
  refine nodup_length_le h.length back (nodup_append.mp distinct).2.1 ?_
  exact fun r member => seg_bound h _ _ back seg r member

/-! The splices. `start` and `stop` are the ends of a segment; `pos` is a node of another list. -/

def alloc (h : Heap α) (val : α) (next prev : Option Ref) : Heap α × Ref :=
  (h ++ [⟨val, next, prev⟩], h.length)

def spliceBefore (h : Heap α) (pos start stop : Ref) : Heap α :=
  let linked := match prevAt h pos with
    | some prev => setPrev (setNext h prev (some start)) start (some prev)
    | none => h
  setPrev (setNext linked stop (some pos)) pos (some stop)

def spliceAfter (h : Heap α) (pos start stop : Ref) : Heap α :=
  let next := nextAt h pos
  let linked := match next with
    | some n => setPrev h n (some stop)
    | none => h
  setNext (setPrev (setNext linked pos (some start)) start (some pos)) stop next

def insertBefore (h : Heap α) (pos : Ref) (val : α) : Heap α × Ref :=
  let prev := prevAt h pos
  let (allocated, node) := alloc h val (some pos) prev
  let linked := match prev with
    | some p => setNext allocated p (some node)
    | none => allocated
  (setPrev linked pos (some node), node)

def insertAfter (h : Heap α) (pos : Ref) (val : α) : Heap α × Ref :=
  let next := nextAt h pos
  let (allocated, node) := alloc h val next (some pos)
  let linked := match next with
    | some n => setPrev allocated n (some node)
    | none => allocated
  (setNext linked pos (some node), node)

def cut (h : Heap α) (start stop : Ref) : Heap α :=
  let next := nextAt h stop
  let prev := prevAt h start
  let closed := match next with
    | some n => setPrev h n prev
    | none => h
  let opened := match prev with
    | some p => setNext closed p next
    | none => closed
  setNext (setPrev opened start none) stop none

/-- The heap `h'` after the outer links of three neighbouring segments were rewritten: the middle
one now lies between `sPrev` and `sNext`, the front one runs on to `frontNext` and the back one
hangs on `backPrev`. -/
structure Relinked (h h' : Heap α) (front s back : List Ref)
    (sPrev sNext frontNext backPrev : Option Ref) : Prop where
  grown : h.length ≤ h'.length
  nexts : ∀ x, nextAt h' x = if s.getLast? = some x then sNext else
    if front.getLast? = some x then frontNext else nextAt h x
  prevs : ∀ x, prevAt h' x = if s.head? = some x then sPrev else
    if back.head? = some x then backPrev else prevAt h x

theorem not_head (l : List Ref) (r : Ref) (absent : r ∉ l) : l.head? ≠ some r :=
  fun same => absent (List.mem_of_head? same)

theorem not_last (l : List Ref) (r : Ref) (absent : r ∉ l) : l.getLast? ≠ some r :=
  fun same => absent (List.mem_of_getLast? same)

theorem relinked_segs (h h' : Heap α) (front s back : List Ref)
    (sPrev sNext frontNext backPrev o p p' q q' : Option Ref)
    (links : Relinked h h' front s back sPrev sNext frontNext backPrev)
    (distinct : (front ++ s ++ back).Nodup) (frontSeg : Seg h o front q)
    (sSeg : Seg h p s q') (backSeg : Seg h p' back none) :
    Seg h' o front frontNext ∧ Seg h' sPrev s sNext ∧ Seg h' backPrev back none := by
  obtain ⟨both, backDistinct, apart⟩ := nodup_append.mp distinct
  obtain ⟨frontDistinct, sDistinct, apart'⟩ := nodup_append.mp both
  have frontS : ∀ r ∈ front, r ∉ s := fun r inFront inS => apart' r inFront r inS rfl
  have frontBack : ∀ r ∈ front, r ∉ back :=
    fun r inFront inBack => apart r (mem_append_left _ inFront) r inBack rfl
  have sBack : ∀ r ∈ s, r ∉ back :=
    fun r inS inBack => apart r (mem_append_right _ inS) r inBack rfl
  have frontPrev : ∀ r ∈ front, prevAt h' r = prevAt h r := by
    intro r member
    rw [links.prevs, if_neg (not_head s r (frontS r member)),
      if_neg (not_head back r (frontBack r member))]
  have backNext : ∀ r ∈ back, nextAt h' r = nextAt h r := by
    intro r member
    rw [links.nexts, if_neg (not_last s r (fun inS => sBack r inS member)),
      if_neg (not_last front r (fun inFront => frontBack r inFront member))]
  refine ⟨?_, ?_, ?_⟩
  · refine seg_relink h h' _ _ _ _ front frontDistinct frontSeg links.grown ?_ ?_ ?_ ?_
    · intro r first
      rw [frontPrev r (List.mem_of_head? first)]
      exact seg_prev_head h _ _ front frontSeg r first
    · intro r last
      have outside := frontS r (List.mem_of_getLast? last)
      rw [links.nexts, if_neg (not_last s r outside), if_pos last]
    · exact fun r member _ => frontPrev r member
    · intro r member inner
      rw [links.nexts, if_neg (not_last s r (frontS r member)), if_neg inner]
  · refine seg_relink h h' _ _ _ _ s sDistinct sSeg links.grown ?_ ?_ ?_ ?_
    · intro r first
      rw [links.prevs, if_pos first]
    · intro r last
      rw [links.nexts, if_pos last]
    · intro r member inner
      rw [links.prevs, if_neg inner, if_neg (not_head back r (sBack r member))]
    · intro r member inner
      have outside : r ∉ front := fun inFront => frontS r inFront member
      rw [links.nexts, if_neg inner, if_neg (not_last front r outside)]
  · refine seg_relink h h' _ _ _ _ back backDistinct backSeg links.grown ?_ ?_ ?_ ?_
    · intro r first
      have outside : r ∉ s := fun inS => sBack r inS (List.mem_of_head? first)
      rw [links.prevs, if_neg (not_head s r outside), if_pos first]
    · intro r last
      rw [backNext r (List.mem_of_getLast? last)]
      exact seg_next_last h _ _ back backSeg r last
    · intro r member inner
      have outside : r ∉ s := fun inS => sBack r inS member
      rw [links.prevs, if_neg (not_head s r outside), if_neg inner]
    · exact fun r member _ => backNext r member

/-- A segment put between two parts of a list. -/
abbrev Spliced (h h' : Heap α) (front s back : List Ref) : Prop :=
  Relinked h h' front s back front.getLast? back.head? s.head? s.getLast?

/-- A segment taken out from between two parts of a list. -/
abbrev Detached (h h' : Heap α) (front s back : List Ref) : Prop :=
  Relinked h h' front s back none none back.head? front.getLast?

theorem spliced_seg (h h' : Heap α) (front s back : List Ref) (o p q : Option Ref)
    (distinct : (front ++ s ++ back).Nodup) (whole : Seg h o (front ++ back) none)
    (seg : Seg h p s q) (inner : front ≠ []) (filled : s ≠ []) (links : Spliced h h' front s back) :
    Seg h' o (front ++ s ++ back) none := by
  obtain ⟨frontSeg, backSeg⟩ := (seg_append h o none front back).mp whole
  obtain ⟨frontSeg', sSeg', backSeg'⟩ :=
    relinked_segs h h' front s back _ _ _ _ _ _ _ _ _ links distinct frontSeg seg backSeg
  refine (seg_append h' o none (front ++ s) back).mpr ⟨(seg_append h' o _ front s).mpr ⟨?_, ?_⟩, ?_⟩
  · cases s with
    | nil => exact absurd rfl filled
    | cons x s => exact frontSeg'
  · rw [List.getLast?_eq_some_getLast inner] at sSeg' ⊢
    rwa [or_none]
  · rw [List.getLast?_append_of_ne_nil _ filled]
    rw [List.getLast?_eq_some_getLast filled] at backSeg' ⊢
    exact backSeg'

theorem detached_linked (h h' : Heap α) (front s back : List Ref)
    (distinct : (front ++ s ++ back).Nodup) (linked : Linked h (front ++ s ++ back))
    (links : Detached h h' front s back) : Linked h' (front ++ back) ∧ Linked h' s := by
  obtain ⟨frontSSeg, backSeg⟩ := (seg_append h none none (front ++ s) back).mp linked
  obtain ⟨frontSeg, sSeg⟩ := (seg_append h none _ front s).mp frontSSeg
  obtain ⟨frontSeg', sSeg', backSeg'⟩ :=
    relinked_segs h h' front s back _ _ _ _ _ _ _ _ _ links distinct frontSeg sSeg backSeg
  refine ⟨(seg_append h' none none front back).mpr ⟨?_, ?_⟩, sSeg'⟩
  · rwa [or_none]
  · rwa [or_none]

theorem closed_next (h : Heap α) (front back : List Ref) (pos : Ref)
    (closed : Closed h (front ++ back)) (last : front.getLast? = some pos) : nextAt h pos = back.head? := by
  obtain ⟨o, whole⟩ := closed
  have frontSeg := ((seg_append h o none front back).mp whole).1
  rw [seg_next_last h _ _ front frontSeg pos last, or_none]

theorem closed_prev (h : Heap α) (front back : List Ref) (pos : Ref)
    (closed : Closed h (front ++ back)) (inner : front ≠ []) (first : back.head? = some pos) :
    prevAt h pos = front.getLast? := by
  obtain ⟨o, whole⟩ := closed
  have backSeg := ((seg_append h o none front back).mp whole).2
  rw [seg_prev_head h _ _ back backSeg pos first, List.getLast?_eq_some_getLast inner]
  rfl

theorem linked_prev (h : Heap α) (front back : List Ref) (pos : Ref)
    (linked : Linked h (front ++ back)) (first : back.head? = some pos) : prevAt h pos = front.getLast? := by
  have backSeg := ((seg_append h none none front back).mp linked).2
  rw [seg_prev_head h _ _ back backSeg pos first, or_none]

theorem closed_bound (h : Heap α) (l : List Ref) (closed : Closed h l) (r : Ref) (member : r ∈ l) : r < h.length := by
  obtain ⟨o, whole⟩ := closed
  exact seg_bound h o none l whole r member

theorem splice_after (h : Heap α) (front s back : List Ref) (pos start stop : Ref)
    (closed : Closed h (front ++ back)) (bound : ∀ r ∈ s, r < h.length)
    (last : front.getLast? = some pos) (first : s.head? = some start)
    (final : s.getLast? = some stop) : Spliced h (spliceAfter h pos start stop) front s back := by
  have posBound := closed_bound h _ closed pos (mem_append_left _ (List.mem_of_getLast? last))
  have startBound := bound start (List.mem_of_head? first)
  have stopBound := bound stop (List.mem_of_getLast? final)
  have next := closed_next h front back pos closed last
  cases back with
  | nil =>
    simp only [List.head?_nil] at next
    refine ⟨by simp [spliceAfter, next], fun x => ?_, fun x => ?_⟩
    · simp [spliceAfter, next, nextAt_setNext, posBound, stopBound, last, first, final, eq_comm]
    · simp [spliceAfter, next, prevAt_setPrev, startBound, last, first, eq_comm]
  | cons b back =>
    simp only [List.head?_cons] at next
    have nextBound := closed_bound h _ closed b (mem_append_right _ List.mem_cons_self)
    refine ⟨by simp [spliceAfter, next], fun x => ?_, fun x => ?_⟩
    · simp [spliceAfter, next, nextAt_setNext, posBound, stopBound, last, first, final, eq_comm]
    · simp [spliceAfter, next, prevAt_setPrev, startBound, nextBound, last, first, final, eq_comm]

theorem splice_before (h : Heap α) (front s back : List Ref) (pos start stop : Ref)
    (closed : Closed h (front ++ back)) (bound : ∀ r ∈ s, r < h.length) (filled : front ≠ [])
    (distinct : (front ++ s ++ back).Nodup) (head : back.head? = some pos)
    (first : s.head? = some start) (final : s.getLast? = some stop) :
    Spliced h (spliceBefore h pos start stop) front s back := by
  have inBack := List.mem_of_head? head
  have posBound := closed_bound h _ closed pos (mem_append_right _ inBack)
  have startBound := bound start (List.mem_of_head? first)
  have stopBound := bound stop (List.mem_of_getLast? final)
  have prev := closed_prev h front back pos closed filled head
  obtain ⟨before, last⟩ : ∃ r, front.getLast? = some r :=
    ⟨_, List.getLast?_eq_some_getLast filled⟩
  have beforeBound := closed_bound h _ closed before (mem_append_left _ (List.mem_of_getLast? last))
  have apart : pos ≠ start := by
    rintro rfl
    exact (nodup_append.mp distinct).2.2 pos (mem_append_right _ (List.mem_of_head? first)) pos inBack rfl
  rw [last] at prev
  refine ⟨by simp [spliceBefore, prev], fun x => ?_, fun x => ?_⟩
  · simp [spliceBefore, prev, nextAt_setNext, beforeBound, stopBound, last, first, final, head, eq_comm]
  · simp only [spliceBefore, prev, prevAt_setPrev, prevAt_setNext, length_setNext, length_setPrev,
      posBound, startBound, last, first, final, head, Option.some.injEq]
    by_cases here : x = pos
    · simp [here, Ne.symm apart]
    · by_cases there : x = start
      · simp [there, Ne.symm apart]
      · simp [here, there, Ne.symm here, Ne.symm there]

theorem cut_detached (h : Heap α) (front s back : List Ref) (start stop : Ref)
    (linked : Linked h (front ++ s ++ back)) (first : s.head? = some start)
    (final : s.getLast? = some stop) : Detached h (cut h start stop) front s back := by
  have inS := List.mem_of_getLast? final
  have startBound := closed_bound h _ linked.closed start
    (mem_append_left _ (mem_append_right _ (List.mem_of_head? first)))
  have stopBound := closed_bound h _ linked.closed stop (mem_append_left _ (mem_append_right _ inS))
  have next : nextAt h stop = back.head? := by
    refine closed_next h (front ++ s) back stop linked.closed ?_
    rw [List.getLast?_append, final, Option.some_or]
  have prev : prevAt h start = front.getLast? := by
    refine linked_prev h front (s ++ back) start (by rwa [← List.append_assoc]) ?_
    rw [List.head?_append, first, Option.some_or]
  have nextBound : ∀ b, back.head? = some b → b < h.length := fun b head =>
    closed_bound h _ linked.closed b (mem_append_right _ (List.mem_of_head? head))
  have prevBound : ∀ b, front.getLast? = some b → b < h.length := fun b last =>
    closed_bound h _ linked.closed b
      (mem_append_left _ (mem_append_left _ (List.mem_of_getLast? last)))
  refine ⟨?_, fun x => ?_, fun x => ?_⟩
  · simp only [cut, next, prev]
    cases back.head? <;> cases front.getLast? <;> simp
  · simp only [cut, next, prev, final]
    cases hn : back.head? <;> cases hp : front.getLast? <;>
      simp [nextAt_setNext, stopBound, prevBound, hp, eq_comm]
  · simp only [cut, next, prev, first]
    cases hn : back.head? <;> cases hp : front.getLast? <;>
      simp [prevAt_setPrev, startBound, nextBound, hn, eq_comm]

@[simp] theorem valAt_spliceBefore (h : Heap α) (pos start stop x : Ref) :
    valAt (spliceBefore h pos start stop) x = valAt h x := by
  simp only [spliceBefore]
  cases prevAt h pos <;> simp

@[simp] theorem valAt_spliceAfter (h : Heap α) (pos start stop x : Ref) :
    valAt (spliceAfter h pos start stop) x = valAt h x := by
  simp only [spliceAfter]
  cases nextAt h pos <;> simp

@[simp] theorem valAt_cut (h : Heap α) (start stop x : Ref) : valAt (cut h start stop) x = valAt h x := by
  simp only [cut]
  cases nextAt h stop <;> cases prevAt h start <;> simp

@[simp] theorem alloc_ref (h : Heap α) (val : α) (next prev : Option Ref) : (alloc h val next prev).2 = h.length := rfl

theorem getElem_alloc (h : Heap α) (val : α) (next prev : Option Ref) (x : Ref) :
    (alloc h val next prev).1[x]? = if x = h.length then some ⟨val, next, prev⟩ else h[x]? := by
  simp only [alloc, List.getElem?_append]
  by_cases here : x = h.length
  · simp [here]
  · by_cases below : x < h.length
    · simp [below, here]
    · have above : h.length < x := Nat.lt_of_le_of_ne (Nat.le_of_not_lt below) (Ne.symm here)
      have beyond : x - h.length ≠ 0 := Nat.sub_ne_zero_of_lt above
      rw [if_neg below, if_neg here, List.getElem?_eq_none (Nat.le_of_not_lt below)]
      exact List.getElem?_eq_none (Nat.one_le_iff_ne_zero.mpr beyond)

theorem nextAt_alloc (h : Heap α) (val : α) (next prev : Option Ref) (x : Ref) :
    nextAt (alloc h val next prev).1 x = if x = h.length then next else nextAt h x := by
  rw [nextAt, getElem_alloc]
  split <;> rfl

theorem prevAt_alloc (h : Heap α) (val : α) (next prev : Option Ref) (x : Ref) :
    prevAt (alloc h val next prev).1 x = if x = h.length then prev else prevAt h x := by
  rw [prevAt, getElem_alloc]
  split <;> rfl

theorem valAt_alloc (h : Heap α) (val : α) (next prev : Option Ref) (x : Ref) :
    valAt (alloc h val next prev).1 x = if x = h.length then some val else valAt h x := by
  rw [valAt, getElem_alloc]
  split <;> rfl

@[simp] theorem length_alloc (h : Heap α) (val : α) (next prev : Option Ref) :
    (alloc h val next prev).1.length = h.length + 1 := by simp [alloc]

/-- Every node that another one leads to. -/
def Targets (h : Heap α) (good : Ref → Prop) : Prop := ∀ x s, nextAt h x = some s → good s

section Targets

variable {h : Heap α} {good : Ref → Prop}

theorem targets_setNext (targets : Targets h good) (r : Ref) (next : Option Ref)
    (fits : ∀ s, next = some s → good s) : Targets (setNext h r next) good := by
  intro x s found
  by_cases bound : r < h.length
  · rw [nextAt_setNext h r x next bound] at found
    split at found
    · exact fits s found
    · exact targets x s found
  · rw [setNext, List.modify_eq_self (Nat.le_of_not_lt bound)] at found
    exact targets x s found

theorem targets_setPrev (targets : Targets h good) (r : Ref) (prev : Option Ref) : Targets (setPrev h r prev) good := by
  intro x s found
  rw [nextAt_setPrev] at found
  exact targets x s found

theorem targets_alloc (targets : Targets h good) (val : α) (next prev : Option Ref)
    (fits : ∀ s, next = some s → good s) : Targets (alloc h val next prev).1 good := by
  intro x s found
  rw [nextAt_alloc] at found
  split at found
  · exact fits s found
  · exact targets x s found

theorem targets_some {r : Ref} (fits : good r) : ∀ s, some r = some s → good s := by
  intro s same
  exact Option.some.inj same ▸ fits

theorem targets_spliceBefore (targets : Targets h good) (pos start stop : Ref) (before : good pos)
    (first : good start) : Targets (spliceBefore h pos start stop) good := by
  unfold spliceBefore
  refine targets_setPrev (targets_setNext ?_ stop (some pos) (targets_some before)) _ _
  cases prevAt h pos with
  | none => exact targets
  | some prev =>
    exact targets_setPrev (targets_setNext targets prev (some start) (targets_some first)) _ _

theorem targets_spliceAfter (targets : Targets h good) (pos start stop : Ref) (first : good start) :
    Targets (spliceAfter h pos start stop) good := by
  unfold spliceAfter
  refine targets_setNext (targets_setPrev (targets_setNext ?_ pos (some start) (targets_some first)) _ _)
    stop _ (targets pos)
  cases nextAt h pos with
  | none => exact targets
  | some next => exact targets_setPrev targets _ _

theorem targets_insertBefore (targets : Targets h good) (pos : Ref) (val : α) (before : good pos)
    (first : good h.length) : Targets (insertBefore h pos val).1 good := by
  have grown := targets_alloc targets val (some pos) (prevAt h pos) (targets_some before)
  unfold insertBefore
  refine targets_setPrev ?_ pos _
  split
  · exact targets_setNext grown _ _ (targets_some first)
  · exact grown

theorem targets_insertAfter (targets : Targets h good) (pos : Ref) (val : α) (first : good h.length) :
    Targets (insertAfter h pos val).1 good := by
  have grown := targets_alloc targets val (nextAt h pos) (some pos) (targets pos)
  unfold insertAfter
  refine targets_setNext ?_ pos _ (targets_some first)
  split
  · exact targets_setPrev grown _ _
  · exact grown

theorem targets_cut (targets : Targets h good) (start stop : Ref) : Targets (cut h start stop) good := by
  unfold cut
  refine targets_setNext (targets_setPrev ?_ start none) stop none (fun s absent => by cases absent)
  have closed : Targets (match nextAt h stop with
      | some n => setPrev h n (prevAt h start)
      | none => h) good := by
    split
    · exact targets_setPrev targets _ _
    · exact targets
  split
  · exact targets_setNext closed _ _ (targets stop)
  · exact closed

end Targets

theorem seg_alloc (h : Heap α) (val : α) (next prev p q : Option Ref) (l : List Ref)
    (seg : Seg h p l q) : Seg (alloc h val next prev).1 p l q := by
  refine seg_frame h _ p q l seg (by simp) (fun r member => ?_) (fun r member => ?_)
  · rw [prevAt_alloc, if_neg (Nat.ne_of_lt (seg_bound h p q l seg r member))]
  · rw [nextAt_alloc, if_neg (Nat.ne_of_lt (seg_bound h p q l seg r member))]

@[simp] theorem insertAfter_ref (h : Heap α) (pos : Ref) (val : α) : (insertAfter h pos val).2 = h.length := rfl

@[simp] theorem insertBefore_ref (h : Heap α) (pos : Ref) (val : α) : (insertBefore h pos val).2 = h.length := rfl

theorem valAt_insertAfter (h : Heap α) (pos x : Ref) (val : α) :
    valAt (insertAfter h pos val).1 x = if x = h.length then some val else valAt h x := by
  simp only [insertAfter, valAt_setNext]
  cases nextAt h pos <;> simp [valAt_alloc]

theorem valAt_insertBefore (h : Heap α) (pos x : Ref) (val : α) :
    valAt (insertBefore h pos val).1 x = if x = h.length then some val else valAt h x := by
  simp only [insertBefore, valAt_setPrev]
  cases prevAt h pos <;> simp [valAt_alloc]

theorem insert_after (h : Heap α) (front back : List Ref) (pos : Ref) (val : α)
    (closed : Closed h (front ++ back)) (last : front.getLast? = some pos) :
    Spliced (alloc h val none none).1 (insertAfter h pos val).1 front [h.length] back := by
  have inFront := List.mem_of_getLast? last
  have posBound := closed_bound h _ closed pos (mem_append_left _ inFront)
  have next := closed_next h front back pos closed last
  have nextBound : ∀ b, back.head? = some b → b < h.length := fun b head =>
    closed_bound h _ closed b (mem_append_right _ (List.mem_of_head? head))
  have below : pos < h.length + 1 := Nat.lt_succ_of_lt posBound
  have fresh : pos ≠ h.length := Nat.ne_of_lt posBound
  refine ⟨?_, fun x => ?_, fun x => ?_⟩
  · simp only [insertAfter]
    cases nextAt h pos <;> simp
  · simp only [insertAfter, next]
    cases hn : back.head? <;> simp [nextAt_setNext, nextAt_alloc, below, last] <;> grind
  · simp only [insertAfter, next]
    cases hn : back.head? with
    | none =>
      simp [prevAt_alloc, last]
      grind
    | some b =>
      have bBound := nextBound b hn
      simp [prevAt_setPrev, prevAt_alloc, Nat.lt_succ_of_lt bBound, last]
      grind

theorem insert_before (h : Heap α) (front back : List Ref) (pos : Ref) (val : α)
    (closed : Closed h (front ++ back)) (filled : front ≠ []) (head : back.head? = some pos) :
    Spliced (alloc h val none none).1 (insertBefore h pos val).1 front [h.length] back := by
  have posBound := closed_bound h _ closed pos (mem_append_right _ (List.mem_of_head? head))
  have prev := closed_prev h front back pos closed filled head
  obtain ⟨before, last⟩ : ∃ r, front.getLast? = some r :=
    ⟨_, List.getLast?_eq_some_getLast filled⟩
  have beforeBound := closed_bound h _ closed before (mem_append_left _ (List.mem_of_getLast? last))
  have below : pos < h.length + 1 := Nat.lt_succ_of_lt posBound
  have below' : before < h.length + 1 := Nat.lt_succ_of_lt beforeBound
  have fresh : pos ≠ h.length := Nat.ne_of_lt posBound
  have fresh' : before ≠ h.length := Nat.ne_of_lt beforeBound
  rw [last] at prev
  refine ⟨by simp [insertBefore, prev], fun x => ?_, fun x => ?_⟩
  · simp [insertBefore, prev, nextAt_setNext, nextAt_alloc, below', last, head]
    grind
  · simp [insertBefore, prev, prevAt_setPrev, prevAt_alloc, below, last, head]
    grind

/-- Lists that share no node with the rewritten segments stay as they are. -/
theorem relinked_frame (h h' : Heap α) (front s back : List Ref)
    (sPrev sNext frontNext backPrev : Option Ref) (l : List Ref)
    (links : Relinked h h' front s back sPrev sNext frontNext backPrev) (closed : Closed h l)
    (apart : ∀ r ∈ l, r ∉ front ++ s ++ back) : Closed h' l := by
  obtain ⟨o, whole⟩ := closed
  refine ⟨o, seg_frame h h' o none l whole links.grown (fun r member => ?_) (fun r member => ?_)⟩
  · have outside := apart r member
    simp only [List.mem_append, not_or] at outside
    rw [links.prevs, if_neg (not_head s r outside.1.2), if_neg (not_head back r outside.2)]
  · have outside := apart r member
    simp only [List.mem_append, not_or] at outside
    rw [links.nexts, if_neg (not_last s r outside.1.2), if_neg (not_last front r outside.1.1)]

end Dll
