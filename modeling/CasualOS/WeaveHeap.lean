import CasualOS.Weave2

/-! What the node heap of a weave holds: disjoint lists of cells, a cell being a node and its atom. -/

namespace CasualOS.WeaveHeap

open Dll (Ref Heap Linked Closed Seg Spliced Detached)
open List (append_assoc flatten_cons mem_cons mem_cons_of_mem mem_cons_self nodup_append)
open Dll (prevAt valAt)

variable {T : Type}

abbrev Cell (T : Type) := Ref × Atom T

def refs (l : List (Cell T)) : List Ref := l.map Prod.fst

def atoms (l : List (Cell T)) : List (Atom T) := l.map Prod.snd

@[simp] theorem refs_nil : refs ([] : List (Cell T)) = [] := rfl

@[simp] theorem refs_cons (c : Cell T) (l : List (Cell T)) : refs (c :: l) = c.1 :: refs l := rfl

@[simp] theorem refs_append (l m : List (Cell T)) : refs (l ++ m) = refs l ++ refs m :=
  List.map_append

@[simp] theorem refs_length (l : List (Cell T)) : (refs l).length = l.length := List.length_map ..

@[simp] theorem atoms_nil : atoms ([] : List (Cell T)) = [] := rfl

@[simp] theorem atoms_cons (c : Cell T) (l : List (Cell T)) : atoms (c :: l) = c.2 :: atoms l := rfl

@[simp] theorem atoms_append (l m : List (Cell T)) : atoms (l ++ m) = atoms l ++ atoms m :=
  List.map_append

theorem mem_refs (c : Cell T) (l : List (Cell T)) (member : c ∈ l) : c.1 ∈ refs l :=
  List.mem_map_of_mem member

/-- The lists `all` are in the heap, linked both ways to their ends, and share no node. Other nodes
of the heap are garbage. -/
structure HeapRepr (h : Heap (Atom T)) (all : List (List (Cell T))) : Prop where
  closed : ∀ l ∈ all, Closed h (refs l)
  vals : ∀ l ∈ all, ∀ c ∈ l, valAt h c.1 = some c.2
  distinct : (refs all.flatten).Nodup

variable {h : Heap (Atom T)} {all : List (List (Cell T))} {l front back s after : List (Cell T)} {w : Weave T}
  {c : Cell T}

theorem HeapRepr.perm {all' : List (List (Cell T))}
    (repr : HeapRepr h all) (same : all.Perm all') : HeapRepr h all' where
  closed l member := repr.closed l (same.mem_iff.mpr member)
  vals l member := repr.vals l (same.mem_iff.mpr member)
  distinct := ((same.flatten.map Prod.fst).nodup_iff).mp repr.distinct

theorem HeapRepr.drop (repr : HeapRepr h (l :: all)) : HeapRepr h all where
  closed m member := repr.closed m (mem_cons_of_mem _ member)
  vals m member := repr.vals m (mem_cons_of_mem _ member)
  distinct := by
    have whole := repr.distinct
    rw [flatten_cons, refs_append] at whole
    exact (nodup_append.mp whole).2.1

theorem HeapRepr.bound (repr : HeapRepr h all)
    (l : List (Cell T)) (member : l ∈ all) (r : Ref) (inside : r ∈ refs l) : r < h.length :=
  Dll.closed_bound h _ (repr.closed l member) r inside

theorem HeapRepr.head_distinct (repr : HeapRepr h (l :: all)) : (refs l).Nodup := by
  have whole := repr.distinct
  rw [flatten_cons, refs_append] at whole
  exact (nodup_append.mp whole).1

theorem HeapRepr.head_apart (repr : HeapRepr h (l :: all)) (m : List (Cell T)) (member : m ∈ all) :
    ∀ r ∈ refs m, r ∉ refs l := by
  intro r inM inL
  have whole := repr.distinct
  rw [flatten_cons, refs_append] at whole
  have inAll : r ∈ refs all.flatten := by
    obtain ⟨c, inside, rfl⟩ := List.mem_map.mp inM
    exact mem_refs c _ (List.mem_flatten.mpr ⟨m, member, inside⟩)
  exact (nodup_append.mp whole).2.2 r inL r inAll rfl

/-- A fresh node is a list of its own. -/
theorem HeapRepr.alloc (repr : HeapRepr h all)
    (atom : Atom T) : HeapRepr (Dll.alloc h atom none none).1 ([(h.length, atom)] :: all) where
  closed l member := by
    rcases mem_cons.mp member with rfl | member
    · exact ⟨none, by simp [Seg, Dll.prevAt_alloc, Dll.nextAt_alloc]⟩
    · obtain ⟨o, seg⟩ := repr.closed l member
      exact ⟨o, Dll.seg_alloc h atom none none o none _ seg⟩
  vals l member c inside := by
    rcases mem_cons.mp member with rfl | member
    · rw [List.mem_singleton.mp inside, Dll.valAt_alloc, if_pos rfl]
    · have below := repr.bound l member c.1 (mem_refs c l inside)
      rw [Dll.valAt_alloc, if_neg (Nat.ne_of_lt below)]
      exact repr.vals l member c inside
  distinct := by
    rw [flatten_cons, refs_append]
    refine List.nodup_cons.mpr ⟨fun member => ?_, repr.distinct⟩
    obtain ⟨c, inside, same⟩ := List.mem_map.mp member
    obtain ⟨l, present, inside⟩ := List.mem_flatten.mp inside
    have below := repr.bound l present c.1 (mem_refs c l inside)
    exact Nat.ne_of_lt below same

/-- A list put between two parts of another. The links of `s` only have to be right inside. -/
theorem HeapRepr.spliced {h' : Heap (Atom T)} (repr : HeapRepr h ((front ++ back) :: s :: all))
    (inner : front ≠ []) (filled : s ≠ []) (links : Spliced h h' (refs front) (refs s) (refs back))
    (vals : ∀ x, valAt h' x = valAt h x) : HeapRepr h' ((front ++ s ++ back) :: all) := by
  have reordered : ((front ++ s ++ back) :: all).flatten.Perm ((front ++ back) :: s :: all).flatten := by
    simp only [flatten_cons, append_assoc]
    exact (List.perm_append_comm_assoc s back all.flatten).append_left front
  have distinct : (refs ((front ++ s ++ back) :: all).flatten).Nodup :=
    ((reordered.map Prod.fst).nodup_iff).mpr repr.distinct
  have own : (refs front ++ refs s ++ refs back).Nodup := by
    rw [flatten_cons, refs_append] at distinct
    simpa using (nodup_append.mp distinct).1
  obtain ⟨o, whole⟩ : Closed h (refs front ++ refs back) := by
    simpa using repr.closed (front ++ back) mem_cons_self
  obtain ⟨p, segS⟩ := repr.closed s (mem_cons_of_mem _ mem_cons_self)
  refine ⟨fun l member => ?_, fun l member c inside => ?_, distinct⟩
  · rcases mem_cons.mp member with rfl | member
    · have joined := Dll.spliced_seg h h' (refs front) (refs s) (refs back) o p none own whole segS
        (by simpa [refs] using inner) (by simpa [refs] using filled) links
      exact ⟨o, by simpa using joined⟩
    · refine Dll.relinked_frame h h' _ _ _ _ _ _ _ (refs l) links
        (repr.closed l (mem_cons_of_mem _ (mem_cons_of_mem _ member))) ?_
      intro r inL inside
      have outer := repr.head_apart l (mem_cons_of_mem _ member) r inL
      have inner := repr.drop.head_apart l member r inL
      simp only [refs_append, List.mem_append, not_or] at outer inside
      rcases inside with (inFront | inS) | inBack
      · exact outer.1 inFront
      · exact inner inS
      · exact outer.2 inBack
  · rw [vals]
    rcases mem_cons.mp member with rfl | member
    · simp only [List.mem_append] at inside
      rcases inside with (inFront | inS) | inBack
      · exact repr.vals _ mem_cons_self c (List.mem_append_left _ inFront)
      · exact repr.vals s (mem_cons_of_mem _ mem_cons_self) c inS
      · exact repr.vals _ mem_cons_self c (List.mem_append_right _ inBack)
    · exact repr.vals l (mem_cons_of_mem _ (mem_cons_of_mem _ member)) c inside

theorem HeapRepr.detached {h' : Heap (Atom T)} (repr : HeapRepr h ((front ++ s ++ back) :: all))
    (linked : Linked h (refs front ++ refs s ++ refs back)) (links : Detached h h' (refs front) (refs s) (refs back))
    (vals : ∀ x, valAt h' x = valAt h x) : HeapRepr h' ((front ++ back) :: s :: all) := by
  have reordered : ((front ++ s ++ back) :: all).flatten.Perm ((front ++ back) :: s :: all).flatten := by
    simp only [flatten_cons, append_assoc]
    exact (List.perm_append_comm_assoc s back all.flatten).append_left front
  have own : (refs front ++ refs s ++ refs back).Nodup := by simpa using repr.head_distinct
  obtain ⟨linkedFront, linkedS⟩ := Dll.detached_linked h h' _ _ _ own linked links
  refine ⟨fun l member => ?_, fun l member c inside => ?_, ((reordered.map Prod.fst).nodup_iff).mp repr.distinct⟩
  · rcases mem_cons.mp member with rfl | member
    · simpa using linkedFront.closed
    · rcases mem_cons.mp member with rfl | member
      · exact linkedS.closed
      · refine Dll.relinked_frame h h' _ _ _ _ _ _ _ (refs l) links
          (repr.closed l (mem_cons_of_mem _ member)) ?_
        intro r inL inside
        exact repr.head_apart l member r inL (by simpa using inside)
  · rw [vals]
    have whole := repr.vals _ mem_cons_self
    rcases mem_cons.mp member with rfl | member
    · rcases List.mem_append.mp inside with inFront | inBack
      · exact whole c (List.mem_append_left _ (List.mem_append_left _ inFront))
      · exact whole c (List.mem_append_right _ inBack)
    · rcases mem_cons.mp member with rfl | member
      · exact whole c (List.mem_append_left _ (List.mem_append_right _ inside))
      · exact repr.vals l (mem_cons_of_mem _ member) c inside

/-! ### Reading a list -/

theorem node_of_val (h : Heap (Atom T)) (r : Ref) (atom : Atom T)
    (val : valAt h r = some atom) : ∃ node, h[r]? = some node ∧ node.val = atom ∧
      node.next = Dll.nextAt h r := by
  simp only [valAt, Option.map_eq_some_iff] at val
  obtain ⟨node, found, same⟩ := val
  exact ⟨node, found, same, by simp [Dll.nextAt, found]⟩

theorem HeapRepr.seg (repr : HeapRepr h ((front ++ back) :: all)) : ∃ p, Seg h p (refs back) none := by
  obtain ⟨o, whole⟩ := repr.closed _ mem_cons_self
  rw [refs_append] at whole
  exact ⟨_, ((Dll.seg_append h o none (refs front) (refs back)).mp whole).2⟩

theorem HeapRepr.length_le (repr : HeapRepr h ((front ++ back) :: all)) : back.length ≤ h.length := by
  have distinct := repr.head_distinct
  rw [refs_append] at distinct
  rw [← refs_length back]
  refine Dll.nodup_length_le h.length (refs back) (nodup_append.mp distinct).2.1 ?_
  intro r member
  exact repr.bound _ mem_cons_self r (by simp [member])

theorem HeapRepr.walk (repr : HeapRepr h ((front ++ back) :: all)) :
    Dll.walk h (refs back).head? = some (refs back) := by
  have closed := repr.closed _ mem_cons_self
  have distinct := repr.head_distinct
  rw [refs_append] at closed distinct
  exact Dll.walk_closed h (refs front) (refs back) closed distinct

theorem HeapRepr.walk_all (repr : HeapRepr h (l :: all)) : Dll.walk h (refs l).head? = some (refs l) := by
  have source : HeapRepr h (([] ++ l) :: all) := repr
  exact source.walk

def onAtom (p : Atom T → Bool) (c : Cell T) : Bool := p c.2

theorem atoms_takeWhile (p : Atom T → Bool) (l : List (Cell T)) :
    atoms (l.takeWhile (onAtom p)) = (atoms l).takeWhile p := by
  rw [atoms, atoms, List.takeWhile_map]
  rfl

theorem atoms_dropWhile (p : Atom T → Bool) (l : List (Cell T)) :
    atoms (l.dropWhile (onAtom p)) = (atoms l).dropWhile p := by
  rw [atoms, atoms, List.dropWhile_map]
  rfl

theorem atoms_filter (p : Atom T → Bool) (l : List (Cell T)) : atoms (l.filter (onAtom p)) = (atoms l).filter p := by
  rw [atoms, atoms, List.filter_map]
  rfl

/-- The atoms of a causal group: the run of newer ones. -/
def isNewer (timestamp : Int) (a : Atom T) : Bool := decide (timestamp < a.id.timestamp)

theorem group_seg (h : Heap (Atom T)) (p : Option Ref) (l : List (Cell T)) (timestamp : Int)
    (fuel : Nat) (seg : Seg h p (refs l) none) (vals : ∀ c ∈ l, valAt h c.1 = some c.2)
    (enough : l.length ≤ fuel) :
    causalGroupFrom h timestamp fuel (refs l).head? =
      some (refs (l.takeWhile (onAtom (isNewer timestamp)))) := by
  induction l generalizing p fuel with
  | nil => cases fuel <;> rfl
  | cons c l ih =>
    cases fuel with
    | zero => simp at enough
    | succ fuel =>
      rw [refs_cons] at seg
      obtain ⟨_, _, next, rest⟩ := seg
      obtain ⟨node, found, same, toNext⟩ := node_of_val h c.1 c.2 (vals c mem_cons_self)
      rw [Option.or_none] at next
      have tail := ih (some c.1) fuel rest (fun d member => vals d (mem_cons_of_mem _ member)) (by simpa using enough)
      simp only [refs_cons, List.head?_cons, causalGroupFrom, found, same]
      by_cases newer : timestamp < c.2.id.timestamp
      · rw [if_neg (not_le.mpr newer), toNext, next, tail,
          List.takeWhile_cons_of_pos (by simpa [onAtom, isNewer] using newer)]
        rfl
      · rw [if_pos (not_lt.mp newer), List.takeWhile_cons_of_neg (by simpa [onAtom, isNewer] using newer)]
        rfl

/-- The nodes that a search for later siblings runs over: those whose cause is not older. -/
def notOlder (cause : Option AtomId) (a : Atom T) : Bool := !isOlderCause a.cause cause

def isSibling (cause : Option AtomId) (a : Atom T) : Bool := idEquals a.cause cause

theorem siblings_seg (h : Heap (Atom T)) (p : Option Ref) (l : List (Cell T))
    (cause : Option AtomId) (fuel : Nat) (seg : Seg h p (refs l) none)
    (vals : ∀ c ∈ l, valAt h c.1 = some c.2) (enough : l.length ≤ fuel) :
    siblingsFrom h cause fuel (refs l).head? =
      some (refs ((l.takeWhile (onAtom (notOlder cause))).filter (onAtom (isSibling cause)))) := by
  induction l generalizing p fuel with
  | nil => cases fuel <;> rfl
  | cons c l ih =>
    cases fuel with
    | zero => simp at enough
    | succ fuel =>
      rw [refs_cons] at seg
      obtain ⟨_, _, next, rest⟩ := seg
      obtain ⟨node, found, same, toNext⟩ := node_of_val h c.1 c.2 (vals c mem_cons_self)
      rw [Option.or_none] at next
      have tail := ih (some c.1) fuel rest (fun d member => vals d (mem_cons_of_mem _ member)) (by simpa using enough)
      simp only [refs_cons, List.head?_cons, siblingsFrom, found, same, toNext, next, tail]
      cases older : isOlderCause c.2.cause cause with
      | true => simp [onAtom, notOlder, older]
      | false => cases sibling : idEquals c.2.cause cause <;> simp [onAtom, notOlder, isSibling, older, sibling]

/-- The atoms that the scan under a cause passes: newer ones that are no child sorting after `id`. -/
def keeps (cause : Atom T) (id : AtomId) (a : Atom T) : Bool :=
  isNewer cause.id.timestamp a &&
    !(idEquals a.cause (some cause.id) && compareAtomIds id a.id < 0)

def position (cause : Atom T) (id : AtomId) : List (Cell T) → Option Ref → Position
  | [], last => .after last
  | c :: rest, last =>
    if keeps cause id c.2 then position cause id rest (some c.1)
    else if isNewer cause.id.timestamp c.2 then .before c.1 else .after last

theorem scan_seg (h : Heap (Atom T)) (p : Option Ref) (l : List (Cell T)) (cause : Atom T)
    (id : AtomId) (fuel : Nat) (last : Option Ref) (seg : Seg h p (refs l) none)
    (vals : ∀ c ∈ l, valAt h c.1 = some c.2) (enough : l.length ≤ fuel) :
    scanUnder h cause id fuel (refs l).head? last = some (position cause id l last) := by
  induction l generalizing p fuel last with
  | nil => cases fuel <;> rfl
  | cons c l ih =>
    cases fuel with
    | zero => simp at enough
    | succ fuel =>
      rw [refs_cons] at seg
      obtain ⟨_, _, next, rest⟩ := seg
      obtain ⟨node, found, same, toNext⟩ := node_of_val h c.1 c.2 (vals c mem_cons_self)
      rw [Option.or_none] at next
      have tail := ih (some c.1) fuel (some c.1) rest
        (fun d member => vals d (mem_cons_of_mem _ member)) (by simpa using enough)
      simp only [refs_cons, List.head?_cons, scanUnder, found, same, toNext, next, tail, position, keeps]
      by_cases newer : cause.id.timestamp < c.2.id.timestamp
      · have newer' : isNewer cause.id.timestamp c.2 = true := by simpa [isNewer] using newer
        rw [if_neg (not_le.mpr newer)]
        by_cases child : idEquals c.2.cause (some cause.id) = true <;>
          by_cases before : compareAtomIds id c.2.id < 0 <;> simp [newer', child, before]
      · have older : isNewer cause.id.timestamp c.2 = false := by simpa [isNewer] using newer
        simp [not_lt.mp newer, older]

theorem position_before (cause : Atom T) (id : AtomId) (l : List (Cell T)) (last : Option Ref)
    (r : Ref) (found : position cause id l last = .before r) :
    (refs (l.dropWhile (onAtom (keeps cause id)))).head? = some r := by
  induction l generalizing last with
  | nil => simp [position] at found
  | cons c l ih =>
    simp only [position] at found
    by_cases kept : keeps cause id c.2 = true
    · rw [if_pos kept] at found
      rw [List.dropWhile_cons_of_pos (p := onAtom (keeps cause id)) kept]
      exact ih (some c.1) found
    · rw [if_neg kept] at found
      rw [List.dropWhile_cons_of_neg (p := onAtom (keeps cause id)) kept]
      split at found
      · simpa using found
      · cases found

theorem position_after (cause : Atom T) (id : AtomId) (l : List (Cell T)) (last o : Option Ref)
    (found : position cause id l last = .after o) :
    o = (refs (l.takeWhile (onAtom (keeps cause id)))).getLast?.or last := by
  induction l generalizing last with
  | nil =>
    simp only [position, Position.after.injEq] at found
    simp [found]
  | cons c l ih =>
    simp only [position] at found
    by_cases kept : keeps cause id c.2 = true
    · rw [if_pos kept] at found
      rw [List.takeWhile_cons_of_pos (p := onAtom (keeps cause id)) kept, ih (some c.1) found, refs_cons, List.getLast?_cons]
      cases (refs (l.takeWhile (onAtom (keeps cause id)))).getLast? <;> rfl
    · rw [if_neg kept] at found
      rw [List.takeWhile_cons_of_neg (p := onAtom (keeps cause id)) kept]
      split at found
      · cases found
      · simpa using found.symm

/-! ### The list operations of the weave -/

def place (cause : Atom T) (id : AtomId) (s after : List (Cell T)) : List (Cell T) :=
  after.takeWhile (onAtom (keeps cause id)) ++ s ++ after.dropWhile (onAtom (keeps cause id))

theorem HeapRepr.atomAt (repr : HeapRepr w.nodes all)
    (l : List (Cell T)) (member : l ∈ all) (c : Cell T) (inside : c ∈ l) :
    w.atomAt c.1 = some c.2 := repr.vals l member c inside

theorem HeapRepr.next (repr : HeapRepr h ((front ++ c :: after) :: all)) : Dll.nextAt h c.1 = (refs after).head? := by
  have closed := repr.closed _ mem_cons_self
  have cut : refs (front ++ c :: after) = refs (front ++ [c]) ++ refs after := by simp
  rw [cut] at closed
  exact Dll.closed_next h _ _ c.1 closed (by simp)

theorem HeapRepr.after_seg (repr : HeapRepr h ((front ++ c :: after) :: all)) :
    HeapRepr h (((front ++ [c]) ++ after) :: all) := by simpa using repr

theorem positionUnder_heap (repr : HeapRepr w.nodes ((front ++ c :: after) :: all))
    (id : AtomId) : w.positionUnder c.1 id = .ok (position c.2 id after none) := by
  have atom := repr.atomAt _ mem_cons_self c (by simp)
  have whole := repr.after_seg
  obtain ⟨p, seg⟩ := whole.seg
  simp only [Weave.positionUnder, atom, repr.next]
  rw [scan_seg w.nodes p after c.2 id _ none seg
    (fun d member => repr.vals _ mem_cons_self d (by simp [member])) whole.length_le]
  rfl

theorem insertUnder_heap (repr : HeapRepr w.nodes ((front ++ c :: after) :: all))
    (atom : Atom T) (reorderBuffer : Bool) :
    ∃ nodes, w.insertUnder c.1 atom reorderBuffer =
        .ok (({ w with nodes := nodes } : Weave T).addNodeToMaps w.nodes.length reorderBuffer,
          w.nodes.length) ∧
      HeapRepr nodes
        ((front ++ c :: place c.2 atom.id [(w.nodes.length, atom)] after) :: all) ∧
      ∀ x, x < w.nodes.length → x ∉ refs after → prevAt nodes x = prevAt w.nodes x := by
  have cut : front ++ c :: after = (front ++ c :: after.takeWhile (onAtom (keeps c.2 atom.id))) ++
      after.dropWhile (onAtom (keeps c.2 atom.id)) := by
    rw [append_assoc, List.cons_append, List.takeWhile_append_dropWhile]
  have closed := repr.closed _ mem_cons_self
  rw [cut, refs_append] at closed
  have allocated := (repr.alloc atom).perm (List.Perm.swap _ _ _)
  rw [cut] at allocated
  have result : ∀ nodes, Spliced (Dll.alloc w.nodes atom none none).1 nodes
        (refs (front ++ c :: after.takeWhile (onAtom (keeps c.2 atom.id)))) [w.nodes.length]
        (refs (after.dropWhile (onAtom (keeps c.2 atom.id)))) →
      (∀ x, valAt nodes x = if x = w.nodes.length then some atom else valAt w.nodes x) →
      HeapRepr nodes
        ((front ++ c :: place c.2 atom.id [(w.nodes.length, atom)] after) :: all) ∧
      ∀ x, x < w.nodes.length → x ∉ refs after → prevAt nodes x = prevAt w.nodes x := by
    intro nodes links vals
    have spliced := allocated.spliced (by simp) (by simp) links (fun x => by rw [vals, Dll.valAt_alloc])
    refine ⟨by simpa [place] using spliced, fun x below outside => ?_⟩
    have notBack : x ∉ refs (after.dropWhile (onAtom (keeps c.2 atom.id))) := fun inside =>
      outside (((List.dropWhile_sublist _).map Prod.fst).subset inside)
    rw [links.prevs, if_neg (by simpa using Ne.symm (Nat.ne_of_lt below)),
      if_neg (Dll.not_head _ x notBack), Dll.prevAt_alloc, if_neg (Nat.ne_of_lt below)]
  simp only [Weave.insertUnder, positionUnder_heap repr, bind, Except.bind]
  cases found : position c.2 atom.id after none with
  | before r =>
    refine ⟨(Dll.insertBefore w.nodes r atom).1, rfl, result _ ?_ ?_⟩
    · exact Dll.insert_before w.nodes _ _ r atom closed (by simp)
        (position_before c.2 atom.id after none r found)
    · exact fun x => Dll.valAt_insertBefore w.nodes r x atom
  | after last =>
    refine ⟨(Dll.insertAfter w.nodes (last.getD c.1) atom).1, rfl, result _ ?_ ?_⟩
    · refine Dll.insert_after w.nodes _ _ (last.getD c.1) atom closed ?_
      rw [position_after c.2 atom.id after none last found, refs_append, refs_cons,
        List.getLast?_append, List.getLast?_cons, Option.or_none]
      rfl
    · exact fun x => Dll.valAt_insertAfter w.nodes _ x atom

theorem insertNodeUnder_heap {start : Cell T} (repr : HeapRepr w.nodes ((front ++ c :: after) :: (start :: s) :: all)) :
    ∃ nodes, w.insertNodeUnder c.1 start.1 ((refs (start :: s)).getLast?.getD start.1) = .ok { w with nodes := nodes } ∧
      (∀ x, valAt nodes x = valAt w.nodes x) ∧
      HeapRepr nodes ((front ++ c :: place c.2 start.2.id (start :: s) after) :: all) ∧
      ∀ x, x ≠ start.1 → x ∉ refs after → prevAt nodes x = prevAt w.nodes x := by
  have cut : front ++ c :: after = (front ++ c :: after.takeWhile (onAtom (keeps c.2 start.2.id))) ++
      after.dropWhile (onAtom (keeps c.2 start.2.id)) := by
    rw [append_assoc, List.cons_append, List.takeWhile_append_dropWhile]
  have second : start :: s ∈ (front ++ c :: after) :: (start :: s) :: all := by simp
  have atom := repr.atomAt _ second start mem_cons_self
  have bound : ∀ r ∈ refs (start :: s), r < w.nodes.length := repr.bound _ second
  have final : (refs (start :: s)).getLast? = some ((refs (start :: s)).getLast?.getD start.1) := by
    rw [refs_cons, List.getLast?_cons]
    rfl
  have closed := repr.closed _ mem_cons_self
  rw [cut, refs_append] at closed
  have source := repr
  rw [cut] at source
  have own : (refs (front ++ c :: after.takeWhile (onAtom (keeps c.2 start.2.id))) ++ refs (start :: s) ++
      refs (after.dropWhile (onAtom (keeps c.2 start.2.id)))).Nodup := by
    have reordered : ((front ++ c :: after.takeWhile (onAtom (keeps c.2 start.2.id))) ++ (start :: s) ++
        after.dropWhile (onAtom (keeps c.2 start.2.id))).Perm ((front ++ c :: after) ++ (start :: s)) := by
      rw [cut, append_assoc, append_assoc (front ++ _)]
      exact List.perm_append_comm.append_left _
    have distinct := repr.distinct
    rw [flatten_cons, flatten_cons, ← append_assoc, refs_append] at distinct
    simpa [refs] using ((reordered.map Prod.fst).nodup_iff).mpr (nodup_append.mp distinct).1
  have result : ∀ nodes, Spliced w.nodes nodes
        (refs (front ++ c :: after.takeWhile (onAtom (keeps c.2 start.2.id)))) (refs (start :: s))
        (refs (after.dropWhile (onAtom (keeps c.2 start.2.id)))) →
      (∀ x, valAt nodes x = valAt w.nodes x) →
      HeapRepr nodes ((front ++ c :: place c.2 start.2.id (start :: s) after) :: all) ∧
      ∀ x, x ≠ start.1 → x ∉ refs after → prevAt nodes x = prevAt w.nodes x := by
    intro nodes links vals
    refine ⟨by simpa [place] using source.spliced (by simp) (by simp) links vals,
      fun x other outside => ?_⟩
    have notBack : x ∉ refs (after.dropWhile (onAtom (keeps c.2 start.2.id))) := fun inside =>
      outside (((List.dropWhile_sublist _).map Prod.fst).subset inside)
    rw [links.prevs, if_neg (by simpa using Ne.symm other), if_neg (Dll.not_head _ x notBack)]
  simp only [Weave.insertNodeUnder, atom, positionUnder_heap repr, bind, Except.bind]
  cases found : position c.2 start.2.id after none with
  | before r =>
    exact ⟨_, rfl, fun x => Dll.valAt_spliceBefore .., result _
      (Dll.splice_before w.nodes _ _ _ r start.1 _ closed bound (by simp) own
        (position_before c.2 start.2.id after none r found) rfl final)
      (fun x => Dll.valAt_spliceBefore ..)⟩
  | after last =>
    refine ⟨_, rfl, fun x => Dll.valAt_spliceAfter .., result _
      (Dll.splice_after w.nodes _ _ _ (last.getD c.1) start.1 _ closed bound ?_ rfl final)
      (fun x => Dll.valAt_spliceAfter ..)⟩
    rw [position_after c.2 start.2.id after none last found, refs_append, refs_cons,
      List.getLast?_append, List.getLast?_cons, Option.or_none]
    rfl

theorem iterateCausalGroup_heap (repr : HeapRepr w.nodes ((front ++ c :: after) :: all)) : w.iterateCausalGroup c.1 =
      some (refs (after.takeWhile (onAtom (isNewer c.2.id.timestamp)))) := by
  have atom := repr.atomAt _ mem_cons_self c (by simp)
  have whole := repr.after_seg
  obtain ⟨p, seg⟩ := whole.seg
  simp only [Weave.iterateCausalGroup, atom, repr.next]
  exact group_seg w.nodes p after c.2.id.timestamp _ seg
    (fun d member => repr.vals _ mem_cons_self d (by simp [member])) whole.length_le

theorem iterateSiblings_heap (repr : HeapRepr w.nodes ((front ++ c :: after) :: all)) : w.iterateSiblings c.1 =
      some (refs ((after.takeWhile (onAtom (notOlder c.2.cause))).filter (onAtom (isSibling c.2.cause)))) := by
  have atom := repr.atomAt _ mem_cons_self c (by simp)
  have whole := repr.after_seg
  obtain ⟨p, seg⟩ := whole.seg
  simp only [Weave.iterateSiblings, atom, repr.next]
  exact siblings_seg w.nodes p after c.2.cause _ seg
    (fun d member => repr.vals _ mem_cons_self d (by simp [member])) whole.length_le

theorem lastInCausalGroup_heap (repr : HeapRepr w.nodes ((front ++ c :: after) :: all)) : w.lastInCausalGroup c.1 =
      .ok ((refs (c :: after.takeWhile (onAtom (isNewer c.2.id.timestamp)))).getLast?.getD c.1) := by
  simp only [Weave.lastInCausalGroup, iterateCausalGroup_heap repr, orDiverges, bind, Except.bind,
    refs_cons, List.getLast?_cons, Option.getD_some]
  rfl

end CasualOS.WeaveHeap
