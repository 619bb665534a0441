import CasualOS.CheckedWeave
import CasualOS.Convergence
import CasualOS.TreeOrder

/-! Delivering a set of atoms in any order and more than once. -/

namespace CasualOS.Redelivery

open Dll (Ref)
open HashText PathOrder Supported WeaveHeap WeaveRepr WeaveRead WeaveBuffer CausalOrder TreeOrder WeaveInsert
open CheckedWeave Convergence
open List (flatten_append flatten_cons mem_append mem_append_right mem_cons mem_cons_of_mem mem_cons_self mem_flatten
  mem_map mem_map_of_mem nodup_append pairwise_cons)
open Option (some)

variable {T : Type} {getHash : AtomHashInput T → JsString} {S : List (Atom T)}

theorem not_overtaken (plain : ∀ a ∈ S, PlainAtom a) : ¬ Overtaken S := by
  intro ⟨a, inA, b, inB, _, _, _, _, sorted, newer, _⟩
  have less := (plain_key a.id b.id (plain a inA).id (plain b inB).id).mp ((compare_neg _ _).mp sorted)
  rcases less with older | ⟨same, _⟩
  · exact absurd (older.trans newer) (lt_irrefl _)
  · exact absurd (same ▸ newer) (lt_irrefl _)

theorem equals_of_text (a b : Atom T) (left : PlainAtom a) (right : PlainAtom b) (cause : AtomId)
    (caused : b.cause = some cause) (named : atomIdToString cause = atomIdToString a.id) :
    idEquals (some a.id) b.cause = true := by
  rw [caused]
  exact idEquals_of_string _ _ left.id (right.cause cause caused) named.symm

variable {path : Atom T → List Key}

/-- What a weave holds after the atoms `done` of the set were delivered: trees in the lists of the roots
and in the buffer, where each tree waits for an atom that has not come. -/
structure Holding (getHash : AtomHashInput T → JsString) (S : List (Atom T)) (path : Atom T → List Key)
    (w : Weave T) (lists buffered : List (List (Cell T))) (done : List (Atom T)) : Prop where
  checked : Checked getHash (Vouches getHash) w lists buffered
  members : ∀ d, d ∈ lists.flatten ∨ d ∈ buffered.flatten → d.2 ∈ S
  trees : ∀ l ∈ lists, CausalList path (atoms l)
  parts : ∀ l ∈ buffered, CausalList path (atoms l)
  away : ∀ l ∈ buffered, ∀ start, l.head? = some start → ∃ cause, start.2.cause = some cause ∧
    ∀ d, d ∈ lists.flatten ∨ d ∈ buffered.flatten → idKey d ≠ atomIdToString cause
  apart : ∀ c ∈ lists.flatten, ∀ d ∈ buffered.flatten, c.2 ≠ d.2
  done : ∀ a, a ∈ done ↔ ∃ d, (d ∈ lists.flatten ∨ d ∈ buffered.flatten) ∧ d.2 = a

theorem holding_new (size : Option Int) : Holding getHash S path (Weave.new size) [] [] [] where
  checked := checked_new size
  members := by simp
  trees := by simp
  parts := by simp
  away := by simp
  apart := by simp
  done := by simp

variable {w : Weave T} {lists buffered pre post : List (List (Cell T))} {done : List (Atom T)}

theorem mem_bufferedAtoms (repr : Repr w lists buffered) (b : Atom T) :
    b ∈ bufferedAtoms w ↔ ∃ d ∈ buffered.flatten, d.2 = b := by
  constructor
  · intro member
    rcases List.mem_filterMap.mp member with ⟨r, value, found⟩
    rcases (repr.buffer.mem_values r).mp value with ⟨d, inside, rfl⟩
    rw [repr.atomAt d (.inr inside), some.injEq] at found
    exact ⟨d, inside, found⟩
  · intro ⟨d, inside, same⟩
    exact same ▸ buffered_atom repr d inside

theorem adoptAll_causal (set : CausalSet getHash S) (plain : ∀ a ∈ S, PlainAtom a)
    (paths : Paths S path) (blocks : List (Block T)) {front after : List (Cell T)} {c : Cell T}
    (tree : CausalList path (atoms (front ++ c :: after)))
    (parts : ∀ b ∈ blocks, CausalList path (atoms (b.1 :: b.2)) ∧ waits c.2 b.1 = true)
    (members : ∀ d ∈ front ++ c :: after, d.2 ∈ S) (added : ∀ d ∈ (spread blocks).flatten, d.2 ∈ S)
    (distinct : (atoms (spread blocks).flatten).Nodup)
    (apart : ∀ d ∈ (spread blocks).flatten, d.2 ∉ atoms (front ++ c :: after)) :
    CausalList path (atoms (front ++ c :: blocks.foldl (adopt c.2) after)) := by
  induction blocks generalizing after with
  | nil => exact tree
  | cons b blocks ih =>
    have first := parts b mem_cons_self
    rw [spread_cons, flatten_cons, atoms_append] at distinct
    have split := nodup_append.mp distinct
    have inFirst : ∀ d ∈ b.1 :: b.2, d ∈ (spread (b :: blocks)).flatten := by
      intro d member
      rw [spread_cons, flatten_cons]
      exact List.mem_append_left _ member
    have inRest : ∀ d ∈ (spread blocks).flatten, d ∈ (spread (b :: blocks)).flatten := by
      intro d member
      rw [spread_cons, flatten_cons]
      exact mem_append_right _ member
    have known : ∀ x ∈ atoms front ++ c.2 :: atoms after, x ∈ S := by
      intro x inside
      rw [← atoms_cons, ← atoms_append] at inside
      rcases mem_map.mp inside with ⟨d, inList, rfl⟩
      exact members d inList
    have shape : atoms (front ++ c :: adopt c.2 after b) =
        atoms front ++ c.2 :: placed c.2 b.1.2.id (atoms (b.1 :: b.2)) (atoms after) := by
      rw [atoms_append, atoms_cons, adopt, atoms_place]
    rw [atoms_append, atoms_cons] at tree
    have grown : CausalList path (atoms (front ++ c :: adopt c.2 after b)) := by
      rw [shape]
      apply set.graft paths tree first.1 (settled_plain (fun x inside => (plain x (known x inside)).id) _)
        rfl (idEquals_symm _ _ first.2) known
      · intro x inside
        rcases mem_map.mp inside with ⟨d, inBlock, rfl⟩
        exact added d (inFirst d inBlock)
      · intro x inside
        rcases mem_map.mp inside with ⟨d, inBlock, rfl⟩
        have out := apart d (inFirst d inBlock)
        rw [atoms_append, atoms_cons] at out
        exact out
    have cells : ∀ d, d ∈ front ++ c :: adopt c.2 after b ↔ d ∈ b.1 :: b.2 ∨ d ∈ front ++ c :: after := by
      intro d
      simp only [mem_append, mem_cons, mem_adopt]
      tauto
    refine ih grown (fun x inside => parts x (mem_cons_of_mem _ inside)) ?_
      (fun d inside => added d (inRest d inside)) split.2.1 ?_
    · intro d inside
      rcases (cells d).mp inside with inBlock | old
      · exact added d (inFirst d inBlock)
      · exact members d old
    · intro d inside member
      rcases mem_map.mp member with ⟨e, inList, same⟩
      rcases (cells e).mp inList with inBlock | old
      · exact split.2.2 _ (mem_map_of_mem inBlock) _ (mem_map_of_mem inside) same
      · exact apart d (inRest d inside) (same ▸ mem_map_of_mem old)

theorem insert_causal (set : CausalSet getHash S) (plain : ∀ a ∈ S, PlainAtom a) (paths : Paths S path)
    {front after : List (Cell T)} {c : Cell T} {n : Ref} {a : Atom T}
    (tree : CausalList path (atoms (front ++ c :: after))) (members : ∀ d ∈ front ++ c :: after, d.2 ∈ S)
    (inS : a ∈ S) (link : idEquals a.cause (some c.2.id) = true)
    (fresh : ∀ d ∈ front ++ c :: after, d.2 ≠ a) :
    CausalList path (atoms (front ++ c :: place c.2 a.id [(n, a)] after)) := by
  have single : CausalList path (atoms [(n, a)]) := ⟨by simp, by simp, by simp⟩
  apply adoptAll_causal set plain paths [((n, a), [])] tree _ members (by simpa using inS) (by simp)
  · intro d inside member
    have same : d = (n, a) := by simpa using inside
    rcases mem_map.mp member with ⟨e, inE, equal⟩
    rw [same] at equal
    exact fresh e inE equal
  · intro b inside
    rw [List.mem_singleton.mp inside]
    exact ⟨single, idEquals_symm _ _ link⟩

/-! ### Every delivery is safe -/

/-- An atom that is in the reorder buffer comes again only while its cause is not buffered and at most
one buffered atom has it as its cause. -/
def ResentApart (w : Weave T) (a : Atom T) : Prop :=
  a ∈ bufferedAtoms w → (∀ b ∈ bufferedAtoms w, idEquals a.cause (some b.id) = false) ∧
    ∀ b ∈ bufferedAtoms w, ∀ d ∈ bufferedAtoms w, idEquals b.cause (some a.id) = true →
      idEquals d.cause (some a.id) = true → b = d

section Steps

variable (set : CausalSet getHash S) (plain : ∀ a ∈ S, PlainAtom a)

include set in
theorem Holding.cell_key (holding : Holding getHash S path w lists buffered done) (d : Cell T)
    (member : d ∈ lists.flatten ∨ d ∈ buffered.flatten) (a : Atom T) (inS : a ∈ S)
    (same : idKey d = atomIdToString a.id) : d.2 = a :=
  set.string_unique d.2 a (holding.members d member) inS same

include set in
/-- A buffered atom that could be listed at once would have its cause in two places. -/
theorem Holding.joins_absent (holding : Holding getHash S path w lists buffered done) (a : Atom T)
    (inS : a ∈ S) (joins : Joins getHash w a) (d : Cell T) (member : d ∈ buffered.flatten) : d.2 ≠ a := by
  intro same
  subst same
  rcases mem_flatten.mp member with ⟨l, present, inL⟩
  have causes : ∃ cause, d.2.cause = some cause ∧ ∀ c ∈ lists.flatten, idKey c ≠ atomIdToString cause := by
    by_cases first : l.head? = some d
    · rcases holding.away l present d first with ⟨cause, caused, absent⟩
      exact ⟨cause, caused, fun c listed => absent c (.inl listed)⟩
    · have inTail : d ∈ l.tail := by
        cases l with
        | nil => cases inL
        | cons start rest =>
          rcases mem_cons.mp inL with here | later
          · exact absurd (by rw [here]; rfl) first
          · exact later
      rcases (holding.checked.waiting l present).parent_of inTail with ⟨p, inP, ⟨cause, caused, named⟩, _⟩
      refine ⟨cause, caused, fun c listed equal => ?_⟩
      have inBuffer : p ∈ buffered.flatten := mem_flatten.mpr ⟨l, present, inP⟩
      have one := set.string_unique c.2 p.2 (holding.members c (.inl listed))
        (holding.members p (.inr inBuffer)) (equal.trans named)
      exact holding.apart c listed p inBuffer one
  rcases causes with ⟨cause, caused, absent⟩
  simp only [Joins, caused] at joins
  rcases joins with ⟨n, c, found, _⟩
  rcases (holding.checked.repr.getNode cause n).mp found with ⟨e, listed, _, equal⟩
  exact absent e listed equal

include set plain in
theorem Holding.safe (holding : Holding getHash S path w lists buffered done) (a : Atom T) (inS : a ∈ S)
    (resent : ResentApart w a) : Safe getHash w a ∧ KeepsCauses w a := by
  have repr := holding.checked.repr
  have none_replaced : ∀ r, ¬ Replaced w a r := by
    rintro r ⟨e, old, _, found, atom, smaller, _⟩
    rcases (repr.getNode a.id e).mp found with ⟨c, listed, rfl, same⟩
    rw [repr.atomAt c (.inl listed), some.injEq] at atom
    have equal := holding.cell_key set c (.inl listed) a inS same
    rw [← atom, equal] at smaller
    exact lt_irrefl _ smaller
  have checks : AdoptsChecked getHash w a := by
    intro b inside waiting
    have link := idEquals_symm _ _ waiting
    have inB : b ∈ S := by
      rcases inside with here | buffered
      · exact here ▸ inS
      · rcases (mem_bufferedAtoms repr b).mp buffered with ⟨d, member, same⟩
        exact same ▸ holding.members d (.inr member)
    exact checkCause_none getHash b a (set.childHash b inB a inS link) (set.newer b inB a inS link)
  refine ⟨⟨fun _ => checks, ?_, ?_, fun _ r d replaced => absurd replaced (none_replaced r)⟩, ?_⟩
  · intro joins _ n value b atom waiting
    constructor
    · apply (repr.buffer.absent _).mpr
      intro d member same
      exact holding.joins_absent set a inS joins d member (holding.cell_key set d (.inr member) a inS same)
    · intro chain found d inChain
      rcases (repr.buffer.mem_values n).mp value with ⟨e, member, rfl⟩
      rcases mem_flatten.mp member with ⟨l, present, inL⟩
      rcases List.append_of_mem present with ⟨before, later, rfl⟩
      rcases List.append_of_mem inL with ⟨front, after, rfl⟩
      have moved : (lists ++ (before ++ (front ++ e :: after) :: later)).Perm
          ((front ++ e :: after) :: (lists ++ before ++ later)) := by
        rw [← List.append_assoc]
        exact List.perm_middle
      have walk : w.iterateFrom (some e.1) = some (refs (e :: after)) := (repr.heap.perm moved).walk
      have read := filterMap_atomAt w (e :: after) (fun x inside =>
        (repr.heap.perm moved).atomAt _ mem_cons_self x (mem_append_right _ inside))
      rw [Weave.atomsFrom, walk, Option.map_some, read, some.injEq] at found
      subst found
      rcases mem_map.mp inChain with ⟨x, inside, rfl⟩
      have inBuffer : x ∈ (before ++ (front ++ e :: after) :: later).flatten :=
        (flatten_middle ..).mpr (.inl (mem_append_right _ inside))
      apply (repr.getNode_none _).mpr
      intro c listed same
      have equal := set.string_unique c.2 x.2 (holding.members c (.inl listed)) (holding.members x (.inr inBuffer)) same
      exact holding.apart c listed x inBuffer equal
  · intro queues n old found atom
    rcases (repr.buffer _ n).mp found with ⟨q, member, rfl, same⟩
    have equal := holding.cell_key set q (.inr member) a inS same
    rw [repr.atomAt q (.inr member), some.injEq, equal] at atom
    subst atom
    have known := resent ((mem_bufferedAtoms repr a).mpr ⟨q, member, equal⟩)
    have away : ∀ cause, a.cause = some cause → w.reorderBuffer.get (atomIdToString cause) = none := by
      intro cause caused
      apply (repr.buffer.absent _).mpr
      intro d inside named
      have other := known.1 d.2 ((mem_bufferedAtoms repr d.2).mpr ⟨d, inside, rfl⟩)
      have inD := holding.members d (.inr inside)
      have link := equals_of_text d.2 a (plain d.2 inD) (plain a inS) cause caused named.symm
      rw [idEquals_symm _ _ link] at other
      cases other
    refine ⟨away, away, fun b inB d inD namesB namesD => ?_⟩
    have link : ∀ x ∈ bufferedAtoms w, Names x a.id → idEquals x.cause (some a.id) = true := by
      rintro x inside ⟨cause, caused, named⟩
      rcases (mem_bufferedAtoms repr x).mp inside with ⟨d, inBuffer, rfl⟩
      exact idEquals_symm _ _ (equals_of_text a d.2 (plain a inS)
        (plain d.2 (holding.members d (.inr inBuffer))) cause caused named)
    exact known.2 b inB d inD (link b inB namesB) (link d inD namesD)
  · intro r d replaced
    exact absurd replaced (none_replaced r)

/-! ### One delivery -/

section Release

variable {front after : List (Cell T)} {n : Ref} {a : Atom T} {blocks : List (Block T)}
  {rest : List (List (Cell T))} {w' : Weave T}

include set plain in
theorem Holding.released (holding : Holding getHash S path w lists buffered done) (paths : Paths S path)
    (inS : a ∈ S) (absent : ∀ d ∈ buffered.flatten, d.2 ≠ a)
    (members : ∀ d, d ∈ (pre ++ (front ++ (n, a) :: after) :: post).flatten ↔
      d = (n, a) ∨ d ∈ lists.flatten)
    (trees : ∀ l ∈ pre ++ (front ++ (n, a) :: after) :: post, CausalList path (atoms l))
    (split : buffered.Perm (spread blocks ++ rest)) (waiting : ∀ b ∈ blocks, waits a b.1 = true)
    (unwaited : ∀ d ∈ rest.flatten, waits a d = false)
    (checked : Checked getHash (Vouches getHash) w'
      (pre ++ (front ++ (n, a) :: blocks.foldl (adopt a) after) :: post) rest) :
    Holding getHash S path w' (pre ++ (front ++ (n, a) :: blocks.foldl (adopt a) after) :: post) rest
      (a :: done) := by
  have repr := holding.checked.repr
  have inBuffer : ∀ d, d ∈ buffered.flatten ↔ d ∈ (spread blocks).flatten ∨ d ∈ rest.flatten := by
    intro d
    rw [split.flatten.mem_iff, flatten_append, mem_append]
  have cells : ∀ d, d ∈ (pre ++ (front ++ (n, a) :: blocks.foldl (adopt a) after) :: post).flatten ↔
      d = (n, a) ∨ d ∈ (spread blocks).flatten ∨ d ∈ lists.flatten := by
    intro d
    have old := members d
    simp only [flatten_middle, mem_append, mem_cons, mem_adoptAll] at old ⊢
    tauto
  have inBlocks : ∀ d ∈ (spread blocks).flatten, d ∈ buffered.flatten := fun d member =>
    (inBuffer d).mpr (.inl member)
  refine ⟨checked, ?_, ?_, ?_, ?_, ?_, ?_⟩
  · intro d member
    rcases member with listed | left
    · rcases (cells d).mp listed with new | inBlock | old
      · exact new ▸ inS
      · exact holding.members d (.inr (inBlocks d inBlock))
      · exact holding.members d (.inl old)
    · exact holding.members d (.inr ((inBuffer d).mpr (.inr left)))
  · intro l member
    simp only [mem_append, mem_cons] at member
    rcases member with early | here | late
    · exact trees l (by simp [early])
    · rw [here]
      have listed : ∀ d ∈ front ++ (n, a) :: after, d = (n, a) ∨ d ∈ lists.flatten := fun d inside =>
        (members d).mp ((flatten_middle ..).mpr (.inl inside))
      apply adoptAll_causal set plain paths blocks (trees _ (by simp))
      · intro b inside
        refine ⟨holding.parts _ ?_, waiting b inside⟩
        exact split.mem_iff.mpr (List.mem_append_left _ (mem_map_of_mem inside))
      · intro d inside
        rcases listed d inside with new | old
        · exact new ▸ inS
        · exact holding.members d (.inl old)
      · intro d inside
        exact holding.members d (.inr (inBlocks d inside))
      · have whole := (repr.buffered_perm split).buffered_nodup
        rw [flatten_append, atoms_append] at whole
        exact (nodup_append.mp whole).1
      · intro d inside member
        rcases mem_map.mp member with ⟨e, inList, same⟩
        rcases listed e inList with new | old
        · rw [new] at same
          exact absent d (inBlocks d inside) same.symm
        · exact holding.apart e old d (inBlocks d inside) same
    · exact trees l (by simp [late])
  · intro l member
    exact holding.parts l (rest_buffered split l member)
  · intro l member start head
    have inRest : start ∈ rest.flatten := mem_flatten.mpr ⟨l, member, List.mem_of_head? head⟩
    rcases holding.away l (rest_buffered split l member) start head with ⟨cause, caused, away⟩
    refine ⟨cause, caused, fun d inside same => ?_⟩
    rcases inside with listed | left
    · rcases (cells d).mp listed with new | inBlock | old
      · rw [new] at same
        have startS := holding.members start (.inr ((inBuffer start).mpr (.inr inRest)))
        have link := equals_of_text a start.2 (plain a inS) (plain start.2 startS) cause caused same.symm
        have unlinked := unwaited start inRest
        rw [waits, link] at unlinked
        cases unlinked
      · exact away d (.inr (inBlocks d inBlock)) same
      · exact away d (.inl old) same
    · exact away d (.inr ((inBuffer d).mpr (.inr left))) same
  · intro c listed d left same
    have inD := (inBuffer d).mpr (.inr left)
    rcases (cells c).mp listed with new | inBlock | old
    · rw [new] at same
      exact absent d inD same.symm
    · have equal := repr.buffer.unique c d (inBlocks c inBlock) inD (by rw [idKey, idKey, same])
      have one := repr.cell_unique c d (.inr (inBlocks c inBlock)) (.inr inD) equal
      exact checked.repr.listed_apart c listed (one ▸ left)
    · exact holding.apart c old d inD same
  · intro b
    rw [mem_cons, holding.done]
    constructor
    · intro known
      rcases known with new | ⟨d, inside, same⟩
      · exact ⟨(n, a), .inl ((cells _).mpr (.inl rfl)), new.symm⟩
      · rcases inside with old | inB
        · exact ⟨d, .inl ((cells d).mpr (.inr (.inr old))), same⟩
        · rcases (inBuffer d).mp inB with inBlock | left
          · exact ⟨d, .inl ((cells d).mpr (.inr (.inl inBlock))), same⟩
          · exact ⟨d, .inr left, same⟩
    · rintro ⟨d, inside, same⟩
      rcases inside with listed | left
      · rcases (cells d).mp listed with new | inBlock | old
        · exact .inl (by rw [← same, new])
        · exact .inr ⟨d, .inr (inBlocks d inBlock), same⟩
        · exact .inr ⟨d, .inl old, same⟩
      · exact .inr ⟨d, .inr ((inBuffer d).mpr (.inr left)), same⟩

end Release

theorem second_child {r d : Atom T} {l : List (Atom T)} (tree : CausalList path (r :: d :: l)) :
    idEquals d.cause (some r.id) = true := by
  have later := pairwise_cons.mp tree.ordered
  rcases tree.parent d (by simp) with first | ⟨p, found, child⟩
  · have same : r = d := by simpa using first
    exact absurd (later.1 d mem_cons_self) (same ▸ lt_irrefl _)
  · rcases mem_cons.mp found with here | inRest
    · exact here ▸ child.caused
    · have above : path p < path d := by
        rw [child.path]
        exact lt_of_start (List.prefix_append _ _) (by simp)
      rcases mem_cons.mp inRest with same | after
      · exact absurd above (same ▸ lt_irrefl _)
      · exact absurd above (lt_asymm ((pairwise_cons.mp later.2).1 p after))

theorem tail_causal {r d : Atom T} {l : List (Atom T)} (tree : CausalList path (r :: d :: l))
    (single : ∀ e ∈ l, idEquals e.cause (some r.id) = false) : CausalList path (d :: l) := by
  have later := pairwise_cons.mp tree.ordered
  refine ⟨later.2, fun a member => ?_, fun x left y right => ?_⟩
  · rcases mem_cons.mp member with here | inL
    · exact .inl (by rw [here]; rfl)
    · rcases tree.parent a (mem_cons_of_mem _ member) with first | ⟨p, found, child⟩
      · have same : r = a := by simpa using first
        exact absurd (later.1 a member) (same ▸ lt_irrefl _)
      · rcases mem_cons.mp found with root | inRest
        · have apart := single a inL
          rw [← root, child.caused] at apart
          cases apart
        · exact .inr ⟨p, inRest, child⟩
  · exact tree.unique x (mem_cons_of_mem _ left) y (mem_cons_of_mem _ right)

/-- What the buffer holds besides the new node: trees that wait for the new atom or for one that has not
come. -/
structure Remains (path : Atom T → List Key) (lists buffered others : List (List (Cell T))) (a : Atom T) :
    Prop where
  sub : ∀ d ∈ others.flatten, d ∈ buffered.flatten ∧ d.2 ≠ a
  parts : ∀ l ∈ others, CausalList path (atoms l)
  away : ∀ l ∈ others, ∀ start, l.head? = some start → waits a start = true ∨
    ∃ cause, start.2.cause = some cause ∧
      ∀ d, d ∈ lists.flatten ∨ d ∈ buffered.flatten → idKey d ≠ atomIdToString cause
  rest : ∀ d ∈ buffered.flatten, d.2 = a ∨ d ∈ others.flatten

section Queue

variable {a : Atom T} {others : List (List (Cell T))}

include set in
theorem Holding.remains (holding : Holding getHash S path w lists buffered done) (inS : a ∈ S)
    (resent : ResentApart w a) (emptied : Enqueued a buffered others) :
    Remains path lists buffered others a := by
  have repr := holding.checked.repr
  have away : ∀ l ∈ buffered, ∀ start, l.head? = some start → waits a start = true ∨
      ∃ cause, start.2.cause = some cause ∧
        ∀ d, d ∈ lists.flatten ∨ d ∈ buffered.flatten → idKey d ≠ atomIdToString cause :=
    fun l present start head => .inr (holding.away l present start head)
  cases emptied with
  | fresh absent =>
    refine ⟨fun d member => ⟨member, fun same => absent d member ?_⟩, holding.parts, away,
      fun d member => .inr member⟩
    rw [idKey, same]
  | @again old tail others split same =>
    have source := repr.buffered_perm split
    have wide : ∀ d, d ∈ buffered.flatten ↔ d = old ∨ d ∈ tail ∨ d ∈ others.flatten := by
      intro d
      rw [split.flatten.mem_iff, flatten_cons, mem_append, mem_cons, or_assoc]
    have parts : ∀ d, d ∈ (kept tail ++ others).flatten ↔ d ∈ tail ∨ d ∈ others.flatten := by
      intro d
      rw [flatten_append, kept_flatten, mem_append]
    have first : old.2 = a :=
      holding.cell_key set old (.inr ((wide old).mpr (.inl rfl))) a inS same
    have keys := pairwise_cons.mp (block_keys source)
    have known := resent ((mem_bufferedAtoms repr a).mpr ⟨old, (wide old).mpr (.inl rfl), first⟩)
    have inList : (old :: tail) ∈ buffered := split.mem_iff.mpr mem_cons_self
    have whole := holding.parts _ inList
    have cut : ∀ d l, tail = d :: l → CausalList path (atoms (d :: l)) ∧ waits a d = true := by
      intro d l shape
      rw [shape, atoms_cons, atoms_cons] at whole
      have link : idEquals d.2.cause (some a.id) = true := first ▸ second_child whole
      have inD : d ∈ buffered.flatten := (wide d).mpr (.inr (.inl (shape ▸ mem_cons_self)))
      refine ⟨tail_causal whole fun e inside => ?_, idEquals_symm _ _ link⟩
      cases linkE : idEquals e.cause (some old.2.id) with
      | false => rfl
      | true =>
        rcases mem_map.mp inside with ⟨c, inL, rfl⟩
        have inC : c ∈ buffered.flatten :=
          (wide c).mpr (.inr (.inl (shape ▸ mem_cons_of_mem _ inL)))
        rw [first] at linkE
        have one := known.2 d.2 ((mem_bufferedAtoms repr d.2).mpr ⟨d, inD, rfl⟩) c.2
          ((mem_bufferedAtoms repr c.2).mpr ⟨c, inC, rfl⟩) link linkE
        have less := (pairwise_cons.mp (pairwise_cons.mp whole.ordered).2).1 c.2 inside
        exact absurd less (one ▸ lt_irrefl _)
    refine ⟨fun d member => ?_, fun l member => ?_, fun l member start head => ?_, fun d member => ?_⟩
    · rcases (parts d).mp member with inTail | other
      · refine ⟨(wide d).mpr (.inr (.inl inTail)), fun equal => ?_⟩
        exact keys.1 d inTail (by rw [idKey, idKey, first, equal])
      · refine ⟨(wide d).mpr (.inr (.inr other)), fun equal => ?_⟩
        exact block_apart source old mem_cons_self d other (by rw [idKey, idKey, first, equal])
    · rcases mem_append.mp member with inKept | other
      · rcases (mem_kept tail l).mp inKept with ⟨equal, filled⟩
        rcases List.exists_cons_of_ne_nil filled with ⟨d, rest, shape⟩
        rw [equal, shape]
        exact (cut d rest shape).1
      · exact holding.parts l (split.mem_iff.mpr (mem_cons_of_mem _ other))
    · rcases mem_append.mp member with inKept | other
      · rcases (mem_kept tail l).mp inKept with ⟨equal, filled⟩
        rcases List.exists_cons_of_ne_nil filled with ⟨d, rest, shape⟩
        rw [equal, shape] at head
        have here : d = start := by simpa using head
        exact .inl (here ▸ (cut d rest shape).2)
      · exact away l (split.mem_iff.mpr (mem_cons_of_mem _ other)) start head
    · rcases (wide d).mp member with here | inTail | other
      · exact .inl (here ▸ first)
      · exact .inr ((parts d).mpr (.inl inTail))
      · exact .inr ((parts d).mpr (.inr other))

variable {n : Ref} {cause : AtomId} {front after : List (Cell T)} {rest final : List (List (Cell T))}
  {blocks : List (Block T)} {w' : Weave T}

/-- The list of the new node once it is under its cause, and what its first atom waits for. -/
structure Joined (path : Atom T → List Key) (lists others : List (List (Cell T))) (new : Cell T)
    (own : List (Cell T)) (rest : List (List (Cell T))) : Prop where
  cells : ∀ d, d ∈ own ∨ d ∈ rest.flatten ↔ d = new ∨ d ∈ others.flatten
  tree : CausalList path (atoms own)
  sub : ∀ l ∈ rest, l ∈ others
  away : ∀ start, own.head? = some start → ∃ cause, start.2.cause = some cause ∧
    ∀ d, d ∈ lists.flatten ∨ d = new ∨ d ∈ others.flatten → idKey d ≠ atomIdToString cause

include set plain in
theorem Holding.joined (holding : Holding getHash S path w lists buffered done) (paths : Paths S path)
    (inS : a ∈ S) (caused : a.cause = some cause) (missing : w.getNode cause = none)
    (resent : ResentApart w a) (remains : Remains path lists buffered others a)
    (attached : Attached cause (n, a) others front after rest) :
    Joined path lists others (n, a) (front ++ (n, a) :: after) rest := by
  have repr := holding.checked.repr
  have listed := (repr.getNode_none cause).mp missing
  have notOwn : atomIdToString a.id ≠ atomIdToString cause := by
    intro same
    have link := equals_of_text a a (plain a inS) (plain a inS) cause caused same.symm
    exact absurd (set.newer a inS a inS (idEquals_symm _ _ link)) (lt_irrefl _)
  cases attached with
  | alone absent =>
    refine ⟨fun d => by simp, ⟨by simp, by simp, by simp⟩, fun l member => member, fun start head => ?_⟩
    have same : (n, a) = start := by simpa using head
    refine ⟨cause, by rw [← same]; exact caused, fun d inside => ?_⟩
    rcases inside with old | new | other
    · exact listed d old
    · rw [new]
      exact notOwn
    · exact absent d other
  | @under front after q rest split named =>
    have cells : ∀ d, d ∈ others.flatten ↔ d ∈ front ++ q :: after ∨ d ∈ rest.flatten := by
      intro d
      rw [split.flatten.mem_iff, flatten_cons, mem_append]
    have inList : (front ++ q :: after) ∈ others := split.mem_iff.mpr mem_cons_self
    have inQ : q ∈ front ++ q :: after := by simp
    have members : ∀ d ∈ front ++ q :: after, d.2 ∈ S := fun d inside =>
      holding.members d (.inr (remains.sub d ((cells d).mpr (.inl inside))).1)
    have qS := members q inQ
    have link : idEquals a.cause (some q.2.id) = true :=
      idEquals_symm _ _ (equals_of_text q.2 a (plain q.2 qS) (plain a inS) cause caused named.symm)
    have tree := remains.parts _ inList
    -- a buffered copy of `a` would have kept `a` away from a buffered cause
    have fresh : ∀ d ∈ buffered.flatten, d.2 ≠ a := by
      intro d member same
      have known := resent ((mem_bufferedAtoms repr a).mpr ⟨d, member, same⟩)
      have inBuffer := (remains.sub q ((cells q).mpr (.inl inQ))).1
      have other := known.1 q.2 ((mem_bufferedAtoms repr q.2).mpr ⟨q, inBuffer, rfl⟩)
      rw [link] at other
      cases other
    have cellsNew : ∀ d, d ∈ front ++ q :: place q.2 a.id [(n, a)] after ↔ d = (n, a) ∨ d ∈ front ++ q :: after := by
      intro d
      simp only [mem_append, mem_cons, mem_place, List.not_mem_nil, or_false]
      tauto
    rw [← place_split]
    refine ⟨fun d => ?_, ?_, fun l member => split.mem_iff.mpr (mem_cons_of_mem _ member),
      fun start head => ?_⟩
    · rw [cellsNew, cells]
      tauto
    · exact insert_causal set plain paths tree members inS link
        (fun e inE => fresh e (remains.sub e ((cells e).mpr (.inl inE))).1)
    · have headOld : (front ++ q :: after).head? = some start := by
        rw [← head]
        cases front <;> rfl
      have inStart : start ∈ front ++ q :: after := List.mem_of_head? headOld
      have treeHead : (atoms (front ++ q :: after)).head? = some start.2 := by
        rw [atoms, List.head?_map, headOld]
        rfl
      have notWaits : waits a start ≠ true := by
        intro waiting
        have newer := set.newer start.2 (members start inStart) a inS (idEquals_symm _ _ waiting)
        have older := set.newer a inS q.2 qS link
        have within := tree.preordered.head_prefix start.2 treeHead q.2 (mem_map_of_mem inQ)
        by_cases same : path start.2 = path q.2
        · have equal := set.path_injective paths start.2 q.2 (members start inStart) qS same
          rw [equal] at newer
          exact absurd (newer.trans older) (lt_irrefl _)
        · have above := tree.newer (mem_map_of_mem inStart) (mem_map_of_mem inQ) within same
          exact absurd (newer.trans (above.trans older)) (lt_irrefl _)
      rcases (remains.away _ inList start headOld) with waiting | ⟨cause', caused', away⟩
      · exact absurd waiting notWaits
      · refine ⟨cause', caused', fun d inside same => ?_⟩
        rcases inside with old | new | other
        · exact away d (.inl old) same
        · rw [new] at same
          exact notWaits (equals_of_text a start.2 (plain a inS)
            (plain start.2 (members start inStart)) cause' caused' same.symm)
        · exact away d (.inr (remains.sub d other).1) same

include set plain in
theorem Holding.queued (holding : Holding getHash S path w lists buffered done) (paths : Paths S path)
    (inS : a ∈ S) (absent : ∀ d ∈ lists.flatten, d.2 ≠ a) (remains : Remains path lists buffered others a)
    (joined : Joined path lists others (n, a) (front ++ (n, a) :: after) rest)
    (split : rest.Perm (spread blocks ++ final)) (waiting : ∀ b ∈ blocks, waits a b.1 = true)
    (unwaited : ∀ d ∈ final.flatten, waits a d = false)
    (checked : Checked getHash (Vouches getHash) w' lists
      ((front ++ (n, a) :: blocks.foldl (adopt a) after) :: final)) :
    Holding getHash S path w' lists ((front ++ (n, a) :: blocks.foldl (adopt a) after) :: final)
      (a :: done) := by
  have inRest : ∀ d, d ∈ rest.flatten ↔ d ∈ (spread blocks).flatten ∨ d ∈ final.flatten := by
    intro d
    rw [split.flatten.mem_iff, flatten_append, mem_append]
  have moved : (front ++ (n, a) :: blocks.foldl (adopt a) after).Perm
      ((front ++ (n, a) :: after) ++ (spread blocks).flatten) := by
    rw [List.append_assoc, List.cons_append]
    exact ((adoptAll_perm a after blocks).cons _).append_left front
  have cells : ∀ d, d ∈ ((front ++ (n, a) :: blocks.foldl (adopt a) after) :: final).flatten ↔
      d = (n, a) ∨ d ∈ others.flatten := by
    intro d
    rw [flatten_cons, mem_append, moved.mem_iff, mem_append, ← joined.cells d, inRest, or_assoc]
  have members : ∀ d, d = (n, a) ∨ d ∈ others.flatten → d.2 ∈ S := by
    intro d inside
    rcases inside with new | other
    · exact new ▸ inS
    · exact holding.members d (.inr (remains.sub d other).1)
  have distinct : (atoms (front ++ (n, a) :: after) ++ atoms (spread blocks).flatten).Nodup := by
    have whole := checked.repr.buffered_nodup
    rw [flatten_cons, atoms_append] at whole
    have own := (nodup_append.mp whole).1
    rw [← atoms_append]
    exact ((moved.map Prod.snd).nodup_iff).mp own
  have parted := nodup_append.mp distinct
  refine ⟨checked, ?_, holding.trees, ?_, ?_, ?_, ?_⟩
  · intro d inside
    rcases inside with listed | inBuffer
    · exact holding.members d (.inl listed)
    · exact members d ((cells d).mp inBuffer)
  · intro l member
    rcases mem_cons.mp member with here | other
    · rw [here]
      apply adoptAll_causal set plain paths blocks joined.tree
      · intro b inside
        have inList : (b.1 :: b.2) ∈ rest :=
          split.mem_iff.mpr (List.mem_append_left _ (mem_map_of_mem inside))
        exact ⟨remains.parts _ (joined.sub _ inList), waiting b inside⟩
      · intro d inside
        exact members d ((joined.cells d).mp (.inl inside))
      · intro d inside
        exact members d ((joined.cells d).mp (.inr ((inRest d).mpr (.inl inside))))
      · exact parted.2.1
      · intro d inside member
        exact parted.2.2 _ member _ (mem_map_of_mem inside) rfl
    · exact remains.parts l (joined.sub l (split.mem_iff.mpr (mem_append_right _ other)))
  · intro l member start head
    rcases mem_cons.mp member with here | other
    · have first : (front ++ (n, a) :: after).head? = some start := by
        rw [← head, here]
        cases front <;> rfl
      rcases joined.away start first with ⟨cause', caused', away⟩
      refine ⟨cause', caused', fun d inside => away d ?_⟩
      rcases inside with listed | inBuffer
      · exact .inl listed
      · exact .inr ((cells d).mp inBuffer)
    · have inFinal : start ∈ final.flatten := mem_flatten.mpr ⟨l, other, List.mem_of_head? head⟩
      have inList := joined.sub l (split.mem_iff.mpr (mem_append_right _ other))
      rcases remains.away l inList start head with waits' | ⟨cause', caused', away⟩
      · rw [unwaited start inFinal] at waits'
        cases waits'
      · refine ⟨cause', caused', fun d inside same => ?_⟩
        rcases inside with listed | inBuffer
        · exact away d (.inl listed) same
        · rcases (cells d).mp inBuffer with new | old
          · rw [new] at same
            have inOthers : start ∈ others.flatten :=
              mem_flatten.mpr ⟨l, inList, List.mem_of_head? head⟩
            have link := equals_of_text a start.2 (plain a inS)
              (plain start.2 (members start (.inr inOthers))) cause' caused' same.symm
            have unlinked := unwaited start inFinal
            rw [waits, link] at unlinked
            cases unlinked
          · exact away d (.inr (remains.sub d old).1) same
  · intro c listed d inBuffer same
    rcases (cells d).mp inBuffer with new | old
    · rw [new] at same
      exact absent c listed same
    · exact holding.apart c listed d (remains.sub d old).1 same
  · intro b
    rw [mem_cons, holding.done]
    constructor
    · intro known
      rcases known with new | ⟨d, inside, same⟩
      · exact ⟨(n, a), .inr ((cells _).mpr (.inl rfl)), new.symm⟩
      · rcases inside with listed | inBuffer
        · exact ⟨d, .inl listed, same⟩
        · rcases remains.rest d inBuffer with gone | other
          · exact ⟨(n, a), .inr ((cells _).mpr (.inl rfl)), gone.symm.trans same⟩
          · exact ⟨d, .inr ((cells d).mpr (.inr other)), same⟩
    · rintro ⟨d, inside, same⟩
      rcases inside with listed | inBuffer
      · exact .inr ⟨d, .inl listed, same⟩
      · rcases (cells d).mp inBuffer with new | old
        · exact .inl (by rw [← same, new])
        · exact .inr ⟨d, .inr (remains.sub d old).1, same⟩

end Queue

theorem Holding.again (holding : Holding getHash S path w lists buffered done) (a : Atom T)
    (known : ∃ d, (d ∈ lists.flatten ∨ d ∈ buffered.flatten) ∧ d.2 = a) :
    Holding getHash S path w lists buffered (a :: done) := by
  refine ⟨holding.checked, holding.members, holding.trees, holding.parts, holding.away, holding.apart,
    fun b => ?_⟩
  rw [mem_cons, holding.done]
  constructor
  · intro inside
    rcases inside with here | there
    · exact here ▸ known
    · exact there
  · intro inside
    exact .inr inside

include set in
theorem Holding.insert_listed (holding : Holding getHash S path w lists buffered done) (a : Atom T)
    (inS : a ∈ S) (d : Cell T) (listed : d ∈ lists.flatten) (same : d.2 = a) :
    w.insert getHash a = .ok (w, .atomAlreadyAdded a) := by
  have repr := holding.checked.repr
  have node : w.getNode a.id = some d.1 :=
    (repr.getNode a.id d.1).mpr ⟨d, listed, rfl, by rw [idKey, same]⟩
  have atom := repr.atomAt d (.inl listed)
  rw [same] at atom
  cases caused : a.cause with
  | none =>
    have valid := set.rootHash a inS caused
    simp [Weave.insert, caused, Weave.insertRoot, valid, set.simple a inS, node, Weave.resolveConflict, atom]
  | some cause =>
    rcases mem_flatten.mp listed with ⟨l, present, inL⟩
    have inTail : d ∈ l.tail := by
      cases l with
      | nil => cases inL
      | cons root rest =>
        rcases mem_cons.mp inL with here | later
        · have noCause := holding.checked.roots _ present root rfl
          rw [← here, same, caused] at noCause
          cases noCause
        · exact later
    rcases (holding.checked.listed l present).parent_of inTail with
      ⟨p, inP, ⟨cause', caused', named⟩, check⟩
    rw [same, caused, some.injEq] at caused'
    rw [same] at check
    have inLists : p ∈ lists.flatten := mem_flatten.mpr ⟨l, present, inP⟩
    have found : w.getNode cause = some p.1 :=
      (repr.getNode cause p.1).mpr ⟨p, inLists, rfl, by rw [caused', named, idKey]⟩
    simp [Weave.insert, caused, found, Weave.insertChild, repr.atomAt p (.inl inLists), check, node,
      Weave.resolveConflict, atom]

include set plain in
theorem Holding.insert (holding : Holding getHash S path w lists buffered done) (paths : Paths S path)
    (a : Atom T) (inS : a ∈ S) (resent : ResentApart w a)
    (accepted : ∀ w', w.insert getHash a ≠ .ok (w', .causeNotFound a false)) :
    ∃ w' r lists' buffered', w.insert getHash a = .ok (w', r) ∧
      Holding getHash S path w' lists' buffered' (a :: done) := by
  have repr := holding.checked.repr
  have safe := (holding.safe set plain a inS resent).1
  by_cases known : ∃ d ∈ lists.flatten, d.2 = a
  · rcases known with ⟨d, listed, same⟩
    exact ⟨w, _, lists, buffered, holding.insert_listed set a inS d listed same, holding.again a ⟨d, .inl listed, same⟩⟩
  · have fresh : ∀ d ∈ lists.flatten, d.2 ≠ a := fun d listed same => known ⟨d, listed, same⟩
    have freshKey : ∀ d ∈ lists.flatten, idKey d ≠ atomIdToString a.id := fun d listed same =>
      fresh d listed (holding.cell_key set d (.inl listed) a inS same)
    have existing := (repr.getNode_none a.id).mpr freshKey
    cases caused : a.cause with
    | none =>
      have valid := set.rootHash a inS caused
      have counted : w.countCardinality a = some w := by
        simp [Weave.countCardinality, set.simple a inS, Field.get?]
      have joins : Joins getHash w a := by
        simp only [Joins, caused]
        exact ⟨valid, by simp [set.simple a inS], by simp [counted]⟩
      have frees := frees_of repr a (safe.adopts (.inl ⟨joins, existing⟩)) (safe.releases joins existing)
      have grown : Checked getHash (Vouches getHash) _ (lists ++ ([] ++ (w.nodes.length, a) :: []) :: [])
          buffered := holding.checked.addRoot a caused freshKey
      have members : ∀ d, d ∈ (lists ++ ([] ++ (w.nodes.length, a) :: []) :: []).flatten ↔
          d = (w.nodes.length, a) ∨ d ∈ lists.flatten := by
        intro d
        simp [or_comm]
      rcases grown.releaseNew vouches_orders frees
        (fun d inside => (members d).mp inside) with ⟨w', blocks, rest, run, split, waiting, unwaited, held, _⟩
      have trees : ∀ l ∈ lists ++ ([] ++ (w.nodes.length, a) :: []) :: [], CausalList path (atoms l) := by
        intro l member
        rcases mem_append.mp member with old | new
        · exact holding.trees l old
        · rw [List.mem_singleton.mp new]
          exact ⟨by simp, by simp, by simp⟩
      have whole : w.insert getHash a =
          .ok (w', releaseResult (w.nodes.length, a) blocks (blocks.foldl (adopt a) [])) := by
        simp only [Weave.insert, caused, Weave.insertRoot, valid, set.simple a inS, existing, counted,
          Bool.not_true, Bool.false_eq_true, if_false]
        exact run
      exact ⟨w', _, _, rest, whole, holding.released set plain paths inS
        (fun d inBuffer => holding.joins_absent set a inS joins d inBuffer) members trees split waiting
        unwaited held⟩
    | some cause =>
      cases found : w.getNode cause with
      | none =>
        by_cases room : (w.reorderBuffer.size : Int) < w.maxReorderBufferSize
        · have passes : ∀ n c, w.reorderBuffer.get (atomIdToString cause) = some n →
              w.atomAt n = some c → Weave.checkCause getHash a c = none := by
            intro n c inBuffer atom
            rcases (repr.buffer _ n).mp inBuffer with ⟨q, member, rfl, named⟩
            rw [repr.atomAt q (.inr member), some.injEq] at atom
            subst atom
            have qS := holding.members q (.inr member)
            have link : idEquals a.cause (some q.2.id) = true := idEquals_symm _ _
              (equals_of_text q.2 a (plain q.2 qS) (plain a inS) cause caused named.symm)
            exact checkCause_none getHash a q.2 (set.childHash a inS q.2 qS link) (set.newer a inS q.2 qS link)
          have queues : Queues getHash w a := ⟨cause, caused, found, room, passes⟩
          rcases holding.checked.queue a cause caused room passes (safe.adopts (.inr queues)) (safe.buffers queues) with
            ⟨w', others, front, after, rest, blocks, final, run, emptied, attached, split, waiting,
              unwaited, held⟩
          have remains := holding.remains set inS resent emptied
          have joined := holding.joined set plain paths inS caused found resent remains attached
          have whole : w.insert getHash a = .ok (w', .causeNotFound a true) := by
            simp only [Weave.insert, caused, found]
            exact run
          exact ⟨w', _, lists, _, whole, holding.queued set plain paths inS fresh remains joined split
            waiting unwaited held⟩
        · exfalso
          apply accepted w
          simp only [Weave.insert, caused, found, Weave.insertMissing, if_pos (not_lt.mp room)]
      | some n =>
        rcases (repr.getNode cause n).mp found with ⟨c, listed, rfl, named⟩
        have atom := repr.atomAt c (.inl listed)
        have cS := holding.members c (.inl listed)
        have link : idEquals a.cause (some c.2.id) = true := idEquals_symm _ _
          (equals_of_text c.2 a (plain c.2 cS) (plain a inS) cause caused named.symm)
        have check := checkCause_none getHash a c.2 (set.childHash a inS c.2 cS link) (set.newer a inS c.2 cS link)
        have joins : Joins getHash w a := by
          simp only [Joins, caused]
          exact ⟨c.1, c.2, found, atom, check⟩
        have frees := frees_of repr a (safe.adopts (.inl ⟨joins, existing⟩)) (safe.releases joins existing)
        rcases split_at lists c listed with ⟨pre, front, after, post, rfl⟩
        have vouched : Vouches getHash c (w.nodes.length, a) := ⟨⟨cause, caused, named.symm⟩, check⟩
        rcases holding.checked.insertUnder vouches_orders a vouched freshKey with ⟨mid, run, grown⟩
        have members : ∀ d, d ∈ (pre ++ ((front ++ c :: after.takeWhile (onAtom (keeps c.2 a.id))) ++
            (w.nodes.length, a) :: after.dropWhile (onAtom (keeps c.2 a.id))) :: post).flatten ↔
            d = (w.nodes.length, a) ∨ d ∈ (pre ++ (front ++ c :: after) :: post).flatten := by
          intro d
          rw [← place_split, mem_placed]
        rcases grown.releaseNew vouches_orders frees (fun d inside => (members d).mp inside) with
          ⟨w', blocks, rest, run', split, waiting, unwaited, held, _⟩
        have trees : ∀ l ∈ pre ++ ((front ++ c :: after.takeWhile (onAtom (keeps c.2 a.id))) ++
            (w.nodes.length, a) :: after.dropWhile (onAtom (keeps c.2 a.id))) :: post,
            CausalList path (atoms l) := by
          intro l member
          simp only [mem_append, mem_cons] at member
          rcases member with early | here | late
          · exact holding.trees l (by simp [early])
          · have tree := holding.trees (front ++ c :: after) (by simp)
            have inList : ∀ d ∈ front ++ c :: after, d ∈ (pre ++ (front ++ c :: after) :: post).flatten :=
              fun d inside => (flatten_middle ..).mpr (.inl inside)
            have apart : ∀ e ∈ front ++ c :: after, e.2 ≠ a := fun e inE => fresh e (inList e inE)
            rw [here, ← place_split]
            exact insert_causal set plain paths tree
              (fun d inside => holding.members d (.inl (inList d inside))) inS link apart
          · exact holding.trees l (by simp [late])
        have whole : w.insert getHash a = .ok (w', releaseResult (w.nodes.length, a) blocks
              (blocks.foldl (adopt a) (after.dropWhile (onAtom (keeps c.2 a.id))))) := by
          simp only [Weave.insert, caused, found, Weave.insertChild, atom, Option.bind_some, check,
            existing, run, bind, Except.bind]
          exact run'
        exact ⟨w', _, _, rest, whole, holding.released set plain paths inS
          (fun d inBuffer => holding.joins_absent set a inS joins d inBuffer) members trees split waiting
          unwaited held⟩

end Steps

/-! ### Runs -/

/-- The answer is not that the atom had to be dropped. -/
def saved : WeaveResult T → Bool
  | .causeNotFound _ savedInReorderBuffer => savedInReorderBuffer
  | _ => true

/-- No delivery is dropped. -/
def allSaved (getHash : AtomHashInput T → JsString) : Weave T → List (Atom T) → Bool
  | _, [] => true
  | w, a :: rest =>
    match w.insert getHash a with
    | .ok (w', r) => saved r && allSaved getHash w' rest
    | .error _ => true

/-- Every delivery meets the condition on the weave before it. -/
def AllApart (getHash : AtomHashInput T → JsString) : Weave T → List (Atom T) → Prop
  | _, [] => True
  | w, a :: rest => ResentApart w a ∧
      match w.insert getHash a with
      | .ok (w', _) => AllApart getHash w' rest
      | .error _ => True

instance [DecidableEq T] (w : Weave T) (a : Atom T) : Decidable (ResentApart w a) :=
  inferInstanceAs (Decidable (a ∈ bufferedAtoms w →
    (∀ b ∈ bufferedAtoms w, idEquals a.cause (some b.id) = false) ∧
    ∀ b ∈ bufferedAtoms w, ∀ d ∈ bufferedAtoms w, idEquals b.cause (some a.id) = true →
      idEquals d.cause (some a.id) = true → b = d))

instance decidableAllApart [DecidableEq T] (getHash : AtomHashInput T → JsString) :
    (w : Weave T) → (delivered : List (Atom T)) → Decidable (AllApart getHash w delivered)
  | _, [] => isTrue trivial
  | w, a :: rest =>
    have : Decidable (match w.insert getHash a with
        | .ok (w', _) => AllApart getHash w' rest
        | .error _ => True) :=
      match w.insert getHash a with
      | .ok (w', _) => decidableAllApart getHash w' rest
      | .error _ => isTrue trivial
    inferInstanceAs (Decidable (_ ∧ _))

theorem Holding.run (set : CausalSet getHash S) (plain : ∀ a ∈ S, PlainAtom a)
    (holding : Holding getHash S path w lists buffered done) (paths : Paths S path)
    (delivered : List (Atom T)) (members : ∀ a ∈ delivered, a ∈ S)
    (kept : allSaved getHash w delivered = true) (apart : AllApart getHash w delivered) :
    ∃ w' lists' buffered', insertAll getHash w delivered = .ok w' ∧
      Holding getHash S path w' lists' buffered' (delivered.reverse ++ done) := by
  induction delivered generalizing w lists buffered done with
  | nil => exact ⟨w, lists, buffered, rfl, holding⟩
  | cons a rest ih =>
    have accepted : ∀ w', w.insert getHash a ≠ .ok (w', .causeNotFound a false) := by
      intro w' run
      simp [allSaved, run, saved] at kept
    rcases holding.insert set plain paths a (members a mem_cons_self) apart.1 accepted with
      ⟨mid, r, lists', buffered', run, held⟩
    have laterKept : allSaved getHash mid rest = true := by
      simp only [allSaved, run, Bool.and_eq_true] at kept
      exact kept.2
    have laterApart : AllApart getHash mid rest := by
      have later := apart.2
      rw [run] at later
      exact later
    rcases ih held (fun b inside => members b (mem_cons_of_mem _ inside)) laterKept laterApart with
      ⟨w', last, buffered'', run', held'⟩
    refine ⟨w', last, buffered'', (insertAll_cons w a rest mid r run).trans run', ?_⟩
    rw [List.reverse_cons, List.append_assoc]
    exact held'

/-- When the whole set has come, nothing is left in the buffer. -/
theorem Holding.complete (set : CausalSet getHash S)
    (holding : Holding getHash S path w lists buffered done) (all : ∀ a ∈ S, a ∈ done) : buffered = [] := by
  cases buffered with
  | nil => rfl
  | cons l buffered =>
    exfalso
    have filled := (holding.checked.waiting l mem_cons_self).filled
    rcases List.exists_cons_of_ne_nil filled with ⟨start, rest, shape⟩
    rcases holding.away l mem_cons_self start (by rw [shape]; rfl) with ⟨cause, caused, away⟩
    have inStart : start ∈ (l :: buffered).flatten :=
      mem_flatten.mpr ⟨l, mem_cons_self, by rw [shape]; exact mem_cons_self⟩
    have startS := holding.members start (.inr inStart)
    rcases set.closed start.2 startS cause caused with ⟨p, inP, link⟩
    rcases (holding.done p).mp (all p inP) with ⟨d, inside, same⟩
    apply away d inside
    rw [idKey, same]
    exact (idEquals_string _ _ link).symm

/-- The weave holds the whole set as if it was inserted once in a causal order: the same list for every
root, each atom once, links that agree, and nothing in the buffer. -/
structure InsertedOnce (getHash : AtomHashInput T → JsString) (S : List (Atom T)) (w : Weave T) : Prop where
  buffer : w.reorderBuffer.size = 0
  atoms : ∃ lists, rootLists w = some lists ∧ lists.flatten.Perm S
  links : LinksAgree w
  same : ∀ size (order : List (Atom T)), order.Perm S → CausesFirst order →
    ∃ w', insertAll getHash (Weave.new size) order = .ok w' ∧ LinksAgree w' ∧
      ∀ root ∈ S, root.cause = none → ∃ l, listAt w root = some l ∧ listAt w' root = some l

theorem Holding.insertedOnce (set : CausalSet getHash S) (plain : ∀ a ∈ S, PlainAtom a)
    (paths : Paths S path) (holding : Holding getHash S path w lists buffered done)
    (all : ∀ a ∈ S, a ∈ done) : InsertedOnce getHash S w := by
  have empty := holding.complete set all
  subst empty
  have repr := holding.checked.repr
  have flat : (lists.map atoms).flatten = lists.flatten.map Prod.snd := atoms_flatten lists
  have whole : (lists.map atoms).flatten.Perm S := by
    have cells : lists.flatten.Nodup := by
      have distinct := repr.heap.distinct
      rw [flatten_append, refs_append] at distinct
      exact ((nodup_append.mp distinct).1).of_map _
    have distinct : (lists.map atoms).flatten.Nodup := by
      rw [flat]
      refine cells.map_on fun c left d right same => ?_
      exact repr.id_unique c d left right (by rw [idKey, idKey, same])
    refine (List.perm_ext_iff_of_nodup distinct set.nodup).mpr fun a => ?_
    rw [flat]
    constructor
    · intro inside
      rcases mem_map.mp inside with ⟨d, listed, rfl⟩
      exact holding.members d (.inl listed)
    · intro inS
      rcases (holding.done a).mp (all a inS) with ⟨d, inside, same⟩
      rcases inside with listed | inBuffer
      · exact same ▸ mem_map_of_mem listed
      · cases inBuffer
  have holds : Holds w (lists.map atoms) := ⟨lists, repr, rfl⟩
  have trees : ∀ l ∈ lists.map atoms, CausalList path l := by
    intro l member
    rcases mem_map.mp member with ⟨cells, present, rfl⟩
    exact holding.trees cells present
  have rooted : ∀ l ∈ lists.map atoms, Rooted l := by
    intro l member
    rcases mem_map.mp member with ⟨cells, present, rfl⟩
    have grounded := holding.checked.listed cells present
    rcases List.exists_cons_of_ne_nil grounded.filled with ⟨root, rest, shape⟩
    rw [shape] at grounded present
    rw [shape]
    refine ⟨root.2, atoms rest, rfl, holding.checked.roots _ present root rfl, fun a inside => ?_⟩
    rcases mem_map.mp inside with ⟨d, inRest, rfl⟩
    rcases grounded.parent_of inRest with ⟨p, _, ⟨cause, caused, _⟩, _⟩
    rw [caused]
    simp
  refine ⟨size_zero repr, ⟨_, rootLists_repr repr, whole⟩, links_agree repr, ?_⟩
  intro size order same causal
  rcases set.run_trees (not_overtaken plain) paths size order same causal with
    ⟨w', lists', run, holds', whole', rooted', trees'⟩
  rcases holds' with ⟨cells, repr', shown⟩
  refine ⟨w', run, links_agree repr', fun root inS noCause => ?_⟩
  rcases set.same_list paths whole whole' rooted rooted' trees trees' root inS noCause with
    ⟨rest, present, present'⟩
  exact ⟨root :: rest, listAt_holds holds root rest present, listAt_holds ⟨cells, repr', shown⟩ root rest present'⟩

/-- Order and repetition of deliveries do not matter while resent atoms stay apart in the buffer. -/
theorem redelivery_converges (set : CausalSet getHash S) (plain : ∀ a ∈ S, PlainAtom a)
    (size : Option Int) (delivered : List (Atom T)) (members : ∀ a ∈ delivered, a ∈ S)
    (all : ∀ a ∈ S, a ∈ delivered) (kept : allSaved getHash (Weave.new size) delivered = true)
    (apart : AllApart getHash (Weave.new size) delivered) :
    ∃ w, insertAll getHash (Weave.new size) delivered = .ok w ∧ InsertedOnce getHash S w := by
  rcases set.exists_paths (byTime S) (byTime_perm S) set.byTime_causal with ⟨path, paths⟩
  rcases (holding_new size).run set plain paths delivered members kept apart with
    ⟨w, lists, buffered, run, holding⟩
  exact ⟨w, run, holding.insertedOnce set plain paths (fun a inS => by simp [all a inS])⟩

/-! ### A buffered atom that comes twice -/

def chainRoot : Atom Unit := newAtom unitHash (sampleId 1 .undefined) none ()

def chainMiddle : Atom Unit := newAtom unitHash (sampleId 2 .undefined) (some chainRoot) ()

def chainEnd : Atom Unit := newAtom unitHash (sampleId 3 .undefined) (some chainMiddle) ()

def chain : List (Atom Unit) := [chainRoot, chainMiddle, chainEnd]

theorem chain_causal : CausalSet unitHash chain where
  distinct := by decide +kernel
  simple := by decide +kernel
  closed := by
    have causes : ∀ a ∈ chain, ∀ cause ∈ a.cause, ∃ p ∈ chain,
        idEquals (some cause) (some p.id) = true := by decide +kernel
    exact fun a member cause caused => causes a member cause caused
  rootHash := by decide +kernel
  childHash := by decide +kernel
  newer := by decide +kernel

theorem chain_plain : ∀ a ∈ chain, PlainAtom a := by
  have ids : ∀ a ∈ chain, a.id.priority.get? = none ∧ a.id.cardinality = .undefined := by
    decide +kernel
  have causes : ∀ a ∈ chain, ∀ cause ∈ a.cause, cause.priority.get? = none ∧
      cause.cardinality = .undefined := by decide +kernel
  intro a member
  have known := ids a member
  refine ⟨⟨known.1, known.2⟩, fun cause caused => ?_⟩
  have there := causes a member cause caused
  exact ⟨there.1, there.2⟩

/-- The end of the chain comes twice while its cause is in the buffer, and is listed twice. -/
theorem chain_listed_twice : CausalSet unitHash chain ∧ (∀ a ∈ chain, PlainAtom a) ∧
    allSaved unitHash (Weave.new none) [chainMiddle, chainEnd, chainEnd, chainRoot] = true ∧
    ∃ w, insertAll unitHash (Weave.new none) [chainMiddle, chainEnd, chainEnd, chainRoot] = .ok w ∧
      rootLists w = some [[chainRoot, chainMiddle, chainEnd, chainEnd]] ∧
      ¬ InsertedOnce unitHash chain w := by
  have read : (insertAll unitHash (Weave.new none)
      [chainMiddle, chainEnd, chainEnd, chainRoot]).toOption.bind rootLists =
      some [[chainRoot, chainMiddle, chainEnd, chainEnd]] := by decide +kernel
  rcases lists_of_run read with ⟨w, run, shown⟩
  refine ⟨chain_causal, chain_plain, by decide +kernel, w, run, shown, fun once => ?_⟩
  rcases once.atoms with ⟨lists, found, same⟩
  rw [shown, Option.some.injEq] at found
  subst found
  have lengths := same.length_eq
  exact absurd lengths (by decide)

theorem chain_redelivered : ∃ w,
    insertAll unitHash (Weave.new none) [chainEnd, chainMiddle, chainRoot, chainMiddle] = .ok w ∧
      InsertedOnce unitHash chain w :=
  redelivery_converges chain_causal chain_plain none _ (by decide +kernel) (by decide +kernel)
    (by decide +kernel) (by decide +kernel)

end CasualOS.Redelivery
