import CasualOS.Lib.Supported
import CasualOS.CausalOrder
import CasualOS.HashText
import CasualOS.WeaveBuffer
import CasualOS.WeaveNodes

/-! Inserting any atoms, in any order: which checks the listed atoms have passed. -/

namespace CasualOS.CheckedWeave

open Dll (Ref)
open HashText Supported WeaveHeap WeaveRepr WeaveRead WeaveBuffer WeaveNodes CausalOrder
open List (append_assoc append_of_mem flatten_append flatten_cons mem_append mem_append_left mem_append_right mem_cons
  mem_cons_of_mem mem_cons_self mem_flatten mem_map_of_mem mem_singleton perm_middle)
open Weave (checkCause)
open Option (some)

variable {T : Type}

/-- The atom is found under the cause of another. -/
def Names (a : Atom T) (id : AtomId) : Prop :=
  ∃ cause, a.cause = some cause ∧ atomIdToString cause = atomIdToString id

/-- `p` is the cause of `d` and `d` passes the checks against it. -/
def Vouches (getHash : AtomHashInput T → JsString) (p d : Cell T) : Prop :=
  Names d.2 p.2.id ∧ checkCause getHash d.2 p.2 = none

theorem checkCause_iff (getHash : AtomHashInput T → JsString) (a p : Atom T) : checkCause getHash a p = none ↔
      atomMatchesHash getHash a (some p) = true ∧ p.id.timestamp < a.id.timestamp := by
  unfold checkCause
  by_cases hashed : atomMatchesHash getHash a (some p) = true
  · by_cases newer : a.id.timestamp ≤ p.id.timestamp
    · simp [hashed, newer, not_lt.mpr newer]
    · simp [hashed, newer, not_le.mp newer]
  · simp [hashed]

theorem names_of_equals (a b : Atom T) (same : idEquals (some a.id) b.cause = true) : Names b a.id := by
  rcases idEquals_cause _ _ (idEquals_symm _ _ same) with ⟨cause, caused, named⟩
  exact ⟨cause, caused, idEquals_string _ _ named⟩

/-! ### The steps at which nothing goes in unchecked -/

section Conditions

variable (getHash : AtomHashInput T → JsString) (w : Weave T) (a : Atom T)

def bufferedAtoms : List (Atom T) := w.reorderBuffer.values.filterMap w.atomAt

/-- The atom passes the checks that let it into the lists. -/
def Joins : Prop :=
  match a.cause with
  | none => atomMatchesHash getHash a none = true ∧
      (∀ cardinality, a.id.cardinality = .value cardinality → 0 < cardinality.number) ∧
      (w.getNode a.id = none → w.countCardinality a ≠ none)
  | some cause => ∃ n c, w.getNode cause = some n ∧ w.atomAt n = some c ∧
      checkCause getHash a c = none

/-- The atom passes the checks that let it into the reorder buffer. -/
def Queues : Prop :=
  ∃ cause, a.cause = some cause ∧ w.getNode cause = none ∧
    (w.reorderBuffer.size : Int) < w.maxReorderBufferSize ∧
    ∀ n c, w.reorderBuffer.get (atomIdToString cause) = some n → w.atomAt n = some c →
      checkCause getHash a c = none

/-- The atoms that wait for `a` pass the checks against it. -/
def AdoptsChecked : Prop :=
  ∀ b, b = a ∨ b ∈ bufferedAtoms w → idEquals (some a.id) b.cause = true →
    checkCause getHash b a = none

/-- Nothing that is released has an id that is taken. -/
def ReleasesNew : Prop :=
  ∀ n ∈ w.reorderBuffer.values, ∀ b, w.atomAt n = some b → idEquals (some a.id) b.cause = true →
    w.reorderBuffer.get (atomIdToString a.id) = none ∧
    ∀ chain, w.atomsFrom n = some chain → ∀ d ∈ chain, w.getNode d.id = none

/-- The atom is in a partial list that waits for `a`. -/
def Released (b : Atom T) : Prop :=
  ∃ n ∈ w.reorderBuffer.values, ∃ start, w.atomAt n = some start ∧
    idEquals (some a.id) start.cause = true ∧ ∃ chain, w.atomsFrom n = some chain ∧ b ∈ chain

/-- What the insertion of `a` lists: `a` and, when its id is new, what waits for it. -/
def Arrives (b : Atom T) : Prop :=
  Joins getHash w a ∧ (b = a ∨ w.getNode a.id = none ∧ Released w a b)

/-- An atom whose id is buffered already waits, like the buffered one, for an atom that is not
buffered, and at most one buffered atom waits for it. -/
def BuffersApart : Prop :=
  ∀ n old, w.reorderBuffer.get (atomIdToString a.id) = some n → w.atomAt n = some old →
    (∀ cause, a.cause = some cause → w.reorderBuffer.get (atomIdToString cause) = none) ∧
    (∀ cause, old.cause = some cause → w.reorderBuffer.get (atomIdToString cause) = none) ∧
    ∀ b ∈ bufferedAtoms w, ∀ d ∈ bufferedAtoms w, Names b a.id → Names d a.id → b = d

/-- The node is one that a conflict with `a` takes out. -/
def Replaced (r : Ref) : Prop :=
  ∃ e old group, w.getNode a.id = some e ∧ w.atomAt e = some old ∧ a.hash < old.hash ∧
    w.iterateCausalGroup e = some group ∧ r ∈ e :: group

def KeepsCause : Prop :=
  ∀ r d, Replaced w a r → w.atomAt r = some d → ¬ Names a d.id

/-- What a conflict with `a` takes out is no cause of what stays. -/
def KeepsCauses : Prop :=
  ∀ r d, Replaced w a r → w.atomAt r = some d → ∀ s b, Listed w s → w.atomAt s = some b →
    Names b d.id → Replaced w a s

/-- No branch of `insert` puts an atom where it has not been checked. -/
structure Safe : Prop where
  adopts : (Joins getHash w a ∧ w.getNode a.id = none) ∨ Queues getHash w a →
    AdoptsChecked getHash w a
  releases : Joins getHash w a → w.getNode a.id = none → ReleasesNew w a
  buffers : Queues getHash w a → BuffersApart w a
  replaces : Joins getHash w a → KeepsCause w a

end Conditions

theorem safe_of_unbuffered {getHash : AtomHashInput T → JsString} {w : Weave T} (a : Atom T)
    (empty : w.reorderBuffer.values = [])
    (fresh : w.getNode a.id = none) (own : idEquals (some a.id) a.cause = false) : Safe getHash w a := by
  have buffered : bufferedAtoms w = [] := by simp [bufferedAtoms, empty]
  refine ⟨fun _ b inside waiting => ?_, fun _ _ n value => ?_, fun _ n old found => ?_,
    fun _ r d replaced => ?_⟩
  · rcases inside with here | waits
    · rw [here, own] at waiting
      cases waiting
    · rw [buffered] at waits
      cases waits
  · rw [empty] at value
    cases value
  · have value := (w.reorderBuffer.mem_values n).mpr ⟨_, found⟩
    rw [empty] at value
    cases value
  · rcases replaced with ⟨e, old, group, found, _⟩
    rw [fresh] at found
    cases found

/-! ### The invariant -/

/-- The lists are grounded in `R`, the partial lists of the buffer in checked causes. -/
structure Checked (getHash : AtomHashInput T → JsString) (R : Cell T → Cell T → Prop) (w : Weave T)
    (lists buffered : List (List (Cell T))) : Prop where
  repr : Repr w lists buffered
  listed : ∀ l ∈ lists, Grounded R l
  roots : ∀ l ∈ lists, ∀ root, l.head? = some root → root.2.cause = none
  waiting : ∀ l ∈ buffered, Grounded (Vouches getHash) l

variable {getHash : AtomHashInput T → JsString} {R : Cell T → Cell T → Prop} {w : Weave T}
variable {lists buffered pre post : List (List (Cell T))}

theorem checked_new (size : Option Int) : Checked getHash R (Weave.new size) [] [] where
  repr := repr_new size
  listed := by simp
  roots := by simp
  waiting := by simp

/-- What a node relation has to do for the lists to stay in order. -/
structure Orders (getHash : AtomHashInput T → JsString) (R : Cell T → Cell T → Prop) : Prop where
  vouch : ∀ p d, Vouches getHash p d → R p d
  older : ∀ p d, R p d → p.2.id.timestamp < d.2.id.timestamp

theorem buffered_atom (repr : Repr w lists buffered) (d : Cell T) (member : d ∈ buffered.flatten) :
    d.2 ∈ bufferedAtoms w :=
  List.mem_filterMap.mpr ⟨d.1, (repr.buffer.mem_values _).mpr ⟨d, member, rfl⟩,
    repr.atomAt d (.inr member)⟩

theorem atomsFrom_heap {start : Cell T} {s : List (Cell T)} {all : List (List (Cell T))}
    (heap : HeapRepr w.nodes ((start :: s) :: all)) : w.atomsFrom start.1 = some (atoms (start :: s)) := by
  have walk : w.iterateFrom (some start.1) = some (refs (start :: s)) := heap.walk_all
  rw [Weave.atomsFrom, walk, Option.map_some, filterMap_atomAt w _ (heap.atomAt _ mem_cons_self)]

section Release

variable {front after : List (Cell T)} {c : Cell T}

theorem adopt_newer (after : List (Cell T)) (b : Block T) (newer : ∀ d ∈ b.1 :: b.2, c.2.id.timestamp < d.2.id.timestamp)
    (d : Cell T) (member : d ∈ b.1 :: b.2 ∨
      d ∈ after.takeWhile (onAtom (isNewer c.2.id.timestamp))) :
    d ∈ (adopt c.2 after b).takeWhile (onAtom (isNewer c.2.id.timestamp)) := by
  have passed : ∀ e ∈ after.takeWhile (onAtom (keeps c.2 b.1.2.id)) ++ (b.1 :: b.2),
      onAtom (isNewer c.2.id.timestamp) e = true := by
    intro e inside
    rcases mem_append.mp inside with early | inBlock
    · have kept := List.mem_takeWhile_imp early
      simp only [onAtom, keeps, Bool.and_eq_true] at kept
      exact kept.1
    · simpa [onAtom, isNewer] using newer e inBlock
  rw [adopt, place, List.takeWhile_append_of_pos passed]
  rcases member with inBlock | old
  · exact mem_append_left _ (mem_append_right _ inBlock)
  · have split := List.takeWhile_append_dropWhile (p := onAtom (keeps c.2 b.1.2.id)) (l := after)
    rw [← split, List.takeWhile_append_of_pos (fun e inside => passed e (mem_append_left _ inside))] at old
    rcases mem_append.mp old with early | late
    · exact mem_append_left _ (mem_append_left _ early)
    · exact mem_append_right _ late

theorem adoptAll_newer (after : List (Cell T)) (blocks : List (Block T))
    (newer : ∀ b ∈ blocks, ∀ d ∈ b.1 :: b.2, c.2.id.timestamp < d.2.id.timestamp) (d : Cell T)
    (member : d ∈ (spread blocks).flatten ∨
      d ∈ after.takeWhile (onAtom (isNewer c.2.id.timestamp))) :
    d ∈ (blocks.foldl (adopt c.2) after).takeWhile (onAtom (isNewer c.2.id.timestamp)) := by
  induction blocks generalizing after with
  | nil => simpa using member
  | cons b blocks ih =>
    apply ih _ (fun x inside => newer x (mem_cons_of_mem _ inside))
    rw [spread_cons, flatten_cons, mem_append] at member
    have here := adopt_newer after b (newer b mem_cons_self) d
    tauto

theorem adopt_grounded (b : Block T) (grounded : Grounded R (front ++ c :: after))
    (block : Grounded R (b.1 :: b.2)) (link : R c b.1) : Grounded R (front ++ c :: adopt c.2 after b) := by
  have split := List.takeWhile_append_dropWhile (p := onAtom (keeps c.2 b.1.2.id)) (l := after)
  have source : Grounded R ((front ++ c :: after.takeWhile (onAtom (keeps c.2 b.1.2.id))) ++
      after.dropWhile (onAtom (keeps c.2 b.1.2.id))) := by
    rw [append_assoc, List.cons_append, split]
    exact grounded
  have grown := source.graft block (c := c) (by simp) link
  simpa [adopt, place] using grown

theorem adoptAll_grounded (blocks : List (Block T)) (grounded : Grounded R (front ++ c :: after))
    (block : ∀ b ∈ blocks, Grounded R (b.1 :: b.2) ∧ R c b.1) :
    Grounded R (front ++ c :: blocks.foldl (adopt c.2) after) := by
  induction blocks generalizing after with
  | nil => exact grounded
  | cons b blocks ih =>
    have first := block b mem_cons_self
    have rest : ∀ x ∈ blocks, Grounded R (x.1 :: x.2) ∧ R c x.1 := fun x inside =>
      block x (mem_cons_of_mem _ inside)
    exact ih (adopt_grounded b grounded first.1 first.2) rest

theorem newer_than_head (older : ∀ p d, R p d → p.2.id.timestamp < d.2.id.timestamp) {root : Cell T}
    {rest : List (Cell T)} (grounded : Grounded R (root :: rest)) (d : Cell T) (member : d ∈ rest) :
    root.2.id.timestamp < d.2.id.timestamp := by
  have bound : ∀ e ∈ root :: rest, root.2.id.timestamp ≤ e.2.id.timestamp := by
    have all : ∀ e ∈ rest, root.2.id.timestamp ≤ e.2.id.timestamp :=
      Grounded.inherit grounded le_rfl (fun p e link passed => passed.trans (le_of_lt (older p e link)))
    intro e inside
    rcases mem_cons.mp inside with first | later
    · exact le_of_eq (by rw [first])
    · exact all e later
  rcases grounded.parent_of member with ⟨p, inside, link⟩
  exact lt_of_le_of_lt (bound p inside) (older p d link)

theorem vouches_older (p d : Cell T) (link : Vouches getHash p d) : p.2.id.timestamp < d.2.id.timestamp :=
  ((checkCause_iff getHash d.2 p.2).mp link.2).2

end Release

/-! ### Releasing -/

section Steps

variable {front after : List (Cell T)} {c : Cell T}

theorem tail_free {l : List (Cell T)} (grounded : Grounded (Vouches getHash) l) (a : Atom T)
    (apart : ∀ e ∈ l, idKey e ≠ atomIdToString a.id) : ∀ d ∈ l.tail, waits a d = false := by
  intro d inTail
  cases waiting : waits a d with
  | false => rfl
  | true =>
    rcases grounded.parent_of inTail with ⟨p, inP, ⟨cause, caused, named⟩, _⟩
    rcases names_of_equals a d.2 waiting with ⟨cause', caused', named'⟩
    rw [caused, some.injEq] at caused'
    subst caused'
    exact absurd (named.symm.trans named') (apart p inP)

theorem Checked.tails_free (checked : Checked getHash R w lists buffered) (a : Atom T)
    (free : ∀ d ∈ buffered.flatten, waits a d = true →
      ∀ e ∈ buffered.flatten, idKey e ≠ atomIdToString a.id) :
    ∀ l ∈ buffered, ∀ d ∈ l.tail, waits a d = false := by
  intro l member d inTail
  cases waiting : waits a d with
  | false => rfl
  | true =>
    have inL : d ∈ buffered.flatten := mem_flatten.mpr ⟨l, member, List.mem_of_mem_tail inTail⟩
    have apart : ∀ e ∈ l, idKey e ≠ atomIdToString a.id := by
      intro e inside
      exact free d inL waiting e (mem_flatten.mpr ⟨l, member, inside⟩)
    have still := tail_free (checked.waiting l member) a apart d inTail
    rw [waiting] at still
    cases still

variable {blocks : List (Block T)} {rest : List (List (Cell T))}

theorem block_vouched (checked : Checked getHash R w lists buffered)
    (split : buffered.Perm (spread blocks ++ rest)) (b : Block T) (member : b ∈ blocks) :
    (b.1 :: b.2) ∈ buffered ∧ Grounded (Vouches getHash) (b.1 :: b.2) ∧ b.1 ∈ buffered.flatten := by
  have inside : (b.1 :: b.2) ∈ buffered :=
    split.mem_iff.mpr (mem_append_left _ (mem_map_of_mem member))
  exact ⟨inside, checked.waiting _ inside, mem_flatten.mpr ⟨_, inside, mem_cons_self⟩⟩

theorem rest_buffered (split : buffered.Perm (spread blocks ++ rest)) (l : List (Cell T)) (member : l ∈ rest) :
    l ∈ buffered := split.mem_iff.mpr (mem_append_right _ member)

theorem Checked.release (orders : Orders getHash R)
    (checked : Checked getHash R w (pre ++ (front ++ c :: after) :: post) buffered)
    (adopts : ∀ d ∈ buffered.flatten, waits c.2 d = true → checkCause getHash d.2 c.2 = none)
    (free : ∀ d ∈ buffered.flatten, waits c.2 d = true →
      ∀ e ∈ buffered.flatten, idKey e ≠ atomIdToString c.2.id)
    (fresh : ∀ l ∈ buffered, ∀ start, l.head? = some start → waits c.2 start = true → ∀ d ∈ l,
      ∀ e ∈ (pre ++ (front ++ c :: after) :: post).flatten, idKey e ≠ idKey d) :
    ∃ w' blocks rest, w.releaseMissing c.1 c.2 = .ok (w', releaseResult c blocks (blocks.foldl (adopt c.2) after)) ∧
      buffered.Perm (spread blocks ++ rest) ∧ (∀ b ∈ blocks, waits c.2 b.1 = true) ∧
      (∀ d ∈ rest.flatten, waits c.2 d = false) ∧
      Checked getHash R w' (pre ++ (front ++ c :: blocks.foldl (adopt c.2) after) :: post) rest ∧
      c.2 ∈ addedWeaveAtoms (releaseResult c blocks (blocks.foldl (adopt c.2) after)) ∧
      ∀ d ∈ (pre ++ (front ++ c :: blocks.foldl (adopt c.2) after) :: post).flatten,
        d ∈ (pre ++ (front ++ c :: after) :: post).flatten ∨
          d ∈ (spread blocks).flatten ∧
            d.2 ∈ addedWeaveAtoms (releaseResult c blocks (blocks.foldl (adopt c.2) after)) := by
  have tails := checked.tails_free c.2 free
  rcases releaseMissing_listed checked.repr tails fresh with
    ⟨w', blocks, rest, run, split, waiting, left, held, _⟩
  have vouched : ∀ b ∈ blocks, Grounded R (b.1 :: b.2) ∧ R c b.1 := by
    intro b member
    have block := block_vouched checked split b member
    refine ⟨block.2.1.weaken orders.vouch, orders.vouch c b.1 ⟨?_, ?_⟩⟩
    · exact names_of_equals c.2 b.1.2 (waiting b member)
    · exact adopts b.1 block.2.2 (waiting b member)
  have newer : ∀ b ∈ blocks, ∀ d ∈ b.1 :: b.2, c.2.id.timestamp < d.2.id.timestamp := by
    intro b member d inside
    have first := orders.older c b.1 (vouched b member).2
    rcases mem_cons.mp inside with here | later
    · exact here ▸ first
    · exact first.trans (newer_than_head orders.older (vouched b member).1 d later)
  refine ⟨w', blocks, rest, run, split, waiting, left, ⟨held, ?_, ?_, ?_⟩, ?_, ?_⟩
  · intro l member
    simp only [mem_append, mem_cons] at member
    rcases member with early | here | late
    · exact checked.listed l (by simp [early])
    · exact here ▸ adoptAll_grounded blocks (checked.listed _ (by simp)) vouched
    · exact checked.listed l (by simp [late])
  · intro l member root head
    simp only [mem_append, mem_cons] at member
    rcases member with early | here | late
    · exact checked.roots l (by simp [early]) root head
    · apply checked.roots (front ++ c :: after) (by simp) root
      rw [here] at head
      rw [← head]
      cases front <;> rfl
    · exact checked.roots l (by simp [late]) root head
  · intro l member
    exact checked.waiting l (rest_buffered split l member)
  · cases blocks <;> simp [releaseResult, addedWeaveAtoms]
  · intro d member
    rw [flatten_middle, mem_append, mem_cons, mem_adoptAll] at member
    have old : d ∈ front ++ c :: after ∨ d ∈ (pre ++ post).flatten →
        d ∈ (pre ++ (front ++ c :: after) :: post).flatten := fun h => (flatten_middle ..).mpr h
    rcases member with (inFront | here | inBlock | inAfter) | elsewhere
    · exact .inl (old (.inl (by simp [inFront])))
    · exact .inl (old (.inl (by simp [here])))
    · refine .inr ⟨inBlock, ?_⟩
      have inGroup := adoptAll_newer after blocks newer d (.inl inBlock)
      cases blocks with
      | nil => simp at inBlock
      | cons b blocks =>
        simp only [releaseResult, List.isEmpty_cons, Bool.false_eq_true, if_false, addedWeaveAtoms]
        exact mem_cons_of_mem _ (mem_map_of_mem inGroup)
    · exact .inl (old (.inl (by simp [inAfter])))
    · exact .inl (old (.inr elsewhere))

theorem Checked.addRoot (checked : Checked getHash R w lists buffered) (a : Atom T)
    (noCause : a.cause = none) (fresh : ∀ d ∈ lists.flatten, idKey d ≠ atomIdToString a.id) :
    Checked getHash R (w.addRoot a).1 (lists ++ [[(w.nodes.length, a)]]) buffered where
  repr := addRoot_repr checked.repr a fresh
  listed l member := by
    rcases mem_append.mp member with old | new
    · exact checked.listed l old
    · exact mem_singleton.mp new ▸ grounded_single _
  roots l member root head := by
    rcases mem_append.mp member with old | new
    · exact checked.roots l old root head
    · have same : root = (w.nodes.length, a) := by
        rw [mem_singleton.mp new] at head
        simpa using head.symm
      exact same ▸ noCause
  waiting := checked.waiting

theorem place_split (cause : Atom T) (id : AtomId) (new : Cell T) (after : List (Cell T)) :
    front ++ c :: place cause id [new] after =
      (front ++ c :: after.takeWhile (onAtom (keeps cause id))) ++
        new :: after.dropWhile (onAtom (keeps cause id)) := by
  simp [place]

theorem Checked.insertUnder (orders : Orders getHash R)
    (checked : Checked getHash R w (pre ++ (front ++ c :: after) :: post) buffered) (a : Atom T)
    (vouched : Vouches getHash c (w.nodes.length, a))
    (fresh : ∀ d ∈ (pre ++ (front ++ c :: after) :: post).flatten, idKey d ≠ atomIdToString a.id) :
    ∃ w', w.insertUnder c.1 a false = .ok (w', w.nodes.length) ∧
      Checked getHash R w' (pre ++ ((front ++ c :: after.takeWhile (onAtom (keeps c.2 a.id))) ++
        (w.nodes.length, a) :: after.dropWhile (onAtom (keeps c.2 a.id))) :: post) buffered := by
  rcases insertUnder_repr checked.repr a fresh with ⟨w', run, held, _⟩
  rw [place_split] at held
  refine ⟨w', run, held, ?_, ?_, checked.waiting⟩
  · intro l member
    simp only [mem_append, mem_cons] at member
    rcases member with early | here | late
    · exact checked.listed l (by simp [early])
    · have source := checked.listed (front ++ c :: after) (by simp)
      have grown := adopt_grounded ((w.nodes.length, a), []) source (grounded_single _) (orders.vouch c _ vouched)
      rw [adopt, place_split] at grown
      simpa [here] using grown
    · exact checked.listed l (by simp [late])
  · intro l member root head
    simp only [mem_append, mem_cons] at member
    rcases member with early | here | late
    · exact checked.roots l (by simp [early]) root head
    · apply checked.roots (front ++ c :: after) (by simp) root
      rw [here] at head
      rw [← head]
      cases front <;> rfl
    · exact checked.roots l (by simp [late]) root head

/-! ### Buffering -/

/-- What is left of the buffer when `a` is buffered: a node that had its id goes. -/
inductive Enqueued (a : Atom T) (buffered : List (List (Cell T))) : List (List (Cell T)) → Prop where
  | fresh (absent : ∀ d ∈ buffered.flatten, idKey d ≠ atomIdToString a.id) : Enqueued a buffered buffered
  | again {old : Cell T} {tail : List (Cell T)} {others : List (List (Cell T))}
      (split : buffered.Perm ((old :: tail) :: others)) (same : idKey old = atomIdToString a.id) :
      Enqueued a buffered (kept tail ++ others)

/-- The list of the new node, in front of it and after it, and the other lists: it is alone, or under
its buffered cause. -/
inductive Attached (cause : AtomId) (new : Cell T) (others : List (List (Cell T))) :
    List (Cell T) → List (Cell T) → List (List (Cell T)) → Prop where
  | alone (absent : ∀ d ∈ others.flatten, idKey d ≠ atomIdToString cause) :
      Attached cause new others [] [] others
  | under {front after : List (Cell T)} {q : Cell T} {rest : List (List (Cell T))}
      (split : others.Perm ((front ++ q :: after) :: rest)) (named : idKey q = atomIdToString cause) :
      Attached cause new others (front ++ q :: after.takeWhile (onAtom (keeps q.2 new.2.id)))
        (after.dropWhile (onAtom (keeps q.2 new.2.id))) rest

theorem Enqueued.sub {a : Atom T} {others : List (List (Cell T))} (enqueued : Enqueued a buffered others)
    (d : Cell T) (member : d ∈ others.flatten) : d ∈ buffered.flatten := by
  cases enqueued with
  | fresh absent => exact member
  | again split same =>
    rw [split.flatten.mem_iff, flatten_cons]
    rw [flatten_append, kept_flatten] at member
    rcases mem_append.mp member with inTail | other
    · exact mem_append_left _ (mem_cons_of_mem _ inTail)
    · exact mem_append_right _ other

theorem Attached.sub {cause : AtomId} {new : Cell T} {others : List (List (Cell T))}
    {front after : List (Cell T)} (attached : Attached cause new others front after rest) (d : Cell T)
    (member : d ∈ front ∨ d ∈ after ∨ d ∈ rest.flatten) : d ∈ others.flatten := by
  cases attached with
  | alone absent => simpa using member
  | under split named =>
    rw [split.flatten.mem_iff, flatten_cons]
    rcases member with inFront | inAfter | other
    · rcases mem_append.mp inFront with early | here
      · simp [early]
      · rcases mem_cons.mp here with same | later
        · simp [same]
        · simp [(List.takeWhile_sublist _).subset later]
    · simp [(List.dropWhile_sublist _).subset inAfter]
    · exact mem_append_right _ other

/-- The new node stands alone in the buffer, and the node that had its id is gone. -/
theorem Checked.enqueue (checked : Checked getHash R w lists buffered) (a : Atom T) (apart : BuffersApart w a) :
    ∃ others, Enqueued a buffered others ∧ Repr (w.addToReorderBuffer a).1 lists ([(w.nodes.length, a)] :: others) ∧
      (∀ l ∈ others, Grounded (Vouches getHash) l) ∧
      (∀ d ∈ others.flatten, d ∈ buffered.flatten ∧ idKey d ≠ atomIdToString a.id) ∧
      ∀ d ∈ buffered.flatten, idKey d ≠ atomIdToString a.id → d ∈ others.flatten := by
  have repr := checked.repr
  cases found : w.reorderBuffer.get (atomIdToString a.id) with
  | none =>
    have fresh := (repr.buffer.absent _).mp found
    refine ⟨buffered, .fresh fresh, addToReorderBuffer_fresh repr a fresh, checked.waiting, ?_, ?_⟩
    · intro d member
      exact ⟨member, fresh d member⟩
    · intro d member _
      exact member
  | some n =>
    rcases (repr.buffer _ n).mp found with ⟨old, member, rfl, same⟩
    have known := apart old.1 old.2 found (repr.atomAt old (.inr member))
    rcases mem_flatten.mp member with ⟨l, present, inL⟩
    have whole := checked.waiting l present
    cases l with
    | nil => cases inL
    | cons start tail =>
      -- the cause of a later cell is in its list
      have first : old = start := by
        rcases mem_cons.mp inL with here | later
        · exact here
        · rcases whole.parent_of later with ⟨p, inP, ⟨cause, caused, named⟩, _⟩
          have inBuffer := repr.buffer.get p (mem_flatten.mpr ⟨_, present, inP⟩)
          have missing := known.2.1 cause caused
          rw [named, show atomIdToString p.2.id = idKey p from rfl, inBuffer] at missing
          cases missing
      subst first
      rcases append_of_mem present with ⟨before, later, rfl⟩
      have moved : (before ++ (old :: tail) :: later).Perm ((old :: tail) :: (before ++ later)) :=
        perm_middle
      have source := repr.buffered_perm moved
      have parts : ∀ d, d ∈ (kept tail ++ (before ++ later)).flatten ↔ d ∈ tail ∨ d ∈ (before ++ later).flatten := by
        intro d
        rw [flatten_append, kept_flatten, mem_append]
      have wide : ∀ d, d ∈ (before ++ (old :: tail) :: later).flatten ↔
          d = old ∨ d ∈ tail ∨ d ∈ (before ++ later).flatten := by
        intro d
        rw [moved.flatten.mem_iff, flatten_cons, mem_append, mem_cons, or_assoc]
      have keys := List.pairwise_cons.mp (block_keys source)
      refine ⟨kept tail ++ (before ++ later), .again moved same, addToReorderBuffer_again source a same, ?_, ?_, ?_⟩
      · intro m inside
        rcases mem_append.mp inside with rest | other
        · cases tail with
          | nil => simp [kept] at rest
          | cons d tail =>
            have equal : m = d :: tail := by simpa [kept] using rest
            rw [equal]
            apply whole.tail
            intro e inTail link
            have firstLink : Vouches getHash old d := by
              rcases whole.1 with ⟨p, inP, link⟩
              exact mem_singleton.mp inP ▸ link
            have names : ∀ x, Vouches getHash old x → Names x.2 a.id := by
              intro x link
              rcases link.1 with ⟨cause, caused, named⟩
              exact ⟨cause, caused, named.trans same⟩
            have inD := (wide d).mpr (.inr (.inl mem_cons_self))
            have inE := (wide e).mpr (.inr (.inl (mem_cons_of_mem _ inTail)))
            have one := known.2.2 d.2 (buffered_atom repr d inD) e.2 (buffered_atom repr e inE)
              (names d firstLink) (names e link)
            exact (List.pairwise_cons.mp keys.2).1 e inTail (by rw [idKey, one, idKey])
        · apply checked.waiting m
          rcases mem_append.mp other with early | late
          · exact mem_append_left _ early
          · exact mem_append_right _ (mem_cons_of_mem _ late)
      · intro d inside
        rcases (parts d).mp inside with inTail | other
        · exact ⟨(wide d).mpr (.inr (.inl inTail)),
            fun equal => keys.1 d inTail (same.trans equal.symm)⟩
        · exact ⟨(wide d).mpr (.inr (.inr other)),
            fun equal => block_apart source old mem_cons_self d other (same.trans equal.symm)⟩
      · intro d inside different
        rcases (wide d).mp inside with here | rest
        · exact absurd (here ▸ same) different
        · exact (parts d).mpr rest

/-- How `insertMissing` puts a buffered node under its cause, if that is buffered. -/
def joinBuffered (w : Weave T) (causeNode : Option Ref) (node : Ref) : Except Failure (Weave T) :=
  match causeNode with
  | some causeNode => w.insertNodeUnder causeNode node node
  | none => .ok w

theorem Checked.queue (checked : Checked getHash R w lists buffered) (a : Atom T) (cause : AtomId)
    (caused : a.cause = some cause) (room : (w.reorderBuffer.size : Int) < w.maxReorderBufferSize)
    (passes : ∀ n c, w.reorderBuffer.get (atomIdToString cause) = some n → w.atomAt n = some c →
      checkCause getHash a c = none) (adopts : AdoptsChecked getHash w a) (apart : BuffersApart w a) :
    ∃ w' others front after rest blocks final, w.insertMissing getHash a cause = .ok (w', .causeNotFound a true) ∧
      Enqueued a buffered others ∧ Attached cause (w.nodes.length, a) others front after rest ∧
      rest.Perm (spread blocks ++ final) ∧ (∀ b ∈ blocks, waits a b.1 = true) ∧
      (∀ d ∈ final.flatten, waits a d = false) ∧
      Checked getHash R w' lists
        ((front ++ (w.nodes.length, a) :: blocks.foldl (adopt a) after) :: final) := by
  have repr := checked.repr
  rcases checked.enqueue a apart with ⟨others, emptied, queued, grounded, known, left⟩
  have node : (w.addToReorderBuffer a).2 = w.nodes.length := by
    rw [addToReorderBuffer_eq repr.heap]
  have checks : ((w.reorderBuffer.get (atomIdToString cause)).bind w.atomAt).bind (checkCause getHash a) = none := by
    cases found : w.reorderBuffer.get (atomIdToString cause) with
    | none => rfl
    | some n =>
      cases atom : w.atomAt n with
      | none => simp [atom]
      | some c => simpa [atom] using passes n c found atom
  have vouch : ∀ d ∈ others.flatten, waits a d = true → Vouches getHash (w.nodes.length, a) d := by
    intro d member waiting
    have inBuffer := buffered_atom repr d (known d member).1
    exact ⟨names_of_equals a d.2 waiting, adopts d.2 (.inr inBuffer) waiting⟩
  have notOwn : waits a (w.nodes.length, a) = false := by
    cases waiting : waits a (w.nodes.length, a) with
    | false => rfl
    | true =>
      have newer := ((checkCause_iff getHash a a).mp (adopts a (.inl rfl) waiting)).2
      exact absurd newer (lt_irrefl _)
  -- the list of the new node and the other lists, once it is under its cause
  have step : ∃ mid front after rest,
      joinBuffered (w.addToReorderBuffer a).1 (w.reorderBuffer.get (atomIdToString cause)) w.nodes.length =
        .ok mid ∧
      Repr mid lists ((front ++ (w.nodes.length, a) :: after) :: rest) ∧
      Grounded (Vouches getHash) (front ++ (w.nodes.length, a) :: after) ∧
      (∀ d ∈ front ++ (w.nodes.length, a) :: after, waits a d = false) ∧
      (∀ l ∈ rest, l ∈ others) ∧ Attached cause (w.nodes.length, a) others front after rest := by
    cases found : w.reorderBuffer.get (atomIdToString cause) with
    | none =>
      have absent : ∀ d ∈ others.flatten, idKey d ≠ atomIdToString cause := fun d member =>
        (repr.buffer.absent _).mp found d (known d member).1
      refine ⟨_, [], [], others, rfl, queued, grounded_single _, ?_, fun l member => member, .alone absent⟩
      intro d member
      rw [List.nil_append, mem_singleton] at member
      exact member ▸ notOwn
    | some n =>
      rcases (repr.buffer _ n).mp found with ⟨q, member, rfl, named⟩
      have other : idKey q ≠ atomIdToString a.id := by
        intro same
        have again := repr.buffer.get q member
        rw [same] at again
        have missing := (apart q.1 q.2 again (repr.atomAt q (.inr member))).1 cause caused
        rw [found] at missing
        cases missing
      have vouched : Vouches getHash q (w.nodes.length, a) :=
        ⟨⟨cause, caused, named.symm⟩, passes q.1 q.2 found (repr.atomAt q (.inr member))⟩
      rcases mem_flatten.mp (left q member other) with ⟨l, present, inL⟩
      rcases append_of_mem present with ⟨before, later, rfl⟩
      rcases append_of_mem inL with ⟨front, after, rfl⟩
      have moved : ([(w.nodes.length, a)] :: (before ++ (front ++ q :: after) :: later)).Perm
          ((front ++ q :: after) :: [(w.nodes.length, a)] :: (before ++ later)) :=
        (perm_middle.cons _).trans (List.Perm.swap ..)
      rcases insertNodeUnder_buffered (queued.buffered_perm moved) with ⟨mid, run, held, _⟩
      have whole := grounded _ present
      have grown := adopt_grounded ((w.nodes.length, a), []) whole (grounded_single _) vouched
      rw [adopt, place_split] at held grown
      refine ⟨mid, _, _, before ++ later, run, held, grown, ?_, ?_, .under perm_middle named⟩
      · intro d inside
        have parts : d = (w.nodes.length, a) ∨ d ∈ front ++ q :: after := by
          rw [← place_split] at inside
          simp only [mem_append, mem_cons, mem_place, List.not_mem_nil, or_false]
            at inside ⊢
          tauto
        rcases parts with here | old
        · exact here ▸ notOwn
        · cases waiting : waits a d with
          | false => rfl
          | true =>
            have inOthers : ∀ e ∈ front ++ q :: after,
                e ∈ (before ++ (front ++ q :: after) :: later).flatten := fun e inList =>
              mem_flatten.mpr ⟨_, present, inList⟩
            have link := vouch d (inOthers d old) waiting
            -- a later cell has its own cause in the list; the first one is older than `a`
            have inTail : d ∉ (front ++ q :: after).tail := by
              intro later
              have still := tail_free whole a (fun e inList => (known e (inOthers e inList)).2) d later
              rw [waiting] at still
              cases still
            have first : ∃ rest, front ++ q :: after = d :: rest := by
              cases front with
              | nil =>
                rcases mem_cons.mp old with here | later
                · exact ⟨after, by rw [here]; rfl⟩
                · exact absurd later inTail
              | cons start front =>
                rcases mem_cons.mp old with here | later
                · exact ⟨front ++ q :: after, by rw [here]; rfl⟩
                · exact absurd later inTail
            rcases first with ⟨rest, shape⟩
            rw [shape] at whole
            have inList : q ∈ d :: rest := by
              rw [← shape]
              simp
            have notNewer : d.2.id.timestamp ≤ q.2.id.timestamp := by
              rcases mem_cons.mp inList with here | later
              · exact le_of_eq (by rw [here])
              · exact le_of_lt (newer_than_head vouches_older whole q later)
            have cycle := (vouches_older _ _ link).trans_le notNewer
            exact absurd (cycle.trans (vouches_older _ _ vouched)) (lt_irrefl _)
      · intro l inside
        rcases mem_append.mp inside with early | late
        · exact mem_append_left _ early
        · exact mem_append_right _ (mem_cons_of_mem _ late)
  rcases step with ⟨mid, front, after, rest, run, held, whole, own, sub, attached⟩
  have tails : ∀ l ∈ rest, ∀ d ∈ l.tail, waits a d = false := by
    intro l member
    apply tail_free (grounded l (sub l member)) a
    intro e inside
    exact (known e (mem_flatten.mpr ⟨l, sub l member, inside⟩)).2
  rcases addMissingChildren_buffered held own tails with
    ⟨w', blocks, final, run', split, waiting, unwaited, held', _⟩
  have blockVouched : ∀ b ∈ blocks, Grounded (Vouches getHash) (b.1 :: b.2) ∧
      Vouches getHash (w.nodes.length, a) b.1 := by
    intro b member
    have inRest : (b.1 :: b.2) ∈ rest :=
      split.mem_iff.mpr (mem_append_left _ (mem_map_of_mem member))
    have inOthers := sub _ inRest
    refine ⟨grounded _ inOthers, vouch b.1 ?_ (waiting b member)⟩
    exact mem_flatten.mpr ⟨_, inOthers, mem_cons_self⟩
  refine ⟨w', others, front, after, rest, blocks, final, ?_, emptied, attached, split, waiting, unwaited,
    held', checked.listed, checked.roots, ?_⟩
  · simp only [Weave.insertMissing, if_neg (not_le.mpr room), checks, node, bind, Except.bind, pure, Except.pure]
    cases found : w.reorderBuffer.get (atomIdToString cause) with
    | none =>
      rw [found, joinBuffered] at run
      rw [Except.ok.inj run]
      simp only [run']
    | some n =>
      rw [found, joinBuffered] at run
      simp only [run, run']
  · intro l member
    rcases mem_cons.mp member with here | other
    · exact here ▸ adoptAll_grounded blocks whole blockVouched
    · exact grounded l (sub l (split.mem_iff.mpr (mem_append_right _ other)))

/-! ### Conflicts -/

theorem replaced_iff (repr : Repr w (pre ++ (front ++ c :: after) :: post) buffered) (a : Atom T)
    (same : idKey c = atomIdToString a.id) (smaller : a.hash < c.2.hash) (r : Ref) :
    Replaced w a r ↔ r ∈ refs (c :: after.takeWhile (onAtom (isNewer c.2.id.timestamp))) := by
  have member : c ∈ (pre ++ (front ++ c :: after) :: post).flatten :=
    (flatten_middle ..).mpr (.inl (by simp))
  have node := (repr.getNode a.id c.1).mpr ⟨c, member, rfl, same⟩
  have atom := repr.atomAt c (.inl member)
  have group := iterateCausalGroup_heap (repr.heap.perm (middle_perm pre post buffered _))
  constructor
  · intro ⟨e, old, run, found, _, _, found', inside⟩
    rw [node, some.injEq] at found
    subst found
    rw [group, some.injEq] at found'
    rw [← found'] at inside
    exact inside
  · intro inside
    exact ⟨c.1, c.2, _, node, atom, smaller, group, inside⟩

/-- The atom that loses a conflict goes with its causal group. -/
theorem Checked.removeLoser (orders : Orders getHash R)
    (checked : Checked getHash R w (pre ++ (front ++ c :: after) :: post) buffered)
    (closed : front ≠ [] →
      Grounded R (front ++ after.dropWhile (onAtom (isNewer c.2.id.timestamp)))) :
    ∃ w', w.removeNode c.1 = .ok w' ∧ Checked getHash R w'
      (pre ++ kept (front ++ after.dropWhile (onAtom (isNewer c.2.id.timestamp))) ++ post) buffered := by
  have inList : front ++ c :: after ∈ pre ++ (front ++ c :: after) :: post := by simp
  have whole : front = [] → c.2.cause = none ∧ ∀ d ∈ after, isNewer c.2.id.timestamp d.2 = true := by
    intro empty
    have tree := checked.listed _ inList
    have root := checked.roots _ inList c
    rw [empty] at tree root
    refine ⟨root rfl, fun d member => ?_⟩
    exact decide_eq_true (newer_than_head orders.older tree d member)
  rcases removeNode_repr checked.repr whole with ⟨w', run, held, _⟩
  have split : ∀ l ∈ pre ++ kept (front ++ after.dropWhile (onAtom (isNewer c.2.id.timestamp))) ++ post,
      l ∈ pre ++ (front ++ c :: after) :: post ∨
        front ≠ [] ∧ l = front ++ after.dropWhile (onAtom (isNewer c.2.id.timestamp)) := by
    intro l member
    simp only [mem_append] at member
    rcases member with (early | here) | late
    · exact .inl (by simp [early])
    · by_cases empty : front = []
      · have newer := (whole empty).2
        have gone : after.dropWhile (onAtom (isNewer c.2.id.timestamp)) = [] :=
          List.dropWhile_eq_nil_iff.mpr newer
        simp [empty, gone, kept] at here
      · rw [kept_filled (by simp [empty]), mem_singleton] at here
        exact .inr ⟨empty, here⟩
    · exact .inl (by simp [late])
  refine ⟨w', run, held, ?_, ?_, checked.waiting⟩
  · intro l member
    rcases split l member with old | ⟨inner, cut⟩
    · exact checked.listed l old
    · exact cut ▸ closed inner
  · intro l member root head
    rcases split l member with old | ⟨inner, cut⟩
    · exact checked.roots l old root head
    · apply checked.roots _ inList root
      rw [cut] at head
      rw [← head]
      cases front with
      | nil => exact absurd rfl inner
      | cons first front => rfl

/-- What a step has to keep grounded when a listed atom loses a conflict with `a`. -/
def Cuts (R : Cell T → Cell T → Prop) (lists : List (List (Cell T))) (a : Atom T) : Prop :=
  ∀ pre front e after post, lists = pre ++ (front ++ e :: after) :: post →
    idKey e = atomIdToString a.id → a.hash < e.2.hash → front ≠ [] →
    Grounded R (front ++ after.dropWhile (onAtom (isNewer e.2.id.timestamp)))

/-- Where `a` goes: to the roots, or under a listed cell. -/
def GoesTo (getHash : AtomHashInput T → JsString) (lists : List (List (Cell T))) (a : Atom T) :
    Option Ref → Prop
  | none => a.cause = none
  | some n => ∃ c ∈ lists.flatten, c.1 = n ∧ ∀ r, Vouches getHash c (r, a)

theorem Checked.resolve (orders : Orders getHash R) (checked : Checked getHash R w lists buffered)
    (a : Atom T) (causeNode : Option Ref) (goes : GoesTo getHash lists a causeNode) (e : Cell T)
    (member : e ∈ lists.flatten) (same : idKey e = atomIdToString a.id) (apart : KeepsCause w a)
    (cuts : Cuts R lists a) :
    ∃ w' r lists', w.resolveConflict e.1 a causeNode = .ok (w', r) ∧
      Checked getHash R w' lists' buffered ∧ r ≠ .atomsAdded [] ∧
      ∀ d ∈ lists'.flatten, d ∈ lists.flatten ∨ d.2 ∈ addedWeaveAtoms r ∧ d.2 = a := by
  have unchanged : ∀ r, r ≠ .atomsAdded [] → ∃ w' r' lists',
      (Except.ok (w, r) : Except Failure (Weave T × WeaveResult T)) = .ok (w', r') ∧
        Checked getHash R w' lists' buffered ∧ r' ≠ .atomsAdded [] ∧
        ∀ d ∈ lists'.flatten, d ∈ lists.flatten ∨ d.2 ∈ addedWeaveAtoms r' ∧ d.2 = a :=
    fun r filled => ⟨w, r, lists, rfl, checked, filled, fun d inside => .inl inside⟩
  simp only [Weave.resolveConflict, checked.repr.atomAt e (.inl member)]
  by_cases hashes : e.2.hash ≠ a.hash
  · by_cases less : e.2.hash < a.hash
    · simp only [if_pos hashes, if_pos less]
      exact unchanged _ nofun
    · have smaller : a.hash < e.2.hash := lt_of_le_of_ne (not_lt.mp less) (Ne.symm hashes)
      rcases split_at lists e member with ⟨pre, front, after, post, rfl⟩
      rcases checked.removeLoser orders (cuts pre front e after post rfl same smaller) with
        ⟨mid, run, left⟩
      have fresh : ∀ d ∈ (pre ++ kept (front ++ after.dropWhile
          (onAtom (isNewer e.2.id.timestamp))) ++ post).flatten, idKey d ≠ atomIdToString a.id := by
        intro d inside equal
        have sub := rest_subset pre post front after e _ d inside
        have one := checked.repr.id_unique d e sub member (equal.trans same.symm)
        exact checked.repr.removed_absent _ (one ▸ inside)
      simp only [if_pos hashes, if_neg less, run, bind, Except.bind]
      cases causeNode with
      | none =>
        refine ⟨_, _, _, rfl, left.addRoot a goes fresh, nofun, ?_⟩
        intro d inside
        rw [flatten_append, mem_append] at inside
        rcases inside with old | new
        · exact .inl (rest_subset pre post front after e _ d old)
        · right
          have here : d = (mid.nodes.length, a) := by simpa using new
          simp [here, addedWeaveAtoms]
      | some n =>
        rcases goes with ⟨q, inLists, rfl, vouched⟩
        have stays : q ∉ e :: after.takeWhile (onAtom (isNewer e.2.id.timestamp)) := by
          intro inGroup
          have gone := (replaced_iff checked.repr a same smaller q.1).mpr (mem_refs q _ inGroup)
          exact apart q.1 q.2 gone (checked.repr.atomAt q (.inl inLists)) (vouched 0).1
        have found := rest_of pre post front after e _ q inLists stays
        rcases split_at _ q found with ⟨pre', front', after', post', shape⟩
        rw [shape] at left fresh
        rcases left.insertUnder orders a (vouched _) fresh with ⟨w', run', held⟩
        refine ⟨w', .conflict a e.2 (some e.1), _, ?_, held, nofun, ?_⟩
        · simp only [run', Except.map, pure, Except.pure]
        intro d inside
        rw [← place_split, mem_placed] at inside
        rcases inside with new | old
        · right
          simp [new, addedWeaveAtoms]
        · rw [← shape] at old
          exact .inl (rest_subset pre post front after e _ d old)
  · simp only [if_neg hashes]
    exact unchanged _ nofun

/-! ### One insert -/

/-- What is waiting for `a` in the buffer may go under it. -/
structure Frees (getHash : AtomHashInput T → JsString) (lists buffered : List (List (Cell T)))
    (a : Atom T) : Prop where
  adopts : ∀ d ∈ buffered.flatten, waits a d = true → checkCause getHash d.2 a = none
  free : ∀ d ∈ buffered.flatten, waits a d = true →
    ∀ e ∈ buffered.flatten, idKey e ≠ atomIdToString a.id
  fresh : ∀ l ∈ buffered, ∀ start, l.head? = some start → waits a start = true → ∀ d ∈ l,
    ∀ e ∈ lists.flatten, idKey e ≠ idKey d

theorem frees_of (repr : Repr w lists buffered) (a : Atom T) (adopts : AdoptsChecked getHash w a)
    (releases : ReleasesNew w a) : Frees getHash lists buffered a where
  adopts d member waiting := adopts d.2 (.inr (buffered_atom repr d member)) waiting
  free d member waiting := by
    have value := (repr.buffer.mem_values d.1).mpr ⟨d, member, rfl⟩
    exact (repr.buffer.absent _).mp (releases d.1 value d.2 (repr.atomAt d (.inr member)) waiting).1
  fresh l present start head waiting d inL e listed := by
    cases l with
    | nil => cases head
    | cons first tail =>
      have same : first = start := by simpa using head
      subst same
      have member : first ∈ buffered.flatten := mem_flatten.mpr ⟨_, present, mem_cons_self⟩
      have value := (repr.buffer.mem_values first.1).mpr ⟨first, member, rfl⟩
      rcases append_of_mem present with ⟨before, later, rfl⟩
      have moved : (lists ++ (before ++ (first :: tail) :: later)).Perm
          ((first :: tail) :: (lists ++ before ++ later)) := by
        rw [← append_assoc]
        exact perm_middle
      have chain := atomsFrom_heap (repr.heap.perm moved)
      have known := releases first.1 value first.2 (repr.atomAt first (.inr member)) waiting
      have absent := known.2 _ chain d.2 (mem_map_of_mem inL)
      exact (repr.getNode_none d.2.id).mp absent e listed

theorem Checked.releaseNew (orders : Orders getHash R) {n : Ref} {a : Atom T}
    (checked : Checked getHash R w (pre ++ (front ++ (n, a) :: after) :: post) buffered)
    (frees : Frees getHash lists buffered a)
    (members : ∀ d ∈ (pre ++ (front ++ (n, a) :: after) :: post).flatten,
      d = (n, a) ∨ d ∈ lists.flatten) :
    ∃ w' blocks rest, w.releaseMissing n a = .ok (w', releaseResult (n, a) blocks (blocks.foldl (adopt a) after)) ∧
      buffered.Perm (spread blocks ++ rest) ∧ (∀ b ∈ blocks, waits a b.1 = true) ∧
      (∀ d ∈ rest.flatten, waits a d = false) ∧
      Checked getHash R w' (pre ++ (front ++ (n, a) :: blocks.foldl (adopt a) after) :: post) rest ∧
      releaseResult (n, a) blocks (blocks.foldl (adopt a) after) ≠ .atomsAdded [] ∧
      ∀ d ∈ (pre ++ (front ++ (n, a) :: blocks.foldl (adopt a) after) :: post).flatten, d ∈ lists.flatten ∨
          d.2 ∈ addedWeaveAtoms (releaseResult (n, a) blocks (blocks.foldl (adopt a) after)) ∧
            (d.2 = a ∨ d ∈ (spread blocks).flatten) := by
  have fresh : ∀ l ∈ buffered, ∀ start, l.head? = some start → waits a start = true → ∀ d ∈ l,
      ∀ e ∈ (pre ++ (front ++ (n, a) :: after) :: post).flatten, idKey e ≠ idKey d := by
    intro l present start head waiting d inL e inside
    rcases members e inside with new | old
    · have inBuffer : start ∈ buffered.flatten :=
        mem_flatten.mpr ⟨l, present, List.mem_of_head? head⟩
      have apart := frees.free start inBuffer waiting d (mem_flatten.mpr ⟨l, present, inL⟩)
      rw [new]
      exact Ne.symm apart
    · exact frees.fresh l present start head waiting d inL e old
  rcases checked.release orders frees.adopts frees.free fresh with
    ⟨w', blocks, rest, run, split, waiting, left, held, added, grown⟩
  refine ⟨w', blocks, rest, run, split, waiting, left, held, ?_, fun d inside => ?_⟩
  · unfold releaseResult
    split <;> nofun
  · rcases grown d inside with known | ⟨inBlock, new⟩
    · rcases members d known with first | old
      · rw [first]
        exact .inr ⟨added, .inl rfl⟩
      · exact .inl old
    · exact .inr ⟨new, .inr inBlock⟩

theorem released_of (repr : Repr w lists buffered) (a : Atom T)
    (split : buffered.Perm (spread blocks ++ rest)) (waiting : ∀ b ∈ blocks, waits a b.1 = true) (d : Cell T)
    (member : d ∈ (spread blocks).flatten) : Released w a d.2 := by
  rcases mem_flatten.mp member with ⟨l, inSpread, inL⟩
  rcases List.mem_map.mp inSpread with ⟨b, inBlocks, rfl⟩
  have present : (b.1 :: b.2) ∈ buffered := split.mem_iff.mpr (mem_append_left _ inSpread)
  have inBuffer : b.1 ∈ buffered.flatten := mem_flatten.mpr ⟨_, present, mem_cons_self⟩
  have value := (repr.buffer.mem_values b.1.1).mpr ⟨b.1, inBuffer, rfl⟩
  rcases append_of_mem present with ⟨before, later, rfl⟩
  have moved : (lists ++ (before ++ (b.1 :: b.2) :: later)).Perm ((b.1 :: b.2) :: (lists ++ before ++ later)) := by
    rw [← append_assoc]
    exact perm_middle
  have chain := atomsFrom_heap (repr.heap.perm moved)
  exact ⟨b.1.1, value, b.1.2, repr.atomAt b.1 (.inr inBuffer), waiting b inBlocks, _, chain, mem_map_of_mem inL⟩

theorem countCardinality_eq (w counted : Weave T) (a : Atom T) (run : w.countCardinality a = some counted) :
    ∃ cardinality, counted = { w with cardinality := cardinality } := by
  unfold Weave.countCardinality at run
  split at run
  · exact ⟨w.cardinality, (some.inj run).symm⟩
  · split at run
    · split at run
      · cases run
      · exact ⟨_, (some.inj run).symm⟩
    · exact ⟨_, (some.inj run).symm⟩

theorem rejection_filled (a c : Atom T) (rejection : WeaveResult T)
    (rejected : checkCause getHash a c = some rejection) : rejection ≠ .atomsAdded [] := by
  unfold checkCause at rejected
  split_ifs at rejected <;> (cases rejected; nofun)

theorem Checked.insert (orders : Orders getHash R) (checked : Checked getHash R w lists buffered)
    (a : Atom T) (safe : Safe getHash w a) (cuts : Joins getHash w a → Cuts R lists a)
    (defined : a.cause = none → a.id.cardinality ≠ .null) :
    ∃ w' r lists' buffered', w.insert getHash a = .ok (w', r) ∧
      Checked getHash R w' lists' buffered' ∧ r ≠ .atomsAdded [] ∧
      (∀ d ∈ buffered'.flatten, d ∈ buffered.flatten ∨ d.2 = a) ∧
      ∀ d ∈ lists'.flatten, d ∈ lists.flatten ∨ d.2 ∈ addedWeaveAtoms r ∧ Arrives getHash w a d.2 := by
  have unchanged : ∀ r, r ≠ .atomsAdded [] → ∃ w' r' lists' buffered',
      (Except.ok (w, r) : Except Failure (Weave T × WeaveResult T)) = .ok (w', r') ∧
        Checked getHash R w' lists' buffered' ∧ r' ≠ .atomsAdded [] ∧
        (∀ d ∈ buffered'.flatten, d ∈ buffered.flatten ∨ d.2 = a) ∧
        ∀ d ∈ lists'.flatten, d ∈ lists.flatten ∨ d.2 ∈ addedWeaveAtoms r' ∧ Arrives getHash w a d.2 :=
    fun r filled => ⟨w, r, lists, buffered, rfl, checked, filled, fun d inside => .inl inside,
      fun d inside => .inl inside⟩
  have repr := checked.repr
  cases caused : a.cause with
  | none =>
    have positive : ∀ (joins : (∀ cardinality, a.id.cardinality = .value cardinality →
          0 < cardinality.number) ∧ (w.getNode a.id = none → w.countCardinality a ≠ none))
        (valid : atomMatchesHash getHash a none = true), Joins getHash w a := by
      intro joins valid
      simp only [Joins, caused]
      exact ⟨valid, joins.1, joins.2⟩
    have checkedRoot : ∀ (valid : atomMatchesHash getHash a none = true)
        (number : ∀ cardinality, a.id.cardinality = .value cardinality → 0 < cardinality.number),
        ∃ w' r lists' buffered', insertCheckedRoot w a = .ok (w', r) ∧
          Checked getHash R w' lists' buffered' ∧ r ≠ .atomsAdded [] ∧
          (∀ d ∈ buffered'.flatten, d ∈ buffered.flatten ∨ d.2 = a) ∧
          ∀ d ∈ lists'.flatten, d ∈ lists.flatten ∨ d.2 ∈ addedWeaveAtoms r ∧ Arrives getHash w a d.2 := by
      intro valid number
      unfold insertCheckedRoot
      cases existing : w.getNode a.id with
      | some n =>
        rcases (repr.getNode a.id n).mp existing with ⟨e, member, rfl, same⟩
        have joins := positive ⟨number, by simp [existing]⟩ valid
        rcases checked.resolve orders a none caused e member same (safe.replaces joins)
          (cuts joins) with ⟨w', r, lists', run, held, filled, grown⟩
        exact ⟨w', r, lists', buffered, run, held, filled, fun d inside => .inl inside,
          fun d inside => (grown d inside).imp_right (fun new => ⟨new.1, joins, .inl new.2⟩)⟩
      | none =>
        cases counted : w.countCardinality a with
        | none => exact unchanged _ (by simp)
        | some mid =>
          have joins := positive ⟨number, by simp [counted]⟩ valid
          have frees := frees_of repr a (safe.adopts (.inl ⟨joins, existing⟩)) (safe.releases joins existing)
          rcases countCardinality_eq w mid a counted with ⟨cardinality, rfl⟩
          have same : Checked getHash R { w with cardinality := cardinality } lists buffered :=
            ⟨⟨repr.heap, repr.starts, repr.filled, repr.roots, repr.idMap, repr.buffer⟩,
              checked.listed, checked.roots, checked.waiting⟩
          have grown : Checked getHash R _ (lists ++ ([] ++ (w.nodes.length, a) :: []) :: []) buffered :=
            same.addRoot a caused ((repr.getNode_none a.id).mp existing)
          have members : ∀ d ∈ (lists ++ ([] ++ (w.nodes.length, a) :: []) :: []).flatten,
              d = (w.nodes.length, a) ∨ d ∈ lists.flatten := by
            intro d inside
            simpa [or_comm] using inside
          rcases grown.releaseNew orders frees members with
            ⟨w', blocks, rest, run, split, waiting, _, held, filled, grown⟩
          refine ⟨w', _, _, rest, run, held, filled, fun d inside => .inl ?_, fun d inside => ?_⟩
          · exact split.flatten.mem_iff.mpr (by simp [inside])
          refine (grown d inside).imp_right (fun new => ⟨new.1, joins, new.2.imp_right ?_⟩)
          exact fun inBlock => ⟨existing, released_of repr a split waiting d inBlock⟩
    simp only [Weave.insert, caused, Weave.insertRoot]
    cases valid : atomMatchesHash getHash a none with
    | false => exact unchanged _ (by simp)
    | true =>
      simp only [Bool.not_true, Bool.false_eq_true, if_false]
      cases cardinality : a.id.cardinality with
      | undefined => exact checkedRoot valid (by simp [cardinality])
      | null => exact absurd cardinality (defined caused)
      | value v =>
        by_cases small : v.number ≤ 0
        · simp only [small, if_true]
          exact unchanged _ (by simp)
        · simp only [small, if_false]
          apply checkedRoot valid
          intro u same
          rw [cardinality, Field.value.injEq] at same
          exact same ▸ not_le.mp small
  | some cause =>
    cases found : w.getNode cause with
    | none =>
      simp only [Weave.insert, caused, found]
      by_cases room : (w.reorderBuffer.size : Int) < w.maxReorderBufferSize
      · cases check : ((w.reorderBuffer.get (atomIdToString cause)).bind w.atomAt).bind
            (checkCause getHash a) with
        | some rejection =>
          have filled : rejection ≠ .atomsAdded [] := by
            rcases Option.bind_eq_some_iff.mp check with ⟨c, _, rejected⟩
            exact rejection_filled a c rejection rejected
          simp only [Weave.insertMissing, if_neg (not_le.mpr room), check]
          exact unchanged _ filled
        | none =>
          have passes : ∀ n c, w.reorderBuffer.get (atomIdToString cause) = some n →
              w.atomAt n = some c → checkCause getHash a c = none := by
            intro n c inBuffer atom
            simpa [inBuffer, atom] using check
          have queues : Queues getHash w a := ⟨cause, caused, found, room, passes⟩
          rcases checked.queue a cause caused room passes (safe.adopts (.inr queues)) (safe.buffers queues) with
            ⟨w', _, front, after, _, blocks, final, run, emptied, attached, split, _, _, held⟩
          refine ⟨w', _, lists, _, run, held, (by simp), fun d inside => ?_, fun d inside => .inl inside⟩
          have parts : d = (w.nodes.length, a) ∨ d ∈ front ∨ d ∈ after ∨ d ∈ (spread blocks ++ final).flatten := by
            simp only [flatten_cons, flatten_append, mem_append, mem_cons, mem_adoptAll] at inside ⊢
            tauto
          rcases parts with here | old
          · exact .inr (here ▸ rfl)
          · rw [← split.flatten.mem_iff] at old
            exact .inl (emptied.sub d (attached.sub d old))
      · simp only [Weave.insertMissing, if_pos (not_lt.mp room)]
        exact unchanged _ (by simp)
    | some n =>
      rcases (repr.getNode cause n).mp found with ⟨c, member, rfl, named⟩
      have atom := repr.atomAt c (.inl member)
      simp only [Weave.insert, caused, found, Weave.insertChild, atom, Option.bind_some]
      cases check : checkCause getHash a c.2 with
      | some rejection => exact unchanged _ (rejection_filled a c.2 rejection check)
      | none =>
        have vouched : ∀ r, Vouches getHash c (r, a) := fun _ =>
          ⟨⟨cause, caused, named.symm⟩, check⟩
        have joins : Joins getHash w a := by
          simp only [Joins, caused]
          exact ⟨c.1, c.2, found, atom, check⟩
        cases existing : w.getNode a.id with
        | some m =>
          rcases (repr.getNode a.id m).mp existing with ⟨e, inLists, rfl, same⟩
          rcases checked.resolve orders a (some c.1) ⟨c, member, rfl, vouched⟩ e inLists same
            (safe.replaces joins) (cuts joins) with ⟨w', r, lists', run, held, filled, grown⟩
          exact ⟨w', r, lists', buffered, run, held, filled, fun d inside => .inl inside,
            fun d inside => (grown d inside).imp_right (fun new => ⟨new.1, joins, .inl new.2⟩)⟩
        | none =>
          have frees := frees_of repr a (safe.adopts (.inl ⟨joins, existing⟩)) (safe.releases joins existing)
          rcases split_at lists c member with ⟨pre, front, after, post, rfl⟩
          rcases checked.insertUnder orders a (vouched _) ((repr.getNode_none a.id).mp existing) with ⟨mid, run, held⟩
          have members : ∀ d ∈ (pre ++ ((front ++ c :: after.takeWhile (onAtom (keeps c.2 a.id))) ++
              (w.nodes.length, a) :: after.dropWhile (onAtom (keeps c.2 a.id))) :: post).flatten,
              d = (w.nodes.length, a) ∨ d ∈ (pre ++ (front ++ c :: after) :: post).flatten := by
            intro d inside
            rw [← place_split, mem_placed] at inside
            exact inside
          rcases held.releaseNew orders frees members with
            ⟨w', blocks, rest, run', split, waiting, _, held', filled, grown⟩
          refine ⟨w', _, _, rest, ?_, held', filled, fun d inside => .inl ?_, fun d inside => ?_⟩
          · simp only [run, run', bind, Except.bind]
          · exact split.flatten.mem_iff.mpr (by simp [inside])
          · refine (grown d inside).imp_right (fun new => ⟨new.1, joins, new.2.imp_right ?_⟩)
            exact fun inBlock => ⟨existing, released_of repr a split waiting d inBlock⟩

end Steps

/-! ### Lists of atoms that are newer than their root -/

def Older (p d : Cell T) : Prop := p.2.id.timestamp < d.2.id.timestamp

theorem older_orders : Orders getHash (Older (T := T)) := ⟨vouches_older, fun _ _ link => link⟩

/-- Whatever is taken out behind the root, the rest is newer than it. -/
theorem grounded_sublist {l m : List (Cell T)} (root : Cell T) (grounded : Grounded Older (root :: l))
    (sub : m.Sublist l) : Grounded Older (root :: m) := by
  apply covered_of_root root (mem_singleton.mpr rfl)
  intro d member
  exact newer_than_head (fun _ _ link => link) grounded d (sub.subset member)

theorem grounded_cut {front after : List (Cell T)} {e : Cell T} (drop : Cell T → Bool)
    (grounded : Grounded Older (front ++ e :: after)) (inner : front ≠ []) :
    Grounded Older (front ++ after.dropWhile drop) := by
  cases front with
  | nil => exact absurd rfl inner
  | cons root front =>
    apply grounded_sublist root grounded
    exact (List.Sublist.refl front).append ((List.dropWhile_sublist drop).cons e)

theorem cuts_older (checked : Checked getHash Older w lists buffered) (a : Atom T) : Cuts Older lists a := by
  intro pre front e after post shape _ _ inner
  have present : front ++ e :: after ∈ lists := by simp [shape]
  exact grounded_cut _ (checked.listed _ present) inner

theorem remove_checked (checked : Checked getHash Older w lists buffered) (a : Atom T) :
    ∃ w' r lists', w.remove a = .ok (w', r) ∧ Checked getHash Older w' lists' buffered ∧
      addedWeaveAtoms r = [] ∧ ∀ d ∈ lists'.flatten, d ∈ lists.flatten := by
  cases found : w.getNode a.id with
  | none =>
    refine ⟨w, .atomNotFound a, lists, ?_, checked, rfl, fun d inside => inside⟩
    simp [Weave.remove, found, pure, Except.pure]
  | some n =>
    rcases (checked.repr.getNode a.id n).mp found with ⟨e, member, rfl, same⟩
    rcases split_at lists e member with ⟨pre, front, after, post, rfl⟩
    have inList := checked.listed (front ++ e :: after) (by simp)
    rcases checked.removeLoser older_orders (grounded_cut _ inList) with ⟨w', run, left⟩
    refine ⟨w', .atomRemoved e.1, _, ?_, left, rfl, fun d inside => rest_subset pre post front after e _ d inside⟩
    simp [Weave.remove, found, run, pure, Except.pure, bind, Except.bind]

/-! ### Runs -/

/-- Every listed atom with a cause comes after it in its list, is newer and has a hash that matches it;
no id is listed twice. -/
def Validated (getHash : AtomHashInput T → JsString) (w : Weave T) : Prop :=
  ∃ lists, rootLists w = some lists ∧
    (∀ l ∈ lists, ∀ front a after, l = front ++ a :: after → a.cause ≠ none →
      ∃ p ∈ front, Names a p.id ∧ p.id.timestamp < a.id.timestamp ∧
        atomMatchesHash getHash a (some p) = true) ∧
    (lists.flatten.map (fun a => atomIdToString a.id)).Nodup

/-- Every atom meets a weave where its insertion is safe. -/
def SafeRun (getHash : AtomHashInput T → JsString) : Weave T → List (Atom T) → Prop
  | _, [] => True
  | w, a :: rest => Safe getHash w a ∧ (Joins getHash w a → KeepsCauses w a) ∧
      (a.cause = none → a.id.cardinality ≠ .null) ∧
      ∀ w' r, w.insert getHash a = .ok (w', r) → SafeRun getHash w' rest

theorem vouches_orders : Orders getHash (Vouches getHash) := ⟨fun _ _ link => link, vouches_older⟩

theorem Checked.validated (checked : Checked getHash (Vouches getHash) w lists buffered) : Validated getHash w := by
  refine ⟨lists.map atoms, rootLists_repr checked.repr, ?_, ?_⟩
  · intro l member front a after shape hasCause
    rcases List.mem_map.mp member with ⟨cells, inLists, rfl⟩
    rcases List.map_eq_append_iff.mp shape with ⟨front', rest, rfl, rfl, tail⟩
    rcases List.map_eq_cons_iff.mp tail with ⟨d, after', rfl, rfl, rfl⟩
    have inner : front' ≠ [] := by
      intro empty
      rw [empty] at inLists
      exact hasCause (checked.roots _ inLists d rfl)
    rcases (checked.listed _ inLists).at inner with ⟨p, inFront, names, check⟩
    have passed := (checkCause_iff getHash d.2 p.2).mp check
    exact ⟨p.2, mem_map_of_mem inFront, names, passed.2, passed.1⟩
  · have flat : (lists.map atoms).flatten = lists.flatten.map Prod.snd := by
      rw [List.map_flatten]
      rfl
    have distinct : (refs lists.flatten).Nodup := by
      have whole := checked.repr.heap.distinct
      rw [flatten_append, refs_append] at whole
      exact (List.nodup_append.mp whole).1
    rw [flat, List.map_map]
    have cells : lists.flatten.Nodup := distinct.of_map _
    refine cells.map_on fun c left d right same => ?_
    exact checked.repr.id_unique c d left right same

theorem Checked.cuts (checked : Checked getHash (Vouches getHash) w lists buffered) (a : Atom T)
    (keeps : KeepsCauses w a) : Cuts (Vouches getHash) lists a := by
  intro pre front e after post shape same smaller inner
  subst shape
  have split := List.takeWhile_append_dropWhile (p := onAtom (isNewer e.2.id.timestamp)) (l := after)
  have whole : Grounded (Vouches getHash) (front ++ (e :: after.takeWhile (onAtom (isNewer e.2.id.timestamp))) ++
        after.dropWhile (onAtom (isNewer e.2.id.timestamp))) := by
    rw [append_assoc, List.cons_append, split]
    exact checked.listed _ (by simp)
  apply whole.cut inner
  intro d inRest p inGroup link
  have gone := replaced_iff checked.repr a same smaller
  have listed : ∀ x ∈ e :: after, x ∈ (pre ++ (front ++ e :: after) :: post).flatten := by
    intro x inside
    exact (flatten_middle ..).mpr (.inl (mem_append_right _ inside))
  have inD := listed d (mem_cons_of_mem _ ((List.dropWhile_sublist _).subset inRest))
  have inP : p ∈ (pre ++ (front ++ e :: after) :: post).flatten := by
    apply listed p
    rcases mem_cons.mp inGroup with here | later
    · exact here ▸ mem_cons_self
    · exact mem_cons_of_mem _ ((List.takeWhile_sublist _).subset later)
  have again := keeps p.1 p.2 ((gone p.1).mpr (mem_refs p _ inGroup)) (checked.repr.atomAt p (.inl inP))
    d.1 d.2 ((listed_iff checked.repr d.1).mpr ⟨d, inD, rfl⟩) (checked.repr.atomAt d (.inl inD)) link.1
  have inRefs := (gone d.1).mp again
  have distinct := (checked.repr.heap.perm (middle_perm pre post buffered _)).head_distinct
  have parts : refs (front ++ e :: after) = refs front ++
      (refs (e :: after.takeWhile (onAtom (isNewer e.2.id.timestamp))) ++
        refs (after.dropWhile (onAtom (isNewer e.2.id.timestamp)))) := by
    rw [← refs_append, ← refs_append, List.cons_append, split]
  rw [parts] at distinct
  exact (List.nodup_append.mp (List.nodup_append.mp distinct).2.1).2.2 d.1 inRefs d.1 (mem_refs d _ inRest) rfl

theorem Checked.run (checked : Checked getHash (Vouches getHash) w lists buffered)
    (delivered : List (Atom T)) (safe : SafeRun getHash w delivered) :
    ∃ w' lists' buffered', insertAll getHash w delivered = .ok w' ∧
      Checked getHash (Vouches getHash) w' lists' buffered' := by
  induction delivered generalizing w lists buffered with
  | nil => exact ⟨w, lists, buffered, rfl, checked⟩
  | cons a rest ih =>
    rcases safe with ⟨here, keeps, defined, later⟩
    rcases checked.insert vouches_orders a here (fun joins => checked.cuts a (keeps joins)) defined with
      ⟨mid, r, lists', buffered', run, held, _⟩
    rcases ih held (later mid r run) with ⟨w', last, buffered'', run', held'⟩
    exact ⟨w', last, buffered'', (insertAll_cons w a rest mid r run).trans run', held'⟩

def lateRoot : Atom Unit := newAtom unitHash (sampleId 1 .undefined) none ()

def earlyChild : Atom Unit := newAtom unitHash (sampleId 2 .undefined) (some lateRoot) ()

/-- A child of the root with a hash that matches nothing. -/
def forgedChild : Atom Unit := { earlyChild with hash := [] }

theorem lists_of_run {size : Option Int} {delivered : List (Atom Unit)} {lists : List (List (Atom Unit))}
    (read : (insertAll unitHash (Weave.new size) delivered).toOption.bind rootLists = some lists) :
    ∃ w, insertAll unitHash (Weave.new size) delivered = .ok w ∧ rootLists w = some lists := by
  cases run : insertAll unitHash (Weave.new size) delivered with
  | error failure => simp [run, Except.toOption] at read
  | ok w => exact ⟨w, rfl, by simpa [run, Except.toOption] using read⟩

def queuedWeave : Weave Unit :=
  match (Weave.new none).insert unitHash earlyChild with
  | .ok (w, _) => w
  | .error _ => Weave.new none

theorem queuedWeave_buffer : queuedWeave.reorderBuffer.values = [0] ∧
    queuedWeave.atomAt 0 = some earlyChild ∧ queuedWeave.atomsFrom 0 = some [earlyChild] ∧
    queuedWeave.getNode earlyChild.id = none ∧ queuedWeave.getNode lateRoot.id = none ∧
    queuedWeave.reorderBuffer.get (atomIdToString lateRoot.id) = none := by
  decide +kernel

theorem lateRoot_safe : SafeRun unitHash (Weave.new none) [earlyChild, lateRoot] := by
  have causeless : lateRoot.cause = none := rfl
  have caused : earlyChild.cause = some lateRoot.id := rfl
  have notJoins : ¬ Joins unitHash (Weave.new none) earlyChild := by
    intro joins
    simp only [Joins, caused] at joins
    rcases joins with ⟨n, c, found, _⟩
    cases found
  have first : Safe unitHash (Weave.new none) earlyChild := by
    refine ⟨fun _ b inside waiting => ?_, fun joins => absurd joins notJoins, fun _ n old found => ?_,
      fun joins => absurd joins notJoins⟩
    · rcases inside with here | buffered
      · rw [here] at waiting
        exact absurd waiting (by decide)
      · cases buffered
    · cases found
  have second : Safe unitHash queuedWeave lateRoot := by
    have facts := queuedWeave_buffer
    have buffer : bufferedAtoms queuedWeave = [earlyChild] := by
      simp [bufferedAtoms, facts.1, facts.2.1]
    refine ⟨fun _ b inside waiting => ?_, fun _ _ n value b atom waiting => ?_, fun queues => ?_,
      fun _ r d replaced => ?_⟩
    · rw [buffer, mem_singleton] at inside
      rcases inside with here | buffered
      · rw [here] at waiting
        exact absurd waiting (by decide)
      · rw [buffered]
        decide +kernel
    · rw [facts.1, mem_singleton] at value
      subst value
      refine ⟨facts.2.2.2.2.2, fun chain found d member => ?_⟩
      rw [facts.2.2.1, some.injEq] at found
      subst found
      exact mem_singleton.mp member ▸ facts.2.2.2.1
    · rcases queues with ⟨cause, isCause, _⟩
      cases isCause
    · rcases replaced with ⟨e, old, group, found, _⟩
      rw [facts.2.2.2.2.1] at found
      cases found
  refine ⟨first, fun joins => absurd joins notJoins, fun _ => by decide, fun w' r run => ?_⟩
  have same : w' = queuedWeave := by simp only [queuedWeave, run]
  subst same
  refine ⟨second, fun _ => ?_, fun _ => by decide, fun _ _ _ => trivial⟩
  intro r d ⟨e, old, group, found, _⟩
  rw [queuedWeave_buffer.2.2.2.2.1] at found
  cases found

end CasualOS.CheckedWeave
