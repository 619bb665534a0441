import CasualOS.AtomIndex
import CasualOS.CheckedWeave
import CasualOS.Convergence
import CasualOS.PlainWeave
import Mathlib.Logic.Relation

/-! The difference of the indexes of two weaves, applied to the first one. -/

namespace CasualOS

open List (mem_append_left mem_cons mem_map mem_singleton)
open Option (some)

section Calls

variable {T : Type}

def calculateIndex (hashList : List JsString → JsString) (w : Weave T) : Option AtomIndex :=
  w.getAtoms.map (AtomIndex.createIndex hashList)

/-- One round of the second loop of `applyDiff`; the entry is a hash with an id. -/
def removeDeleted (w : Weave T) (entry : JsString × JsString) : Except Failure (Weave T) :=
  match (w.idMap.get entry.2).bind w.atomAt with
  | none => .ok w
  | some atom => if atom.hash = entry.1 then (w.remove atom).map Prod.fst else .ok w

def applyDiff (getHash : AtomHashInput T → JsString) (w : Weave T) (diff : AtomIndexFullDiff T) :
    Except Failure (Weave T) := do
  let w ← insertAll getHash w diff.additions
  diff.deletions.entries.foldlM removeDeleted w

end Calls

namespace IndexDiff

open AtomIndex CausalOrder Convergence PathOrder PlainWeave Relation TreeOrder WeaveHeap WeaveInsert
  WeaveRead WeaveRepr

variable {T : Type} {getHash : AtomHashInput T → JsString}

/-! ### Sets of valid atoms -/

/-- The ids have neither a priority nor a cardinality. -/
structure Bare (a : Atom T) : Prop where
  id : a.id.priority = .undefined ∧ a.id.cardinality = .undefined
  cause : ∀ cause, a.cause = some cause → cause.priority = .undefined ∧ cause.cardinality = .undefined

/-- The atom passes its checks against its cause, which is one of these. -/
def ValidIn (getHash : AtomHashInput T → JsString) (S : List (Atom T)) (a : Atom T) : Prop :=
  match a.cause with
  | none => atomMatchesHash getHash a none = true
  | some cause => ∃ p ∈ S, p.id = cause ∧ Weave.checkCause getHash a p = none

structure Sound (getHash : AtomHashInput T → JsString) (S : List (Atom T)) : Prop where
  bare : ∀ a ∈ S, Bare a
  unique : ∀ a ∈ S, ∀ b ∈ S, a.id = b.id → a = b
  valid : ∀ a ∈ S, ValidIn getHash S a

theorem Bare.plain {a : Atom T} (bare : Bare a) : PlainAtom a where
  id := ⟨by rw [bare.id.1]; rfl, bare.id.2⟩
  cause cause caused := ⟨by rw [(bare.cause cause caused).1]; rfl, (bare.cause cause caused).2⟩

theorem id_of_equals (a b : AtomId) (left : a.priority = .undefined ∧ a.cardinality = .undefined)
    (right : b.priority = .undefined ∧ b.cardinality = .undefined)
    (same : idEquals (some a) (some b) = true) : a = b := by
  have fields := (idEquals_iff a b).mp same
  rcases a with ⟨site, timestamp, priority, cardinality⟩
  rcases b with ⟨site', timestamp', priority', cardinality'⟩
  simp only at left right fields
  simp [fields.1, fields.2.1, left.1, left.2, right.1, right.2]

theorem id_of_string (a b : Atom T) (left : Bare a) (right : Bare b)
    (same : atomIdToString a.id = atomIdToString b.id) : a.id = b.id :=
  id_of_equals _ _ left.id right.id (idEquals_of_string _ _ left.plain.id right.plain.id same)

theorem cause_of_equals (a p : Atom T) (left : Bare a) (right : Bare p)
    (same : idEquals a.cause (some p.id) = true) : a.cause = some p.id := by
  rcases idEquals_cause _ _ same with ⟨cause, caused, _⟩
  rw [caused] at same ⊢
  rw [id_of_equals cause p.id (left.cause cause caused) right.id same]

theorem sound_of_causal {S : List (Atom T)} (set : CausalSet getHash S) (bare : ∀ a ∈ S, Bare a) : Sound getHash S where
  bare := bare
  unique a left b right same := set.string_unique a b left right (by rw [same])
  valid a member := by
    unfold ValidIn
    cases caused : a.cause with
    | none => exact set.rootHash a member caused
    | some cause =>
      rcases set.closed a member cause caused with ⟨p, inside, named⟩
      have link : idEquals a.cause (some p.id) = true := caused ▸ named
      have id : cause = p.id :=
        id_of_equals cause p.id ((bare a member).cause cause caused) (bare p inside).id named
      exact ⟨p, inside, id.symm, checkCause_none getHash a p (set.childHash a member p inside link)
        (set.newer a member p inside link)⟩

/-! ### Induction on the age of an atom -/

theorem bound_below (S : List (Atom T)) : ∃ least : Int, ∀ a ∈ S, least ≤ a.id.timestamp := by
  induction S with
  | nil => exact ⟨0, by simp⟩
  | cons a S ih =>
    rcases ih with ⟨least, below⟩
    refine ⟨min least a.id.timestamp, fun b member => ?_⟩
    rcases mem_cons.mp member with here | later
    · exact here ▸ min_le_right _ _
    · exact (min_le_left _ _).trans (below b later)

theorem by_age {P : Atom T → Prop} (S : List (Atom T))
    (step : ∀ a ∈ S, (∀ b ∈ S, b.id.timestamp < a.id.timestamp → P b) → P a) : ∀ a ∈ S, P a := by
  rcases bound_below S with ⟨least, below⟩
  have all : ∀ n : Nat, ∀ a ∈ S, (a.id.timestamp - least).toNat = n → P a := by
    intro n
    induction n using Nat.strong_induction_on with
    | _ n ih =>
      intro a member age
      apply step a member
      intro b inside older
      have low := below b inside
      exact ih (b.id.timestamp - least).toNat (by omega) b inside rfl
  exact fun a member => all _ a member rfl

/-! ### What a hash tells -/

/-- The hash function gives different inputs different texts, none of them empty. -/
structure Ideal (getHash : AtomHashInput T → JsString) : Prop where
  injective : Function.Injective getHash
  filled : ∀ input, getHash input ≠ []

theorem Sound.hash_filled {S : List (Atom T)} (sound : Sound getHash S) (ideal : Ideal getHash)
    (a : Atom T) (member : a ∈ S) : a.hash ≠ [] := by
  have valid := sound.valid a member
  unfold ValidIn at valid
  split at valid
  · exact of_decide_eq_true valid ▸ ideal.filled _
  · rcases valid with ⟨p, _, _, check⟩
    have matched := ((CheckedWeave.checkCause_iff getHash a p).mp check).1
    exact of_decide_eq_true matched ▸ ideal.filled _

theorem hash_of_cause {a p q : Atom T} (ideal : Ideal getHash) (left : p.hash ≠ []) (right : q.hash ≠ [])
    (first : atomMatchesHash getHash a (some p) = true)
    (second : atomMatchesHash getHash a (some q) = true) : p.hash = q.hash := by
  have same := ideal.injective ((of_decide_eq_true first).trans (of_decide_eq_true second).symm)
  simpa [Option.filter, left, right] using same

theorem Sound.shape {S : List (Atom T)} (sound : Sound getHash S) (ideal : Ideal getHash) (a : Atom T)
    (member : a ∈ S) : ∃ causeHash, a.hash = getHash
        { causeHash := causeHash, site := a.id.site, timestamp := a.id.timestamp, priority := none,
          cardinality := none, value := a.value } ∧
      (causeHash = none ∧ a.cause = none ∨ ∃ p ∈ S, a.cause = some p.id ∧ causeHash = some p.hash ∧
        p.id.timestamp < a.id.timestamp) := by
  have valid := sound.valid a member
  have bare := (sound.bare a member).id
  unfold ValidIn at valid
  cases caused : a.cause with
  | none =>
    simp only [caused] at valid
    refine ⟨none, ?_, .inl ⟨rfl, rfl⟩⟩
    rw [← of_decide_eq_true valid]
    simp [atomHash, bare.1, bare.2, Field.get?]
  | some cause =>
    simp only [caused] at valid
    rcases valid with ⟨p, inside, same, check⟩
    have passed := (CheckedWeave.checkCause_iff getHash a p).mp check
    have filled := sound.hash_filled ideal p inside
    refine ⟨some p.hash, ?_, .inr ⟨p, inside, by rw [same], rfl, passed.2⟩⟩
    rw [← of_decide_eq_true passed.1]
    simp [atomHash, bare.1, bare.2, Field.get?, Option.filter, filled]

section Pairs

variable {S R : List (Atom T)}

theorem atom_of_hash (ideal : Ideal getHash) (left : Sound getHash S) (right : Sound getHash R) :
    ∀ a ∈ S, ∀ b ∈ R, a.hash = b.hash → a = b := by
  apply by_age
  intro a inS older b inR same
  rcases left.shape ideal a inS with ⟨first, hashA, causeA⟩
  rcases right.shape ideal b inR with ⟨second, hashB, causeB⟩
  have inputs := ideal.injective (hashA.symm.trans (same.trans hashB))
  simp only [AtomHashInput.mk.injEq] at inputs
  have causes : a.cause = b.cause := by
    rcases causeA with ⟨none, rootA⟩ | ⟨p, inP, causedA, hashP, newer⟩
    · rcases causeB with ⟨_, rootB⟩ | ⟨q, _, _, hashQ, _⟩
      · rw [rootA, rootB]
      · rw [none, hashQ] at inputs
        cases inputs.1
    · rcases causeB with ⟨none, _⟩ | ⟨q, inQ, causedB, hashQ, _⟩
      · rw [none, hashP] at inputs
        cases inputs.1
      · have hashes : p.hash = q.hash := by
          rw [hashP, hashQ] at inputs
          exact some.inj inputs.1
        rw [causedA, causedB, older p inP newer q inQ hashes]
  have idA := (left.bare a inS).id
  have idB := (right.bare b inR).id
  rcases a with ⟨⟨site, timestamp, priority, cardinality⟩, cause, value, hash⟩
  rcases b with ⟨⟨site', timestamp', priority', cardinality'⟩, cause', value', hash'⟩
  simp only at inputs causes idA idB same
  simp [inputs.2.1, inputs.2.2.1, inputs.2.2.2.2.2, idA.1, idA.2, idB.1, idB.2, causes, same]

theorem same_parent (ideal : Ideal getHash) (left : Sound getHash S) (right : Sound getHash R)
    {x p : Atom T} (inS : x ∈ S) (inR : x ∈ R) (parent : p ∈ S) (caused : x.cause = some p.id) : p ∈ R := by
  rcases left.shape ideal x inS with ⟨first, hashS, causeS⟩
  rcases right.shape ideal x inR with ⟨second, hashR, causeR⟩
  have inputs := ideal.injective (hashS.symm.trans hashR)
  simp only [AtomHashInput.mk.injEq] at inputs
  rcases causeS with ⟨_, root⟩ | ⟨p', inP, causedP, hashP, _⟩
  · rw [root] at caused
    cases caused
  · rcases causeR with ⟨_, root⟩ | ⟨q, inQ, causedQ, hashQ, _⟩
    · rw [root] at caused
      cases caused
    · have hashes : p'.hash = q.hash := by
        rw [hashP, hashQ] at inputs
        exact some.inj inputs.1
      have same : p' = p := by
        rw [causedP, some.injEq] at caused
        exact left.unique p' inP p parent caused
      rw [← same, atom_of_hash ideal left right p' inP q inQ hashes]
      exact inQ

theorem Sound.newer (sound : Sound getHash S) {x p : Atom T} (member : x ∈ S) (parent : p ∈ S)
    (caused : x.cause = some p.id) : p.id.timestamp < x.id.timestamp := by
  have valid := sound.valid x member
  simp only [ValidIn, caused] at valid
  rcases valid with ⟨q, inQ, same, check⟩
  rw [← sound.unique q inQ p parent same]
  exact ((CheckedWeave.checkCause_iff getHash x q).mp check).2

end Pairs

section Joined

variable {S S' R : List (Atom T)} {a : Atom T}

theorem ValidIn.mono (valid : ValidIn getHash S a) (more : ∀ p ∈ S, p ∈ S') : ValidIn getHash S' a := by
  unfold ValidIn at valid ⊢
  cases caused : a.cause with
  | none =>
    simp only [caused] at valid
    exact valid
  | some cause =>
    simp only [caused] at valid
    rcases valid with ⟨p, inside, rest⟩
    exact ⟨p, more p inside, rest⟩

theorem ValidIn.within (ideal : Ideal getHash) (sound : Sound getHash S) (other : Sound getHash R)
    (valid : ValidIn getHash S a) (member : a ∈ R) (keeps : ∀ p ∈ S, p ∈ R → p ∈ S') :
    ValidIn getHash S' a := by
  have known := other.valid a member
  unfold ValidIn at valid known ⊢
  cases caused : a.cause with
  | none =>
    simp only [caused] at valid
    exact valid
  | some cause =>
    simp only [caused] at valid known
    rcases valid with ⟨p, inS, named, check⟩
    rcases known with ⟨q, inR, _, check'⟩
    have hashes := hash_of_cause ideal (sound.hash_filled ideal p inS) (other.hash_filled ideal q inR)
      ((CheckedWeave.checkCause_iff getHash a p).mp check).1
      ((CheckedWeave.checkCause_iff getHash a q).mp check').1
    have one := atom_of_hash ideal sound other p inS q inR hashes
    exact ⟨p, keeps p inS (one ▸ inR), named, check⟩

theorem Sound.join (sound : Sound getHash S) (bare : Bare a) (valid : ValidIn getHash S a)
    (fresh : ∀ b ∈ S, b.id ≠ a.id) (members : ∀ x, x ∈ S' ↔ x = a ∨ x ∈ S) : Sound getHash S' where
  bare x inside := by
    rcases (members x).mp inside with here | old
    · exact here ▸ bare
    · exact sound.bare x old
  unique x left y right same := by
    rcases (members x).mp left with hereX | oldX
    · rcases (members y).mp right with hereY | oldY
      · rw [hereX, hereY]
      · exact absurd (same.symm.trans (by rw [hereX])) (fresh y oldY)
    · rcases (members y).mp right with hereY | oldY
      · exact absurd (same.trans (by rw [hereY])) (fresh x oldX)
      · exact sound.unique x oldX y oldY same
  valid x inside := by
    have more : ∀ p ∈ S, p ∈ S' := fun p old => (members p).mpr (.inr old)
    rcases (members x).mp inside with here | old
    · exact here ▸ valid.mono more
    · exact (sound.valid x old).mono more

end Joined

/-! ### Taking an atom out -/

/-- What is left once an atom has gone with all that it caused. -/
structure Cut (S : List (Atom T)) (e : Atom T) (S' : List (Atom T)) : Prop where
  sub : ∀ x ∈ S', x ∈ S
  gone : e ∉ S'
  below : ∀ x ∈ S, x ∉ S' → x = e ∨ ∃ p ∈ S, p ∉ S' ∧ x.cause = some p.id
  closed : ∀ x ∈ S', ∀ p ∈ S, x.cause = some p.id → p ∈ S'

section Cuts

variable {S S' R : List (Atom T)} {e : Atom T}

theorem Cut.sound (cut : Cut S e S') (sound : Sound getHash S) : Sound getHash S' where
  bare x inside := sound.bare x (cut.sub x inside)
  unique x left y right := sound.unique x (cut.sub x left) y (cut.sub y right)
  valid x inside := by
    have valid := sound.valid x (cut.sub x inside)
    unfold ValidIn at valid ⊢
    cases caused : x.cause with
    | none =>
      simp only [caused] at valid
      exact valid
    | some cause =>
      simp only [caused] at valid
      rcases valid with ⟨p, parent, same, check⟩
      exact ⟨p, cut.closed x inside p parent (by rw [caused, same]), same, check⟩

theorem Cut.keeps (cut : Cut S e S') (ideal : Ideal getHash) (sound : Sound getHash S)
    (other : Sound getHash R) (apart : e ∉ R) : ∀ x ∈ S, x ∈ R → x ∈ S' := by
  apply by_age
  intro x inS older inR
  by_contra gone
  rcases cut.below x inS gone with same | ⟨p, parent, left, caused⟩
  · exact apart (same ▸ inR)
  · have inR' := same_parent ideal sound other inS inR parent caused
    exact left (older p parent (sound.newer inS parent caused) inR')

end Cuts

/-! ### What the weave lists -/

/-- The weave lists these atoms, each below its cause, and nothing is buffered. -/
def Stands (getHash : AtomHashInput T → JsString) (w : Weave T) (S : List (Atom T)) : Prop :=
  ∃ cells path, InStep getHash w cells path ∧ atoms cells.flatten = S

section Steps

variable {w : Weave T} {cells cells' : List (List (Cell T))} {path : Atom T → List Key}
variable {S : List (Atom T)}

theorem Stands.getAtoms (stands : Stands getHash w S) : w.getAtoms = some S ∧ S.Nodup := by
  rcases stands with ⟨cells, path, step, rfl⟩
  refine ⟨?_, step.nodup⟩
  rw [← atoms_flatten]
  exact congrArg (Option.map List.flatten) (rootLists_repr step.repr)

theorem mem_cells (a : Atom T) : a ∈ atoms cells.flatten ↔ ∃ c ∈ cells.flatten, c.2 = a := mem_map

theorem InStep.cause_listed (step : InStep getHash w cells path) (c : Cell T)
    (member : c ∈ cells.flatten) (cause : AtomId) (caused : c.2.cause = some cause) :
    ∃ p ∈ cells.flatten, idEquals c.2.cause (some p.2.id) = true := by
  rcases List.mem_flatten.mp member with ⟨l, present, inside⟩
  rcases (step.trees l present).parent c.2 (mem_atoms c l inside) with first | ⟨p, inP, child⟩
  · rcases step.rooted l present with ⟨root, rest, split, noCause, _⟩
    rw [split, List.head?_cons, some.injEq] at first
    rw [← first, noCause] at caused
    cases caused
  · rcases mem_map.mp inP with ⟨q, inQ, rfl⟩
    exact ⟨q, List.mem_flatten.mpr ⟨l, present, inQ⟩, child.caused⟩

theorem cut_of_removed (sound : Sound getHash (atoms cells.flatten))
    (repr : Repr w cells []) {w' : Weave T} {path' : Atom T → List Key} (e : Cell T)
    (left : InStep getHash w' cells' path')
    (gone : ∀ d ∈ cells'.flatten, idKey d ≠ idKey e) (sub : ∀ d ∈ cells'.flatten, d ∈ cells.flatten)
    (below : ∀ d ∈ cells.flatten, d ∉ cells'.flatten → d = e ∨
      ∃ p ∈ cells.flatten, p ∉ cells'.flatten ∧ ChildOf path d.2 p.2) :
    Cut (atoms cells.flatten) e.2 (atoms cells'.flatten) where
  sub x inside := by
    rcases (mem_cells x).mp inside with ⟨c, inC, rfl⟩
    exact mem_atoms c _ (sub c inC)
  gone inside := by
    rcases (mem_cells e.2).mp inside with ⟨c, inC, same⟩
    exact gone c inC (by rw [idKey, same, idKey])
  below x inside outside := by
    rcases (mem_cells x).mp inside with ⟨c, inC, rfl⟩
    rcases below c inC (fun stays => outside (mem_atoms c _ stays)) with here | ⟨p, inP, goes, child⟩
    · exact .inl (here ▸ rfl)
    · refine .inr ⟨p.2, mem_atoms p _ inP, fun stays => ?_, ?_⟩
      · rcases (mem_cells p.2).mp stays with ⟨q, inQ, same⟩
        have one := repr.id_unique q p (sub q inQ) inP (by rw [idKey, same, idKey])
        exact goes (one ▸ inQ)
      · exact cause_of_equals c.2 p.2 (sound.bare c.2 inside) (sound.bare p.2 (mem_atoms p _ inP))
          child.caused
  closed x inside p parent caused := by
    rcases (mem_cells x).mp inside with ⟨c, inC, rfl⟩
    rcases InStep.cause_listed left c inC p.id caused with ⟨q, inQ, link⟩
    have inS := mem_atoms q _ (sub q inQ)
    have named := cause_of_equals c.2 q.2 (sound.bare c.2 (mem_atoms c _ (sub c inC))) (sound.bare q.2 inS) link
    have same : q.2 = p := by
      apply sound.unique q.2 inS p parent
      rw [named, some.injEq] at caused
      exact caused
    exact same ▸ mem_atoms q _ inQ

theorem mem_joined {a : Atom T} {n : Dll.Ref}
    (members : ∀ d, d ∈ cells'.flatten ↔ d = (n, a) ∨ d ∈ cells.flatten) (x : Atom T) :
    x ∈ atoms cells'.flatten ↔ x = a ∨ x ∈ atoms cells.flatten := by
  rw [mem_cells, mem_cells]
  constructor
  · rintro ⟨c, inC, rfl⟩
    rcases (members c).mp inC with here | old
    · exact .inl (here ▸ rfl)
    · exact .inr ⟨c, old, rfl⟩
  · rintro (here | ⟨c, inC, rfl⟩)
    · exact ⟨(n, a), (members _).mpr (.inl rfl), here.symm⟩
    · exact ⟨c, (members c).mpr (.inr inC), rfl⟩

theorem fresh_strings (sound : Sound getHash (atoms cells.flatten)) (a : Atom T) (bare : Bare a)
    (fresh : ∀ b ∈ atoms cells.flatten, b.id ≠ a.id) :
    ∀ d ∈ cells.flatten, idKey d ≠ atomIdToString a.id := by
  intro d inside same
  have member := mem_atoms d _ inside
  exact fresh d.2 member (id_of_string d.2 a (sound.bare d.2 member) bare same)

theorem cell_of_cause (a : Atom T) (cause : AtomId) (caused : a.cause = some cause) (valid : ValidIn getHash (atoms cells.flatten) a) :
    ∃ c ∈ cells.flatten, c.2.id = cause ∧ Weave.checkCause getHash a c.2 = none ∧
      idEquals a.cause (some c.2.id) = true := by
  simp only [ValidIn, caused] at valid
  rcases valid with ⟨p, inside, same, check⟩
  rcases (mem_cells p).mp inside with ⟨c, inC, rfl⟩
  refine ⟨c, inC, same, check, ?_⟩
  rw [caused, same]
  exact idEquals_refl _

theorem Stands.enter (stands : Stands getHash w S) (ideal : Ideal getHash) (sound : Sound getHash S)
    (a : Atom T) (bare : Bare a) (valid : ValidIn getHash S a) (fresh : ∀ b ∈ S, b.id ≠ a.id) :
    ∃ w' r S', w.insert getHash a = .ok (w', r) ∧ Stands getHash w' S' ∧ ∀ x, x ∈ S' ↔ x = a ∨ x ∈ S := by
  rcases stands with ⟨cells, path, step, rfl⟩
  have strings := fresh_strings sound a bare fresh
  have absent := (step.repr.getNode_none a.id).mpr strings
  cases caused : a.cause with
  | none =>
    simp only [ValidIn, caused] at valid
    rcases step.addRoot ideal.injective a bare.plain caused (signed_of_matches a none valid) strings with
      ⟨more, grown, members⟩
    refine ⟨(w.addRoot a).1, .atomAdded a, _, ?_, ⟨more, path, grown, rfl⟩, mem_joined members⟩
    exact insertRoot_fresh getHash step.repr a caused valid bare.id.2 strings
  | some cause =>
    rcases cell_of_cause a cause caused valid with ⟨c, inC, named, check, link⟩
    have checked := signed_of_checked a c.2 check
    have found := (step.repr.getNode cause c.1).mpr ⟨c, inC, rfl, by rw [idKey, named]⟩
    have node := step.repr.atomAt c (.inl inC)
    rcases split_at cells c inC with ⟨pre, front, after, post, rfl⟩
    rcases step.insertUnder ideal.injective a bare.plain checked.1 link checked.2 strings with
      ⟨w', more, path', run, grown, members⟩
    refine ⟨w', .atomAdded a, _, ?_, ⟨more, path', grown, rfl⟩, mem_joined members⟩
    simp only [Weave.insert, caused, found, Weave.insertChild, node, Option.bind_some, check, absent, run,
      bind, Except.bind]
    exact releaseMissing_none grown.repr _ a

theorem Stands.replace (stands : Stands getHash w S) (ideal : Ideal getHash) (sound : Sound getHash S)
    (a e : Atom T) (bare : Bare a) (valid : ValidIn getHash S a) (member : e ∈ S) (same : e.id = a.id)
    (smaller : a.hash < e.hash) :
    ∃ w' r mid S', w.insert getHash a = .ok (w', r) ∧ Stands getHash w' S' ∧ Cut S e mid ∧
      ∀ x, x ∈ S' ↔ x = a ∨ x ∈ mid := by
  rcases stands with ⟨cells, path, step, rfl⟩
  rcases (mem_cells e).mp member with ⟨old, inOld, rfl⟩
  have existing := (step.repr.getNode a.id old.1).mpr ⟨old, inOld, rfl, by rw [idKey, same]⟩
  have atom := step.repr.atomAt old (.inl inOld)
  have differs : old.2.hash ≠ a.hash := ne_of_gt smaller
  have notLess : ¬ old.2.hash < a.hash := not_lt.mpr (le_of_lt smaller)
  rcases step.removeExisting old inOld with ⟨mid, mids, run, left, fresh, stays, sub, below⟩
  have cut := cut_of_removed sound step.repr old left fresh sub below
  have strings : ∀ d ∈ mids.flatten, idKey d ≠ atomIdToString a.id := by
    intro d inside equal
    exact fresh d inside (by rw [equal, idKey, same])
  cases caused : a.cause with
  | none =>
    simp only [ValidIn, caused] at valid
    rcases left.addRoot ideal.injective a bare.plain caused (signed_of_matches a none valid) strings with
      ⟨more, grown, members⟩
    refine ⟨(mid.addRoot a).1, .conflict a old.2 (some old.1), _, _, ?_, ⟨more, path, grown, rfl⟩, cut,
      mem_joined members⟩
    simp [Weave.insert, caused, Weave.insertRoot, valid, bare.id.2, existing, Weave.resolveConflict,
      atom, differs, notLess, run, bind, Except.bind, pure, Except.pure]
  | some cause =>
    rcases cell_of_cause a cause caused valid with ⟨c, inC, named, check, link⟩
    have checked := signed_of_checked a c.2 check
    have found := (step.repr.getNode cause c.1).mpr ⟨c, inC, rfl, by rw [idKey, named]⟩
    have node := step.repr.atomAt c (.inl inC)
    have older : c.2.id.timestamp < old.2.id.timestamp := by
      rw [same]
      exact checked.2
    rcases split_at mids c (stays c inC older) with ⟨pre, front, after, post, rfl⟩
    rcases left.insertUnder ideal.injective a bare.plain checked.1 link checked.2 strings with
      ⟨w', more, path', run', grown, members⟩
    refine ⟨w', .conflict a old.2 (some old.1), _, _, ?_, ⟨more, path', grown, rfl⟩, cut, mem_joined members⟩
    simp [Weave.insert, caused, found, Weave.insertChild, node, check, existing, Weave.resolveConflict,
      atom, differs, notLess, run, run', bind, Except.bind, pure, Except.pure, Except.map]

theorem Stands.lose (stands : Stands getHash w S) (a e : Atom T) (bare : Bare a) (valid : ValidIn getHash S a)
    (member : e ∈ S) (same : e.id = a.id) (larger : e.hash < a.hash) :
    w.insert getHash a = .ok (w, .conflict e a none) := by
  rcases stands with ⟨cells, path, step, rfl⟩
  rcases (mem_cells e).mp member with ⟨old, inOld, rfl⟩
  have existing := (step.repr.getNode a.id old.1).mpr ⟨old, inOld, rfl, by rw [idKey, same]⟩
  have atom := step.repr.atomAt old (.inl inOld)
  have differs : old.2.hash ≠ a.hash := ne_of_lt larger
  cases caused : a.cause with
  | none =>
    simp only [ValidIn, caused] at valid
    simp [Weave.insert, caused, Weave.insertRoot, valid, bare.id.2, existing, Weave.resolveConflict, atom,
      differs, larger]
  | some cause =>
    rcases cell_of_cause a cause caused valid with ⟨c, inC, named, check, _⟩
    have found := (step.repr.getNode cause c.1).mpr ⟨c, inC, rfl, by rw [idKey, named]⟩
    have node := step.repr.atomAt c (.inl inC)
    simp [Weave.insert, caused, found, Weave.insertChild, node, check, existing, Weave.resolveConflict,
      atom, differs, larger]

theorem Stands.remove (stands : Stands getHash w S) (sound : Sound getHash S) (e : Atom T)
    (member : e ∈ S) : ∃ w' r S', w.remove e = .ok (w', r) ∧ Stands getHash w' S' ∧ Cut S e S' := by
  rcases stands with ⟨cells, path, step, rfl⟩
  rcases (mem_cells e).mp member with ⟨c, inC, rfl⟩
  have found := (step.repr.getNode c.2.id c.1).mpr ⟨c, inC, rfl, rfl⟩
  rcases step.removeExisting c inC with ⟨w', cells', run, left, fresh, _, sub, below⟩
  refine ⟨w', .atomRemoved c.1, _, ?_, ⟨cells', path, left, rfl⟩, cut_of_removed sound step.repr c left fresh sub below⟩
  simp [Weave.remove, found, run, bind, Except.bind, pure, Except.pure]

end Steps

/-! ### The additions -/

def CausedBy (S : List (Atom T)) (x p : Atom T) : Prop := p ∈ S ∧ x.cause = some p.id

/-- The atom itself, its cause, the cause of its cause and so on. -/
def Above (S : List (Atom T)) : Atom T → Atom T → Prop := ReflTransGen (CausedBy S)

/-- Each addition comes after its cause, if that is an addition too. -/
def CausesAhead (additions : List (Atom T)) : Prop :=
  ∀ pre a post, additions = pre ++ a :: post → ∀ p ∈ additions, idEquals a.cause (some p.id) = true →
    p ∈ pre

/-- An addition whose id the first weave has for another atom has the smaller hash, or an earlier addition
has the id of something above that atom. -/
def Unopposed (S additions : List (Atom T)) : Prop :=
  ∀ pre a post, additions = pre ++ a :: post → ∀ d ∈ S, d.id = a.id →
    a.hash < d.hash ∨ ∃ y, Above S d y ∧ ∃ b ∈ pre, b.id = y.id

/-- The atoms of the two weaves, and those of the second that the first lacks. -/
structure Differ (getHash : AtomHashInput T → JsString) (S R additions : List (Atom T)) : Prop where
  ideal : Ideal getHash
  first : Sound getHash S
  second : Sound getHash R
  added : ∀ a, a ∈ additions ↔ a ∈ R ∧ a ∉ S
  distinct : additions.Nodup
  causal : CausesAhead additions

/-- The weave lists what the two weaves share and the additions so far; what it lost went with an atom
that one of these additions replaced. -/
structure Adding (getHash : AtomHashInput T → JsString) (S R pre : List (Atom T)) (w : Weave T)
    (L : List (Atom T)) : Prop where
  stands : Stands getHash w L
  sound : Sound getHash L
  placed : ∀ a ∈ pre, a ∈ L
  common : ∀ x ∈ S, x ∈ R → x ∈ L
  source : ∀ x ∈ L, x ∈ S ∨ x ∈ pre
  lost : ∀ x ∈ S, x ∉ L → ∃ y, Above S x y ∧ ∃ b ∈ pre, b.id = y.id

section Additions

variable {S R L additions pre post : List (Atom T)} {w : Weave T} {a : Atom T}

theorem above_stays (ideal : Ideal getHash) (sound : Sound getHash S) (other : Sound getHash L)
    {x y : Atom T} (inS : x ∈ S) (inL : x ∈ L) (above : Above S x y) : y ∈ S ∧ y ∈ L := by
  induction above with
  | refl => exact ⟨inS, inL⟩
  | tail _ caused ih =>
    exact ⟨caused.1, same_parent ideal sound other ih.1 ih.2 caused.1 caused.2⟩

theorem adding_start (stands : Stands getHash w S) (sound : Sound getHash S) : Adding getHash S R [] w S where
  stands := stands
  sound := sound
  placed := by simp
  common x inS _ := inS
  source x inS := .inl inS
  lost x inS gone := absurd inS gone

theorem Differ.turn (differ : Differ getHash S R additions) (shape : additions = pre ++ a :: post) :
    a ∈ R ∧ a ∉ S ∧ Bare a ∧ a ∉ pre ∧ ∀ b ∈ pre, b ∈ R ∧ b ∉ S := by
  have inside : ∀ b ∈ pre ++ a :: post, b ∈ R ∧ b ∉ S := fun b member =>
    (differ.added b).mp (shape ▸ member)
  have own := inside a (by simp)
  have apart : a ∉ pre := by
    intro member
    have distinct := differ.distinct
    rw [shape, List.nodup_append] at distinct
    exact distinct.2.2 a member a List.mem_cons_self rfl
  exact ⟨own.1, own.2, differ.second.bare a own.1, apart, fun b member => inside b (by simp [member])⟩

theorem Adding.valid (adding : Adding getHash S R pre w L) (differ : Differ getHash S R additions)
    (shape : additions = pre ++ a :: post) : ValidIn getHash L a := by
  have turn := differ.turn shape
  have valid := differ.second.valid a turn.1
  unfold ValidIn at valid ⊢
  cases caused : a.cause with
  | none =>
    simp only [caused] at valid
    exact valid
  | some cause =>
    simp only [caused] at valid
    rcases valid with ⟨p, inR, same, check⟩
    refine ⟨p, ?_, same, check⟩
    by_cases inS : p ∈ S
    · exact adding.common p inS inR
    · apply adding.placed p
      apply differ.causal pre a post shape p ((differ.added p).mpr ⟨inR, inS⟩)
      rw [caused, same]
      exact idEquals_refl _

/-- Where an addition meets another atom of its id, that is the one of the first weave. -/
theorem Adding.meets (adding : Adding getHash S R pre w L) (differ : Differ getHash S R additions)
    (shape : additions = pre ++ a :: post) (e : Atom T) (member : e ∈ L) (same : e.id = a.id) :
    e ∈ S ∧ e ∉ R := by
  have turn := differ.turn shape
  have apart : e ∉ R := by
    intro inR
    have one := differ.second.unique e inR a turn.1 same
    rcases adding.source e member with inS | inPre
    · exact turn.2.1 (one ▸ inS)
    · exact turn.2.2.2.1 (one ▸ inPre)
  refine ⟨(adding.source e member).resolve_right (fun inPre => ?_), apart⟩
  exact apart (turn.2.2.2.2 e inPre).1

theorem Adding.replaced (adding : Adding getHash S R pre w L) (differ : Differ getHash S R additions)
    {mid : List (Atom T)} {e : Atom T} (cut : Cut L e mid) :
    ∀ x ∈ L, x ∈ S → x ∉ mid → ∃ y, Above S x y ∧ y.id = e.id := by
  apply by_age
  intro x inL older inS outside
  rcases cut.below x inL outside with here | ⟨p, parent, goes, caused⟩
  · exact ⟨x, .refl, here ▸ rfl⟩
  · have inS' := same_parent differ.ideal adding.sound differ.first inL inS parent caused
    rcases older p parent (adding.sound.newer inL parent caused) inS' goes with ⟨y, above, named⟩
    exact ⟨y, .head ⟨inS', caused⟩ above, named⟩

theorem Adding.step (adding : Adding getHash S R pre w L) (differ : Differ getHash S R additions)
    (shape : additions = pre ++ a :: post)
    (weaker : ∀ d ∈ S, d.id = a.id → a.hash < d.hash ∨ ∃ y, Above S d y ∧ ∃ b ∈ pre, b.id = y.id) :
    ∃ w' r L', w.insert getHash a = .ok (w', r) ∧ Adding getHash S R (pre ++ [a]) w' L' := by
  have turn := differ.turn shape
  have valid := adding.valid differ shape
  by_cases meets : ∃ e ∈ L, e.id = a.id
  · rcases meets with ⟨e, member, same⟩
    have old := adding.meets differ shape e member same
    have smaller : a.hash < e.hash := by
      rcases weaker e old.1 same with less | ⟨y, above, b, inPre, named⟩
      · exact less
      · -- what is above a listed atom is listed, so no addition has taken its id
        have stays := above_stays differ.ideal differ.first adding.sound old.1 member above
        have one := adding.sound.unique b (adding.placed b inPre) y stays.2 named
        exact absurd (one ▸ stays.1) (turn.2.2.2.2 b inPre).2
    rcases adding.stands.replace differ.ideal adding.sound a e turn.2.2.1 valid member same smaller with
      ⟨w', r, mid, L', run, stands, cut, members⟩
    have keeps := cut.keeps differ.ideal adding.sound differ.second old.2
    have gone := adding.replaced differ cut
    have fresh : ∀ x ∈ mid, x.id ≠ a.id := by
      intro x inside equal
      have one := adding.sound.unique x (cut.sub x inside) e member (equal.trans same.symm)
      exact cut.gone (one ▸ inside)
    have within := valid.within differ.ideal adding.sound differ.second turn.1 keeps
    refine ⟨w', r, L', run, stands, (cut.sound adding.sound).join turn.2.2.1 within fresh members, ?_, ?_, ?_, ?_⟩
    · intro b inside
      rcases List.mem_append.mp inside with old | new
      · exact (members b).mpr (.inr (keeps b (adding.placed b old) (turn.2.2.2.2 b old).1))
      · exact (members b).mpr (.inl (mem_singleton.mp new))
    · intro x inS inR
      exact (members x).mpr (.inr (keeps x (adding.common x inS inR) inR))
    · intro x inside
      rcases (members x).mp inside with here | old
      · exact .inr (List.mem_append_right _ (mem_singleton.mpr here))
      · exact (adding.source x (cut.sub x old)).imp_right (mem_append_left _)
    · intro x inS outside
      by_cases inL : x ∈ L
      · rcases gone x inL inS (fun inMid => outside ((members x).mpr (.inr inMid))) with ⟨y, above, named⟩
        exact ⟨y, above, a, by simp, (named.trans same).symm⟩
      · rcases adding.lost x inS inL with ⟨y, above, b, inPre, named⟩
        exact ⟨y, above, b, mem_append_left _ inPre, named⟩
  · have fresh : ∀ b ∈ L, b.id ≠ a.id := fun b member same => meets ⟨b, member, same⟩
    rcases adding.stands.enter differ.ideal adding.sound a turn.2.2.1 valid fresh with
      ⟨w', r, L', run, stands, members⟩
    refine ⟨w', r, L', run, stands, adding.sound.join turn.2.2.1 valid fresh members, ?_, ?_, ?_, ?_⟩
    · intro b inside
      rcases List.mem_append.mp inside with old | new
      · exact (members b).mpr (.inr (adding.placed b old))
      · exact (members b).mpr (.inl (mem_singleton.mp new))
    · exact fun x inS inR => (members x).mpr (.inr (adding.common x inS inR))
    · intro x inside
      rcases (members x).mp inside with here | old
      · exact .inr (List.mem_append_right _ (mem_singleton.mpr here))
      · exact (adding.source x old).imp_right (mem_append_left _)
    · intro x inS outside
      rcases adding.lost x inS (fun inL => outside ((members x).mpr (.inr inL))) with
        ⟨y, above, b, inPre, named⟩
      exact ⟨y, above, b, mem_append_left _ inPre, named⟩

/-- A run over a part of the additions, each of which meets nothing stronger. -/
theorem Adding.run (adding : Adding getHash S R pre w L) (differ : Differ getHash S R additions)
    (part post : List (Atom T)) (shape : additions = pre ++ part ++ post)
    (weaker : ∀ before b after, part = before ++ b :: after → ∀ d ∈ S, d.id = b.id →
      b.hash < d.hash ∨ ∃ y, Above S d y ∧ ∃ c ∈ pre ++ before, c.id = y.id) :
    ∃ w' L', insertAll getHash w part = .ok w' ∧ Adding getHash S R (pre ++ part) w' L' := by
  induction part generalizing pre w L with
  | nil => exact ⟨w, L, rfl, by rwa [List.append_nil]⟩
  | cons b part ih =>
    have turn : additions = pre ++ b :: (part ++ post) := by simp [shape]
    have here := weaker [] b part rfl
    rw [List.append_nil] at here
    rcases adding.step differ turn here with ⟨mid, r, M, run, held⟩
    rcases ih held (by simp [shape]) (fun before c after split => by
      have later := weaker (b :: before) c after (by rw [split]; rfl)
      rwa [List.append_cons] at later) with ⟨w', L', run', held'⟩
    rw [List.append_assoc, List.singleton_append] at held'
    exact ⟨w', L', (insertAll_cons w b part mid r run).trans run', held'⟩

end Additions

/-! ### The deletions -/

section Deletions

variable {S R L : List (Atom T)} {w : Weave T}

/-- The weave still lists the second weave, and nothing but atoms of the two. -/
structure Deleting (getHash : AtomHashInput T → JsString) (S R : List (Atom T)) (w : Weave T)
    (L : List (Atom T)) : Prop where
  stands : Stands getHash w L
  sound : Sound getHash L
  second : ∀ a ∈ R, a ∈ L
  source : ∀ x ∈ L, x ∈ S ∨ x ∈ R

theorem Deleting.step (deleting : Deleting getHash S R w L) (ideal : Ideal getHash)
    (first : Sound getHash S) (second : Sound getHash R) (x : Atom T) (inS : x ∈ S) (outside : x ∉ R) :
    ∃ w' L', removeDeleted w (x.hash, atomIdToString x.id) = .ok w' ∧ Deleting getHash S R w' L' ∧
      (∀ y ∈ L', y ∈ L) ∧ x ∉ L' := by
  have shown := deleting.stands
  rcases shown with ⟨cells, path, step, rfl⟩
  by_cases listed : x ∈ atoms cells.flatten
  · rcases (mem_cells x).mp listed with ⟨c, inC, rfl⟩
    have found : w.idMap.get (atomIdToString c.2.id) = some c.1 :=
      (step.repr.getNode c.2.id c.1).mpr ⟨c, inC, rfl, rfl⟩
    have atom := step.repr.atomAt c (.inl inC)
    rcases deleting.stands.remove deleting.sound c.2 listed with ⟨w', r, L', run, stands, cut⟩
    have keeps := cut.keeps ideal deleting.sound second outside
    refine ⟨w', L', ?_, ⟨stands, cut.sound deleting.sound, fun a inR => keeps a (deleting.second a inR) inR,
      fun y inside => deleting.source y (cut.sub y inside)⟩, cut.sub, cut.gone⟩
    simp [removeDeleted, found, atom, run, Except.map]
  · refine ⟨w, _, ?_, deleting, fun y inside => inside, listed⟩
    unfold removeDeleted
    cases node : (w.idMap.get (atomIdToString x.id)).bind w.atomAt with
    | none => rfl
    | some a =>
      rcases Option.bind_eq_some_iff.mp node with ⟨n, found, atom⟩
      rcases (step.repr.getNode x.id n).mp found with ⟨c, inC, rfl, _⟩
      rw [step.repr.atomAt c (.inl inC), some.injEq] at atom
      have other : a.hash ≠ x.hash := by
        intro same
        have inL := mem_atoms c _ inC
        rw [atom] at inL
        exact listed (atom_of_hash ideal deleting.sound first a inL x inS same ▸ inL)
      simp [other]

theorem Deleting.run (deleting : Deleting getHash S R w L) (ideal : Ideal getHash)
    (first : Sound getHash S) (second : Sound getHash R) (entries : List (JsString × JsString))
    (named : ∀ entry ∈ entries, ∃ x ∈ S, x ∉ R ∧ entry = (x.hash, atomIdToString x.id)) :
    ∃ w' L', entries.foldlM removeDeleted w = .ok w' ∧ Deleting getHash S R w' L' ∧ (∀ y ∈ L', y ∈ L) ∧
      ∀ x ∈ S, (x.hash, atomIdToString x.id) ∈ entries → x ∉ R → x ∉ L' := by
  induction entries generalizing w L with
  | nil => exact ⟨w, L, rfl, deleting, fun y inside => inside, by simp⟩
  | cons entry rest ih =>
    rcases named entry List.mem_cons_self with ⟨x, inS, outside, rfl⟩
    rcases deleting.step ideal first second x inS outside with ⟨mid, M, run, held, sub, gone⟩
    rcases ih held (fun e later => named e (List.mem_cons_of_mem _ later)) with
      ⟨w', L', run', held', sub', gone'⟩
    refine ⟨w', L', ?_, held', fun y inside => sub y (sub' y inside), fun y inY member apart => ?_⟩
    · simp only [List.foldlM_cons, run, bind, Except.bind]
      exact run'
    · rcases mem_cons.mp member with here | later
      · have same := atom_of_hash ideal first first y inY x inS (congrArg Prod.fst here)
        exact fun inside => gone (sub' x (same ▸ inside))
      · exact gone' y inY later apart

end Deletions

/-! ### An addition that is left out -/

section LeftOut

open CheckedWeave Supported

variable {S R additions done : List (Atom T)} {w : Weave T} {lists buffered : List (List (Cell T))}
variable {a : Atom T}

/-- The weave does not list the addition `a`, and only additions before the next one are buffered. -/
structure LeftOut (getHash : AtomHashInput T → JsString) (R done : List (Atom T)) (a : Atom T)
    (w : Weave T) (lists buffered : List (List (Cell T))) : Prop where
  checked : Checked getHash Older w lists buffered
  bare : ∀ d ∈ lists.flatten, Bare d.2
  waiting : ∀ d ∈ buffered.flatten, d.2 ∈ done
  absent : ∀ d ∈ lists.flatten, d.2 ≠ a

theorem LeftOut.safe (out : LeftOut getHash R done a w lists buffered)
    (differ : Differ getHash S R additions) {x : Atom T} {rest : List (Atom T)}
    (shape : additions = done ++ x :: rest) : Safe getHash w x := by
  have turn := differ.turn shape
  have repr := out.checked.repr
  have inDone : ∀ b ∈ bufferedAtoms w, b ∈ done := by
    intro b member
    rcases List.mem_filterMap.mp member with ⟨n, value, atom⟩
    rcases (repr.buffer.mem_values n).mp value with ⟨d, inside, rfl⟩
    rw [repr.atomAt d (.inr inside), some.injEq] at atom
    exact atom ▸ out.waiting d inside
  have ahead : ∀ b, b = x ∨ b ∈ bufferedAtoms w → idEquals (some x.id) b.cause = true → False := by
    intro b where' link
    have back := idEquals_symm _ _ link
    rcases where' with here | member
    · subst here
      have named := cause_of_equals b b turn.2.2.1 turn.2.2.1 back
      exact absurd (differ.second.newer turn.1 turn.1 named) (lt_irrefl _)
    · have inPre := inDone b member
      rcases List.append_of_mem inPre with ⟨before, after, split⟩
      have own : x ∈ additions := shape ▸ by simp
      have first : additions = before ++ b :: (after ++ x :: rest) := by simp [shape, split]
      have early := differ.causal before b _ first x own back
      exact turn.2.2.2.1 (split ▸ mem_append_left _ early)
  refine ⟨fun _ b inside link => (ahead b inside link).elim, fun _ _ n value b atom link => ?_,
    fun _ n old found atom => ?_, fun _ r d gone atom names => ?_⟩
  · exact (ahead b (.inr (List.mem_filterMap.mpr ⟨n, value, atom⟩)) link).elim
  · have value := (w.reorderBuffer.mem_values n).mpr ⟨_, found⟩
    rcases (repr.buffer _ n).mp found with ⟨d, inside, rfl, same⟩
    have inPre := out.waiting d inside
    have string : atomIdToString d.2.id = atomIdToString x.id := same
    have known := turn.2.2.2.2 d.2 inPre
    have ids := id_of_string d.2 x (differ.second.bare d.2 known.1) turn.2.2.1 string
    have one := differ.second.unique d.2 known.1 x turn.1 ids
    exact absurd (one ▸ inPre) turn.2.2.2.1
  · -- what a conflict takes out is not older than `x`, and the cause of `x` is
    rcases gone with ⟨e, old, group, found, atomE, less, iterated, inGroup⟩
    rcases (repr.getNode x.id e).mp found with ⟨c, inLists, rfl, same⟩
    have atomC := repr.atomAt c (.inl inLists)
    rw [atomC, some.injEq] at atomE
    subst atomE
    have replaced : Replaced w x r := ⟨c.1, c.2, group, found, atomC, less, iterated, inGroup⟩
    rcases split_at lists c inLists with ⟨pre, front, after, post, rfl⟩
    have member := (replaced_iff repr x same less r).mp replaced
    rcases mem_map.mp member with ⟨f, inF, rfl⟩
    have listed : f ∈ (pre ++ (front ++ c :: after) :: post).flatten := by
      apply (flatten_middle ..).mpr
      left
      apply List.mem_append_right
      rcases mem_cons.mp inF with here | later
      · exact here ▸ List.mem_cons_self
      · exact List.mem_cons_of_mem _ ((List.takeWhile_sublist _).subset later)
    rw [repr.atomAt f (.inl listed), some.injEq] at atom
    subst atom
    rcases names with ⟨cause, caused, named⟩
    have plain := (out.bare f listed).plain.id
    have link : idEquals (some cause) (some f.2.id) = true :=
      idEquals_of_string _ _ (turn.2.2.1.plain.cause cause caused) plain named
    have valid := differ.second.valid x turn.1
    simp only [ValidIn, caused] at valid
    rcases valid with ⟨p, inR, samep, check⟩
    have newer := ((checkCause_iff getHash x p).mp check).2
    have timeF : f.2.id.timestamp = p.id.timestamp := by
      rw [samep]
      exact ((idEquals_iff _ _).mp link).2.1
    have timeC : c.2.id.timestamp = x.id.timestamp := by
      rw [id_of_string c.2 x (out.bare c inLists) turn.2.2.1 same]
    rcases mem_cons.mp inF with here | later
    · rw [here] at timeF
      omega
    · have newerF := List.mem_takeWhile_imp later
      have above : c.2.id.timestamp < f.2.id.timestamp := of_decide_eq_true newerF
      omega

theorem LeftOut.step (out : LeftOut getHash R done a w lists buffered)
    (differ : Differ getHash S R additions) {x : Atom T} {rest : List (Atom T)}
    (shape : additions = done ++ x :: rest) (other : x ≠ a) :
    ∃ w' r lists' buffered', w.insert getHash x = .ok (w', r) ∧
      LeftOut getHash R (done ++ [x]) a w' lists' buffered' := by
  have turn := differ.turn shape
  have safe := out.safe differ shape
  have defined : x.cause = none → x.id.cardinality ≠ .null := by
    intro _
    rw [turn.2.2.1.id.2]
    nofun
  rcases out.checked.insert older_orders x safe (fun _ => cuts_older out.checked x) defined with
    ⟨w', r, lists', buffered', run, held, _, waits, grown⟩
  have only : ∀ d ∈ lists'.flatten, d ∈ lists.flatten ∨ d.2 = x := by
    intro d inside
    rcases grown d inside with old | ⟨_, joins, here | ⟨fresh, n, value, start, atom, link, _⟩⟩
    · exact .inl old
    · exact .inr here
    · rcases (out.checked.repr.buffer.mem_values n).mp value with ⟨b, inBuffer, rfl⟩
      rw [out.checked.repr.atomAt b (.inr inBuffer), some.injEq] at atom
      subst atom
      have own := buffered_atom out.checked.repr b inBuffer
      have newer := safe.adopts (.inl ⟨joins, fresh⟩) b.2 (.inr own) link
      have inPre := out.waiting b inBuffer
      rcases List.append_of_mem inPre with ⟨before, after, split⟩
      have member : x ∈ additions := shape ▸ by simp
      have first : additions = before ++ b.2 :: (after ++ x :: rest) := by simp [shape, split]
      have early := differ.causal before b.2 _ first x member (idEquals_symm _ _ link)
      exact absurd (split ▸ mem_append_left _ early) turn.2.2.2.1
  refine ⟨w', r, lists', buffered', run, held, fun d inside => ?_, fun d inside => ?_, fun d inside => ?_⟩
  · rcases only d inside with old | here
    · exact out.bare d old
    · exact here ▸ turn.2.2.1
  · rcases waits d inside with old | here
    · exact mem_append_left _ (out.waiting d old)
    · exact List.mem_append_right _ (mem_singleton.mpr here)
  · rcases only d inside with old | here
    · exact out.absent d old
    · exact here ▸ other

theorem LeftOut.run (out : LeftOut getHash R done a w lists buffered)
    (differ : Differ getHash S R additions) (rest : List (Atom T)) (shape : additions = done ++ rest)
    (others : a ∉ rest) :
    ∃ w' lists' buffered', insertAll getHash w rest = .ok w' ∧ LeftOut getHash R additions a w' lists' buffered' := by
  induction rest generalizing done w lists buffered with
  | nil =>
    rw [List.append_nil] at shape
    exact ⟨w, lists, buffered, rfl, shape ▸ out⟩
  | cons x rest ih =>
    have other : x ≠ a := fun here => others (here ▸ List.mem_cons_self)
    rcases out.step differ shape other with ⟨mid, r, lists', buffered', run, held⟩
    rcases ih held (by simp [shape]) (fun inside => others (List.mem_cons_of_mem _ inside)) with
      ⟨w', last, buffered'', run', held'⟩
    exact ⟨w', last, buffered'', (insertAll_cons w x rest mid r run).trans run', held'⟩

theorem LeftOut.deletions (out : LeftOut getHash R done a w lists buffered) (entries : List (JsString × JsString)) :
    ∃ w' lists', entries.foldlM removeDeleted w = .ok w' ∧ LeftOut getHash R done a w' lists' buffered := by
  induction entries generalizing w lists with
  | nil => exact ⟨w, lists, rfl, out⟩
  | cons entry rest ih =>
    have step : ∃ mid lists', removeDeleted w entry = .ok mid ∧ LeftOut getHash R done a mid lists' buffered := by
      unfold removeDeleted
      cases (w.idMap.get entry.2).bind w.atomAt with
      | none => exact ⟨w, lists, rfl, out⟩
      | some e =>
        by_cases same : e.hash = entry.1
        · rcases remove_checked out.checked e with ⟨w', r, lists', run, held, _, sub⟩
          refine ⟨w', lists', ?_, held, fun d inside => out.bare d (sub d inside), out.waiting,
            fun d inside => out.absent d (sub d inside)⟩
          simp [same, run, Except.map]
        · exact ⟨w, lists, by simp [same], out⟩
    rcases step with ⟨mid, lists', run, held⟩
    rcases ih held with ⟨w', last, run', held'⟩
    refine ⟨w', last, ?_, held'⟩
    simp only [List.foldlM_cons, run, bind, Except.bind]
    exact run'

theorem leftOut_of_stands (stands : Stands getHash w L) (sound : Sound getHash L) (outside : a ∉ L) :
    ∃ lists, LeftOut getHash R done a w lists [] := by
  rcases stands with ⟨cells, path, step, rfl⟩
  refine ⟨cells, ⟨step.repr, fun l member => ?_, fun l member root head => ?_, by simp⟩, fun d inside => ?_,
    by simp, fun d inside same => ?_⟩
  · cases l with
    | nil => exact absurd rfl (step.repr.filled [] (by simp [member]))
    | cons root rest =>
      apply covered_of_root root (mem_singleton.mpr rfl)
      intro d inside
      have tree := step.trees _ member
      have below := mem_atoms d rest inside
      rw [atoms_cons] at tree
      exact tree.newer (by simp) (by simp [below]) (tree.preordered.head_prefix root.2 rfl d.2 (by simp [below]))
        (ne_of_lt (List.rel_of_pairwise_cons tree.ordered below))
  · rcases step.rooted l member with ⟨first, rest, split, noCause, _⟩
    cases l with
    | nil => cases head
    | cons c l =>
      have here : c = root := by simpa using head
      rw [atoms_cons, List.cons.injEq] at split
      rw [← here, split.1]
      exact noCause
  · exact sound.bare d.2 (mem_atoms d _ inside)
  · exact outside (same ▸ mem_atoms d _ inside)

end LeftOut

/-! ### The difference of two indexes -/

section Index

variable {S R : List (Atom T)} {hashList : List JsString → JsString}

theorem id_text_filled (id : AtomId) : atomIdToString id ≠ [] := by
  unfold atomIdToString
  cases id.priority.get? with
  | none => cases id.cardinality.get? <;> simp [JsString.lit]
  | some priority =>
    by_cases zero : priority = 0 <;> cases id.cardinality.get? <;> simp [zero, JsString.lit]

theorem index_of_sound (ideal : Ideal getHash) (sound : Sound getHash S) (distinct : S.Nodup) :
    (atomHashList S).Indexes Atom.hash (fun a => atomIdToString a.id) S := by
  apply (OrderedMap.indexes_empty Atom.hash (fun a => atomIdToString a.id)).setAll S
  · simp
  · exact distinct.imp_of_mem (fun {a b} left right apart same =>
      apart (atom_of_hash ideal sound sound a left b right same))
  · simp

theorem lacks_iff {list : AtomHashList}
    (index : list.Indexes Atom.hash (fun a => atomIdToString a.id) S) (hash : JsString) :
    lacks list hash = true ↔ ∀ a ∈ S, a.hash ≠ hash := by
  unfold lacks
  cases found : list.get hash with
  | none => simpa using (index.absent hash).mp found
  | some id =>
    rcases (index hash id).mp found with ⟨a, member, text, same⟩
    have filled : id ≠ [] := text ▸ id_text_filled a.id
    simp only [filled, decide_false, Bool.false_eq_true, false_iff, not_forall]
    exact ⟨a, member, fun apart => apart same⟩

theorem entriesWithout_get (first second : AtomHashList) (hash id : JsString) :
    (entriesWithout first second).get hash = some id ↔
      first.get hash = some id ∧ lacks second hash = true := by
  have shape : entriesWithout first second = (first.entries.filter (fun entry => lacks second entry.1)).foldl
        (fun list entry => list.set entry.1 entry.2) OrderedMap.empty := List.foldl_filter.symm
  have apart : first.entries.Pairwise (fun c d => c.1 ≠ d.1) := List.pairwise_map.mp first.distinct
  have index : (entriesWithout first second).Indexes Prod.fst Prod.snd
      (first.entries.filter (fun entry => lacks second entry.1)) := by
    rw [shape]
    exact (OrderedMap.indexes_empty Prod.fst Prod.snd).setAll _ (by simp) (apart.sublist List.filter_sublist) (by simp)
  rw [index, OrderedMap.get_iff_mem]
  constructor
  · rintro ⟨⟨key, value⟩, member, rfl, rfl⟩
    exact List.mem_filter.mp member
  · intro ⟨member, lacking⟩
    exact ⟨(hash, id), List.mem_filter.mpr ⟨member, lacking⟩, rfl, rfl⟩

theorem same_of_hash (ideal : Ideal getHash) (injective : Function.Injective hashList)
    (first : Sound getHash S) (second : Sound getHash R)
    (same : hashAtoms hashList S = hashAtoms hashList R) (a : Atom T) (member : a ∈ S) : a ∈ R := by
  have sorted := injective same
  have hashes : (S.map Atom.hash).Perm (R.map Atom.hash) := by
    have left : (sortStrings (S.map Atom.hash)).Perm (S.map Atom.hash) := List.perm_insertionSort ..
    have right : (sortStrings (R.map Atom.hash)).Perm (R.map Atom.hash) := List.perm_insertionSort ..
    exact (left.symm.trans (List.Perm.of_eq sorted)).trans right
  rcases mem_map.mp (hashes.mem_iff.mp (List.mem_map_of_mem member)) with ⟨b, inR, equal⟩
  rw [atom_of_hash ideal first second a member b inR equal.symm]
  exact inR

variable (hashList) in
theorem without_iff (ideal : Ideal getHash) (first : Sound getHash S) (second : Sound getHash R)
    (distinctS : S.Nodup) (distinctR : R.Nodup) (hash id : JsString) :
    (entriesWithout (createIndex hashList S).atoms (createIndex hashList R).atoms).get hash = some id ↔
      ∃ x ∈ S, x ∉ R ∧ hash = x.hash ∧ id = atomIdToString x.id := by
  have left : (createIndex hashList S).atoms.Indexes Atom.hash (fun a => atomIdToString a.id) S :=
    index_of_sound ideal first distinctS
  have right : (createIndex hashList R).atoms.Indexes Atom.hash (fun a => atomIdToString a.id) R :=
    index_of_sound ideal second distinctR
  rw [entriesWithout_get, left, lacks_iff right]
  constructor
  · rintro ⟨⟨x, member, rfl, rfl⟩, lacking⟩
    exact ⟨x, member, fun inR => lacking x inR rfl, rfl, rfl⟩
  · rintro ⟨x, member, outside, rfl, rfl⟩
    refine ⟨⟨x, member, rfl, rfl⟩, fun a inR same => outside ?_⟩
    rw [← atom_of_hash ideal second first a inR x member same]
    exact inR

theorem additions_iff (ideal : Ideal getHash) (injective : Function.Injective hashList)
    (first : Sound getHash S) (second : Sound getHash R) (distinctS : S.Nodup) (distinctR : R.Nodup)
    (a : Atom T) (member : a ∈ R) :
    ((calculateDiff (createIndex hashList S) (createIndex hashList R)).additions.get a.hash).isSome = true ↔
      a ∉ S := by
  unfold calculateDiff
  split
  · next same =>
      have inS := same_of_hash ideal injective second first same.symm a member
      simp [inS]
  · rw [Option.isSome_iff_exists]
    constructor
    · rintro ⟨id, found⟩ inS
      rcases (without_iff hashList ideal second first distinctR distinctS _ _).mp found with
        ⟨x, inR, outside, hash, _⟩
      exact outside (atom_of_hash ideal first second a inS x inR hash ▸ inS)
    · intro outside
      exact ⟨_, (without_iff hashList ideal second first distinctR distinctS _ _).mpr ⟨a, member, outside, rfl, rfl⟩⟩

theorem deletions_iff (ideal : Ideal getHash) (injective : Function.Injective hashList)
    (first : Sound getHash S) (second : Sound getHash R) (distinctS : S.Nodup) (distinctR : R.Nodup)
    (entry : JsString × JsString) :
    entry ∈ (calculateDiff (createIndex hashList S) (createIndex hashList R)).deletions.entries ↔
      ∃ x ∈ S, x ∉ R ∧ entry = (x.hash, atomIdToString x.id) := by
  unfold calculateDiff
  split
  · next same =>
      have all := same_of_hash ideal injective first second same
      constructor
      · intro member
        cases member
      · intro ⟨x, inS, outside, _⟩
        exact absurd (all x inS) outside
  · rcases entry with ⟨hash, id⟩
    rw [← OrderedMap.get_iff_mem, without_iff hashList ideal first second distinctS distinctR]
    simp only [Prod.mk.injEq]

end Index

/-! ### The law -/

/-- Two weaves, their atoms, the difference of their indexes, and its additions, loaded causes first. -/
structure Setting (getHash : AtomHashInput T → JsString) (hashList : List JsString → JsString)
    (first second : Weave T) (S R : List (Atom T)) (diff : AtomIndexDiff)
    (additions : List (Atom T)) : Prop where
  reached : Reached getHash first
  firstAtoms : first.getAtoms = some S
  secondAtoms : second.getAtoms = some R
  firstValid : CausalSet getHash S
  secondValid : CausalSet getHash R
  firstBare : ∀ a ∈ S, Bare a
  secondBare : ∀ a ∈ R, Bare a
  indexes : ∃ i j, calculateIndex hashList first = some i ∧ calculateIndex hashList second = some j ∧
    diff = calculateDiff i j
  loaded : additions.Perm (R.filter (fun a => (diff.additions.get a.hash).isSome))
  causal : CausesAhead additions

section Law

variable {hashList : List JsString → JsString} {first second : Weave T} {S R : List (Atom T)}
variable {diff : AtomIndexDiff} {additions : List (Atom T)}

theorem Setting.diff_eq (setting : Setting getHash hashList first second S R diff additions) :
    diff = calculateDiff (createIndex hashList S) (createIndex hashList R) := by
  rcases setting.indexes with ⟨i, j, left, right, same⟩
  rw [calculateIndex, setting.firstAtoms, Option.map_some, some.injEq] at left
  rw [calculateIndex, setting.secondAtoms, Option.map_some, some.injEq] at right
  rw [same, ← left, ← right]

theorem Setting.differ (setting : Setting getHash hashList first second S R diff additions)
    (ideal : Ideal getHash) (injective : Function.Injective hashList) : Differ getHash S R additions where
  ideal := ideal
  first := sound_of_causal setting.firstValid setting.firstBare
  second := sound_of_causal setting.secondValid setting.secondBare
  added a := by
    rw [setting.loaded.mem_iff, List.mem_filter, setting.diff_eq]
    refine and_congr_right (fun member => ?_)
    exact additions_iff ideal injective (sound_of_causal setting.firstValid setting.firstBare)
      (sound_of_causal setting.secondValid setting.secondBare) setting.firstValid.nodup
      setting.secondValid.nodup a member
  distinct := setting.loaded.nodup_iff.mpr (setting.secondValid.nodup.filter _)
  causal := setting.causal

theorem Setting.stands (setting : Setting getHash hashList first second S R diff additions)
    (ideal : Ideal getHash) : Stands getHash first S := by
  rcases setting.reached.inStep ideal.injective with ⟨cells, path, step⟩
  have stands : Stands getHash first (atoms cells.flatten) := ⟨cells, path, step, rfl⟩
  have read := stands.getAtoms.1
  rw [setting.firstAtoms, some.injEq] at read
  exact read ▸ stands

theorem Setting.applies (setting : Setting getHash hashList first second S R diff additions)
    (ideal : Ideal getHash) (injective : Function.Injective hashList)
    (unopposed : Unopposed S additions) :
    ∃ w listed, applyDiff getHash first { additions := additions, deletions := diff.deletions } = .ok w ∧
      w.getAtoms = some listed ∧ listed.Perm R := by
  have differ := setting.differ ideal injective
  have start : Adding getHash S R [] first S := adding_start (setting.stands ideal) differ.first
  rcases start.run differ additions [] (by simp) (fun before b after split => by
    simpa using unopposed before b after split) with ⟨mid, L, inserted, adding⟩
  rw [List.nil_append] at adding
  have deleting : Deleting getHash S R mid L := by
    refine ⟨adding.stands, adding.sound, fun a inR => ?_, fun x inside => ?_⟩
    · by_cases inS : a ∈ S
      · exact adding.common a inS inR
      · exact adding.placed a ((differ.added a).mpr ⟨inR, inS⟩)
    · exact (adding.source x inside).imp_right (fun new => ((differ.added x).mp new).1)
  have entries := deletions_iff ideal injective differ.first differ.second setting.firstValid.nodup
    setting.secondValid.nodup
  rw [← setting.diff_eq] at entries
  rcases deleting.run ideal differ.first differ.second diff.deletions.entries
    (fun entry member => (entries entry).mp member) with ⟨w, L', removed, held, _, gone⟩
  have read := held.stands.getAtoms
  refine ⟨w, L', ?_, read.1, ?_⟩
  · simp only [applyDiff, inserted, bind, Except.bind]
    exact removed
  · apply (List.perm_ext_iff_of_nodup read.2 setting.secondValid.nodup).mpr
    intro x
    refine ⟨fun inside => ?_, held.second x⟩
    by_contra outside
    have inS := (held.source x inside).resolve_right outside
    exact gone x inS ((entries _).mpr ⟨x, inS, outside, rfl⟩) outside inside

theorem Setting.unopposed (setting : Setting getHash hashList first second S R diff additions)
    (ideal : Ideal getHash) (injective : Function.Injective hashList) {w : Weave T} {listed : List (Atom T)}
    (ran : applyDiff getHash first { additions := additions, deletions := diff.deletions } = .ok w)
    (read : w.getAtoms = some listed) (same : listed.Perm R) : Unopposed S additions := by
  have differ := setting.differ ideal injective
  have start : Adding getHash S R [] first S := adding_start (setting.stands ideal) differ.first
  -- by induction on the number of earlier additions
  have all : ∀ n, ∀ pre a post, pre.length = n → additions = pre ++ a :: post → ∀ d ∈ S, d.id = a.id →
      a.hash < d.hash ∨ ∃ y, Above S d y ∧ ∃ b ∈ pre, b.id = y.id := by
    intro n
    induction n using Nat.strong_induction_on with
    | _ n ih =>
      intro pre a post size shape d inS sameId
      by_contra opposed
      rw [not_or] at opposed
      have turn := differ.turn shape
      rcases start.run differ pre (a :: post) (by simpa using shape) (fun before b after split => by
        have shorter : before.length < n := by
          rw [← size, split]
          simp
        simpa using ih before.length shorter before b (after ++ a :: post) rfl (by simp [shape, split]))
        with ⟨mid, L, inserted, adding⟩
      rw [List.nil_append] at adding
      have inL : d ∈ L := by
        by_contra lost
        exact opposed.2 (adding.lost d inS lost)
      have larger : d.hash < a.hash := by
        refine lt_of_le_of_ne (not_lt.mp opposed.1) (fun equal => ?_)
        exact turn.2.1 (atom_of_hash ideal differ.first differ.second d inS a turn.1 equal ▸ inS)
      have outside : a ∉ L := by
        intro inside
        exact turn.2.1 (adding.sound.unique a inside d inL sameId.symm ▸ inS)
      have loses := adding.stands.lose a d turn.2.2.1 (adding.valid differ shape) inL sameId larger
      have left : ∃ lists, LeftOut getHash R (pre ++ [a]) a mid lists [] :=
        leftOut_of_stands adding.stands adding.sound outside
      rcases left with ⟨lists, out⟩
      have rest : a ∉ post := by
        have distinct := differ.distinct
        rw [shape] at distinct
        exact (List.nodup_cons.mp (List.nodup_append.mp distinct).2.1).1
      rcases out.run differ post (by simp [shape]) rest with ⟨added, lists', buffered, inserted', out'⟩
      rcases out'.deletions diff.deletions.entries with ⟨w', last, removed, final⟩
      have whole : applyDiff getHash first { additions := additions, deletions := diff.deletions } = .ok w' := by
        have inserting : insertAll getHash first additions = .ok added := by
          rw [shape, insertAll_append first mid pre (a :: post) inserted]
          exact (insertAll_cons mid a post mid _ loses).trans inserted'
        simp only [applyDiff, inserting, bind, Except.bind]
        exact removed
      have one : w' = w := Except.ok.inj (whole.symm.trans ran)
      subst one
      have shown := rootLists_repr final.checked.repr
      have atomsOf : w'.getAtoms = some (last.map WeaveHeap.atoms).flatten :=
        congrArg (Option.map List.flatten) shown
      rw [read, some.injEq] at atomsOf
      have inListed : a ∈ listed := same.mem_iff.mpr turn.1
      rw [atomsOf, atoms_flatten] at inListed
      rcases (mem_cells a).mp inListed with ⟨c, inside, here⟩
      exact final.absent c inside here
  exact fun pre a post shape => all _ pre a post rfl shape

/-- The difference of the indexes leads from the first weave to the atoms of the second exactly when no
addition meets a stronger atom of its id. -/
theorem diff_applies_iff (ideal : Ideal getHash) (injective : Function.Injective hashList)
    (setting : Setting getHash hashList first second S R diff additions) :
    (∃ w listed, applyDiff getHash first { additions := additions, deletions := diff.deletions } = .ok w ∧
      w.getAtoms = some listed ∧ listed.Perm R) ↔ Unopposed S additions :=
  ⟨fun ⟨_, _, ran, read, same⟩ => setting.unopposed ideal injective ran read same,
    setting.applies ideal injective⟩

end Law

/-! ### An atom that has moved to another cause -/

section Sample

open HashText

def listHash (texts : List JsString) : JsString := texts.flatMap block

theorem listHash_injective : Function.Injective listHash := by
  intro left
  induction left with
  | nil =>
    intro right same
    cases right with
    | nil => rfl
    | cons t right => simp [listHash, block] at same
  | cons s left ih =>
    intro right same
    cases right with
    | nil => simp [listHash, block] at same
    | cons t right =>
      simp only [listHash, List.flatMap_cons] at same
      have parts := block_inj s t _ _ same
      rw [parts.1, ih parts.2]

theorem unitHash_ideal : Ideal unitHash where
  injective := unitHash_injective
  filled input := by
    simp only [unitHash, hashText]
    cases input.causeHash <;> simp [HashText.optional]

def after (w : Weave Unit) (a : Atom Unit) : Weave Unit :=
  match w.insert unitHash a with
  | .ok made => made.1
  | .error _ => w

theorem reached_after {w : Weave Unit} (reached : Reached unitHash w) (a : Atom Unit) (plain : PlainAtom a)
    (listed : ∀ cause, a.cause = some cause → w.getNode cause ≠ none) : Reached unitHash (after w a) := by
  unfold after
  cases run : w.insert unitHash a with
  | ok made => exact .insert reached a plain listed run
  | error failure => exact reached

def leftRoot : Atom Unit := newAtom unitHash (sampleId 1 .undefined) none ()

def rightRoot : Atom Unit := newAtom unitHash (sampleId 2 .undefined) none ()

def underLeft : Atom Unit := newAtom unitHash (sampleId 5 .undefined) (some leftRoot) ()

/-- The same id as `underLeft`, and a larger hash. -/
def underRight : Atom Unit := newAtom unitHash (sampleId 5 .undefined) (some rightRoot) ()

def rootsWeave : Weave Unit := after (after (Weave.new none) leftRoot) rightRoot

def leftWeave : Weave Unit := after rootsWeave underLeft

def rightWeave : Weave Unit := after rootsWeave underRight

def leftAtoms : List (Atom Unit) := [leftRoot, underLeft, rightRoot]

def rightAtoms : List (Atom Unit) := [leftRoot, rightRoot, underRight]

def sampleDiff : AtomIndexDiff :=
  calculateDiff (createIndex listHash leftAtoms) (createIndex listHash rightAtoms)

theorem causal_of_checks (S : List (Atom Unit))
    (distinct : (S.map (fun a => atomIdToString a.id)).Nodup) (simple : ∀ a ∈ S, a.id.cardinality = .undefined)
    (closed : ∀ a ∈ S, ∀ cause ∈ a.cause, ∃ p ∈ S, idEquals (some cause) (some p.id) = true)
    (rootHash : ∀ a ∈ S, a.cause = none → atomMatchesHash unitHash a none = true)
    (child : ∀ a ∈ S, ∀ p ∈ S, idEquals a.cause (some p.id) = true →
      atomMatchesHash unitHash a (some p) = true ∧ p.id.timestamp < a.id.timestamp) :
    CausalSet unitHash S where
  distinct := distinct
  simple := simple
  closed a member cause caused := closed a member cause caused
  rootHash := rootHash
  childHash a member p inside link := (child a member p inside link).1
  newer a member p inside link := (child a member p inside link).2

theorem bare_of_checks (S : List (Atom Unit)) (id : ∀ a ∈ S, a.id.priority = .undefined ∧ a.id.cardinality = .undefined)
    (cause : ∀ a ∈ S, ∀ cause ∈ a.cause, cause.priority = .undefined ∧ cause.cardinality = .undefined) :
    ∀ a ∈ S, Bare a :=
  fun a member => ⟨id a member, fun c caused => cause a member c caused⟩

theorem sample_bare : (∀ a ∈ leftAtoms, Bare a) ∧ ∀ a ∈ rightAtoms, Bare a :=
  ⟨bare_of_checks _ (by decide) (by decide), bare_of_checks _ (by decide) (by decide)⟩

theorem sample_reached : Reached unitHash leftWeave := by
  have roots : Reached unitHash rootsWeave := by
    have first : Reached unitHash (after (Weave.new none) leftRoot) :=
      reached_after (.new none) leftRoot (sample_bare.1 leftRoot (by simp [leftAtoms])).plain nofun
    exact reached_after first rightRoot (sample_bare.1 rightRoot (by simp [leftAtoms])).plain nofun
  refine reached_after roots underLeft (sample_bare.1 underLeft (by simp [leftAtoms])).plain ?_
  intro cause caused
  rw [← some.inj caused]
  decide +kernel

theorem sample_setting :
    Setting unitHash listHash leftWeave rightWeave leftAtoms rightAtoms sampleDiff [underRight] := by
  have left : leftWeave.getAtoms = some leftAtoms := by decide +kernel
  have right : rightWeave.getAtoms = some rightAtoms := by decide +kernel
  refine ⟨sample_reached, left, right, ?_, ?_, sample_bare.1, sample_bare.2, ?_, ?_, ?_⟩
  · exact causal_of_checks _ (by decide +kernel) (by decide +kernel) (by decide +kernel) (by decide +kernel)
      (by decide +kernel)
  · exact causal_of_checks _ (by decide +kernel) (by decide +kernel) (by decide +kernel) (by decide +kernel)
      (by decide +kernel)
  · exact ⟨_, _, by rw [calculateIndex, left]; rfl, by rw [calculateIndex, right]; rfl, rfl⟩
  · exact List.Perm.of_eq (by decide +kernel)
  · intro pre a post shape p member link
    have own : ∀ b ∈ [underRight], ∀ q ∈ [underRight], idEquals b.cause (some q.id) = false := by decide
    rw [own a (shape ▸ by simp) p member] at link
    cases link

theorem sample_applies_iff :
    (∃ w listed, applyDiff unitHash leftWeave
        { additions := [underRight], deletions := sampleDiff.deletions } = .ok w ∧
      w.getAtoms = some listed ∧ listed.Perm rightAtoms) ↔ Unopposed leftAtoms [underRight] :=
  diff_applies_iff unitHash_ideal listHash_injective sample_setting

/-- The moved atom loses against the one that is about to be deleted, and both are gone. -/
theorem moved_atom_lost :
    Ideal unitHash ∧ Function.Injective listHash ∧
      Setting unitHash listHash leftWeave rightWeave leftAtoms rightAtoms sampleDiff [underRight] ∧
      ¬ ∃ w listed, applyDiff unitHash leftWeave
          { additions := [underRight], deletions := sampleDiff.deletions } = .ok w ∧
        w.getAtoms = some listed ∧ listed.Perm rightAtoms := by
  refine ⟨unitHash_ideal, listHash_injective, sample_setting, fun ⟨w, listed, ran, read, same⟩ => ?_⟩
  have shown : ((applyDiff unitHash leftWeave
      { additions := [underRight], deletions := sampleDiff.deletions }).toOption.bind Weave.getAtoms) =
      some [leftRoot, rightRoot] := by
    decide +kernel
  rw [ran] at shown
  rw [show w.getAtoms = some [leftRoot, rightRoot] from shown, Option.some.injEq] at read
  rw [← read] at same
  exact absurd same.length_eq (by decide)

end Sample

end IndexDiff

end CasualOS
