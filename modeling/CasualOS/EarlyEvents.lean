import CasualOS.IndexDiff
import CasualOS.Lib.Deltas
import CasualOS.Lib.Run

/-! The `ADD_ATOMS` events that a client receives before the initial one, which it merges into that one. -/

namespace CasualOS.EarlyEvents

open Deltas IndexDiff PlainWeave Relation Run TreeOrder WeaveHeap WeaveInsert WeaveRead WeaveRepr
open List (append_nil cons_append mem_append mem_append_left mem_cons mem_cons_of_mem mem_cons_self mem_map)
open Option (some)

variable {T : Type}

structure AddAtomsEvent (T : Type) where
  branch : JsString
  atoms : Option (List (Atom T))
  removedAtoms : Option (List JsString)
  initial : Option Bool

/-- The emitted value with the type `atoms`. -/
structure ClientAtoms (T : Type) where
  atoms : Option (List (Atom T))
  removedAtoms : Option (List JsString)

inductive Acc (T : Type) where
  | start
  | waiting (events : List (AddAtomsEvent T))
  | event (event : AddAtomsEvent T)

/-- `sortBy` with the timestamp, which is stable. -/
def sortByTimestamp (atoms : List (Atom T)) : List (Atom T) :=
  atoms.insertionSort (fun a b => a.id.timestamp ≤ b.id.timestamp)

def mergeEvents (events : List (AddAtomsEvent T)) (event : AddAtomsEvent T) : AddAtomsEvent T where
  branch := event.branch
  atoms := some (event.atoms.getD [] ++ sortByTimestamp (events.flatMap (·.atoms.getD [])))
  removedAtoms := some (event.removedAtoms.getD [] ++ events.flatMap (·.removedAtoms.getD []))
  initial := none

def scan (acc : Acc T) (event : AddAtomsEvent T) : Acc T :=
  match acc with
  | .start => if event.initial.getD false then .event event else .waiting [event]
  | .waiting events =>
    if event.initial.getD false then .event (mergeEvents events event) else .waiting (events ++ [event])
  | .event _ => .event event

def AddAtomsEvent.toClient (event : AddAtomsEvent T) : ClientAtoms T where
  atoms := event.atoms
  removedAtoms := event.removedAtoms

/-- What passes the filter behind the scan. -/
def emitted : Acc T → Option (ClientAtoms T)
  | .event event => some event.toClient
  | _ => none

/-- What the scan emits from an accumulated value on. -/
def emissions : Acc T → List (AddAtomsEvent T) → List (ClientAtoms T)
  | _, [] => []
  | acc, event :: rest => (emitted (scan acc event)).toList ++ emissions (scan acc event) rest

def watchBranchAtoms (name : JsString) (events : List (AddAtomsEvent T)) : List (ClientAtoms T) :=
  emissions .start (events.filter (·.branch = name))

/-! ### The consumer -/

def removeHash (w : Weave T) (hash : JsString) : Except Failure (Weave T) :=
  match (w.getNodeByHash hash).bind w.atomAt with
  | none => .ok w
  | some atom => (w.remove atom).map Prod.fst

variable (getHash : AtomHashInput T → JsString)

def applyAtoms (w : Weave T) (event : ClientAtoms T) : Except Failure (Weave T) := do
  let w ← insertAll getHash w (event.atoms.getD [])
  (event.removedAtoms.getD []).foldlM removeHash w

def consume (w : Weave T) (stream : List (ClientAtoms T)) : Except Failure (Weave T) :=
  stream.foldlM (applyAtoms getHash) w

/-- The weaves that two consumers end with list the same atoms. -/
def SameAtoms (first second : Except Failure (Weave T)) : Prop :=
  ∃ w w' listed listed', first = .ok w ∧ second = .ok w' ∧ w.getAtoms = some listed ∧
    w'.getAtoms = some listed' ∧ ∀ a, a ∈ listed ↔ a ∈ listed'

/-! ### Valid events -/

def insertStep (w : Weave T) (a : Atom T) : Option (Weave T) := (w.insert getHash a).toOption.map Prod.fst

def CauseListed (w : Weave T) (a : Atom T) : Prop := ∀ cause ∈ a.cause, w.getNode cause ≠ none

instance (w : Weave T) (a : Atom T) : Decidable (CauseListed w a) :=
  inferInstanceAs (Decidable (∀ cause ∈ a.cause, w.getNode cause ≠ none))

def applyStep (w : Weave T) (event : ClientAtoms T) : Option (Weave T) := (applyAtoms getHash w event).toOption

/-- Every atom of the event finds its cause listed. -/
def Arrives (w : Weave T) (event : ClientAtoms T) : Prop :=
  AllAllowed (insertStep getHash) CauseListed w (event.atoms.getD [])

instance (w : Weave T) (event : ClientAtoms T) : Decidable (Arrives getHash w event) :=
  inferInstanceAs (Decidable (AllAllowed _ _ _ _))

/-- The event removes the atom, or one above it. -/
def AddAtomsEvent.Removes (U : List (Atom T)) (e : AddAtomsEvent T) (a : Atom T) : Prop :=
  ∃ p ∈ U, Above U a p ∧ p.hash ∈ e.removedAtoms.getD []

/-- The initial event comes after those that were sent before it, and before the later ones. -/
structure Delivery (T : Type) where
  waiting : List (AddAtomsEvent T)
  initial : AddAtomsEvent T
  later : List (AddAtomsEvent T)

namespace Delivery

def events (d : Delivery T) : List (AddAtomsEvent T) := d.waiting ++ d.initial :: d.later

/-- The initial event first, then the others as they have arrived. -/
def inOrder (d : Delivery T) : List (ClientAtoms T) :=
  (d.initial :: (d.waiting ++ d.later)).map AddAtomsEvent.toClient

/-- All atoms that are listed at the start or are part of an event. -/
def atoms (d : Delivery T) (listed : List (Atom T)) : List (Atom T) :=
  listed ++ d.inOrder.flatMap (·.atoms.getD [])

def upTo (d : Delivery T) (n : Nat) : Delivery T := { d with later := d.later.take n }

/-- The events of one branch; their atoms are valid where they arrive. -/
structure Valid (d : Delivery T) (name : JsString) (w : Weave T) (listed : List (Atom T)) : Prop where
  named : ∀ e ∈ d.events, e.branch = name
  early : ∀ e ∈ d.waiting, e.initial.getD false = false
  first : d.initial.initial.getD false = true
  sound : Sound getHash (d.atoms listed)
  arrives : AllAllowed (applyStep getHash) (Arrives getHash) w d.inOrder

/-- What the initial event or a waiting one has removed is not added again by a later waiting event, unless
that one or one after it removes it again. -/
def ReaddsNothing (d : Delivery T) (U : List (Atom T)) : Prop :=
  ∀ pre e post, d.initial :: d.waiting = pre ++ e :: post → ∀ a ∈ e.atoms.getD [],
    (∃ f ∈ pre, f.Removes U a) → ∃ f ∈ e :: post, f.Removes U a

end Delivery

/-! ### What the events do to the set of listed atoms -/

section Steps

variable {getHash} {U S : List (Atom T)} {w : Weave T} {a : Atom T}

theorem sound_of_stands (sound : Sound getHash U) (stands : Stands getHash w S) (sub : ∀ x ∈ S, x ∈ U) :
    Sound getHash S where
  bare x inside := sound.bare x (sub x inside)
  unique x left y right same := sound.unique x (sub x left) y (sub y right) same
  valid x inside := by
    have valid := sound.valid x (sub x inside)
    unfold ValidIn at valid ⊢
    cases caused : x.cause with
    | none =>
      simp only [caused] at valid
      exact valid
    | some cause =>
      simp only [caused] at valid
      obtain ⟨p, inU, named, check⟩ := valid
      obtain ⟨cells, path, step, rfl⟩ := stands
      obtain ⟨c, inC, rfl⟩ := (mem_cells x).mp inside
      obtain ⟨q, inQ, equal⟩ := InStep.cause_listed step c inC cause caused
      have listed := mem_atoms q _ inQ
      have same := cause_of_equals c.2 q.2 (sound.bare c.2 (sub c.2 inside)) (sound.bare q.2 (sub q.2 listed)) equal
      rw [caused, some.injEq] at same
      have one := sound.unique p inU q.2 (sub q.2 listed) (named.trans same)
      exact ⟨q.2, listed, same.symm, one ▸ check⟩

theorem closed_of_sound (sound : Sound getHash U) (within : Sound getHash S) (sub : ∀ x ∈ S, x ∈ U)
    {x p : Atom T} (inside : x ∈ S) (above : Above U x p) : p ∈ S := by
  induction above with
  | refl => exact inside
  | tail _ caused ih =>
    have valid := within.valid _ ih
    simp only [ValidIn, caused.2] at valid
    obtain ⟨q, listed, named, _⟩ := valid
    exact sound.unique q (sub q listed) _ caused.1 named ▸ listed

theorem valid_among (sound : Sound getHash U) (inU : a ∈ U)
    (causes : ∀ p ∈ U, a.cause = some p.id → p ∈ S) : ValidIn getHash S a := by
  have valid := sound.valid a inU
  unfold ValidIn at valid ⊢
  cases caused : a.cause with
  | none =>
    simp only [caused] at valid
    exact valid
  | some cause =>
    simp only [caused] at valid
    obtain ⟨p, known, named, check⟩ := valid
    exact ⟨p, causes p known (by rw [caused, named]), named, check⟩

theorem insert_listed (stands : Stands getHash w S) (bare : Bare a) (valid : ValidIn getHash S a)
    (member : a ∈ S) : w.insert getHash a = .ok (w, .atomAlreadyAdded a) := by
  obtain ⟨cells, path, step, rfl⟩ := stands
  obtain ⟨d, inD, rfl⟩ := (mem_cells a).mp member
  have existing := (step.repr.getNode d.2.id d.1).mpr ⟨d, inD, rfl, rfl⟩
  have atom := step.repr.atomAt d (.inl inD)
  cases caused : d.2.cause with
  | none =>
    simp only [ValidIn, caused] at valid
    simp [Weave.insert, caused, Weave.insertRoot, valid, bare.id.2, existing, Weave.resolveConflict, atom]
  | some cause =>
    obtain ⟨c, inC, named, check, _⟩ := cell_of_cause d.2 cause caused valid
    have found := (step.repr.getNode cause c.1).mpr ⟨c, inC, rfl, by rw [idKey, named]⟩
    have node := step.repr.atomAt c (.inl inC)
    simp [Weave.insert, caused, found, Weave.insertChild, node, check, existing, Weave.resolveConflict, atom]

theorem insert_spec (ideal : Ideal getHash) (sound : Sound getHash U) (stands : Stands getHash w S)
    (sub : ∀ x ∈ S, x ∈ U) (inU : a ∈ U) (causes : ∀ p ∈ U, a.cause = some p.id → p ∈ S) :
    ∃ w' r S', w.insert getHash a = .ok (w', r) ∧ Stands getHash w' S' ∧ ∀ x, x ∈ S' ↔ x = a ∨ x ∈ S := by
  have bare := sound.bare a inU
  have valid := valid_among sound inU causes
  by_cases member : a ∈ S
  · refine ⟨w, _, S, insert_listed stands bare valid member, stands, fun x => ?_⟩
    exact ⟨.inr, fun either => either.elim (fun here => here ▸ member) id⟩
  · refine stands.enter ideal (sound_of_stands sound stands sub) a bare valid fun b listed same => ?_
    exact member (sound.unique b (sub b listed) a inU same ▸ listed)

theorem cause_listed (sound : Sound getHash U) (stands : Stands getHash w S) (sub : ∀ x ∈ S, x ∈ U)
    (listed : CauseListed w a) {p : Atom T} (inU : p ∈ U) (caused : a.cause = some p.id) : p ∈ S := by
  obtain ⟨cells, path, step, rfl⟩ := stands
  obtain ⟨n, node⟩ := Option.ne_none_iff_exists'.mp (listed p.id caused)
  obtain ⟨c, inC, _, named⟩ := (step.repr.getNode p.id n).mp node
  have member := mem_atoms c _ inC
  have bare := sound.bare c.2 (sub c.2 member)
  exact sound.unique c.2 (sub c.2 member) p inU (id_of_string c.2 p bare (sound.bare p inU) named) ▸ member

/-- Each atom comes after its cause, if that is not there yet. -/
def Causes (U : List (Atom T)) (s : Set (Atom T)) (delivered : List (Atom T)) : Prop :=
  ∀ pre a post, delivered = pre ++ a :: post → ∀ p ∈ U, a.cause = some p.id → p ∈ s ∨ p ∈ pre

theorem insertAll_spec (ideal : Ideal getHash) (sound : Sound getHash U) (delivered : List (Atom T))
    (known : ∀ a ∈ delivered, a ∈ U) (stands : Stands getHash w S) (sub : ∀ x ∈ S, x ∈ U)
    (causes : Causes U { x | x ∈ S } delivered) :
    ∃ w' S', insertAll getHash w delivered = .ok w' ∧ Stands getHash w' S' ∧ ∀ x, x ∈ S' ↔ x ∈ S ∨ x ∈ delivered := by
  induction delivered generalizing w S with
  | nil => exact ⟨w, S, rfl, stands, by simp⟩
  | cons a rest ih =>
    have inU := known a mem_cons_self
    have direct : ∀ p ∈ U, a.cause = some p.id → p ∈ S := by
      intro p inside caused
      exact (causes [] a rest rfl p inside caused).elim id (fun absent => by cases absent)
    obtain ⟨mid, r, S₁, ran, stands₁, members₁⟩ := insert_spec ideal sound stands sub inU direct
    have sub₁ : ∀ x ∈ S₁, x ∈ U := fun x inside =>
      ((members₁ x).mp inside).elim (fun here => here ▸ inU) (sub x)
    have causes₁ : Causes U { x | x ∈ S₁ } rest := by
      intro pre b post shape p inside caused
      rcases causes (a :: pre) b post (by rw [shape, cons_append]) p inside caused with old | earlier
      · exact .inl ((members₁ p).mpr (.inr old))
      · rcases mem_cons.mp earlier with here | later
        · exact .inl ((members₁ p).mpr (.inl here))
        · exact .inr later
    obtain ⟨w', S', run, stands', members'⟩ :=
      ih (fun b member => known b (mem_cons_of_mem _ member)) stands₁ sub₁ causes₁
    refine ⟨w', S', (insertAll_cons w a rest mid r ran).trans run, stands', fun x => ?_⟩
    rw [members', members₁, mem_cons]
    tauto

theorem removeHash_spec (ideal : Ideal getHash) (sound : Sound getHash U) (stands : Stands getHash w S)
    (sub : ∀ x ∈ S, x ∈ U) (hash : JsString) :
    ∃ w' S', removeHash w hash = .ok w' ∧ Stands getHash w' S' ∧
      ∀ x, x ∈ S' ↔ x ∈ S ∧ ¬ ∃ p ∈ U, Above U x p ∧ p.hash = hash := by
  have within := sound_of_stands sound stands sub
  have closed : ∀ x ∈ S, ∀ p, Above U x p → p ∈ S := fun x inside p above =>
    closed_of_sound sound within sub inside above
  by_cases present : ∃ e ∈ S, e.hash = hash
  · obtain ⟨e, inside, rfl⟩ := present
    obtain ⟨w', r, S', ran, stands', cut⟩ := stands.remove within e inside
    have found : (w.getNodeByHash e.hash).bind w.atomAt = some e := by
      obtain ⟨cells, path, step, rfl⟩ := stands
      obtain ⟨c, inC, rfl⟩ := (mem_cells e).mp inside
      have node := OrderedMap.Indexes.get step.hashed c inC
      exact Option.bind_eq_some_iff.mpr ⟨c.1, node, step.repr.atomAt c (.inl inC)⟩
    refine ⟨w', S', by simp [removeHash, found, ran, Except.map], stands', fun x => ?_⟩
    have named : ∀ p ∈ U, p.hash = e.hash → p = e := fun p inU same =>
      atom_of_hash ideal sound within p inU e inside same
    have exact_cut : ∀ x ∈ S, (x ∈ S' ↔ ¬ Above U x e) := by
      apply by_age
      intro x inS older
      constructor
      · intro stays above
        have up : ∀ y, Above U x y → y ∈ S' := by
          intro y reach
          induction reach with
          | refl => exact stays
          | tail reach caused ih =>
            exact cut.closed _ ih _ (closed x inS _ (reach.tail caused)) caused.2
        exact cut.gone (up e above)
      · intro apart
        by_contra gone
        rcases cut.below x inS gone with same | ⟨p, parent, lost, caused⟩
        · exact apart (same ▸ ReflTransGen.refl)
        · refine lost ((older p parent (within.newer inS parent caused)).mpr fun above => apart ?_)
          exact ReflTransGen.head ⟨sub p parent, caused⟩ above
    constructor
    · intro stays
      have inS := cut.sub x stays
      refine ⟨inS, fun ⟨p, inU, above, same⟩ => ?_⟩
      exact (exact_cut x inS).mp stays (named p inU same ▸ above)
    · rintro ⟨inS, apart⟩
      exact (exact_cut x inS).mpr fun above => apart ⟨e, sub e inside, above, rfl⟩
  · have absent : w.getNodeByHash hash = none := by
      obtain ⟨cells, path, step, rfl⟩ := stands
      refine Option.eq_none_iff_forall_ne_some.mpr fun n node => ?_
      obtain ⟨c, inC, _, same⟩ := (step.hashed hash n).mp node
      exact present ⟨c.2, mem_atoms c _ inC, same⟩
    refine ⟨w, S, by simp [removeHash, absent], stands, fun x => ⟨fun inS => ⟨inS, ?_⟩, And.left⟩⟩
    rintro ⟨p, _, above, same⟩
    exact present ⟨p, closed x inS p above, same⟩

theorem removeAll_spec (ideal : Ideal getHash) (sound : Sound getHash U) (hashes : List JsString)
    (stands : Stands getHash w S) (sub : ∀ x ∈ S, x ∈ U) :
    ∃ w' S', hashes.foldlM removeHash w = .ok w' ∧ Stands getHash w' S' ∧
      ∀ x, x ∈ S' ↔ x ∈ S ∧ ¬ ∃ p ∈ U, Above U x p ∧ p.hash ∈ hashes := by
  induction hashes generalizing w S with
  | nil => exact ⟨w, S, rfl, stands, by simp⟩
  | cons hash rest ih =>
    obtain ⟨mid, S₁, ran, stands₁, members₁⟩ := removeHash_spec ideal sound stands sub hash
    have sub₁ : ∀ x ∈ S₁, x ∈ U := fun x inside => sub x ((members₁ x).mp inside).1
    obtain ⟨w', S', run, stands', members'⟩ := ih stands₁ sub₁
    refine ⟨w', S', by rw [List.foldlM_cons, ran]; exact run, stands', fun x => ?_⟩
    rw [members', members₁, and_assoc, ← not_or]
    refine and_congr_right fun _ => not_congr ?_
    constructor
    · rintro (⟨p, inU, above, here⟩ | ⟨p, inU, above, later⟩)
      · exact ⟨p, inU, above, here ▸ mem_cons_self⟩
      · exact ⟨p, inU, above, mem_cons_of_mem _ later⟩
    · rintro ⟨p, inU, above, member⟩
      rcases mem_cons.mp member with here | later
      · exact .inl ⟨p, inU, above, here⟩
      · exact .inr ⟨p, inU, above, later⟩

end Steps

/-! ### Whole streams -/

section Streams

variable {getHash} {U S : List (Atom T)} {w : Weave T}

def delta (U : List (Atom T)) (event : ClientAtoms T) : Delta (Atom T) where
  added := { x | x ∈ event.atoms.getD [] }
  removed := { x | ∃ p ∈ U, Above U x p ∧ p.hash ∈ event.removedAtoms.getD [] }

/-- The causes of every event's atoms are there when it comes. -/
def Fits (U : List (Atom T)) : Set (Atom T) → List (ClientAtoms T) → Prop
  | _, [] => True
  | s, event :: rest => Causes U s (event.atoms.getD []) ∧ Fits U ((delta U event).apply s) rest

/-- The weave lists this set of known atoms. -/
structure Shows (getHash : AtomHashInput T → JsString) (U : List (Atom T)) (w : Weave T)
    (s : Set (Atom T)) : Prop where
  stands : ∃ S, Stands getHash w S ∧ { x | x ∈ S } = s
  known : ∀ x ∈ s, x ∈ U

variable {s : Set (Atom T)}

theorem apply_spec (ideal : Ideal getHash) (sound : Sound getHash U) (shows : Shows getHash U w s)
    (event : ClientAtoms T) (known : ∀ a ∈ event.atoms.getD [], a ∈ U)
    (causes : Causes U s (event.atoms.getD [])) :
    ∃ w', applyAtoms getHash w event = .ok w' ∧ Shows getHash U w' ((delta U event).apply s) := by
  obtain ⟨S, stands, rfl⟩ := shows.stands
  obtain ⟨mid, S₁, ran, stands₁, members₁⟩ := insertAll_spec ideal sound _ known stands shows.known causes
  have sub₁ : ∀ x ∈ S₁, x ∈ U := fun x inside => ((members₁ x).mp inside).elim (shows.known x) (known x)
  obtain ⟨w', S', run, stands', members'⟩ :=
    removeAll_spec ideal sound (event.removedAtoms.getD []) stands₁ sub₁
  refine ⟨w', by rw [applyAtoms, ran]; exact run, ⟨S', stands', Set.ext fun x => ?_⟩, fun x inside => ?_⟩
  · simp only [delta, Delta.apply, Set.mem_ofPred_eq, members', members₁]
  · exact inside.1.elim (shows.known x) (known x)

theorem consume_spec (ideal : Ideal getHash) (sound : Sound getHash U) (stream : List (ClientAtoms T))
    (known : ∀ e ∈ stream, ∀ a ∈ e.atoms.getD [], a ∈ U) (shows : Shows getHash U w s)
    (fits : Fits U s stream) :
    ∃ w', consume getHash w stream = .ok w' ∧ Shows getHash U w' (applyAll s (stream.map (delta U))) := by
  induction stream generalizing w s with
  | nil => exact ⟨w, rfl, shows⟩
  | cons event rest ih =>
    obtain ⟨mid, ran, next⟩ := apply_spec ideal sound shows event (known event mem_cons_self) fits.1
    obtain ⟨w', run, last⟩ := ih (fun e member => known e (mem_cons_of_mem _ member)) next fits.2
    exact ⟨w', by rw [consume, List.foldlM_cons, ran]; exact run, last⟩

theorem causes_of_listed (ideal : Ideal getHash) (sound : Sound getHash U) (delivered : List (Atom T))
    (known : ∀ a ∈ delivered, a ∈ U) (stands : Stands getHash w S) (sub : ∀ x ∈ S, x ∈ U)
    (listed : AllAllowed (insertStep getHash) CauseListed w delivered) : Causes U { x | x ∈ S } delivered := by
  induction delivered generalizing w S with
  | nil =>
    intro pre a post shape
    simp at shape
  | cons a rest ih =>
    have inU := known a mem_cons_self
    have direct : ∀ p ∈ U, a.cause = some p.id → p ∈ S := fun p inside caused =>
      cause_listed sound stands sub listed.1 inside caused
    obtain ⟨mid, r, S₁, ran, stands₁, members₁⟩ := insert_spec ideal sound stands sub inU direct
    have sub₁ : ∀ x ∈ S₁, x ∈ U := fun x inside =>
      ((members₁ x).mp inside).elim (fun here => here ▸ inU) (sub x)
    have later := ih (fun b member => known b (mem_cons_of_mem _ member)) stands₁ sub₁
      (listed.2 mid (by rw [insertStep, ran]; rfl))
    intro pre b post shape p inside caused
    cases pre with
    | nil =>
      obtain ⟨rfl, rfl⟩ := List.cons.inj shape
      exact .inl (direct p inside caused)
    | cons first pre =>
      obtain ⟨rfl, rfl⟩ := List.cons.inj shape
      rcases later pre b post rfl p inside caused with old | earlier
      · rcases (members₁ p).mp old with here | listed
        · exact .inr (here ▸ mem_cons_self)
        · exact .inl listed
      · exact .inr (mem_cons_of_mem _ earlier)

theorem fits_of_arrives (ideal : Ideal getHash) (sound : Sound getHash U) (stream : List (ClientAtoms T))
    (known : ∀ e ∈ stream, ∀ a ∈ e.atoms.getD [], a ∈ U) (shows : Shows getHash U w s)
    (arrives : AllAllowed (applyStep getHash) (Arrives getHash) w stream) : Fits U s stream := by
  induction stream generalizing w s with
  | nil => trivial
  | cons event rest ih =>
    have inU := known event mem_cons_self
    obtain ⟨S, stands, rfl⟩ := shows.stands
    have causes := causes_of_listed ideal sound _ inU stands shows.known arrives.1
    obtain ⟨mid, ran, next⟩ := apply_spec ideal sound shows event inU causes
    exact ⟨causes, ih (fun e member => known e (mem_cons_of_mem _ member)) next
      (arrives.2 mid (by rw [applyStep, ran]; rfl))⟩

theorem fits_append (first second : List (ClientAtoms T)) :
    Fits U s (first ++ second) ↔ Fits U s first ∧ Fits U (applyAll s (first.map (delta U))) second := by
  induction first generalizing s with
  | nil => simp [Fits, applyAll]
  | cons event rest ih =>
    rw [cons_append, Fits, Fits, ih, and_assoc]
    rfl

theorem cause_delivered (stream : List (ClientAtoms T)) (fits : Fits U s stream) {e : ClientAtoms T}
    (member : e ∈ stream) {a p : Atom T} (inside : a ∈ e.atoms.getD []) (inU : p ∈ U)
    (caused : a.cause = some p.id) : p ∈ s ∨ ∃ f ∈ stream, p ∈ f.atoms.getD [] := by
  induction stream generalizing s with
  | nil => cases member
  | cons event rest ih =>
    rcases mem_cons.mp member with rfl | later
    · obtain ⟨pre, post, shape⟩ := List.append_of_mem inside
      rcases fits.1 pre a post shape p inU caused with old | earlier
      · exact .inl old
      · exact .inr ⟨e, mem_cons_self, shape ▸ mem_append_left _ earlier⟩
    · rcases ih fits.2 later with before | ⟨f, inRest, delivered⟩
      · rcases before.1 with old | added
        · exact .inl old
        · exact .inr ⟨event, mem_cons_self, added⟩
      · exact .inr ⟨f, mem_cons_of_mem _ inRest, delivered⟩

theorem sameAtoms_iff {w w' : Weave T} {s s' : Set (Atom T)} (shows : Shows getHash U w s)
    (shows' : Shows getHash U w' s') : SameAtoms (.ok w) (.ok w') ↔ s = s' := by
  obtain ⟨S, stands, rfl⟩ := shows.stands
  obtain ⟨S', stands', rfl⟩ := shows'.stands
  have read := stands.getAtoms.1
  have read' := stands'.getAtoms.1
  constructor
  · rintro ⟨v, v', l, l', ran, ran', shown, shown', same⟩
    cases ran
    cases ran'
    rw [read, some.injEq] at shown
    rw [read', some.injEq] at shown'
    subst shown shown'
    exact Set.ext same
  · intro same
    exact ⟨w, w', S, S', rfl, rfl, read, read', fun a => Set.ext_iff.mp same a⟩

end Streams

/-! ### The stream -/

section Merged

theorem emissions_waiting (held events rest : List (AddAtomsEvent T))
    (early : ∀ e ∈ events, e.initial.getD false = false) :
    emissions (.waiting held) (events ++ rest) = emissions (.waiting (held ++ events)) rest := by
  induction events generalizing held with
  | nil => rw [List.nil_append, append_nil]
  | cons e events ih =>
    have stays : scan (.waiting held) e = .waiting (held ++ [e]) := by
      simp [scan, early e mem_cons_self]
    rw [cons_append, emissions, stays, ih _ fun f member => early f (mem_cons_of_mem _ member), List.append_assoc]
    rfl

theorem emissions_event (event : AddAtomsEvent T) (later : List (AddAtomsEvent T)) :
    emissions (.event event) later = later.map AddAtomsEvent.toClient := by
  induction later generalizing event with
  | nil => rfl
  | cons e rest ih => rw [emissions, scan, ih, List.map_cons, emitted, Option.toList_some, List.singleton_append]

/-- The first value that the stream emits. -/
def Delivery.merged (d : Delivery T) : ClientAtoms T :=
  match d.waiting with
  | [] => d.initial.toClient
  | _ :: _ => (mergeEvents d.waiting d.initial).toClient

theorem Delivery.merged_atoms (d : Delivery T) : d.merged.atoms.getD [] =
    d.initial.atoms.getD [] ++ sortByTimestamp (d.waiting.flatMap (·.atoms.getD [])) := by
  unfold merged
  split
  · next empty => simp [empty, AddAtomsEvent.toClient, sortByTimestamp]
  · rfl

theorem Delivery.merged_removed (d : Delivery T) : d.merged.removedAtoms.getD [] =
    d.initial.removedAtoms.getD [] ++ d.waiting.flatMap (·.removedAtoms.getD []) := by
  unfold merged
  split
  · next empty => simp [empty, AddAtomsEvent.toClient]
  · rfl

theorem watch_early (name : JsString) (events : List (AddAtomsEvent T))
    (early : ∀ e ∈ events, e.initial.getD false = false) : watchBranchAtoms name events = [] := by
  have kept : ∀ e ∈ events.filter (·.branch = name), e.initial.getD false = false :=
    fun e member => early e (List.mem_of_mem_filter member)
  unfold watchBranchAtoms
  cases shape : events.filter (·.branch = name) with
  | nil => rfl
  | cons e rest =>
    rw [shape] at kept
    have waits : scan .start e = .waiting [e] := by simp [scan, kept e mem_cons_self]
    have silent := emissions_waiting [e] rest [] fun f member => kept f (mem_cons_of_mem _ member)
    rw [append_nil] at silent
    rw [emissions, waits, silent]
    rfl

theorem watch_events (d : Delivery T) (name : JsString) (named : ∀ e ∈ d.events, e.branch = name)
    (early : ∀ e ∈ d.waiting, e.initial.getD false = false) (first : d.initial.initial.getD false = true) :
    watchBranchAtoms name d.events = d.merged :: d.later.map AddAtomsEvent.toClient := by
  have all : d.events.filter (·.branch = name) = d.events :=
    List.filter_eq_self.mpr fun e member => decide_eq_true (named e member)
  rw [watchBranchAtoms, all]
  unfold Delivery.events Delivery.merged
  cases shape : d.waiting with
  | nil =>
    have begins : scan .start d.initial = .event d.initial := by simp [scan, first]
    rw [List.nil_append, emissions, begins, emissions_event]
    rfl
  | cons e rest =>
    rw [shape] at early
    have waits : scan .start e = .waiting [e] := by simp [scan, early e mem_cons_self]
    have ends : scan (.waiting (e :: rest)) d.initial = .event (mergeEvents (e :: rest) d.initial) := by
      simp [scan, first]
    rw [cons_append, emissions, waits, emissions_waiting [e] rest _ fun f member => early f (mem_cons_of_mem _ member),
      List.singleton_append, emissions, ends, emissions_event]
    rfl

variable {getHash} {w : Weave T} {listed : List (Atom T)} {d : Delivery T} {name : JsString}

instance : Std.Total (fun a b : Atom T => a.id.timestamp ≤ b.id.timestamp) :=
  ⟨fun a b => le_total a.id.timestamp b.id.timestamp⟩

instance : IsTrans (Atom T) (fun a b => a.id.timestamp ≤ b.id.timestamp) := ⟨fun _ _ _ => le_trans⟩

theorem older_first (atoms pre post : List (Atom T)) (a p : Atom T)
    (shape : sortByTimestamp atoms = pre ++ a :: post) (member : p ∈ atoms)
    (older : p.id.timestamp < a.id.timestamp) : p ∈ pre := by
  have sorted : (sortByTimestamp atoms).Pairwise (fun a b => a.id.timestamp ≤ b.id.timestamp) :=
    List.pairwise_insertionSort _ atoms
  have inside : p ∈ sortByTimestamp atoms := (List.mem_insertionSort _).mpr member
  rw [shape] at sorted inside
  have after := (List.pairwise_cons.mp (List.pairwise_append.mp sorted).2.1).1
  rcases mem_append.mp inside with early | late
  · exact early
  · rcases mem_cons.mp late with here | behind
    · exact absurd (here ▸ older) (lt_irrefl _)
    · exact absurd (after p behind) (not_le.mpr older)

namespace Delivery

/-- The events that the first emitted value stands for. -/
def prefixed (d : Delivery T) : List (ClientAtoms T) := (d.initial :: d.waiting).map AddAtomsEvent.toClient

theorem inOrder_split (d : Delivery T) : d.inOrder = d.prefixed ++ d.later.map AddAtomsEvent.toClient := by
  simp [inOrder, prefixed]

theorem merged_delta (d : Delivery T) (U : List (Atom T)) :
    delta U d.merged = Delta.merge (d.prefixed.map (delta U)) := by
  have added : ∀ x, x ∈ d.merged.atoms.getD [] ↔ ∃ e ∈ d.prefixed, x ∈ e.atoms.getD [] := by
    intro x
    have member : x ∈ sortByTimestamp (d.waiting.flatMap (·.atoms.getD [])) ↔
        x ∈ d.waiting.flatMap (·.atoms.getD []) := List.mem_insertionSort _
    rw [d.merged_atoms, mem_append, member]
    simp [prefixed, AddAtomsEvent.toClient]
  have removed : ∀ h, h ∈ d.merged.removedAtoms.getD [] ↔ ∃ e ∈ d.prefixed, h ∈ e.removedAtoms.getD [] := by
    intro h
    rw [d.merged_removed, mem_append]
    simp [prefixed, AddAtomsEvent.toClient]
  refine Delta.ext (Set.ext fun x => ?_) (Set.ext fun x => ?_)
  · simp only [delta, Delta.merge, Set.mem_ofPred_eq, added, mem_map, exists_exists_and_eq_and]
  · simp only [delta, Delta.merge, Set.mem_ofPred_eq, removed, mem_map, exists_exists_and_eq_and]
    constructor
    · rintro ⟨p, inU, above, e, member, inside⟩
      exact ⟨e, member, p, inU, above, inside⟩
    · rintro ⟨e, member, p, inU, above, inside⟩
      exact ⟨p, inU, above, e, member, inside⟩

variable {U : List (Atom T)} {s : Set (Atom T)}

theorem waiting_cause (d : Delivery T) (sound : Sound getHash U)
    (known : ∀ e ∈ d.prefixed, ∀ a ∈ e.atoms.getD [], a ∈ U) (fits : Fits U s d.prefixed)
    (early post : List (Atom T)) (a p : Atom T)
    (sorted : sortByTimestamp (d.waiting.flatMap (·.atoms.getD [])) = early ++ a :: post) (inU : p ∈ U)
    (caused : a.cause = some p.id) : p ∈ s ∨ p ∈ d.initial.atoms.getD [] ∨ p ∈ early := by
  have member : a ∈ d.waiting.flatMap (·.atoms.getD []) :=
    (List.mem_insertionSort _).mp (sorted ▸ List.mem_append_right _ mem_cons_self)
  obtain ⟨e, waiting, inside⟩ := List.mem_flatMap.mp member
  have inPrefix : e.toClient ∈ d.prefixed := List.mem_map_of_mem (mem_cons_of_mem _ waiting)
  rcases cause_delivered d.prefixed fits inPrefix inside inU caused with old | ⟨f, inF, delivered⟩
  · exact .inl old
  · rcases mem_cons.mp inF with rfl | later
    · exact .inr (.inl delivered)
    · obtain ⟨g, waits, rfl⟩ := mem_map.mp later
      exact .inr (.inr (older_first _ early post a p sorted (List.mem_flatMap.mpr ⟨g, waits, delivered⟩)
        (sound.newer (known _ inPrefix a inside) inU caused)))

theorem merged_causes (d : Delivery T) (sound : Sound getHash U)
    (known : ∀ e ∈ d.prefixed, ∀ a ∈ e.atoms.getD [], a ∈ U) (fits : Fits U s d.prefixed) :
    Causes U s (d.merged.atoms.getD []) := by
  have initial := fits.1
  rw [d.merged_atoms]
  intro pre a post shape p inU caused
  rcases List.append_eq_append_iff.mp shape with ⟨early, split, sorted⟩ | ⟨rest, split, sorted⟩
  · rw [split, mem_append]
    exact d.waiting_cause sound known fits early post a p sorted inU caused
  · cases rest with
    | nil =>
      rw [append_nil] at split
      rw [List.nil_append] at sorted
      rcases d.waiting_cause sound known fits [] post a p sorted.symm inU caused with old | first | none
      · exact .inl old
      · exact .inr (split ▸ first)
      · cases none
    | cons b rest =>
      obtain ⟨rfl, _⟩ := List.cons.inj sorted
      exact initial pre a rest split p inU caused

theorem readdsNothing_iff (d : Delivery T) (U : List (Atom T)) (s : Set (Atom T)) :
    (delta U d.merged).apply s = applyAll s (d.prefixed.map (delta U)) ↔ d.ReaddsNothing U := by
  have shape : d.prefixed.map (delta U) = (d.initial :: d.waiting).map (fun e => delta U e.toClient) := List.map_map
  rw [d.merged_delta, shape]
  exact merge_map_iff _ _

theorem Valid.watch (valid : d.Valid getHash name w listed) (n : Nat) : watchBranchAtoms name (d.upTo n).events =
      d.merged :: (d.later.take n).map AddAtomsEvent.toClient := by
  refine watch_events (d.upTo n) name (fun e member => valid.named e ?_) valid.early valid.first
  simp only [events, upTo, mem_append, mem_cons] at member ⊢
  rcases member with waits | here | later
  · exact .inl waits
  · exact .inr (.inl here)
  · exact .inr (.inr (List.mem_of_mem_take later))

theorem mem_atoms (d : Delivery T) (listed : List (Atom T)) :
    ∀ e ∈ d.inOrder, ∀ a ∈ e.atoms.getD [], a ∈ d.atoms listed :=
  fun e member _ inside => List.mem_append_right _ (List.mem_flatMap.mpr ⟨e, member, inside⟩)

theorem shows_reached (ideal : Ideal getHash) (reached : Reached getHash w)
    (read : w.getAtoms = some listed) (sub : ∀ a ∈ listed, a ∈ U) : Shows getHash U w { x | x ∈ listed } := by
  obtain ⟨cells, path, step⟩ := reached.inStep ideal.injective
  have stands : Stands getHash w (WeaveHeap.atoms cells.flatten) := ⟨cells, path, step, rfl⟩
  have same := stands.getAtoms.1
  rw [read, some.injEq] at same
  exact ⟨⟨listed, same ▸ stands, rfl⟩, sub⟩

end Delivery

end Merged

section Sample

open HashText

def sampleName : JsString := JsString.lit ['b']

def firstAtom : Atom Unit := newAtom unitHash (sampleId 1 .undefined) none ()

def secondAtom : Atom Unit := newAtom unitHash (sampleId 2 .undefined) (some firstAtom) ()

def adding (a : Atom Unit) (initial : Option Bool) : AddAtomsEvent Unit where
  branch := sampleName
  atoms := some [a]
  removedAtoms := none
  initial := initial

def removing (a : Atom Unit) : AddAtomsEvent Unit where
  branch := sampleName
  atoms := none
  removedAtoms := some [a.hash]
  initial := none

def grown : Delivery Unit where
  waiting := [adding secondAtom none]
  initial := adding firstAtom (some true)
  later := [removing secondAtom]

def readded : Delivery Unit where
  waiting := [removing firstAtom, adding firstAtom none]
  initial := adding firstAtom (some true)
  later := []

theorem sample_sound (U : List (Atom Unit)) (known : ∀ a ∈ U, a = firstAtom ∨ a = secondAtom)
    (root : firstAtom ∈ U) : Sound unitHash U where
  bare a member := by
    rcases known a member with rfl | rfl
    · exact ⟨by decide, fun cause caused => by cases caused⟩
    · exact ⟨by decide, fun cause caused => some.inj caused ▸ by decide⟩
  unique a left b right same := by
    rcases known a left with rfl | rfl <;> rcases known b right with rfl | rfl
    · rfl
    · exact absurd same (by decide)
    · exact absurd same (by decide)
    · rfl
  valid a member := by
    rcases known a member with rfl | rfl
    · exact (by decide +kernel : atomMatchesHash unitHash firstAtom none = true)
    · exact ⟨firstAtom, root, rfl, by decide +kernel⟩

theorem grown_valid : grown.Valid unitHash sampleName (Weave.new none) [] where
  named := by decide
  early := by decide
  first := by decide
  sound := sample_sound _ (by decide) (by decide)
  arrives := by decide +kernel

theorem readded_valid : readded.Valid unitHash sampleName (Weave.new none) [] where
  named := by decide
  early := by decide
  first := by decide
  sound := sample_sound _ (by decide) (by decide)
  arrives := by decide +kernel

end Sample

end CasualOS.EarlyEvents
