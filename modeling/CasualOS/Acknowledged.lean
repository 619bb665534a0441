import CasualOS.Redelivery
import CasualOS.StageReplay

/-! The acknowledged atoms of a branch against the atoms of its repository and of its weave. -/

namespace CasualOS.Acknowledged

open CausalRepo Convergence RepoContents WeaveInsert WeaveRead WeaveRepr CausalOrder
open List (append_assoc mem_append mem_cons)

variable {T : Type}

/-- The cause of each atom is among these atoms or comes before it. -/
def CausesKnown (known sent : List (Atom T)) : Prop :=
  ∀ pre a post, sent = pre ++ a :: post → ∀ cause, a.cause = some cause →
    ∃ p ∈ known ++ pre, idEquals (some cause) (some p.id) = true

/-- Every acknowledged atom that was sent is in the repository, which holds what the weave holds. -/
structure Kept (sent : List (Atom T)) (acked : List JsString) (s : Live T) : Prop where
  present : ∀ a ∈ sent, a.hash ∈ acked → a ∈ s.data.repo.getAtoms
  agree : ∃ listed, s.data.weave.getAtoms = some listed ∧ ∀ a, a ∈ s.data.repo.getAtoms ↔ a ∈ listed

/-- A loaded branch: the weave lists these atoms of the set, with their causes, the repository holds them,
and nothing waits in the buffer. -/
structure InAgreement (S : List (Atom T)) (s : Live T) (listed : List (Atom T)) : Prop where
  members : ∀ a ∈ listed, a ∈ S
  closed : ∀ a ∈ listed, ∀ cause, a.cause = some cause →
    ∃ p ∈ listed, idEquals (some cause) (some p.id) = true
  weave : ∃ lists, Holds s.data.weave lists ∧ ∀ a, a ∈ lists.flatten ↔ a ∈ listed
  repo : ∀ hash a, s.data.repo.atoms.get hash = some a ↔ a ∈ listed ∧ a.hash = hash

def Unprotected (s : Live T) : Prop := s.data.settings.passwordHash.any (· ≠ []) = false

/-- The events that `addAtoms` handles one after the other, each with whether its device is
authenticated, and the hashes that are acknowledged. -/
def serve [DecidableEq T] (getHash : AtomHashInput T → JsString) (isTemp : Bool) :
    Live T → List (AddAtomsEvent T × Bool) → Option (Live T × List JsString)
  | s, [] => some (s, [])
  | s, (event, authenticated) :: rest =>
    match s.addAtoms getHash event isTemp authenticated with
    | none => none
    | some (s, sent) =>
      (serve getHash isTemp s rest).map
        (fun (final, acked) => (final, sent.atomsReceived.getD [] ++ acked))

def sentAtoms (events : List (AddAtomsEvent T × Bool)) : List (Atom T) :=
  (events.map (fun event => event.1.atoms)).flatten

namespace CausesKnown

variable {known early late : List (Atom T)}

theorem left (causes : CausesKnown known (early ++ late)) : CausesKnown known early := by
  intro pre a post split cause caused
  exact causes pre a (post ++ late) (by rw [split, append_assoc, List.cons_append]) cause caused

theorem right (causes : CausesKnown known (early ++ late)) : CausesKnown (known ++ early) late := by
  intro pre a post split cause caused
  rw [append_assoc]
  exact causes (early ++ pre) a post (by rw [split, append_assoc]) cause caused

end CausesKnown

/-! ### Atoms and their hashes -/

section Hashes

variable {getHash : AtomHashInput T → JsString} {S : List (Atom T)}

theorem hash_input (set : CausalSet getHash S) (a : Atom T) (inS : a ∈ S) :
    ∃ causeHash, atomHash getHash a.id causeHash a.value = a.hash := by
  cases caused : a.cause with
  | none => exact ⟨none, by simpa [atomMatchesHash] using set.rootHash a inS caused⟩
  | some cause =>
    obtain ⟨p, inP, named⟩ := set.closed a inS cause caused
    have link : idEquals a.cause (some p.id) = true := caused ▸ named
    exact ⟨some p.hash, by simpa [atomMatchesHash] using set.childHash a inS p inP link⟩

theorem hash_unique (injective : Function.Injective getHash) (set : CausalSet getHash S)
    (a b : Atom T) (inA : a ∈ S) (inB : b ∈ S) (same : a.hash = b.hash) : a = b := by
  have ⟨left, madeA⟩ := hash_input set a inA
  have ⟨right, madeB⟩ := hash_input set b inB
  have inputs := injective (madeA.trans (same.trans madeB.symm))
  simp only [AtomHashInput.mk.injEq] at inputs
  apply set.string_unique a b inA inB
  simp only [atomIdToString, inputs]

end Hashes

/-! ### What the weave lets in -/

section Filter

variable [DecidableEq T] {getHash : AtomHashInput T → JsString} {S : List (Atom T)}
variable {w : Weave T} {lists : List (List (Atom T))}

omit [DecidableEq T] in
theorem insert_listed (set : CausalSet getHash S) (holds : Holds w lists)
    (members : ∀ b ∈ lists.flatten, b ∈ S) (a : Atom T) (listed : a ∈ lists.flatten)
    (causes : ∀ cause, a.cause = some cause → ∃ p ∈ lists.flatten,
      idEquals (some cause) (some p.id) = true) : w.insert getHash a = .ok (w, .atomAlreadyAdded a) := by
  obtain ⟨cells, repr, shown⟩ := holds
  subst shown
  rw [atoms_flatten] at listed causes members
  obtain ⟨d, inCells, same⟩ := List.mem_map.mp listed
  have node : w.getNode a.id = some d.1 :=
    (repr.getNode a.id d.1).mpr ⟨d, inCells, rfl, by rw [idKey, same]⟩
  have atom := repr.atomAt d (.inl inCells)
  rw [same] at atom
  have inS := members a listed
  cases caused : a.cause with
  | none =>
    have valid := set.rootHash a inS caused
    simp [Weave.insert, caused, Weave.insertRoot, valid, set.simple a inS, node, Weave.resolveConflict, atom]
  | some cause =>
    obtain ⟨p, inP, named⟩ := causes cause caused
    obtain ⟨e, inE, isP⟩ := List.mem_map.mp inP
    have found : w.getNode cause = some e.1 :=
      (repr.getNode cause e.1).mpr ⟨e, inE, rfl, by rw [idKey, isP, idEquals_string _ _ named]⟩
    have parent := repr.atomAt e (.inl inE)
    rw [isP] at parent
    have link : idEquals a.cause (some p.id) = true := caused ▸ named
    have inPS := members p inP
    have check := checkCause_none getHash a p (set.childHash a inS p inPS link) (set.newer a inS p inPS link)
    simp [Weave.insert, caused, found, Weave.insertChild, parent, check, node, Weave.resolveConflict, atom]

/-- Atoms that come after their causes are all let in, and the weave lists them. -/
theorem addable_all (set : CausalSet getHash S) (holds : Holds w lists)
    (sent listed : List (Atom T)) (same : ∀ a, a ∈ lists.flatten ↔ a ∈ listed)
    (members : ∀ b ∈ listed, b ∈ S) (inS : ∀ a ∈ sent, a ∈ S)
    (closed : ∀ a ∈ listed, ∀ cause, a.cause = some cause →
      ∃ p ∈ listed, idEquals (some cause) (some p.id) = true) (known : CausesKnown listed sent) :
    ∃ w' lists', addable getHash w sent = (w', .ok sent) ∧ Holds w' lists' ∧
      ∀ a, a ∈ lists'.flatten ↔ a ∈ listed ++ sent := by
  induction sent generalizing w lists listed with
  | nil => exact ⟨w, lists, rfl, holds, fun a => by simp [same]⟩
  | cons a rest ih =>
    have causes : ∀ cause, a.cause = some cause → ∃ p ∈ listed, idEquals (some cause) (some p.id) = true := by
      intro cause caused
      obtain ⟨p, inP, named⟩ := known [] a rest rfl cause caused
      exact ⟨p, by simpa using inP, named⟩
    have inLists : ∀ b ∈ lists.flatten, b ∈ S := fun b inside => members b ((same b).mp inside)
    have causesListed : ∀ cause, a.cause = some cause → ∃ p ∈ lists.flatten,
        idEquals (some cause) (some p.id) = true := by
      intro cause caused
      obtain ⟨p, inP, named⟩ := causes cause caused
      exact ⟨p, (same p).mpr inP, named⟩
    by_cases listedA : a ∈ lists.flatten
    · have ran := insert_listed set holds inLists a listedA causesListed
      have here := (same a).mp listedA
      have later : CausesKnown listed rest := by
        intro pre b post split cause caused
        obtain ⟨p, inP, named⟩ := known (a :: pre) b post (by rw [split, List.cons_append]) cause caused
        refine ⟨p, ?_, named⟩
        rcases mem_append.mp inP with old | sentBefore
        · exact List.mem_append_left _ old
        · rcases mem_cons.mp sentBefore with first | next
          · exact List.mem_append_left _ (first ▸ here)
          · exact List.mem_append_right _ next
      obtain ⟨w', lists', tail, held, atoms⟩ := ih holds listed same members
        (fun b member => inS b (List.mem_cons_of_mem _ member)) closed later
      refine ⟨w', lists', by simp [addable, ran, tail, isAddable, Except.map], held, fun b => ?_⟩
      rw [atoms, mem_append, mem_append, mem_cons]
      constructor
      · intro either
        exact either.imp id .inr
      · intro either
        rcases either with old | first | next
        · exact .inl old
        · exact .inl (first ▸ here)
        · exact .inr next
    · obtain ⟨mid, mids, ran, held, step⟩ := set.insert holds inLists a (inS a List.mem_cons_self)
        listedA causesListed
      have grown : ∀ b, b ∈ mids.flatten ↔ b ∈ a :: listed := by
        intro b
        rw [step.perm.mem_iff, mem_cons, mem_cons, same]
      have later : CausesKnown (a :: listed) rest := by
        intro pre b post split cause caused
        obtain ⟨p, inP, named⟩ := known (a :: pre) b post (by rw [split, List.cons_append]) cause caused
        exact ⟨p, by simpa [or_left_comm] using inP, named⟩
      obtain ⟨w', lists', tail, held', atoms⟩ := ih held (a :: listed) grown
        (fun b member => (mem_cons.mp member).elim (fun first => first ▸ inS a List.mem_cons_self)
          (members b))
        (fun b member => inS b (List.mem_cons_of_mem _ member))
        (fun b member cause caused => by
          obtain ⟨p, inP, named⟩ : ∃ p ∈ listed, idEquals (some cause) (some p.id) = true := by
            rcases mem_cons.mp member with first | old
            · exact causes cause (first ▸ caused)
            · exact closed b old cause caused
          exact ⟨p, List.mem_cons_of_mem _ inP, named⟩)
        later
      refine ⟨w', lists', by simp [addable, ran, tail, isAddable, Except.map], held', fun b => ?_⟩
      rw [atoms, mem_append, mem_append, mem_cons, mem_cons, or_assoc, or_left_comm]

end Filter

/-! ### One event -/

section Step

variable [DecidableEq T] {getHash : AtomHashInput T → JsString} {S : List (Atom T)}
variable {s : Live T} {listed : List (Atom T)}

omit [DecidableEq T] in
theorem getAtoms_repo (agrees : InAgreement S s listed) (a : Atom T) : a ∈ s.data.repo.getAtoms ↔ a ∈ listed := by
  rw [getAtoms, OrderedMap.mem_values]
  constructor
  · intro ⟨hash, found⟩
    exact ((agrees.repo hash a).mp found).1
  · intro inside
    exact ⟨a.hash, (agrees.repo a.hash a).mpr ⟨inside, rfl⟩⟩

omit [DecidableEq T] in
theorem getAtoms_weave (agrees : InAgreement S s listed) :
    ∃ atoms, s.data.weave.getAtoms = some atoms ∧ ∀ a, a ∈ atoms ↔ a ∈ listed := by
  have ⟨lists, ⟨cells, repr, shown⟩, same⟩ := agrees.weave
  have read := rootLists_repr repr
  rw [shown, rootLists] at read
  exact ⟨lists.flatten, by rw [Weave.getAtoms, read, Option.map_some], same⟩

omit [DecidableEq T] in
theorem firstOn_sent (injective : Function.Injective getHash) (set : CausalSet getHash S)
    (sent : List (Atom T)) (inS : ∀ a ∈ sent, a ∈ S) (hash : JsString) (a : Atom T) :
    firstOn hash sent = some a ↔ a ∈ sent ∧ a.hash = hash := by
  constructor
  · intro found
    exact ⟨List.mem_of_find?_eq_some found, by simpa using List.find?_some found⟩
  · intro ⟨member, named⟩
    cases found : firstOn hash sent with
    | none => exact absurd named ((firstOn_none hash sent).mp found a member)
    | some b =>
      have inB : b ∈ sent := List.mem_of_find?_eq_some found
      have namedB : b.hash = hash := by simpa using List.find?_some found
      rw [hash_unique injective set b a (inS b inB) (inS a member) (namedB.trans named.symm)]

/-- An event whose atoms come after their causes is acknowledged, and its atoms are in the repository and
in the weave. -/
theorem addAtoms_agrees (injective : Function.Injective getHash) (set : CausalSet getHash S)
    (agrees : InAgreement S s listed) (isUnprotected : Unprotected s) (event : AddAtomsEvent T)
    (isTemp authenticated : Bool) (keeps : event.removedAtoms = [])
    (inS : ∀ a ∈ event.atoms, a ∈ S) (known : CausesKnown listed event.atoms) :
    ∃ next sent, s.addAtoms getHash event isTemp authenticated = some (next, sent) ∧
      sent.atomsReceived = some (event.atoms.map Atom.hash) ∧ Unprotected next ∧
      InAgreement S next (listed ++ event.atoms) := by
  have ⟨lists, holds, same⟩ := agrees.weave
  have ⟨w, grown, ran, held, all⟩ :=
    addable_all set holds event.atoms listed same agrees.members inS agrees.closed known
  have settings : s.data.settings.passwordHash.any (· ≠ []) = false := isUnprotected
  have closed : ∀ a ∈ listed ++ event.atoms, ∀ cause, a.cause = some cause →
      ∃ p ∈ listed ++ event.atoms, idEquals (some cause) (some p.id) = true := by
    intro a member cause caused
    rcases mem_append.mp member with old | new
    · have ⟨p, inP, named⟩ := agrees.closed a old cause caused
      exact ⟨p, List.mem_append_left _ inP, named⟩
    · have ⟨pre, post, split⟩ := List.append_of_mem new
      have ⟨p, inP, named⟩ := known pre a post split cause caused
      exact ⟨p, by simpa [split, or_assoc] using (mem_append.mp inP).imp id .inl, named⟩
  have repo : ∀ hash a, (s.data.repo.addMany event.atoms).1.atoms.get hash = some a ↔
      a ∈ listed ++ event.atoms ∧ a.hash = hash := by
    intro hash a
    rw [addMany_get, Option.or_eq_some_iff, agrees.repo, firstOn_sent injective set _ inS, mem_append]
    constructor
    · intro either
      rcases either with ⟨old, named⟩ | ⟨_, new, named⟩
      · exact ⟨.inl old, named⟩
      · exact ⟨.inr new, named⟩
    · intro ⟨member, named⟩
      rcases member with old | new
      · exact .inl ⟨old, named⟩
      · cases found : s.data.repo.atoms.get hash with
        | none => exact .inr ⟨rfl, new, named⟩
        | some b =>
          have ⟨inB, namedB⟩ := (agrees.repo hash b).mp found
          have equal := hash_unique injective set b a (agrees.members b inB) (inS a new) (namedB.trans named.symm)
          exact .inl ⟨equal ▸ inB, named⟩
  simp only [Live.addAtoms, settings, Bool.false_and, Bool.false_eq_true, if_false, ran, keeps, removable,
    Live.letIn, Live.dismiss, removeMany]
  refine ⟨_, _, rfl, by simp [acknowledgement, keeps], ?_, ?_⟩
  · cases isTemp <;> exact isUnprotected
  · have members : ∀ a ∈ listed ++ event.atoms, a ∈ S := fun a member =>
      (mem_append.mp member).elim (agrees.members a) (inS a)
    cases isTemp with
    | true => exact ⟨members, closed, ⟨grown, held, all⟩, repo⟩
    | false => exact ⟨members, closed, ⟨grown, held, all⟩, repo⟩

theorem serve_agrees (injective : Function.Injective getHash) (set : CausalSet getHash S)
    (agrees : InAgreement S s listed) (isUnprotected : Unprotected s) (isTemp : Bool)
    (events : List (AddAtomsEvent T × Bool)) (keeps : ∀ event ∈ events, event.1.removedAtoms = [])
    (inS : ∀ a ∈ sentAtoms events, a ∈ S) (known : CausesKnown listed (sentAtoms events)) :
    ∃ final, serve getHash isTemp s events = some (final, (sentAtoms events).map Atom.hash) ∧
      InAgreement S final (listed ++ sentAtoms events) := by
  induction events generalizing s listed with
  | nil => exact ⟨s, rfl, by simpa [sentAtoms] using agrees⟩
  | cons first rest ih =>
    have split : sentAtoms (first :: rest) = first.1.atoms ++ sentAtoms rest := rfl
    rw [split] at inS known ⊢
    have ⟨next, sent, ran, acked, open', agrees'⟩ := addAtoms_agrees injective set agrees isUnprotected
      first.1 isTemp first.2 (keeps first List.mem_cons_self)
      (fun a member => inS a (List.mem_append_left _ member)) known.left
    have ⟨final, later, agreed⟩ := ih agrees' open' (fun event member => keeps event (List.mem_cons_of_mem _ member))
      (fun a member => inS a (List.mem_append_right _ member)) known.right
    refine ⟨final, ?_, append_assoc .. ▸ agreed⟩
    simp only [serve, ran, later, acked, Option.map_some, Option.getD_some, List.map_append]

/-- Of a run whose atoms come after their causes, every acknowledged atom is kept. -/
theorem acknowledged_kept (injective : Function.Injective getHash) (set : CausalSet getHash S)
    (agrees : InAgreement S s listed) (isUnprotected : Unprotected s) (isTemp : Bool)
    (events : List (AddAtomsEvent T × Bool)) (keeps : ∀ event ∈ events, event.1.removedAtoms = [])
    (inS : ∀ a ∈ sentAtoms events, a ∈ S) (known : CausesKnown listed (sentAtoms events)) :
    ∃ final acked, serve getHash isTemp s events = some (final, acked) ∧
      (∀ a ∈ sentAtoms events, a.hash ∈ acked) ∧ Kept (sentAtoms events) acked final := by
  have ⟨final, ran, agreed⟩ :=
    serve_agrees injective set agrees isUnprotected isTemp events keeps inS known
  refine ⟨final, _, ran, fun a member => List.mem_map_of_mem member, ⟨fun a member _ => ?_, ?_⟩⟩
  · exact (getAtoms_repo agreed a).mpr (List.mem_append_right _ member)
  · have ⟨atoms, read, same⟩ := getAtoms_weave agreed
    exact ⟨atoms, read, fun a => (getAtoms_repo agreed a).trans (same a).symm⟩

end Step

/-! ### A child that comes first -/

section Sample

open HashText Redelivery StageReplay

theorem sample_agrees : InAgreement chain sampleLive [] where
  members := by simp
  closed := by simp
  weave := ⟨[], holds_new none, by simp⟩
  repo := by
    intro hash a
    simp [sampleLive, CausalRepo.new]

def adding (atom : Atom Unit) : AddAtomsEvent Unit × Bool := ({ atoms := [atom], removedAtoms := [] }, false)

theorem chain_kept : ∃ final acked,
    serve unitHash false sampleLive [adding chainRoot, adding chainMiddle] = some (final, acked) ∧
      (∀ a ∈ sentAtoms [adding chainRoot, adding chainMiddle], a.hash ∈ acked) ∧
      Kept (sentAtoms [adding chainRoot, adding chainMiddle]) acked final := by
  apply acknowledged_kept unitHash_injective chain_causal sample_agrees rfl
  · simp [adding]
  · simp [sentAtoms, adding, chain]
  · intro pre a post split cause caused
    match pre with
    | [] =>
      obtain rfl : chainRoot = a := (List.cons.inj split).1
      cases caused
    | [first] =>
      have parts := List.cons.inj split
      have second : chainMiddle = a := (List.cons.inj parts.2).1
      subst second
      refine ⟨chainRoot, by simp [← parts.1], ?_⟩
      have link : idEquals chainMiddle.cause (some chainRoot.id) = true := by decide +kernel
      exact caused ▸ link
    | first :: second :: others =>
      have parts := List.cons.inj split
      have empty := (List.cons.inj parts.2).2
      simp at empty

/-- Both atoms are acknowledged and in the weave, and neither is in the repository. -/
theorem early_child_lost : ∃ final acked,
    serve unitHash false sampleLive [adding chainMiddle, adding chainRoot] = some (final, acked) ∧
      acked = [chainMiddle.hash, chainRoot.hash] ∧ final.data.repo.getAtoms = [] ∧
      final.data.weave.getAtoms = some [chainRoot, chainMiddle] ∧
      ¬ Kept (sentAtoms [adding chainMiddle, adding chainRoot]) acked final := by
  have shown : (serve unitHash false sampleLive [adding chainMiddle, adding chainRoot]).map
      (fun made => (made.2, made.1.data.repo.getAtoms, made.1.data.weave.getAtoms)) =
        some ([chainMiddle.hash, chainRoot.hash], [], some [chainRoot, chainMiddle]) := by
    decide +kernel
  have ⟨made, ran, same⟩ := Option.map_eq_some_iff.mp shown
  simp only [Prod.mk.injEq] at same
  have ⟨acked, empty, listed⟩ := same
  refine ⟨made.1, made.2, ran, acked, empty, listed, fun kept => ?_⟩
  have inside := kept.present chainRoot (by simp [sentAtoms, adding]) (by simp [acked])
  rw [empty] at inside
  cases inside

end Sample

end CasualOS.Acknowledged
