import CasualOS.BranchIsolation
import CasualOS.RepoContents
import CasualOS.RepoServer
import CasualOS.WeaveNodes

/-! The stage that is stored for a branch, against the repository that is loaded. -/

namespace CasualOS.StageReplay

open CausalRepo BranchIsolation RepoContents WeaveNodes
open HashText (hashText unitHash)
open Option (some)

variable {T : Type}

def stageOf (s : Live T) : AtomIndexFullDiff T := s.stages.getStage s.branch

def baseAtoms (data : Option (CommitData T)) : OrderedMap JsString (Atom T) :=
  match data with
  | some data => data.atoms
  | none => OrderedMap.empty

/-- `getHash` never gives an atom the hash of a commit or of an index. -/
def AtomsApart (hashes : Hashes T) : Prop :=
  ∀ input texts commit, hashes.ofAtom input ≠ hashes.ofList texts ∧
    hashes.ofAtom input ≠ hashes.ofCommit commit

/-- The branch is empty, or a commit was stored for it with its index and its atoms. -/
def Anchored (hashes : Hashes T) (store : MemoryCausalRepoStore T) (head : CausalRepoBranch) : Prop :=
  head.hash = none ∨ ∃ c i, ∃ atoms : List (Atom T), head.hash = some c.hash ∧
    store.getObject c.hash = some (.commit c) ∧ store.getObject c.index = some (.index i) ∧
    store.indexes.get i.hash = some (atoms.map .atom) ∧
    (∃ input, c.hash = hashes.ofCommit input) ∧ ∃ texts, c.index = hashes.ofList texts

/-- The branch is loaded and nothing has changed since its last commit. -/
structure JustCommitted (hashes : Hashes T) (s : Live T) (head : CausalRepoBranch)
    (data : Option (CommitData T)) : Prop where
  named : head.name = s.branch
  inStore : head ∈ s.store.branches
  anchored : Anchored hashes s.store head
  loads : loadBranch s.store head = .ok data
  repo : s.data.repo =
    { stage := emptyStage, atoms := baseAtoms data, head := some head, currentCommit := data }
  stage : stageOf s = emptyStage
  valid : Valid s.data.weave

/-- Loading the branch afresh succeeds, with the atoms of the loaded repository. -/
def Replays (getHash : AtomHashInput T → JsString) (s : Live T) : Prop :=
  ∀ create now, ∃ loaded, loadRepo getHash s.store s.stages s.branch create now = .ok loaded ∧
    ∀ hash, loaded.repo.atoms.get hash = s.data.repo.atoms.get hash

/-- An atom that is let in was not removed since the commit, unless the same event removes it again. -/
def ReaddsNothing [DecidableEq T] (getHash : AtomHashInput T → JsString) (s : Live T)
    (event : AddAtomsEvent T) : Prop :=
  ∀ accepted, (addable getHash s.data.weave event.atoms).2 = .ok accepted → ∀ a ∈ accepted,
    (stageOf s).deletions.get a.hash ≠ none →
      ∃ again, removable (addable getHash s.data.weave event.atoms).1 event.removedAtoms =
        .ok (some again) ∧ a.hash ∈ again

section Runs

variable [DecidableEq T] (getHash : AtomHashInput T → JsString)

/-- The property holds before and after every event of a sequence; each event comes with whether its
device is authenticated. -/
def Throughout (P : Live T → Prop) : Live T → List (AddAtomsEvent T × Bool) → Prop
  | s, [] => P s
  | s, (event, authenticated) :: rest =>
    P s ∧ ∀ next sent, s.addAtoms getHash event false authenticated = some (next, sent) →
      Throughout P next rest

def Blocked (s : Live T) (authenticated : Bool) : Prop :=
  (s.data.settings.passwordHash.any (· ≠ []) && !authenticated) = true

/-- Every event that is not blocked adds nothing that was removed. -/
def EachReaddsNothing : Live T → List (AddAtomsEvent T × Bool) → Prop
  | _, [] => True
  | s, (event, authenticated) :: rest =>
    ∀ next sent, s.addAtoms getHash event false authenticated = some (next, sent) →
      (Blocked s authenticated ∨ ReaddsNothing getHash s event) ∧ EachReaddsNothing next rest

end Runs

/-! ### Only atoms with a right hash are let in -/

section Accepted

variable {getHash : AtomHashInput T → JsString}

theorem hash_of_match (atom : Atom T) (cause : Option (Atom T))
    (valid : atomMatchesHash getHash atom cause = true) : ∃ input, atom.hash = getHash input := by
  rw [atomMatchesHash, decide_eq_true_eq] at valid
  exact ⟨_, valid.symm⟩

theorem checkCause_rejects (atom cause : Atom T) (rejection : WeaveResult T)
    (check : Weave.checkCause getHash atom cause = some rejection) :
    rejection = .hashFailed atom ∨ rejection = .invalidTimestamp atom := by
  unfold Weave.checkCause at check
  split at check
  · exact .inl (some.inj check).symm
  · split at check
    · exact .inr (some.inj check).symm
    · cases check

theorem missing_rejected (w : Weave T) (made : Weave T × WeaveResult T) (atom : Atom T) (cause : AtomId)
    [DecidableEq T] (ran : w.insertMissing getHash atom cause = .ok made) :
    isAddable atom made.2 = false := by
  unfold Weave.insertMissing at ran
  split at ran
  · rw [← Except.ok.inj ran]
    rfl
  · simp only at ran
    split at ran
    · next rejection check =>
        rcases Option.bind_eq_some_iff.mp check with ⟨c, _, rejected⟩
        rw [← Except.ok.inj ran]
        rcases checkCause_rejects atom c rejection rejected with same | same
        · rw [same]
          rfl
        · rw [same]
          rfl
    · split at ran
      · rcases ok_of_bind _ _ _ ran with ⟨linked, _, later⟩
        rcases ok_of_bind _ _ _ later with ⟨waited, _, last⟩
        rw [← Except.ok.inj last]
        rfl
      · rcases ok_of_bind _ _ _ ran with ⟨linked, _, later⟩
        rcases ok_of_bind _ _ _ later with ⟨waited, _, last⟩
        rw [← Except.ok.inj last]
        rfl

variable [DecidableEq T]

theorem hash_of_addable (w : Weave T) (made : Weave T × WeaveResult T) (atom : Atom T) (valid : Valid w)
    (ran : w.insert getHash atom = .ok made) (kept : isAddable atom made.2 = true) :
    ∃ input, atom.hash = getHash input := by
  unfold Weave.insert at ran
  split at ran
  · cases right : atomMatchesHash getHash atom none with
    | true => exact hash_of_match atom none right
    | false =>
      simp only [Weave.insertRoot, right, Bool.not_false, if_true] at ran
      rw [← Except.ok.inj ran] at kept
      cases kept
  · split at ran
    · rw [missing_rejected w made atom _ ran] at kept
      cases kept
    · next n found =>
        unfold Weave.insertChild at ran
        cases cause : w.atomAt n with
        | none => exact absurd cause (valid _ n found)
        | some c =>
          cases check : Weave.checkCause getHash atom c with
          | some rejection =>
            simp only [cause, Option.bind_some, check] at ran
            rw [← Except.ok.inj ran] at kept
            rcases checkCause_rejects atom c rejection check with same | same
            · rw [same] at kept
              cases kept
            · rw [same] at kept
              cases kept
          | none =>
            cases right : atomMatchesHash getHash atom (some c) with
            | true => exact hash_of_match atom (some c) right
            | false => simp [Weave.checkCause, right] at check

variable (getHash) in
theorem addable_spec (w : Weave T) (atoms : List (Atom T)) (valid : Valid w) :
    Valid (addable getHash w atoms).1 ∧ ∀ accepted, (addable getHash w atoms).2 = .ok accepted →
      ∀ a ∈ accepted, ∃ input, a.hash = getHash input := by
  induction atoms generalizing w with
  | nil =>
    refine ⟨valid, fun accepted ran a member => ?_⟩
    rw [← Except.ok.inj ran] at member
    cases member
  | cons atom rest ih =>
    cases ran : w.insert getHash atom with
    | error failure =>
      simp only [addable, ran]
      exact ⟨valid, fun accepted impossible => by cases impossible⟩
    | ok made =>
      have later := ih made.1 ((keeps_insert getHash w made atom ran).valid valid)
      simp only [addable, ran]
      refine ⟨later.1, fun accepted both a member => ?_⟩
      cases tail : (addable getHash made.1 rest).2 with
      | error failure =>
        rw [tail] at both
        cases both
      | ok kept =>
        rw [tail] at both
        have shape := Except.ok.inj both
        cases let_in : isAddable atom made.2 with
        | false =>
          simp only [let_in, Bool.false_eq_true, if_false] at shape
          exact later.2 kept tail a (shape ▸ member)
        | true =>
          simp only [let_in, if_true] at shape
          rw [← shape] at member
          rcases List.mem_cons.mp member with here | inTail
          · exact here ▸ hash_of_addable w made atom valid ran let_in
          · exact later.2 kept tail a inTail

end Accepted

/-! ### What the stage tracks -/

/-- The loaded repository differs from the head and the stored additions only in hashes that were
removed. -/
structure Tracks (hashes : Hashes T) (s : Live T) (head : CausalRepoBranch)
    (data : Option (CommitData T)) : Prop where
  named : head.name = s.branch
  inStore : head ∈ s.store.branches
  anchored : Anchored hashes s.store head
  loads : loadBranch s.store head = .ok data
  keyed : Keyed s.data.repo.atoms
  kept : ∀ hash, (stageOf s).deletions.get hash = none →
    s.data.repo.atoms.get hash = ((baseAtoms data).get hash).or (firstOn hash (stageOf s).additions)
  valid : Valid s.data.weave

theorem mapM_atomOf (atoms : List (Atom T)) :
    (atoms.map (fun a => some (CausalRepoObject.atom a))).mapM atomOf = .ok atoms := by
  induction atoms with
  | nil => rfl
  | cons a rest ih =>
    rw [List.map_cons, List.mapM_cons, ih]
    rfl

theorem loads_anchored (hashes : Hashes T) (store : MemoryCausalRepoStore T) (head : CausalRepoBranch)
    (anchored : Anchored hashes store head) :
    (head.hash = none ∧ loadBranch store head = .ok none) ∨
      ∃ c i atoms, head.hash = some c.hash ∧ loadBranch store head =
        .ok (some { commit := some c, index := i, atoms := atomMap atoms }) := by
  rcases anchored with empty | ⟨c, i, atoms, pointed, stored, index, list, _, _⟩
  · exact .inl ⟨empty, by simp [loadBranch, empty]⟩
  · right
    refine ⟨c, i, atoms, pointed, ?_⟩
    have data : store.loadIndex head.name i = atoms.map (fun a => some (CausalRepoObject.atom a)) := by
      simp [MemoryCausalRepoStore.loadIndex, list]
    simp only [loadBranch, pointed, Option.bind_some, stored, loadCommit, index, loadIndexData,
      loadAtomsForHeadOrIndex, data, mapM_atomOf, Except.map]

theorem keyed_base (hashes : Hashes T) (store : MemoryCausalRepoStore T) (head : CausalRepoBranch)
    (data : Option (CommitData T)) (anchored : Anchored hashes store head)
    (loads : loadBranch store head = .ok data) : Keyed (baseAtoms data) := by
  rcases loads_anchored hashes store head anchored with ⟨_, none⟩ | ⟨c, i, atoms, _, some⟩
  · rw [none] at loads
    rw [← Except.ok.inj loads]
    intro hash a found
    cases found
  · rw [some] at loads
    rw [← Except.ok.inj loads]
    exact keyed_atomMap atoms

theorem tracks_committed {hashes : Hashes T} {s : Live T} {head : CausalRepoBranch}
    {data : Option (CommitData T)} (committed : JustCommitted hashes s head data) :
    Tracks hashes s head data where
  named := committed.named
  inStore := committed.inStore
  anchored := committed.anchored
  loads := committed.loads
  keyed := by
    rw [committed.repo]
    exact keyed_base hashes s.store head data committed.anchored committed.loads
  kept := by
    intro hash _
    rw [committed.repo, committed.stage]
    simp [emptyStage, firstOn]
  valid := committed.valid

section Replay

variable {hashes : Hashes T} {s : Live T} {head : CausalRepoBranch} {data : Option (CommitData T)}
variable {getHash : AtomHashInput T → JsString}

theorem mem_keys (list : AtomHashList) (hash : JsString) : hash ∈ list.entries.map Prod.fst ↔ list.get hash ≠ none := by
  rw [Option.ne_none_iff_exists']
  simp [OrderedMap.get_iff_mem]

variable (getHash) in
theorem replayed_get (tracks : Tracks hashes s head data) (create : Bool) (now : Int) :
    ∃ loaded, loadRepo getHash s.store s.stages s.branch create now = .ok loaded ∧ ∀ hash, loaded.repo.atoms.get hash =
        if (stageOf s).deletions.get hash ≠ none then none
        else ((baseAtoms data).get hash).or (firstOn hash (stageOf s).additions) := by
  have present : s.branch ∈ names s.store :=
    List.mem_map.mpr ⟨head, tracks.inStore, tracks.named⟩
  rcases getBranches_first s.store s.branch present with ⟨b, rest, first, inStore, named⟩
  have own : b = head := same_branch s.store b head inStore tracks.inStore (named.trans tracks.named.symm)
  subst own
  have saved : loadBranch (s.store.saveBranch b now) b = .ok data := tracks.loads
  have opened : CausalRepo.new.checkout s.store s.branch (if create then some none else none) now =
      { repo := ({ CausalRepo.new with head := some b } : CausalRepo T).setCurrentCommit data
        store := s.store.saveBranch b now
        result := .ok () } := by
    simp only [checkout, first, moveHead, checkoutHead, saved]
  simp only [loadRepo, opened]
  refine ⟨_, rfl, fun hash => ?_⟩
  have base : (({ CausalRepo.new with head := some b } : CausalRepo T).setCurrentCommit data).atoms =
      baseAtoms data := by
    cases data <;> rfl
  simp only [replayStage, removeMany_get, addMany_get, base, mem_keys]
  rfl

/-- A fresh load shows the loaded repository exactly when nothing that was removed is there again. -/
theorem replays_iff (tracks : Tracks hashes s head data) : Replays getHash s ↔
      ∀ hash, (stageOf s).deletions.get hash ≠ none → s.data.repo.atoms.get hash = none := by
  constructor
  · intro replays hash removed
    rcases replays true 0 with ⟨loaded, ran, same⟩
    rcases replayed_get getHash tracks true 0 with ⟨loaded', ran', shown⟩
    rw [ran] at ran'
    have agree := shown hash
    rw [← Except.ok.inj ran', same, if_pos removed] at agree
    exact agree
  · intro gone create now
    rcases replayed_get getHash tracks create now with ⟨loaded, ran, shown⟩
    refine ⟨loaded, ran, fun hash => ?_⟩
    rw [shown]
    by_cases removed : (stageOf s).deletions.get hash = none
    · rw [if_neg (not_not.mpr removed), tracks.kept hash removed]
    · rw [if_pos removed, gone hash removed]

end Replay

/-! ### One event -/

section Step

variable {hashes : Hashes T} {s : Live T} {head : CausalRepoBranch} {data : Option (CommitData T)}

theorem get_storeAll (objects : List (CausalRepoObject T))
    (map : OrderedMap JsString (CausalRepoObject T)) (key : JsString)
    (absent : ∀ obj ∈ objects, getObjectHash obj ≠ key) :
    (objects.foldl (fun map obj => map.set (getObjectHash obj) obj) map).get key = map.get key := by
  induction objects generalizing map with
  | nil => rfl
  | cons obj rest ih =>
    rw [List.foldl_cons, ih _ (fun o member => absent o (List.mem_cons_of_mem _ member)),
      OrderedMap.get_set, if_neg (Ne.symm (absent obj List.mem_cons_self))]

theorem anchored_storeAtoms (apart : AtomsApart hashes) (store : MemoryCausalRepoStore T)
    (branch : JsString) (atoms : List (Atom T)) (right : ∀ a ∈ atoms, ∃ input, a.hash = hashes.ofAtom input)
    (anchored : Anchored hashes store head) :
    Anchored hashes (store.storeObjects branch (atoms.map .atom)) head ∧
      loadBranch (store.storeObjects branch (atoms.map .atom)) head = loadBranch store head := by
  have kept : ∀ key, ((∃ input, key = hashes.ofCommit input) ∨ ∃ texts, key = hashes.ofList texts) →
      (store.storeObjects branch (atoms.map .atom)).getObject key = store.getObject key := by
    intro key made
    apply get_storeAll
    intro obj member same
    rcases List.mem_map.mp member with ⟨a, inside, rfl⟩
    rcases right a inside with ⟨input, hashed⟩
    have named : key = hashes.ofAtom input := same.symm.trans hashed
    rcases made with ⟨commit, other⟩ | ⟨texts, other⟩
    · exact (apart input [] commit).2 (named.symm.trans other)
    · exact (apart input texts ⟨[], 0, [], none⟩).1 (named.symm.trans other)
  rcases anchored with empty | ⟨c, i, list, pointed, stored, index, listed, commit, texts⟩
  · exact ⟨.inl empty, by simp [loadBranch, empty]⟩
  · have first := (kept c.hash (.inl commit)).trans stored
    have second := (kept c.index (.inr texts)).trans index
    refine ⟨.inr ⟨c, i, list, pointed, first, second, listed, commit, texts⟩, ?_⟩
    have same : ∀ name, (store.storeObjects branch (atoms.map .atom)).loadIndex name i = store.loadIndex name i := by
      intro name
      simp only [MemoryCausalRepoStore.loadIndex, listed]
      rw [show (store.storeObjects branch (atoms.map .atom)).indexes.get i.hash = some (list.map .atom) from listed]
    simp only [loadBranch, pointed, Option.bind_some, first, stored, loadCommit, second, index,
      loadIndexData, loadAtomsForHeadOrIndex, same]

theorem Tracks.withWeave (tracks : Tracks hashes s head data) (w : Weave T) (valid : Valid w) :
    Tracks hashes (s.withWeave w) head data :=
  { tracks with valid := valid }

theorem stageOf_stored (s : Live T) (added : List (Atom T)) : stageOf (s.storeAdded false added) =
      { stageOf s with additions := (stageOf s).additions ++ added } := by
  simp [stageOf, Live.storeAdded, MemoryStageStore.addAtoms, MemoryStageStore.getStage, OrderedMap.get_set]

theorem Tracks.letIn (apart : AtomsApart hashes) (tracks : Tracks hashes s head data)
    (accepted : List (Atom T)) (right : ∀ a ∈ accepted, ∃ input, a.hash = hashes.ofAtom input) :
    Tracks hashes (s.letIn accepted false).1 head data ∧
      (stageOf (s.letIn accepted false).1).deletions = (stageOf s).deletions ∧
      ∀ hash, (s.letIn accepted false).1.data.repo.atoms.get hash =
        (s.data.repo.atoms.get hash).or (firstOn hash accepted) := by
  have added : ∀ a ∈ (s.data.repo.addMany accepted).2, ∃ input, a.hash = hashes.ofAtom input :=
    fun a member => right a (addMany_subset s.data.repo accepted a member)
  have anchored := anchored_storeAtoms apart s.store s.branch _ added tracks.anchored
  have live := addMany_get s.data.repo accepted
  have stage : stageOf (s.letIn accepted false).1 =
      { stageOf s with additions := (stageOf s).additions ++ (s.data.repo.addMany accepted).2 } :=
    stageOf_stored _ _
  refine ⟨⟨tracks.named, tracks.inStore, anchored.1, anchored.2.trans tracks.loads,
    keyed_addMany _ accepted tracks.keyed, fun hash absent => ?_, tracks.valid⟩, by rw [stage], live⟩
  rw [stage] at absent ⊢
  have before := tracks.kept hash absent
  rw [firstOn_append, addMany_added, ← Option.or_assoc, ← before]
  refine (live hash).trans ?_
  cases present : s.data.repo.atoms.get hash <;> simp

theorem stageOf_removed (s : Live T) (removed : List (Atom T)) (hash : JsString) :
    (stageOf (s.storeRemoved false removed)).additions = (stageOf s).additions ∧
      ((stageOf (s.storeRemoved false removed)).deletions.get hash = none ↔
        (stageOf s).deletions.get hash = none ∧ ∀ a ∈ removed, a.hash ≠ hash) := by
  have all : ∀ list : AtomHashList,
      (removed.foldl (fun list atom => list.set atom.hash (atomIdToString atom.id)) list).get hash =
        none ↔ list.get hash = none ∧ ∀ a ∈ removed, a.hash ≠ hash := by
    induction removed with
    | nil => simp
    | cons a rest ih =>
      intro list
      rw [List.foldl_cons, ih, OrderedMap.get_set]
      by_cases same : hash = a.hash
      · simp [same]
      · simp [same, Ne.symm same]
  constructor
  · simp [stageOf, Live.storeRemoved, MemoryStageStore.removeAtoms, MemoryStageStore.getStage, OrderedMap.get_set]
  · rw [← all]
    simp [stageOf, Live.storeRemoved, MemoryStageStore.removeAtoms, MemoryStageStore.getStage, OrderedMap.get_set]

theorem Tracks.dismiss (tracks : Tracks hashes s head data) (accepted : List JsString) :
    Tracks hashes (s.dismiss accepted false).1 head data ∧
      (∀ hash, (s.dismiss accepted false).1.data.repo.atoms.get hash =
        if hash ∈ accepted then none else s.data.repo.atoms.get hash) ∧
      ∀ hash, (stageOf (s.dismiss accepted false).1).deletions.get hash = none ↔ (stageOf s).deletions.get hash = none ∧
          ¬ (hash ∈ accepted ∧ s.data.repo.atoms.get hash ≠ none) := by
  have live := removeMany_get s.data.repo accepted
  have stage := stageOf_removed (s.withRepo (s.data.repo.removeMany accepted).1) (s.data.repo.removeMany accepted).2
  have gone : ∀ hash, (∀ a ∈ (s.data.repo.removeMany accepted).2, a.hash ≠ hash) ↔
      ¬ (hash ∈ accepted ∧ s.data.repo.atoms.get hash ≠ none) := by
    intro hash
    rw [← removeMany_removed s.data.repo accepted tracks.keyed hash]
    simp only [not_exists, not_and]
  have deletions : ∀ hash, (stageOf (s.dismiss accepted false).1).deletions.get hash = none ↔
      (stageOf s).deletions.get hash = none ∧
        ¬ (hash ∈ accepted ∧ s.data.repo.atoms.get hash ≠ none) := by
    intro hash
    rw [← gone]
    exact (stage hash).2
  refine ⟨⟨tracks.named, tracks.inStore, tracks.anchored, tracks.loads,
    keyed_removeMany _ accepted tracks.keyed, fun hash absent => ?_, tracks.valid⟩, live, deletions⟩
  have still := (deletions hash).mp absent
  have before := tracks.kept hash still.1
  have additions : (stageOf (s.dismiss accepted false).1).additions = (stageOf s).additions :=
    (stage hash).1
  rw [additions, ← before]
  refine (live hash).trans ?_
  split
  · next named =>
      have none := not_and.mp still.2 named
      exact (not_not.mp none).symm
  · rfl

/-- What was let in shows after a fresh load exactly when none of it was removed since the commit. -/
theorem admitted_replays (getHash : AtomHashInput T → JsString) {next : Live T} {accepted : List (Atom T)}
    (tracks : Tracks hashes next head data) (gone : ∀ hash, (stageOf s).deletions.get hash ≠ none →
      s.data.repo.atoms.get hash = none) (deletions : (stageOf next).deletions = (stageOf s).deletions)
    (live : ∀ hash, next.data.repo.atoms.get hash =
      (s.data.repo.atoms.get hash).or (firstOn hash accepted)) :
    Replays getHash next ↔ ∀ a ∈ accepted, (stageOf s).deletions.get a.hash = none := by
  rw [replays_iff tracks, deletions]
  constructor
  · intro absent a member
    by_contra removed
    have left := absent a.hash removed
    rw [live, Option.or_eq_none_iff] at left
    exact (firstOn_none a.hash accepted).mp left.2 a member rfl
  · intro fresh hash removed
    rw [live, gone hash removed, Option.none_or, firstOn_none]
    intro a member same
    exact removed (same ▸ fresh a member)

/-- With the removals of the event: what was removed since the commit must be removed again. -/
theorem dismissed_replays {getHash : AtomHashInput T → JsString} {mid : Live T} {accepted : List (Atom T)}
    {again : List JsString} (tracks : Tracks hashes mid head data)
    (gone : ∀ hash, (stageOf s).deletions.get hash ≠ none → s.data.repo.atoms.get hash = none)
    (deletions : (stageOf mid).deletions = (stageOf s).deletions)
    (live : ∀ hash, mid.data.repo.atoms.get hash =
      (s.data.repo.atoms.get hash).or (firstOn hash accepted)) :
    Replays getHash (mid.dismiss again false).1 ↔
      ∀ a ∈ accepted, (stageOf s).deletions.get a.hash ≠ none → a.hash ∈ again := by
  have dismissed := tracks.dismiss again
  rw [replays_iff dismissed.1]
  constructor
  · intro absent a member removed
    by_contra kept
    have left := absent a.hash (fun none =>
      removed (deletions ▸ ((dismissed.2.2 a.hash).mp none).1))
    rw [dismissed.2.1, if_neg kept, live, Option.or_eq_none_iff] at left
    exact (firstOn_none a.hash accepted).mp left.2 a member rfl
  · intro again' hash deleted
    rw [dismissed.2.1]
    split
    · rfl
    · next unnamed =>
        have early : (stageOf s).deletions.get hash ≠ none := by
          intro none
          apply deleted
          rw [dismissed.2.2, deletions]
          exact ⟨none, fun both => unnamed both.1⟩
        rw [live, gone hash early, Option.none_or, firstOn_none]
        intro a member same
        exact unnamed (same ▸ again' a member (same ▸ early))

variable [DecidableEq T] {getHash : AtomHashInput T → JsString}

theorem readds_none {event : AddAtomsEvent T} {w : Weave T} {accepted : List (Atom T)}
    (filtered : addable getHash s.data.weave event.atoms = (w, .ok accepted))
    (thrown : ∀ again, removable w event.removedAtoms ≠ .ok (some again)) :
    (∀ a ∈ accepted, (stageOf s).deletions.get a.hash = none) ↔ ReaddsNothing getHash s event := by
  simp only [ReaddsNothing, filtered, Except.ok.injEq]
  constructor
  · intro fresh other same a member removed
    exact absurd (fresh a (same ▸ member)) removed
  · intro nothing a member
    by_contra removed
    rcases nothing accepted rfl a member removed with ⟨again, kept, _⟩
    exact thrown again kept

theorem readds_again {event : AddAtomsEvent T} {w : Weave T} {accepted : List (Atom T)}
    {again : List JsString} (filtered : addable getHash s.data.weave event.atoms = (w, .ok accepted))
    (filter : removable w event.removedAtoms = .ok (some again)) :
    (∀ a ∈ accepted, (stageOf s).deletions.get a.hash ≠ none → a.hash ∈ again) ↔ ReaddsNothing getHash s event := by
  simp only [ReaddsNothing, filtered, filter, Except.ok.injEq, some.injEq]
  constructor
  · intro inside other same a member removed
    exact ⟨again, rfl, inside a (same ▸ member) removed⟩
  · intro nothing a member removed
    rcases nothing accepted rfl a member removed with ⟨other, same, inside⟩
    exact same ▸ inside

theorem step_replays (apart : AtomsApart hashes) (tracks : Tracks hashes s head data)
    (replays : Replays hashes.ofAtom s) (event : AddAtomsEvent T) (authenticated : Bool) (next : Live T)
    (sent : Sent T) (ran : s.addAtoms hashes.ofAtom event false authenticated = some (next, sent)) :
    Tracks hashes next head data ∧ (Replays hashes.ofAtom next ↔
      Blocked s authenticated ∨ ReaddsNothing hashes.ofAtom s event) := by
  have gone := (replays_iff tracks).mp replays
  unfold Live.addAtoms at ran
  split at ran
  · next blocked =>
      simp only [some.injEq, Prod.mk.injEq] at ran
      rw [← ran.1]
      exact ⟨tracks, iff_of_true replays (.inl blocked)⟩
  · next unblocked =>
      have spec := addable_spec hashes.ofAtom s.data.weave event.atoms tracks.valid
      rw [or_iff_right (show ¬ Blocked s authenticated from unblocked)]
      cases filtered : addable hashes.ofAtom s.data.weave event.atoms with
      | mk w outcome =>
        rw [filtered] at spec ran
        have woven := tracks.withWeave w spec.1
        cases outcome with
        | error failure =>
          cases failure with
          | diverges => cases ran
          | typeError =>
            simp only [some.injEq, Prod.mk.injEq] at ran
            rw [← ran.1]
            refine ⟨woven, iff_of_true ((replays_iff woven).mpr gone) ?_⟩
            intro accepted impossible
            rw [filtered] at impossible
            cases impossible
        | ok accepted =>
          have admitted := woven.letIn apart accepted (spec.2 accepted rfl)
          have weave : ((s.withWeave w).letIn accepted false).1.data.weave = w := rfl
          have let_in := admitted_replays hashes.ofAtom admitted.1 gone admitted.2.1 admitted.2.2
          simp only [weave] at ran
          cases filter : removable w event.removedAtoms with
          | error failure =>
            cases failure with
            | diverges => simp [filter] at ran
            | typeError =>
              simp only [filter, some.injEq, Prod.mk.injEq] at ran
              rw [← ran.1]
              exact ⟨admitted.1, let_in.trans (readds_none filtered (by simp [filter]))⟩
          | ok found =>
            cases found with
            | none =>
              simp only [filter, some.injEq, Prod.mk.injEq] at ran
              rw [← ran.1]
              exact ⟨admitted.1, let_in.trans (readds_none filtered (by simp [filter]))⟩
            | some again =>
              simp only [filter, some.injEq, Prod.mk.injEq] at ran
              rw [← ran.1]
              exact ⟨(admitted.1.dismiss again).1, (dismissed_replays admitted.1 gone admitted.2.1 admitted.2.2).trans
                  (readds_again filtered filter)⟩

end Step

/-! ### Sequences of events -/

section Runs

variable [DecidableEq T] {hashes : Hashes T} {head : CausalRepoBranch} {data : Option (CommitData T)}

theorem throughout_iff (apart : AtomsApart hashes) (s : Live T)
    (events : List (AddAtomsEvent T × Bool)) (tracks : Tracks hashes s head data)
    (replays : Replays hashes.ofAtom s) :
    Throughout hashes.ofAtom (Replays hashes.ofAtom) s events ↔
      EachReaddsNothing hashes.ofAtom s events := by
  induction events generalizing s with
  | nil => exact iff_of_true replays trivial
  | cons first rest ih =>
    rcases first with ⟨event, authenticated⟩
    simp only [Throughout, EachReaddsNothing, replays, true_and]
    refine forall_congr' fun next => forall_congr' fun sent => forall_congr' fun ran => ?_
    have step := step_replays apart tracks replays event authenticated next sent ran
    rw [← step.2]
    constructor
    · intro later
      have here : Replays hashes.ofAtom next := by
        cases rest with
        | nil => exact later
        | cons _ _ => exact later.1
      exact ⟨here, (ih next step.1 here).mp later⟩
    · intro both
      exact (ih next step.1 both.1).mpr both.2

/-- From the last commit on, the stored stage shows the loaded repository after every event if and only
if no event adds an atom that was removed. -/
theorem stage_replays_iff (apart : AtomsApart hashes) (s : Live T)
    (committed : JustCommitted hashes s head data) (events : List (AddAtomsEvent T × Bool)) :
    Throughout hashes.ofAtom (Replays hashes.ofAtom) s events ↔
      EachReaddsNothing hashes.ofAtom s events := by
  have tracks := tracks_committed committed
  apply throughout_iff apart s events tracks
  rw [replays_iff tracks, committed.stage]
  intro hash removed
  exact absurd rfl removed

/-- The state after a sequence of events. -/
def runEvents (getHash : AtomHashInput T → JsString) (s : Live T)
    (events : List (AddAtomsEvent T × Bool)) : Option (Live T) :=
  events.foldlM (fun s event => (s.addAtoms getHash event.1 false event.2).map Prod.fst) s

theorem throughout_last {getHash : AtomHashInput T → JsString} {P : Live T → Prop} {s last : Live T}
    (events : List (AddAtomsEvent T × Bool)) (all : Throughout getHash P s events)
    (ran : runEvents getHash s events = some last) : P last := by
  induction events generalizing s with
  | nil => exact some.inj ran ▸ all
  | cons first rest ih =>
    have split : ((s.addAtoms getHash first.1 false first.2).map Prod.fst).bind
        (fun s => runEvents getHash s rest) = some last := ran
    cases step : s.addAtoms getHash first.1 false first.2 with
    | none => simp [step] at split
    | some made =>
      rw [step] at split
      exact ih (all.2 made.1 made.2 step) split

end Runs

/-! ### An atom that comes back -/

theorem sample_apart : AtomsApart sampleHashes := by
  intro input texts commit
  have start : (unitHash input).head? = some 0 ∨ (unitHash input).head? = some 1 := by
    cases cause : input.causeHash with
    | none => simp [unitHash, hashText, cause, HashText.optional]
    | some hash => simp [unitHash, hashText, cause, HashText.optional]
  have list : (sampleHashes.ofList texts).head? = some 2 := rfl
  have stored : (sampleHashes.ofCommit commit).head? = some 3 := rfl
  constructor
  · intro same
    rw [← same] at list
    rcases start with zero | one
    · exact absurd (zero.symm.trans list) (by decide)
    · exact absurd (one.symm.trans list) (by decide)
  · intro same
    rw [← same] at stored
    rcases start with zero | one
    · exact absurd (zero.symm.trans stored) (by decide)
    · exact absurd (one.symm.trans stored) (by decide)

def sampleHead : CausalRepoBranch := { name := JsString.lit ['a'], hash := none, time := 0 }

def sampleLive : Live Unit where
  branch := JsString.lit ['a']
  data :=
    { repo := { CausalRepo.new with head := some sampleHead }
      weave := Weave.new none
      settings := { branch := JsString.lit ['a'], time := 0, passwordHash := none } }
  store := MemoryCausalRepoStore.new.saveBranch sampleHead 0
  stages := OrderedMap.empty

theorem sample_committed : JustCommitted sampleHashes sampleLive sampleHead none where
  named := rfl
  inStore := List.mem_singleton.mpr rfl
  anchored := .inl rfl
  loads := rfl
  repo := rfl
  stage := rfl
  valid := fun key n found => by cases found

def sampleAtom : Atom Unit :=
  newAtom unitHash (HashText.sampleId 1 .undefined) none ()

def addSample : AddAtomsEvent Unit × Bool := ({ atoms := [sampleAtom], removedAtoms := [] }, true)

def removeSample : AddAtomsEvent Unit × Bool := ({ atoms := [], removedAtoms := [sampleAtom.hash] }, true)

theorem sample_replays :
    Throughout unitHash (Replays unitHash) sampleLive [addSample, removeSample] ↔
      EachReaddsNothing unitHash sampleLive [addSample, removeSample] :=
  stage_replays_iff sample_apart sampleLive sample_committed [addSample, removeSample]

/-- The loaded repository holds the atom that was added again, a fresh load does not. -/
theorem readded_not_replayed :
    ¬ Throughout unitHash (Replays unitHash) sampleLive
      [addSample, removeSample, addSample] := by
  intro all
  have live : (runEvents unitHash sampleLive [addSample, removeSample, addSample]).map
      (fun s => s.data.repo.atoms.get sampleAtom.hash) = some (some sampleAtom) := by decide +kernel
  have stored : (runEvents unitHash sampleLive [addSample, removeSample, addSample]).map
      (fun s => (loadRepo unitHash s.store s.stages s.branch true 0).toOption.map
        (fun loaded => loaded.repo.atoms.get sampleAtom.hash)) = some (some none) := by decide +kernel
  cases ran : runEvents unitHash sampleLive [addSample, removeSample, addSample] with
  | none => simp [ran] at live
  | some last =>
    rw [ran, Option.map_some, Option.some.injEq] at live stored
    rcases throughout_last _ all ran true 0 with ⟨loaded, loads, same⟩
    rw [loads] at stored
    have shown : loaded.repo.atoms.get sampleAtom.hash = none := by
      simpa [Except.toOption] using stored
    rw [same, live] at shown
    cases shown

end CasualOS.StageReplay
