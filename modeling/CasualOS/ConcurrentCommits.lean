import Mathlib.Data.Finset.Basic
import CasualOS.Lib.Run
import CasualOS.RepoContents

/-! Commits of one branch while other handlers change it. A handler is cut at its awaits, and atoms are
named by their hashes. -/

namespace CasualOS.ConcurrentCommits

open Run
open List (all_eq_true mem_cons mem_cons_of_mem)
open Option (some)

variable {H : Type}

/-! ### Repositories and stages -/

/-- Hashes that were added to a repository, or removed from it. -/
inductive Change (H : Type) where
  | added (hashes : Finset H)
  | removed (hashes : Finset H)

def Change.hashes : Change H → Finset H
  | .added hashes => hashes
  | .removed hashes => hashes

structure Stage (H : Type) where
  additions : Finset H
  deletions : Finset H

/-- A `CausalRepo`; `head` holds the atoms of the commit that its head points to. -/
structure Repo (H : Type) where
  stage : Stage H
  atoms : Finset H
  head : Finset H

def emptyStage : Stage H := { additions := ∅, deletions := ∅ }

section Sets

variable [DecidableEq H]

namespace Repo

def hasChanges (r : Repo H) : Bool := r.stage.additions ≠ ∅ || r.stage.deletions ≠ ∅

def addMany (r : Repo H) (hashes : Finset H) : Repo H × Finset H :=
  let added := hashes \ r.atoms
  ({ r with
      stage := { additions := r.stage.additions ∪ added, deletions := r.stage.deletions \ added }
      atoms := r.atoms ∪ added }, added)

def removeMany (r : Repo H) (hashes : Finset H) : Repo H × Finset H :=
  let removed := hashes ∩ r.atoms
  ({ r with
      stage := { additions := r.stage.additions \ removed, deletions := r.stage.deletions ∪ removed }
      atoms := r.atoms \ removed }, removed)

end Repo

def Stage.push (stage : Stage H) : Change H → Stage H
  | .added hashes => { stage with additions := stage.additions ∪ hashes }
  | .removed hashes => { stage with deletions := stage.deletions ∪ hashes }

end Sets

def Repo.setCurrentCommit (r : Repo H) (atoms : Finset H) : Repo H :=
  { r with stage := emptyStage, atoms := atoms }

/-! The hashes of a repository with its atoms. -/

section Names

open RepoContents

variable {T : Type}

end Names

/-! ### The handlers -/

/-- The atoms of an event that the weave lets in, and the hashes that may be removed. -/
structure AddAtomsEvent (H : Type) where
  atoms : Finset H
  removedAtoms : Finset H

/-- What a handler does once `_getOrLoadRepo` has given it the repository. -/
inductive Next (H : Type) where
  | watchBranch
  | addAtoms (event : AddAtomsEvent H)
  | commit

/-- One call of `_loadRepo`. The stage is named by its place among the stages made so far. -/
inductive Load (H : Type) where
  | checkout
  | getStage (atoms : Finset H) (stage : Nat)
  | getSettings (repo : Repo H)
  | done (repo : Repo H)

/-- A handler at the await where it stands. Repositories and promises are named by their load. -/
inductive Handler (H : Type) where
  | asking (next : Next H)
  | waiting (load : Nat) (next : Next H)
  | given (repo : Nat) (next : Next H)
  | adding (repo : Nat) (stage : Nat) (added : Finset H) (event : AddAtomsEvent H)
  | storingAtoms (repo : Nat) (event : AddAtomsEvent H)
  | removing (stage : Nat) (removed : Finset H)
  | storing (repo : Nat) (atoms : Finset H) (unload : Bool)
  | savedHead (repo : Nat) (unload : Bool)
  | checkingOut (repo : Nat) (commit : Finset H) (unload : Bool)
  | clearing (unload : Bool)
  | unloading (promise : Option Nat)
  | closing

/-- What the stores and the server hold for the branch: the atoms of the head commit, the stage, the loaded
repository. `log` is the history of the changes to its repositories, the last one first. -/
structure Branch (H : Type) where
  head : Finset H
  stages : List (Stage H)
  stage : Option Nat
  loads : List (Load H)
  repos : Option Nat
  repoPromises : Option Nat
  handlers : List (Handler H)
  log : List (Change H)

def idle (head : Finset H) : Branch H where
  head := head
  stages := []
  stage := none
  loads := []
  repos := none
  repoPromises := none
  handlers := []
  log := []

namespace Branch

def push (s : Branch H) (handler : Handler H) : Branch H :=
  { s with handlers := handler :: s.handlers }

def stored (s : Branch H) : Stage H :=
  match s.stage with
  | some stage => s.stages.getD stage emptyStage
  | none => emptyStage

def getStage (s : Branch H) : Branch H × Nat :=
  match s.stage with
  | some stage => (s, stage)
  | none =>
    ({ s with stages := s.stages ++ [emptyStage], stage := some s.stages.length }, s.stages.length)

def getOrLoadRepo (s : Branch H) (next : Next H) : Branch H :=
  match s.repos, s.repoPromises with
  | some repo, _ => s.push (.given repo next)
  | none, some load => s.push (.waiting load next)
  | none, none =>
    push { s with loads := s.loads ++ [.checkout], repoPromises := some s.loads.length }
      (.waiting s.loads.length next)

def setRepo (s : Branch H) (repo : Nat) (r : Repo H) : Branch H :=
  { s with loads := s.loads.set repo (.done r) }

/-- A change of a repository, of which the stage `stage` is yet to be told. -/
def change (s : Branch H) (repo : Nat) (r : Repo H) (c : Change H) : Branch H :=
  { s.setRepo repo r with log := c :: s.log }

section

variable [DecidableEq H]

/-- The first part of `commit`, which takes the atoms to be committed. -/
def startCommit (s : Branch H) (repo : Nat) (r : Repo H) (unload : Bool) : Branch H :=
  if r.hasChanges then s.push (.storing repo r.atoms unload)
  else if unload then s.push .closing
  else s

/-- A handler goes on from its await to the next one; it is no longer among the handlers of `s`. -/
def resume (s : Branch H) : Handler H → Option (Branch H)
  | .asking next => some (s.getOrLoadRepo next)
  | .waiting load next =>
    match s.loads[load]? with
    | some (.done _) => some ({ s with repos := some load }.push (.given load next))
    | _ => none
  | .given _ .watchBranch => some s
  | .given repo (.addAtoms event) =>
    match s.loads[repo]? with
    | some (.done r) =>
      let (r, added) := r.addMany event.atoms
      let (s, stage) := (s.change repo r (.added added)).getStage
      some (s.push (.adding repo stage added event))
    | _ => none
  | .given repo .commit =>
    match s.loads[repo]? with
    | some (.done r) => some (s.startCommit repo r false)
    | _ => none
  | .adding repo stage added event =>
    some ({ s with stages := s.stages.modify stage (·.push (.added added)) }.push
      (.storingAtoms repo event))
  | .storingAtoms repo event =>
    match s.loads[repo]? with
    | some (.done r) =>
      let (r, removed) := r.removeMany event.removedAtoms
      let (s, stage) := (s.change repo r (.removed removed)).getStage
      some (s.push (.removing stage removed))
    | _ => none
  | .removing stage removed =>
    some { s with stages := s.stages.modify stage (·.push (.removed removed)) }
  | .storing repo atoms unload =>
    match s.loads[repo]? with
    | some (.done r) =>
      some (({ s with head := atoms }.setRepo repo { r with head := atoms }).push
        (.savedHead repo unload))
    | _ => none
  | .savedHead repo unload =>
    match s.loads[repo]? with
    | some (.done r) => some (s.push (.checkingOut repo r.head unload))
    | _ => none
  | .checkingOut repo commit unload =>
    match s.loads[repo]? with
    | some (.done r) => some ((s.setRepo repo (r.setCurrentCommit commit)).push (.clearing unload))
    | _ => none
  | .clearing unload =>
    let s := { s with stage := none }
    some (if unload then s.push .closing else s)
  | .unloading none => some ({ s with repoPromises := none }.push .closing)
  | .unloading (some load) =>
    match s.loads[load]? with
    | some (.done r) => some ({ s with repoPromises := none }.startCommit load r true)
    | _ => none
  | .closing => some { s with repos := none }

/-- What `_loadRepo` makes of a commit and a stage. -/
def replay (atoms : Finset H) (stage : Stage H) : Repo H :=
  let repo : Repo H := { stage := emptyStage, atoms := atoms, head := atoms }
  ((repo.addMany stage.additions).1.removeMany stage.deletions).1

end

end Branch

inductive Label (H : Type) where
  | watchBranch
  | addAtoms (event : AddAtomsEvent H)
  | commit
  /-- The branch is found without devices. -/
  | tryUnload
  | resume (handler : Nat)
  | readHead (load : Nat)
  | readStage (load : Nat)
  | finishLoad (load : Nat)

def step [DecidableEq H] (s : Branch H) : Label H → Option (Branch H)
  | .watchBranch => some (s.push (.asking .watchBranch))
  | .addAtoms event => some (s.push (.asking (.addAtoms event)))
  | .commit => some (s.push (.asking .commit))
  | .tryUnload => some (s.push (.unloading s.repoPromises))
  | .resume i =>
    match s.handlers[i]? with
    | some handler => { s with handlers := s.handlers.eraseIdx i }.resume handler
    | none => none
  | .readHead load =>
    match s.loads[load]? with
    | some .checkout =>
      let (s, stage) := s.getStage
      some { s with loads := s.loads.set load (.getStage s.head stage) }
    | _ => none
  | .readStage load =>
    match s.loads[load]? with
    | some (.getStage atoms stage) =>
      let repo := Branch.replay atoms (s.stages.getD stage emptyStage)
      some { s with loads := s.loads.set load (.getSettings repo) }
    | _ => none
  | .finishLoad load =>
    match s.loads[load]? with
    | some (.getSettings repo) => some { s with loads := s.loads.set load (.done repo) }
    | _ => none

/-! ### What must not be lost -/

section History

def EverRemoved : List (Change H) → H → Prop
  | [], _ => False
  | .added _ :: log, h => EverRemoved log h
  | .removed hashes :: log, h => h ∈ hashes ∨ EverRemoved log h

/-- The hash was added by a handler and removed by none. -/
def Kept : List (Change H) → H → Prop
  | [], _ => False
  | .added hashes :: log, h => Kept log h ∨ h ∈ hashes ∧ ¬ EverRemoved log h
  | .removed hashes :: log, h => Kept log h ∧ h ∉ hashes

/-- The hash was removed by a handler and not added since. -/
def Gone : List (Change H) → H → Prop
  | [], _ => False
  | .added hashes :: log, h => Gone log h ∧ h ∉ hashes
  | .removed hashes :: log, h => Gone log h ∨ h ∈ hashes

variable [DecidableEq H]

instance decidableEverRemoved : (log : List (Change H)) → (h : H) → Decidable (EverRemoved log h)
  | [], _ => .isFalse id
  | .added _ :: log, h => decidableEverRemoved log h
  | .removed hashes :: log, h =>
    have := decidableEverRemoved log h
    inferInstanceAs (Decidable (h ∈ hashes ∨ EverRemoved log h))

instance decidableKept : (log : List (Change H)) → (h : H) → Decidable (Kept log h)
  | [], _ => .isFalse id
  | .added hashes :: log, h =>
    have := decidableKept log h
    inferInstanceAs (Decidable (Kept log h ∨ h ∈ hashes ∧ ¬ EverRemoved log h))
  | .removed hashes :: log, h =>
    have := decidableKept log h
    inferInstanceAs (Decidable (Kept log h ∧ h ∉ hashes))

end History

/-- Every hash that was added is in the loaded repository and in the head commit or the stage; every hash
that was removed is in neither. -/
structure NothingLost (s : Branch H) : Prop where
  loaded : ∀ repo, s.repos = some repo → ∃ r, s.loads[repo]? = some (.done r) ∧
    ∀ h, (Kept s.log h → h ∈ r.atoms) ∧ (Gone s.log h → h ∉ r.atoms)
  added : ∀ h, Kept s.log h → h ∈ s.head ∨ h ∈ s.stored.additions
  removed : ∀ h, Gone s.log h → h ∈ s.stored.deletions ∨ h ∉ s.head ∧ h ∉ s.stored.additions

/-! ### When a repository may be changed -/

def Handler.repo : Handler H → Option Nat
  | .waiting load _ => some load
  | .given repo _ => some repo
  | .adding repo _ _ _ => some repo
  | .storingAtoms repo _ => some repo
  | .unloading promise => promise
  | _ => none

def Handler.commits : Handler H → Bool
  | .storing _ _ _ | .savedHead _ _ | .checkingOut _ _ _ | .clearing _ => true
  | _ => false

def Handler.owes : Handler H → Option (Nat × Change H)
  | .adding _ stage added _ => some (stage, .added added)
  | .removing stage removed => some (stage, .removed removed)
  | _ => none

namespace Branch

def InUse (s : Branch H) (load : Nat) : Prop :=
  s.repos = some load ∨ s.repoPromises = some load ∨ ∃ h ∈ s.handlers, h.repo = some load

/-- No other repository is in use, and no commit is under way. -/
def Alone (s : Branch H) (repo : Nat) : Prop :=
  (∀ load, s.InUse load → load = repo) ∧ ∀ h ∈ s.handlers, h.commits = false

def owed (s : Branch H) : List (Nat × Change H) := s.handlers.filterMap Handler.owes

end Branch

section Allowed

variable [DecidableEq H]

/-- Where a handler may go on: it changes a repository only while that one alone is in use and no commit
is under way, and it clears the stage only while no load has yet to read it. -/
def GoesOn (s : Branch H) : Handler H → Prop
  | .given repo (.addAtoms event) => ∀ r, s.loads[repo]? = some (.done r) →
      (r.addMany event.atoms).2 ≠ ∅ → s.Alone repo
  | .storingAtoms repo event => ∀ r, s.loads[repo]? = some (.done r) →
      (r.removeMany event.removedAtoms).2 ≠ ∅ → s.Alone repo
  | .clearing _ => ∀ load, s.InUse load → ∀ atoms stage, s.loads[load]? ≠ some (.getStage atoms stage)
  | _ => True

/-- A load reads the stage only while no handler has yet to write to it. -/
def Allowed (s : Branch H) : Label H → Prop
  | .resume i => ∀ handler, s.handlers[i]? = some handler → GoesOn s handler
  | .readStage _ => s.owed = []
  | _ => True

end Allowed

/-! ### What holds in every state -/

def Change.Adds : Change H → H → Prop
  | .added hashes, h => h ∈ hashes
  | .removed _, _ => False

def Change.Removes : Change H → H → Prop
  | .added _, _ => False
  | .removed hashes, h => h ∈ hashes

namespace Branch

/-- The stage has the hash among its additions, or is yet to be told of it. -/
def StagedAdd (s : Branch H) (h : H) : Prop :=
  h ∈ s.stored.additions ∨ ∃ owing ∈ s.owed, s.stage = some owing.1 ∧ owing.2.Adds h

def StagedDel (s : Branch H) (h : H) : Prop :=
  h ∈ s.stored.deletions ∨ ∃ owing ∈ s.owed, s.stage = some owing.1 ∧ owing.2.Removes h

/-- Every kept hash is among these atoms, and no gone one. -/
def Consistent (log : List (Change H)) (atoms : Finset H) : Prop :=
  ∀ h, (Kept log h → h ∈ atoms) ∧ (Gone log h → h ∉ atoms)

/-- The same, once the stage is replayed on the atoms. -/
def Persists (s : Branch H) (atoms : Finset H) : Prop :=
  ∀ h, (Kept s.log h → h ∈ atoms ∨ s.StagedAdd h) ∧
    (Gone s.log h → s.StagedDel h ∨ h ∉ atoms ∧ ¬ s.StagedAdd h)

/-- What a commit that is under way has read or written. -/
def Fits (s : Branch H) : Handler H → Prop
  | .storing _ atoms _ => Consistent s.log atoms
  | .savedHead repo _ => Consistent s.log s.head ∧
      ∃ r, s.loads[repo]? = some (.done r) ∧ Consistent s.log r.head
  | .checkingOut _ commit _ => Consistent s.log s.head ∧ Consistent s.log commit
  | .clearing _ => Consistent s.log s.head
  | _ => True

end Branch

structure Sound (s : Branch H) : Prop where
  made : ∀ repo, s.repos = some repo → ∃ r, s.loads[repo]? = some (.done r)
  live : ∀ load r, s.InUse load →
    s.loads[load]? = some (.getSettings r) ∨ s.loads[load]? = some (.done r) →
      Branch.Consistent s.log r.atoms
  reading : ∀ load atoms stage, s.InUse load → s.loads[load]? = some (.getStage atoms stage) →
    s.stage = some stage ∧ s.Persists atoms
  persists : s.Persists s.head
  commits : ∀ h ∈ s.handlers, s.Fits h
  removed : ∀ h, s.StagedDel h → EverRemoved s.log h
  stages : (∀ stage, s.stage = some stage → stage < s.stages.length) ∧
    ∀ stage c, (stage, c) ∈ s.owed → stage < s.stages.length

/-! ### Histories -/

section History

variable [DecidableEq H] {log : List (Change H)} {atoms : Finset H}

theorem consistent_added (hashes : Finset H) (fits : Branch.Consistent log atoms) :
    Branch.Consistent (.added hashes :: log) (atoms ∪ hashes) := by
  intro h
  rw [Finset.mem_union]
  refine ⟨fun kept => ?_, fun gone => ?_⟩
  · rcases kept with before | ⟨now, _⟩
    · exact .inl ((fits h).1 before)
    · exact .inr now
  · intro either
    exact either.elim ((fits h).2 gone.1) gone.2

theorem consistent_removed (hashes : Finset H) (fits : Branch.Consistent log atoms) :
    Branch.Consistent (.removed hashes :: log) (atoms \ hashes) := by
  intro h
  rw [Finset.mem_sdiff]
  refine ⟨fun kept => ⟨(fits h).1 kept.1, kept.2⟩, fun gone => ?_⟩
  intro ⟨inside, outside⟩
  exact gone.elim (fun before => (fits h).2 before inside) outside

omit [DecidableEq H] in
theorem not_removed_of_kept (log : List (Change H)) (h : H) (kept : Kept log h) : ¬ EverRemoved log h := by
  induction log with
  | nil => exact kept.elim
  | cons c log ih =>
    cases c with
    | added hashes =>
      rcases kept with before | ⟨_, never⟩
      · exact ih before
      · exact never
    | removed hashes =>
      intro removed
      exact removed.elim kept.2 (ih kept.1)

variable (log) in
omit [DecidableEq H] in
theorem kept_nothing (c : Change H) (nothing : c.hashes = ∅) (h : H) :
    (Kept (c :: log) h ↔ Kept log h) ∧ (Gone (c :: log) h ↔ Gone log h) := by
  cases c with
  | added hashes =>
    have empty : hashes = ∅ := nothing
    simp [Kept, Gone, empty]
  | removed hashes =>
    have empty : hashes = ∅ := nothing
    simp [Kept, Gone, empty]

omit [DecidableEq H] in
theorem consistent_nothing (c : Change H) (nothing : c.hashes = ∅) (fits : Branch.Consistent log atoms) :
    Branch.Consistent (c :: log) atoms := by
  intro h
  have ⟨kept, gone⟩ := kept_nothing log c nothing h
  rw [kept, gone]
  exact fits h

end History

/-! ### Steps that change no repository and no store -/

section Frame

variable {s t : Branch H} {h : Handler H}

/-- The stores, the loads and the history are the same. -/
structure SameStores (s t : Branch H) : Prop where
  head : t.head = s.head
  stages : t.stages = s.stages
  stage : t.stage = s.stage
  loads : t.loads = s.loads
  log : t.log = s.log

/-- The stage and what it is yet to be told are the same together. -/
structure Similar (s t : Branch H) : Prop where
  head : t.head = s.head
  loads : t.loads = s.loads
  log : t.log = s.log
  add : ∀ hash, t.StagedAdd hash ↔ s.StagedAdd hash
  del : ∀ hash, t.StagedDel hash ↔ s.StagedDel hash
  stage : ∀ stage, s.stage = some stage → t.stage = some stage
  bounds : (∀ stage, t.stage = some stage → stage < t.stages.length) ∧
    ∀ stage c, (stage, c) ∈ t.owed → stage < t.stages.length

namespace Similar

theorem persists (similar : Similar s t) (atoms : Finset H) (fits : s.Persists atoms) : t.Persists atoms := by
  intro hash
  rw [similar.log, similar.add, similar.del]
  exact fits hash

theorem fits (similar : Similar s t) (h : Handler H) (fits : s.Fits h) : t.Fits h := by
  cases h with
  | storing repo atoms unload =>
    simp only [Branch.Fits, similar.log]
    exact fits
  | savedHead repo unload =>
    simp only [Branch.Fits, similar.log, similar.head, similar.loads]
    exact fits
  | checkingOut repo commit unload =>
    simp only [Branch.Fits, similar.log, similar.head]
    exact fits
  | clearing unload =>
    simp only [Branch.Fits, similar.log, similar.head]
    exact fits
  | _ => trivial

end Similar

theorem Sound.carry (sound : Sound s) (similar : Similar s t)
    (inUse : ∀ load, t.InUse load → s.InUse load) (commits : ∀ h ∈ t.handlers, s.Fits h)
    (made : ∀ repo, t.repos = some repo → ∃ r, s.loads[repo]? = some (.done r)) : Sound t where
  made repo live := by
    rw [similar.loads]
    exact made repo live
  live load r used shown := by
    rw [similar.loads] at shown
    rw [similar.log]
    exact sound.live load r (inUse load used) shown
  reading load atoms stage used shown := by
    rw [similar.loads] at shown
    have ⟨current, fits⟩ := sound.reading load atoms stage (inUse load used) shown
    exact ⟨similar.stage stage current, similar.persists atoms fits⟩
  persists := by
    rw [similar.head]
    exact similar.persists s.head sound.persists
  commits h member := similar.fits h (commits h member)
  removed hash staged := by
    rw [similar.log]
    exact sound.removed hash ((similar.del hash).mp staged)
  stages := similar.bounds

theorem SameStores.similar (sound : Sound s) (same : SameStores s t)
    (owed : ∀ x, x ∈ t.owed ↔ x ∈ s.owed) : Similar s t where
  head := same.head
  loads := same.loads
  log := same.log
  add hash := by
    simp only [Branch.StagedAdd, Branch.stored, same.stages, same.stage, owed]
  del hash := by
    simp only [Branch.StagedDel, Branch.stored, same.stages, same.stage, owed]
  stage stage current := same.stage.trans current
  bounds := by
    rw [same.stage, same.stages]
    exact ⟨sound.stages.1, fun stage c member => sound.stages.2 stage c ((owed _).mp member)⟩

theorem Sound.quiet (sound : Sound s) (same : SameStores s t)
    (owed : ∀ x, x ∈ t.owed ↔ x ∈ s.owed) (inUse : ∀ load, t.InUse load → s.InUse load)
    (commits : ∀ h ∈ t.handlers, s.Fits h)
    (made : ∀ repo, t.repos = some repo → ∃ r, s.loads[repo]? = some (.done r)) : Sound t :=
  sound.carry (same.similar sound owed) inUse commits made

namespace Branch

variable (s h)

theorem push_owed : (s.push h).owed = h.owes.toList ++ s.owed := by
  cases shown : h.owes <;> simp [owed, push, shown]

theorem push_inUse (load : Nat) : (s.push h).InUse load ↔ s.InUse load ∨ h.repo = some load := by
  simp only [InUse, push, mem_cons, exists_eq_or_imp]
  grind

end Branch

theorem same_push : SameStores s (s.push h) := ⟨rfl, rfl, rfl, rfl, rfl⟩

theorem same_drop : SameStores (s.push h) s := ⟨rfl, rfl, rfl, rfl, rfl⟩

theorem Sound.front {i : Nat} (sound : Sound s) (found : s.handlers[i]? = some h) :
    Sound ({ s with handlers := s.handlers.eraseIdx i }.push h) := by
  have ⟨inside, same⟩ := List.getElem?_eq_some_iff.mp found
  have perm := List.getElem_cons_eraseIdx_perm inside
  rw [same] at perm
  have members : ∀ x, x ∈ h :: s.handlers.eraseIdx i ↔ x ∈ s.handlers := fun x => perm.mem_iff
  refine sound.quiet ⟨rfl, rfl, rfl, rfl, rfl⟩ (fun x => ?_) (fun load used => ?_) (fun x member => ?_) sound.made
  · exact (perm.filterMap Handler.owes).mem_iff
  · simpa only [Branch.InUse, Branch.push, members] using used
  · exact sound.commits x ((members x).mp member)

theorem Sound.drop (sound : Sound (s.push h)) (paid : h.owes = none) : Sound s := by
  refine sound.quiet same_drop (fun x => ?_) (fun load used => ?_) (fun x member => ?_) sound.made
  · simp [Branch.push_owed, paid]
  · exact (Branch.push_inUse s h load).mpr (.inl used)
  · exact sound.commits x (mem_cons_of_mem _ member)

theorem Sound.start (sound : Sound s) (paid : h.owes = none)
    (repo : ∀ load, h.repo = some load → s.InUse load) (fits : s.Fits h) : Sound (s.push h) := by
  refine sound.quiet same_push (fun x => ?_) (fun load used => ?_) (fun x member => ?_) sound.made
  · simp [Branch.push_owed, paid]
  · exact ((Branch.push_inUse s h load).mp used).elim id (repo load)
  · rcases mem_cons.mp member with here | there
    · exact here ▸ fits
    · exact sound.commits x there

theorem Sound.load (sound : Sound s) (n : Next H) : Sound (Branch.push
      { s with loads := s.loads ++ [.checkout], repoPromises := some s.loads.length }
      (.waiting s.loads.length n)) := by
  have kept : ∀ (load : Nat) (l : Load H), (s.loads ++ [Load.checkout])[load]? = some l →
      l ≠ .checkout → load ≠ s.loads.length ∧ s.loads[load]? = some l := by
    intro load l found other
    rw [List.getElem?_append] at found
    split at found
    · next inside => exact ⟨by omega, found⟩
    · have ⟨_, same⟩ := List.getElem?_eq_some_iff.mp found
      simp at same
      exact absurd same.symm other
  have used : ∀ load, load ≠ s.loads.length → Branch.InUse (Branch.push
      { s with loads := s.loads ++ [.checkout], repoPromises := some s.loads.length }
      (.waiting s.loads.length n)) load → s.InUse load := by
    intro load apart inUse
    rw [Branch.push_inUse] at inUse
    simp only [Branch.InUse, Handler.repo, some.injEq, Ne.symm apart, false_or, or_false] at inUse
    exact inUse.imp id .inr
  have owed : ∀ x, x ∈ (Branch.push { s with loads := s.loads ++ [.checkout], repoPromises := some s.loads.length }
      (.waiting s.loads.length n)).owed ↔ x ∈ s.owed := fun x => Iff.rfl
  have stays : ∀ (load : Nat) (l : Load H), s.loads[load]? = some l → (s.loads ++ [Load.checkout])[load]? = some l := by
    intro load l found
    rw [List.getElem?_append_left (List.getElem?_eq_some_iff.mp found).1, found]
  refine ⟨fun repo live => ?_, fun load r inUse shown => ?_, fun load atoms stage inUse shown => ?_,
    sound.persists, fun x member => ?_, sound.removed, sound.stages⟩
  · have ⟨r, done⟩ := sound.made repo live
    exact ⟨r, stays repo _ done⟩
  · rcases shown with settings | done
    · have ⟨apart, before⟩ := kept load _ settings (by simp)
      exact sound.live load r (used load apart inUse) (.inl before)
    · have ⟨apart, before⟩ := kept load _ done (by simp)
      exact sound.live load r (used load apart inUse) (.inr before)
  · have ⟨apart, before⟩ := kept load _ shown (by simp)
    exact sound.reading load atoms stage (used load apart inUse) before
  · rcases mem_cons.mp member with here | there
    · rw [here]
      trivial
    · have fits := sound.commits x there
      cases x with
      | savedHead repo unload =>
        have ⟨r, done, written⟩ := fits.2
        exact ⟨fits.1, r, stays repo _ done, written⟩
      | storing repo atoms unload => exact fits
      | checkingOut repo commit unload => exact fits
      | clearing unload => exact fits
      | _ => trivial

theorem Sound.getOrLoadRepo (sound : Sound s) (n : Next H) : Sound (s.getOrLoadRepo n) := by
  unfold Branch.getOrLoadRepo
  split
  · next _ _ repo live =>
      exact sound.start rfl (fun load same => .inl (same ▸ live)) trivial
  · next _ _ load _ promised =>
      exact sound.start rfl (fun other same => .inr (.inl (same ▸ promised))) trivial
  · exact sound.load n

theorem Sound.loaded {load : Nat} {r : Repo H} (sound : Sound (s.push h)) (paid : h.owes = none)
    (held : h.repo = some load) (done : s.loads[load]? = some (.done r)) :
    Sound { s with repos := some load } := by
  refine sound.quiet ⟨rfl, rfl, rfl, rfl, rfl⟩ (fun x => ?_) (fun other used => ?_) (fun x member => ?_)
    (fun repo live => ?_)
  · simp only [Branch.push_owed, paid]
    exact Iff.rfl
  · rcases used with live | rest
    · exact (Branch.push_inUse s h other).mpr (.inr (held.trans live))
    · exact (Branch.push_inUse s h other).mpr (.inl (.inr rest))
  · exact sound.commits x (mem_cons_of_mem _ member)
  · exact ⟨r, (some.inj live) ▸ done⟩

/-- What is in use less than before. -/
theorem Sound.release (sound : Sound s) (promise : Option Nat) (repos : Option Nat)
    (fewer : promise = none ∨ promise = s.repoPromises) (none : repos = none ∨ repos = s.repos) :
    Sound { s with repoPromises := promise, repos := repos } := by
  refine sound.quiet ⟨rfl, rfl, rfl, rfl, rfl⟩ (fun x => Iff.rfl) (fun load used => ?_) sound.commits
    (fun repo live => ?_)
  · rcases used with live | promised | held
    · rcases none with empty | same
      · simp [empty] at live
      · exact .inl (same ▸ live)
    · rcases fewer with empty | same
      · simp [empty] at promised
      · exact .inr (.inl (same ▸ promised))
    · exact .inr (.inr held)
  · rcases none with empty | same
    · simp [empty] at live
    · exact sound.made repo (same ▸ live)

theorem Sound.swap {other : Handler H} (sound : Sound ((s.push h).push other)) : Sound ((s.push other).push h) := by
  have members : ∀ x, x ∈ h :: other :: s.handlers ↔ x ∈ other :: h :: s.handlers :=
    fun x => (List.Perm.swap other h s.handlers).mem_iff
  refine sound.quiet ⟨rfl, rfl, rfl, rfl, rfl⟩ (fun x => ?_) (fun load used => ?_) (fun x member => ?_) sound.made
  · simp only [Branch.push_owed, List.mem_append]
    exact or_left_comm
  · simpa only [Branch.InUse, Branch.push, members] using used
  · exact sound.commits x ((members x).mp member)

end Frame

/-! ### The stage -/

section Stages

variable [DecidableEq H] {s t : Branch H} {h : Handler H}

omit [DecidableEq H] in
theorem getStage_stage (s : Branch H) : s.getStage.1.stage = some s.getStage.2 := by
  unfold Branch.getStage
  split
  · next stage current => exact current
  · rfl

omit [DecidableEq H] in
theorem getStage_same (s : Branch H) : s.getStage.1.head = s.head ∧ s.getStage.1.loads = s.loads ∧
    s.getStage.1.log = s.log ∧ s.getStage.1.handlers = s.handlers ∧ s.getStage.1.repos = s.repos ∧
    s.getStage.1.repoPromises = s.repoPromises := by
  unfold Branch.getStage
  split
  · exact ⟨rfl, rfl, rfl, rfl, rfl, rfl⟩
  · exact ⟨rfl, rfl, rfl, rfl, rfl, rfl⟩

omit [DecidableEq H] in
theorem Sound.getStage (sound : Sound s) : Sound s.getStage.1 := by
  unfold Branch.getStage
  split
  · exact sound
  · next unset =>
      have empty : s.stored = emptyStage := by simp only [Branch.stored, unset]
      have made : ({ s with stages := s.stages ++ [emptyStage], stage := some s.stages.length } :
          Branch H).stored = emptyStage := by simp [Branch.stored]
      have fresh : ∀ stage c, (stage, c) ∈ s.owed → s.stages.length ≠ stage := by
        intro stage c member same
        exact absurd (sound.stages.2 stage c member) (by omega)
      have untold : ∀ P : Change H → Prop, (∃ owing ∈ s.owed, some s.stages.length = some owing.1 ∧ P owing.2) ↔
            ∃ owing ∈ s.owed, none = some owing.1 ∧ P owing.2 := by
        intro P
        constructor
        · intro ⟨owing, member, same, _⟩
          exact absurd (some.inj same) (fresh owing.1 owing.2 member)
        · intro ⟨_, _, unmade, _⟩
          cases unmade
      refine sound.carry ⟨rfl, rfl, rfl, fun hash => ?_, fun hash => ?_, fun stage current => ?_, ?_, ?_⟩
        (fun _ used => used) sound.commits sound.made
      · simp only [Branch.StagedAdd, empty, made, unset]
        exact or_congr Iff.rfl (untold (·.Adds hash))
      · simp only [Branch.StagedDel, empty, made, unset]
        exact or_congr Iff.rfl (untold (·.Removes hash))
      · rw [unset] at current
        cases current
      · intro stage same
        simp at same ⊢
        omega
      · intro stage c member
        have bound := sound.stages.2 stage c member
        simp
        omega

theorem push_mem (stage : Stage H) (c : Change H) (hash : H) :
    (hash ∈ (stage.push c).additions ↔ hash ∈ stage.additions ∨ c.Adds hash) ∧
      (hash ∈ (stage.push c).deletions ↔ hash ∈ stage.deletions ∨ c.Removes hash) := by
  cases c <;> simp [Stage.push, Change.Adds, Change.Removes]

theorem Sound.push {stage : Nat} {c : Change H} (sound : Sound (t.push h)) (owes : h.owes = some (stage, c)) :
    Sound { t with stages := t.stages.modify stage (·.push c) } := by
  have pushed : (t.push h).owed = (stage, c) :: t.owed := by simp [Branch.push_owed, owes]
  have inside : stage < t.stages.length := sound.stages.2 stage c (by simp [pushed])
  have stored : ({ t with stages := t.stages.modify stage (·.push c) } : Branch H).stored =
      if t.stage = some stage then t.stored.push c else t.stored := by
    cases current : t.stage with
    | none => simp [Branch.stored, current]
    | some other =>
      by_cases same : stage = other
      · subst same
        simp [Branch.stored, current, List.getD_eq_getElem?_getD, inside]
      · simp [Branch.stored, current, List.getD_eq_getElem?_getD, same, Ne.symm same]
  refine sound.carry ⟨rfl, rfl, rfl, fun hash => ?_, fun hash => ?_, fun _ current => current, ?_, ?_⟩
    (fun load used => (Branch.push_inUse t h load).mpr (.inl used))
    (fun x member => sound.commits x (mem_cons_of_mem _ member)) sound.made
  · have before : (t.push h).StagedAdd hash ↔ hash ∈ t.stored.additions ∨ (t.stage = some stage ∧ c.Adds hash) ∨
          ∃ owing ∈ t.owed, t.stage = some owing.1 ∧ owing.2.Adds hash := by
      rw [Branch.StagedAdd, pushed]
      simp only [mem_cons, exists_eq_or_imp]
      exact Iff.rfl
    rw [before, Branch.StagedAdd, stored]
    by_cases current : t.stage = some stage
    · simp only [current, if_true, (push_mem _ c hash).1, true_and, or_assoc]
      exact Iff.rfl
    · simp only [current, if_false, false_and, false_or]
      exact Iff.rfl
  · have before : (t.push h).StagedDel hash ↔ hash ∈ t.stored.deletions ∨ (t.stage = some stage ∧ c.Removes hash) ∨
          ∃ owing ∈ t.owed, t.stage = some owing.1 ∧ owing.2.Removes hash := by
      rw [Branch.StagedDel, pushed]
      simp only [mem_cons, exists_eq_or_imp]
      exact Iff.rfl
    rw [before, Branch.StagedDel, stored]
    by_cases current : t.stage = some stage
    · simp only [current, if_true, (push_mem _ c hash).2, true_and, or_assoc]
      exact Iff.rfl
    · simp only [current, if_false, false_and, false_or]
      exact Iff.rfl
  · intro other current
    rw [List.length_modify]
    exact sound.stages.1 other current
  · intro other d member
    rw [List.length_modify]
    exact sound.stages.2 other d (by rw [pushed]; exact mem_cons_of_mem _ member)

end Stages

/-! ### A change of a repository -/

section Changes

variable {s t : Branch H} {h : Handler H} {repo stage : Nat} {r old : Repo H} {c : Change H}

theorem staged_change (repo : Nat) (r : Repo H) (current : t.stage = some stage) (owes : h.owes = some (stage, c)) (hash : H) :
    (((t.change repo r c).push h).StagedAdd hash ↔ t.StagedAdd hash ∨ c.Adds hash) ∧
      (((t.change repo r c).push h).StagedDel hash ↔ t.StagedDel hash ∨ c.Removes hash) := by
  have pushed : ((t.change repo r c).push h).owed = (stage, c) :: t.owed := by
    rw [Branch.push_owed, owes]
    rfl
  constructor
  · rw [Branch.StagedAdd, pushed]
    simp only [mem_cons, exists_eq_or_imp]
    have told : ((t.change repo r c).push h).stage = some stage := current
    rw [told, Branch.StagedAdd, current]
    simp only [true_and]
    exact or_left_comm.trans or_comm
  · rw [Branch.StagedDel, pushed]
    simp only [mem_cons, exists_eq_or_imp]
    have told : ((t.change repo r c).push h).stage = some stage := current
    rw [told, Branch.StagedDel, current]
    simp only [true_and]
    exact or_left_comm.trans or_comm

theorem persists_change (current : t.stage = some stage) (owes : h.owes = some (stage, c))
    (atoms : Finset H) (fits : t.Persists atoms) : ((t.change repo r c).push h).Persists atoms := by
  intro hash
  have ⟨add, del⟩ := staged_change repo r current owes hash
  have ⟨kept, gone⟩ := fits hash
  rw [add, del]
  cases c with
  | added hashes =>
    refine ⟨fun isKept => ?_, fun isGone => ?_⟩
    · rcases isKept with before | ⟨now, _⟩
      · exact (kept before).imp id .inl
      · exact .inr (.inr now)
    · rcases gone isGone.1 with staged | ⟨outside, unstaged⟩
      · exact .inl (.inl staged)
      · exact .inr ⟨outside, fun either => either.elim unstaged isGone.2⟩
  | removed hashes =>
    refine ⟨fun isKept => (kept isKept.1).imp id .inl, fun isGone => ?_⟩
    rcases isGone with before | now
    · rcases gone before with staged | ⟨outside, unstaged⟩
      · exact .inl (.inl staged)
      · exact .inr ⟨outside, fun either => either.elim unstaged id⟩
    · exact .inl (.inr now)

theorem fits_nothing (done : t.loads[repo]? = some (.done old)) (head : r.head = old.head)
    (nothing : c.hashes = ∅) (x : Handler H) (fits : t.Fits x) : (t.change repo r c).Fits x := by
  cases x with
  | storing other atoms unload => exact consistent_nothing c nothing fits
  | savedHead other unload =>
    have ⟨headFits, found, shown, written⟩ := fits
    refine ⟨consistent_nothing c nothing headFits, ?_⟩
    by_cases same : repo = other
    · subst same
      have inside := (List.getElem?_eq_some_iff.mp done).1
      have own : old = found := by simpa using done.symm.trans shown
      refine ⟨r, by simp [Branch.change, Branch.setRepo, inside], ?_⟩
      rw [head, own]
      exact consistent_nothing c nothing written
    · exact ⟨found, by simpa [Branch.change, Branch.setRepo, same] using shown, consistent_nothing c nothing written⟩
  | checkingOut other commit unload =>
    exact ⟨consistent_nothing c nothing fits.1, consistent_nothing c nothing fits.2⟩
  | clearing unload => exact consistent_nothing c nothing fits
  | _ => trivial

theorem fits_plain (s : Branch H) (x : Handler H) (plain : x.commits = false) : s.Fits x := by
  cases x with
  | storing _ _ _ => cases plain
  | savedHead _ _ => cases plain
  | checkingOut _ _ _ => cases plain
  | clearing _ => cases plain
  | _ => trivial

/-- A repository changes, alone if the change is not empty, and the stage is yet to be told. -/
theorem Sound.change (sound : Sound t) (current : t.stage = some stage)
    (owes : h.owes = some (stage, c)) (held : ∀ load, h.repo = some load → load = repo)
    (plain : h.commits = false) (done : t.loads[repo]? = some (.done old)) (head : r.head = old.head)
    (result : Branch.Consistent (c :: t.log) r.atoms)
    (alone : c.hashes ≠ ∅ → (∀ load, t.InUse load → load = repo) ∧ ∀ x ∈ t.handlers, x.commits = false) :
    Sound ((t.change repo r c).push h) := by
  have inside := (List.getElem?_eq_some_iff.mp done).1
  have set : ((t.change repo r c).push h).loads[repo]? = some (.done r) := by
    simp [Branch.change, Branch.setRepo, Branch.push, inside]
  have others : ∀ load, load ≠ repo → ((t.change repo r c).push h).loads[load]? = t.loads[load]? := by
    intro load apart
    simp [Branch.change, Branch.setRepo, Branch.push, Ne.symm apart]
  -- what else is in use saw no change
  have quiet : ∀ load, load ≠ repo → ((t.change repo r c).push h).InUse load → t.InUse load ∧ c.hashes = ∅ := by
    intro load apart used
    have before : t.InUse load := by
      rcases (Branch.push_inUse _ h load).mp used with before | new
      · exact before
      · exact absurd (held load new) apart
    by_contra some
    exact apart ((alone (fun nothing => some ⟨before, nothing⟩)).1 load before)
  refine ⟨fun other live => ?_, fun load found used shown => ?_, fun load atoms place used shown => ?_,
    persists_change current owes t.head sound.persists, fun x member => ?_, fun hash staged => ?_, ?_, ?_⟩
  · by_cases same : other = repo
    · exact ⟨r, same ▸ set⟩
    · rw [others other same]
      exact sound.made other live
  · by_cases same : load = repo
    · subst same
      rw [set] at shown
      have own : r = found := by simpa using shown
      exact own ▸ result
    · have ⟨before, nothing⟩ := quiet load same used
      rw [others load same] at shown
      exact consistent_nothing c nothing (sound.live load found before shown)
  · have apart : load ≠ repo := by
      intro same
      rw [same, set] at shown
      cases shown
    have ⟨before, nothing⟩ := quiet load apart used
    rw [others load apart] at shown
    have ⟨place', fits⟩ := sound.reading load atoms place before shown
    exact ⟨place', persists_change current owes atoms fits⟩
  · rcases mem_cons.mp member with here | there
    · exact fits_plain _ x (here ▸ plain)
    · by_cases nothing : c.hashes = ∅
      · exact fits_nothing done head nothing x (sound.commits x there)
      · exact fits_plain _ x ((alone nothing).2 x there)
  · rw [(staged_change repo r current owes hash).2] at staged
    cases c with
    | added hashes => exact staged.elim (sound.removed hash) (fun none => none.elim)
    | removed hashes => exact (staged.imp (sound.removed hash) id).symm
  · exact sound.stages.1
  · intro place d member
    rw [Branch.push_owed, owes] at member
    rcases List.mem_append.mp member with here | there
    · have same : (place, d) = (stage, c) := by simpa using here
      cases same
      exact sound.stages.1 stage current
    · exact sound.stages.2 place d there

end Changes

/-! ### Commits and loads -/

section Commits

variable {s t : Branch H} {repo : Nat} {old : Repo H}

theorem Sound.setRepo (r : Repo H) (sound : Sound s) (done : s.loads[repo]? = some (.done old))
    (atoms : s.InUse repo → Branch.Consistent s.log r.atoms)
    (head : r.head = old.head ∨ Branch.Consistent s.log r.head) : Sound (s.setRepo repo r) := by
  have inside := (List.getElem?_eq_some_iff.mp done).1
  have set : (s.setRepo repo r).loads[repo]? = some (.done r) := by simp [Branch.setRepo, inside]
  have others : ∀ load, load ≠ repo → (s.setRepo repo r).loads[load]? = s.loads[load]? := by
    intro load apart
    simp [Branch.setRepo, Ne.symm apart]
  refine ⟨fun other live => ?_, fun load found used shown => ?_, fun load atoms place used shown => ?_,
    sound.persists, fun x member => ?_, sound.removed, sound.stages⟩
  · by_cases same : other = repo
    · exact ⟨r, same ▸ set⟩
    · rw [others other same]
      exact sound.made other live
  · by_cases same : load = repo
    · subst same
      rw [set] at shown
      have own : r = found := by simpa using shown
      exact own ▸ atoms used
    · rw [others load same] at shown
      exact sound.live load found used shown
  · have apart : load ≠ repo := by
      intro same
      rw [same, set] at shown
      cases shown
    rw [others load apart] at shown
    exact sound.reading load atoms place used shown
  · have fits := sound.commits x member
    cases x with
    | savedHead other unload =>
      have ⟨headFits, found, shown, written⟩ := fits
      refine ⟨headFits, ?_⟩
      by_cases same : other = repo
      · subst same
        have own : old = found := by simpa using done.symm.trans shown
        refine ⟨r, set, ?_⟩
        rcases head with kept | new
        · rw [kept, own]
          exact written
        · exact new
      · exact ⟨found, by rw [others other same, shown], written⟩
    | storing other atoms unload => exact fits
    | checkingOut other commit unload => exact fits
    | clearing unload => exact fits
    | _ => trivial

theorem Sound.setHead (sound : Sound s) (head : Finset H) (fits : Branch.Consistent s.log head) :
    Sound { s with head := head } where
  made := sound.made
  live := sound.live
  reading := sound.reading
  persists hash := by
    refine ⟨fun isKept => .inl ((fits hash).1 isKept), fun isGone => ?_⟩
    have before := (sound.persists hash).2 isGone
    exact before.imp id (fun apart => ⟨(fits hash).2 isGone, apart.2⟩)
  commits x member := by
    have before := sound.commits x member
    cases x with
    | savedHead other unload => exact ⟨fits, before.2⟩
    | storing other atoms unload => exact before
    | checkingOut other commit unload => exact ⟨fits, before.2⟩
    | clearing unload => exact fits
    | _ => trivial
  removed := sound.removed
  stages := sound.stages

/-- The stage is cleared once the head has everything, while no load has yet to read it. -/
theorem Sound.clear (sound : Sound s) (fits : Branch.Consistent s.log s.head)
    (unread : ∀ load, s.InUse load → ∀ atoms stage, s.loads[load]? ≠ some (.getStage atoms stage)) :
    Sound { s with stage := none } where
  made := sound.made
  live := sound.live
  reading load atoms stage used shown := absurd shown (unread load used atoms stage)
  persists hash := by
    refine ⟨fun isKept => .inl ((fits hash).1 isKept), fun isGone => ?_⟩
    refine .inr ⟨(fits hash).2 isGone, ?_⟩
    simp [Branch.StagedAdd, Branch.stored, emptyStage]
  commits x member := by
    have before := sound.commits x member
    cases x with
    | savedHead other unload => exact before
    | storing other atoms unload => exact before
    | checkingOut other commit unload => exact before
    | clearing unload => exact before
    | _ => trivial
  removed hash staged := by
    simp [Branch.StagedDel, Branch.stored, emptyStage] at staged
  stages := ⟨fun stage unset => (by cases unset), sound.stages.2⟩

theorem Sound.setLoad (sound : Sound s) (load : Nat) (old new : Load H)
    (found : s.loads[load]? = some old) (unfinished : ∀ r, old ≠ .done r)
    (live : ∀ r, new = .getSettings r ∨ new = .done r → s.InUse load → Branch.Consistent s.log r.atoms)
    (reading : ∀ atoms stage, new = .getStage atoms stage → s.stage = some stage ∧ s.Persists atoms) :
    Sound { s with loads := s.loads.set load new } := by
  have set : (s.loads.set load new)[load]? = some new :=
    List.getElem?_set_self (List.getElem?_eq_some_iff.mp found).1
  have done : ∀ (repo : Nat) r, s.loads[repo]? = some (.done r) → (s.loads.set load new)[repo]? = some (.done r) := by
    intro repo r shown
    have apart : load ≠ repo := by
      intro same
      rw [same, shown] at found
      exact unfinished r (some.inj found).symm
    rw [List.getElem?_set_ne apart, shown]
  refine ⟨fun repo isLive => ?_, fun other r used shown => ?_, fun other atoms stage used shown => ?_,
    sound.persists, fun x member => ?_, sound.removed, sound.stages⟩
  · have ⟨r, shown⟩ := sound.made repo isLive
    exact ⟨r, done repo r shown⟩
  · by_cases same : load = other
    · subst same
      exact live r (by simpa [set] using shown) used
    · exact sound.live other r used (by simpa [List.getElem?_set_ne same] using shown)
  · by_cases same : load = other
    · subst same
      exact reading atoms stage (by simpa [set] using shown)
    · exact sound.reading other atoms stage used (by simpa [List.getElem?_set_ne same] using shown)
  · have fits := sound.commits x member
    cases x with
    | savedHead repo unload =>
      have ⟨headFits, r, shown, written⟩ := fits
      exact ⟨headFits, r, done repo r shown, written⟩
    | storing other atoms unload => exact fits
    | checkingOut other commit unload => exact fits
    | clearing unload => exact fits
    | _ => trivial

end Commits

/-! ### One step -/

section Step

variable [DecidableEq H] {s t next : Branch H} {h : Handler H}

theorem Sound.startCommit {repo : Nat} {r : Repo H} (sound : Sound s) (unload : Bool)
    (fits : Branch.Consistent s.log r.atoms) : Sound (s.startCommit repo r unload) := by
  unfold Branch.startCommit
  split
  · exact sound.start rfl (by simp [Handler.repo]) fits
  · split
    · exact sound.start rfl (by simp [Handler.repo]) trivial
    · exact sound

omit [DecidableEq H] in
theorem Sound.inHand {repo : Nat} {r : Repo H} (sound : Sound (t.push h)) (held : h.repo = some repo)
    (done : t.loads[repo]? = some (.done r)) : Branch.Consistent t.log r.atoms :=
  sound.live repo r ((Branch.push_inUse t h repo).mpr (.inr held)) (.inr done)

omit [DecidableEq H] in
theorem Sound.changed {repo : Nat} {old : Repo H} (r : Repo H) (c : Change H)
    (sound : Sound (t.push h)) (paid : h.owes = none) (done : t.loads[repo]? = some (.done old)) (head : r.head = old.head)
    (result : Branch.Consistent (c :: t.log) r.atoms)
    (alone : c.hashes ≠ ∅ → (t.push h).Alone repo) (after : Nat → Handler H)
    (owes : ∀ stage, (after stage).owes = some (stage, c))
    (held : ∀ stage load, (after stage).repo = some load → load = repo)
    (plain : ∀ stage, (after stage).commits = false) :
    Sound ((t.change repo r c).getStage.1.push (after (t.change repo r c).getStage.2)) := by
  have ended := (sound.drop paid).getStage
  have ⟨_, loads, log, handlers, _, _⟩ := getStage_same t
  have swap : (t.change repo r c).getStage = (t.getStage.1.change repo r c, t.getStage.2) := by
    cases unset : t.stage <;> simp [Branch.getStage, Branch.change, Branch.setRepo, unset]
  rw [swap]
  apply ended.change (getStage_stage t) (owes _) (held _) (plain _)
  · rw [loads]
    exact done
  · exact head
  · rw [log]
    exact result
  · intro some
    have ⟨only, quiet⟩ := alone some
    have ⟨_, _, _, _, repos, promises⟩ := getStage_same t
    refine ⟨fun load used => only load ((Branch.push_inUse t h load).mpr (.inl ?_)), fun x member => ?_⟩
    · rwa [Branch.InUse, repos, promises, handlers] at used
    · rw [handlers] at member
      exact quiet x (mem_cons_of_mem _ member)

theorem resume_sound (sound : Sound (t.push h)) (allowed : GoesOn (t.push h) h)
    (ran : t.resume h = some next) : Sound next := by
  cases h with
  | asking n =>
    obtain rfl := some.inj ran
    exact (sound.drop rfl).getOrLoadRepo n
  | waiting load n =>
    simp only [Branch.resume] at ran
    split at ran
    · next r done =>
        obtain rfl := some.inj ran
        have loaded := sound.loaded rfl rfl done
        exact loaded.start rfl (fun other same => .inl same) trivial
    · cases ran
  | given repo n =>
    cases n with
    | watchBranch =>
      obtain rfl := some.inj ran
      exact sound.drop rfl
    | addAtoms event =>
      simp only [Branch.resume] at ran
      split at ran
      · next r done =>
          obtain rfl := some.inj ran
          have result := consistent_added (event.atoms \ r.atoms) (sound.inHand rfl done)
          exact sound.changed (r.addMany event.atoms).1 (.added (event.atoms \ r.atoms)) rfl done rfl
            result (fun some => allowed r done some)
            (fun stage => .adding repo stage (event.atoms \ r.atoms) event) (fun _ => rfl)
            (fun _ _ same => (some.inj same).symm) (fun _ => rfl)
      · cases ran
    | commit =>
      simp only [Branch.resume] at ran
      split at ran
      · next r done =>
          obtain rfl := some.inj ran
          exact (sound.drop rfl).startCommit false (sound.inHand rfl done)
      · cases ran
  | adding repo stage added event =>
    obtain rfl := some.inj ran
    have both : Sound ((t.push (.adding repo stage added event)).push (.storingAtoms repo event)) :=
      sound.start rfl (fun load same => (Branch.push_inUse t _ load).mpr (.inr same)) trivial
    exact both.swap.push rfl
  | storingAtoms repo event =>
    simp only [Branch.resume] at ran
    split at ran
    · next r done =>
        obtain rfl := some.inj ran
        have result := consistent_removed (event.removedAtoms ∩ r.atoms) (sound.inHand rfl done)
        exact sound.changed (r.removeMany event.removedAtoms).1
          (.removed (event.removedAtoms ∩ r.atoms)) rfl done rfl result
          (fun some => allowed r done some)
          (fun stage => .removing stage (event.removedAtoms ∩ r.atoms)) (fun _ => rfl)
          (fun _ _ same => (by cases same)) (fun _ => rfl)
    · cases ran
  | removing stage removed =>
    obtain rfl := some.inj ran
    exact sound.push rfl
  | storing repo atoms unload =>
    have fits : Branch.Consistent t.log atoms := sound.commits _ List.mem_cons_self
    have ended := sound.drop rfl
    simp only [Branch.resume] at ran
    split at ran
    · next r done =>
        obtain rfl := some.inj ran
        have shown : ({ t with head := atoms } : Branch H).loads[repo]? = some (.done r) := done
        have written := (ended.setHead atoms fits).setRepo { r with head := atoms } shown
          (fun used => ended.live repo r used (.inr done)) (.inr fits)
        have inside := (List.getElem?_eq_some_iff.mp done).1
        refine written.start rfl (by simp [Handler.repo]) ⟨fits, { r with head := atoms }, ?_, fits⟩
        simp [Branch.setRepo, inside]
    · cases ran
  | savedHead repo unload =>
    have ⟨headFits, found, shown, written⟩ : Branch.Fits (t.push _) (.savedHead repo unload) :=
      sound.commits _ List.mem_cons_self
    simp only [Branch.resume] at ran
    split at ran
    · next r done =>
        obtain rfl := some.inj ran
        have own : found = r := by simpa using shown.symm.trans done
        exact (sound.drop rfl).start rfl (by simp [Handler.repo]) ⟨headFits, own ▸ written⟩
    · cases ran
  | checkingOut repo commit unload =>
    have ⟨headFits, fits⟩ : Branch.Fits (t.push _) (.checkingOut repo commit unload) :=
      sound.commits _ List.mem_cons_self
    simp only [Branch.resume] at ran
    split at ran
    · next r done =>
        obtain rfl := some.inj ran
        have checkedOut := (sound.drop rfl).setRepo (r.setCurrentCommit commit) done (fun _ => fits) (.inl rfl)
        exact checkedOut.start rfl (by simp [Handler.repo]) headFits
    · cases ran
  | clearing unload =>
    have fits : Branch.Consistent t.log t.head := sound.commits _ List.mem_cons_self
    obtain rfl := some.inj ran
    have cleared := (sound.drop rfl).clear fits (fun load used =>
      allowed load ((Branch.push_inUse t _ load).mpr (.inl used)))
    split
    · exact cleared.start rfl (by simp [Handler.repo]) trivial
    · exact cleared
  | unloading promise =>
    cases promise with
    | none =>
      obtain rfl := some.inj ran
      have released := (sound.drop rfl).release none t.repos (.inl rfl) (.inr rfl)
      exact released.start rfl (by simp [Handler.repo]) trivial
    | some load =>
      simp only [Branch.resume] at ran
      split at ran
      · next r done =>
          obtain rfl := some.inj ran
          have released := (sound.drop rfl).release none t.repos (.inl rfl) (.inr rfl)
          exact released.startCommit true (sound.inHand rfl done)
      · cases ran
  | closing =>
    obtain rfl := some.inj ran
    exact (sound.drop rfl).release t.repoPromises none (.inr rfl) (.inl rfl)

theorem goesOn_front {i : Nat} (found : s.handlers[i]? = some h) (allowed : GoesOn s h) :
    GoesOn ({ s with handlers := s.handlers.eraseIdx i }.push h) h := by
  have ⟨inside, same⟩ := List.getElem?_eq_some_iff.mp found
  have perm := List.getElem_cons_eraseIdx_perm inside
  rw [same] at perm
  have members : ∀ x, x ∈ h :: s.handlers.eraseIdx i ↔ x ∈ s.handlers := fun x => perm.mem_iff
  have used : ∀ load, ({ s with handlers := s.handlers.eraseIdx i }.push h).InUse load → s.InUse load := by
    intro load inUse
    simpa only [Branch.InUse, Branch.push, members] using inUse
  have alone : ∀ repo, s.Alone repo → ({ s with handlers := s.handlers.eraseIdx i }.push h).Alone repo :=
    fun repo ⟨only, quiet⟩ =>
      ⟨fun load inUse => only load (used load inUse), fun x member => quiet x ((members x).mp member)⟩
  cases h with
  | given repo n =>
    cases n with
    | addAtoms event => exact fun r done some => alone repo (allowed r done some)
    | _ => trivial
  | storingAtoms repo event => exact fun r done some => alone repo (allowed r done some)
  | clearing unload => exact fun load inUse => allowed load (used load inUse)
  | _ => trivial

theorem mem_replay (atoms : Finset H) (stage : Stage H) (hash : H) : hash ∈ (Branch.replay atoms stage).atoms ↔
      (hash ∈ atoms ∨ hash ∈ stage.additions) ∧ hash ∉ stage.deletions := by
  simp only [Branch.replay, Repo.addMany, Repo.removeMany, Finset.mem_sdiff, Finset.mem_union, Finset.mem_inter]
  grind

/-- A load that reads the stage while nothing is owed to it shows what must be kept. -/
theorem Sound.replayed (sound : Sound s) (paid : s.owed = []) (atoms : Finset H) (stage : Nat)
    (current : s.stage = some stage) (fits : s.Persists atoms) :
    Branch.Consistent s.log (Branch.replay atoms (s.stages.getD stage emptyStage)).atoms := by
  intro hash
  have stored : s.stored = s.stages.getD stage emptyStage := by simp only [Branch.stored, current]
  have ⟨kept, gone⟩ := fits hash
  have removed := sound.removed hash
  simp only [Branch.StagedAdd, Branch.StagedDel, paid, List.not_mem_nil, false_and, exists_false,
    or_false, stored] at kept gone removed
  rw [mem_replay]
  refine ⟨fun isKept => ⟨kept isKept, fun staged => ?_⟩, fun isGone => ?_⟩
  · exact not_removed_of_kept s.log hash isKept (removed staged)
  · intro ⟨either, unstaged⟩
    rcases gone isGone with staged | ⟨outside, unadded⟩
    · exact unstaged staged
    · exact either.elim outside unadded

theorem step_sound (label : Label H) (sound : Sound s) (allowed : Allowed s label)
    (ran : step s label = some next) : Sound next := by
  cases label with
  | watchBranch =>
    obtain rfl := some.inj ran
    exact sound.start rfl (by simp [Handler.repo]) trivial
  | addAtoms event =>
    obtain rfl := some.inj ran
    exact sound.start rfl (by simp [Handler.repo]) trivial
  | commit =>
    obtain rfl := some.inj ran
    exact sound.start rfl (by simp [Handler.repo]) trivial
  | tryUnload =>
    obtain rfl := some.inj ran
    exact sound.start rfl (fun load same => .inr (.inl same)) trivial
  | resume i =>
    simp only [step] at ran
    split at ran
    · next h found =>
        exact resume_sound (sound.front found) (goesOn_front found (allowed h found)) ran
    · cases ran
  | readHead load =>
    simp only [step] at ran
    split at ran
    · next found =>
        obtain rfl := some.inj ran
        have staged := sound.getStage
        have ⟨_, loads, _⟩ := getStage_same s
        refine staged.setLoad load .checkout (.getStage s.getStage.1.head s.getStage.2)
          (by rw [loads, found]) (by simp) (by simp) (fun atoms stage same => ?_)
        obtain ⟨rfl, rfl⟩ := Load.getStage.inj same
        exact ⟨getStage_stage s, staged.persists⟩
    · cases ran
  | readStage load =>
    simp only [step] at ran
    split at ran
    · next atoms stage found =>
        obtain rfl := some.inj ran
        refine sound.setLoad load _ _ found (by simp) (fun r same used => ?_) (by simp)
        have own : Branch.replay atoms (s.stages.getD stage emptyStage) = r := by simpa using same
        have ⟨current, fits⟩ := sound.reading load atoms stage used found
        exact own ▸ sound.replayed allowed atoms stage current fits
    · cases ran
  | finishLoad load =>
    simp only [step] at ran
    split at ran
    · next repo found =>
        obtain rfl := some.inj ran
        refine sound.setLoad load _ _ found (by simp) (fun r same used => ?_) (by simp)
        have own : repo = r := by simpa using same
        exact own ▸ sound.live load repo used (.inl found)
    · cases ran

end Step

/-! ### Every run -/

section Runs

variable [DecidableEq H] {s : Branch H}

omit [DecidableEq H] in
theorem sound_idle (head : Finset H) : Sound (idle head) where
  made repo live := by cases live
  live load r used := by simp [idle, Branch.InUse] at used
  reading load atoms stage used := by simp [idle, Branch.InUse] at used
  persists hash := ⟨fun isKept => isKept.elim, fun isGone => isGone.elim⟩
  commits h member := by cases member
  removed hash staged := by simp [idle, Branch.StagedDel, Branch.stored, Branch.owed, emptyStage] at staged
  stages := ⟨fun stage unset => (by cases unset), fun stage c member => (by cases member)⟩

end Runs

/-! ### Atoms that come during a commit -/

section Sample

/-- An event is handled to its end; `rest` are the steps of the load, when there is one. -/
def adding (hash : Nat) (load : List (Label Nat)) : List (Label Nat) :=
  [.addAtoms { atoms := {hash}, removedAtoms := ∅ }, .resume 0] ++ load ++
    [.resume 0, .resume 0, .resume 0, .resume 0]

def loading : List (Label Nat) := [.readHead 0, .readStage 0, .finishLoad 0, .resume 0]

def committing : List (Label Nat) := [.commit, .resume 0, .resume 0]

def committed : List (Label Nat) := [.resume 0, .resume 0, .resume 0, .resume 0]

/-- A step of a branch whose only handler uses its only repository. -/
def calm (s : Branch Nat) (label : Label Nat) : Bool :=
  s.handlers.length ≤ 1 && s.handlers.all (fun h => h.repo.all (· = 0)) && s.repos.all (· = 0) &&
    s.repoPromises.all (· = 0) &&
    match label with
    | .resume _ => s.loads.all (fun load => match load with
        | .getStage _ _ => false
        | _ => true)
    | .readStage _ => s.owed.isEmpty
    | _ => true

theorem allowed_of_calm (s : Branch Nat) (label : Label Nat) (still : calm s label = true) : Allowed s label := by
  simp only [calm, Bool.and_eq_true, decide_eq_true_eq] at still
  have ⟨⟨⟨⟨short, hands⟩, live⟩, promises⟩, rest⟩ := still
  have only : ∀ load, s.InUse load → load = 0 := by
    intro load used
    rcases used with isLive | promised | ⟨x, member, held⟩
    · simpa [isLive] using live
    · simpa [promised] using promises
    · simpa [held] using all_eq_true.mp hands x member
  have alone : ∀ handler ∈ s.handlers, handler.commits = false → s.Alone 0 := by
    intro handler member plain
    refine ⟨only, fun x inside => ?_⟩
    have same : x = handler := by
      match shape : s.handlers, short with
      | [], _ => simp [shape] at member
      | [one], _ =>
        rw [shape, List.mem_singleton] at member inside
        rw [inside, member]
    rw [same, plain]
  cases label with
  | resume i =>
    intro handler found
    have member := List.mem_of_getElem? found
    cases handler with
    | given repo n =>
      have own : repo = 0 := by simpa [Handler.repo] using all_eq_true.mp hands _ member
      cases n with
      | addAtoms event => exact fun r _ _ => own ▸ alone _ member rfl
      | _ => trivial
    | storingAtoms repo event =>
      have own : repo = 0 := by simpa [Handler.repo] using all_eq_true.mp hands _ member
      exact fun r _ _ => own ▸ alone _ member rfl
    | clearing unload =>
      intro load _ atoms stage shown
      have quiet := all_eq_true.mp rest _ (List.mem_of_getElem? shown)
      cases quiet
    | _ => trivial
  | readStage load => exact List.isEmpty_iff.mp rest
  | _ => trivial

end Sample

end CasualOS.ConcurrentCommits
