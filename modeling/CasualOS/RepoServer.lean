import CasualOS.CausalRepo
import CasualOS.Weave2

/-! The server's side of one branch: the loaded repository and weave, the stage store, and the handler
that adds and removes atoms. -/

namespace CasualOS

open Dll (Ref)

variable {T : Type}

/-! ### The stage store -/

/-- The uncommitted changes of each branch. -/
abbrev MemoryStageStore (T : Type) := OrderedMap JsString (AtomIndexFullDiff T)

namespace MemoryStageStore

def getStage (stages : MemoryStageStore T) (branch : JsString) : AtomIndexFullDiff T :=
  (stages.get branch).getD CausalRepo.emptyStage

def addAtoms (stages : MemoryStageStore T) (branch : JsString) (atoms : List (Atom T)) :
    MemoryStageStore T :=
  let stage := stages.getStage branch
  stages.set branch { stage with additions := stage.additions ++ atoms }

def removeAtoms (stages : MemoryStageStore T) (branch : JsString) (atoms : List (Atom T)) :
    MemoryStageStore T :=
  let stage := stages.getStage branch
  stages.set branch
    { stage with
      deletions := atoms.foldl (fun list atom => list.set atom.hash (atomIdToString atom.id))
        stage.deletions }

def clearStage (stages : MemoryStageStore T) (branch : JsString) : MemoryStageStore T :=
  stages.delete branch

end MemoryStageStore

/-! ### Which changes are let in -/

section Filters

/-- The results of an insertion after which the atom may go into the repository. -/
def isAddable [DecidableEq T] (atom : Atom T) : WeaveResult T → Bool
  | .atomAdded _ => true
  | .atomAlreadyAdded _ => true
  | .nothingHappened => true
  | .conflict winner _ _ => winner = atom
  | _ => false

/-- The filter of the added atoms, which inserts each of them in the weave. When an insertion fails the
weave is the one before it. -/
def addable [DecidableEq T] (getHash : AtomHashInput T → JsString) (w : Weave T) :
    List (Atom T) → Weave T × Except Failure (List (Atom T))
  | [] => (w, .ok [])
  | atom :: rest =>
    match w.insert getHash atom with
    | .error failure => (w, .error failure)
    | .ok (w, result) =>
      let (w, kept) := addable getHash w rest
      (w, kept.map (fun kept => if isAddable atom result then atom :: kept else kept))

/-- The nodes from one on to its root, or nothing when a cause is missing, which is thrown. -/
def chainFrom (w : Weave T) : Nat → Ref → Except Failure (Option (List Ref))
  | 0, _ => .error .diverges
  | fuel + 1, node =>
    match (w.atomAt node).bind Atom.cause with
    | none => .ok (some [node])
    | some cause =>
      match w.getNode cause with
      | none => .ok none
      | some parent => (chainFrom w fuel parent).map (Option.map (node :: ·))

def referenceChain (w : Weave T) (id : AtomId) : Except Failure (Option (List Ref)) :=
  match w.getNode id with
  | none => .ok (some [])
  | some node => chainFrom w (w.nodes.length + 1) node

def isRemovable (w : Weave T) (hash : JsString) : Except Failure (Option Bool) :=
  match (w.getNodeByHash hash).bind w.atomAt with
  | none => .ok (some true)
  | some atom =>
    (referenceChain w atom.id).map (Option.map (fun chain => (chain.filterMap w.atomAt).all
      (fun a => a.id.cardinality.get?.isNone)))

/-- The filter of the removed hashes, or nothing when it throws. -/
def removable (w : Weave T) : List JsString → Except Failure (Option (List JsString))
  | [] => .ok (some [])
  | hash :: rest => do
      match ← isRemovable w hash with
      | none => return none
      | some keep =>
        let kept ← removable w rest
        return kept.map (fun kept => if keep then hash :: kept else kept)

end Filters

/-! ### The handler -/

structure RepoData (T : Type) where
  repo : CausalRepo T
  weave : Weave T
  settings : CausalRepoBranchSettings

structure AddAtomsEvent (T : Type) where
  atoms : List (Atom T)
  removedAtoms : List JsString

/-- What the handler works on: the loaded branch and the two stores. -/
structure Live (T : Type) where
  branch : JsString
  data : RepoData T
  store : MemoryCausalRepoStore T
  stages : MemoryStageStore T

/-- What the handler sends: the changes, to the other devices of the branch, and the hashes, to the
device that sent the event. -/
structure Sent (T : Type) where
  addAtoms : Option (AddAtomsEvent T)
  atomsReceived : Option (List JsString)

def acknowledgement (event : AddAtomsEvent T) : List JsString :=
  event.atoms.map Atom.hash ++ event.removedAtoms

namespace Live

def storeAdded (s : Live T) (isTemp : Bool) (added : List (Atom T)) : Live T :=
  if isTemp then s
  else
    { s with
      stages := s.stages.addAtoms s.branch added
      store := s.store.storeObjects s.branch (added.map .atom) }

def storeRemoved (s : Live T) (isTemp : Bool) (removed : List (Atom T)) : Live T :=
  if isTemp then s else { s with stages := s.stages.removeAtoms s.branch removed }

def withRepo (s : Live T) (repo : CausalRepo T) : Live T :=
  { s with data := { s.data with repo := repo } }

def withWeave (s : Live T) (w : Weave T) : Live T := { s with data := { s.data with weave := w } }

def letIn (s : Live T) (accepted : List (Atom T)) (isTemp : Bool) : Live T × List (Atom T) :=
  let (repo, added) := s.data.repo.addMany accepted
  ((s.withRepo repo).storeAdded isTemp added, added)

def dismiss (s : Live T) (accepted : List JsString) (isTemp : Bool) : Live T × List (Atom T) :=
  let (repo, removed) := s.data.repo.removeMany accepted
  ((s.withRepo repo).storeRemoved isTemp removed, removed)

/-- The message about what was added and removed, if anything was. -/
def changes (added removed : List (Atom T)) : Option (AddAtomsEvent T) :=
  if added.length > 0 || removed.length > 0 then
    some { atoms := added, removedAtoms := removed.map Atom.hash }
  else none

variable [DecidableEq T] (getHash : AtomHashInput T → JsString)

/-- The handler of `ADD_ATOMS`, run to its end; nothing when it never ends. An exception is caught, with
nothing sent. -/
def addAtoms (s : Live T) (event : AddAtomsEvent T) (isTemp authenticated : Bool) :
    Option (Live T × Sent T) :=
  if s.data.settings.passwordHash.any (· ≠ []) && !authenticated then
    some (s, { addAtoms := none, atomsReceived := some [] })
  else
    match addable getHash s.data.weave event.atoms with
    | (_, .error .diverges) => none
    | (w, .error .typeError) => some (s.withWeave w, { addAtoms := none, atomsReceived := none })
    | (w, .ok accepted) =>
      let (s, added) := (s.withWeave w).letIn accepted isTemp
      match removable s.data.weave event.removedAtoms with
      | .error .diverges => none
      | .error .typeError | .ok none => some (s, { addAtoms := none, atomsReceived := none })
      | .ok (some accepted) =>
        let (s, removed) := s.dismiss accepted isTemp
        some (s,
          { addAtoms := changes added removed, atomsReceived := some (acknowledgement event) })

end Live

/-! ### Loading a branch -/

def weaveOf (getHash : AtomHashInput T → JsString) (atoms : List (Atom T)) : Except Failure (Weave T) :=
  insertAll getHash (Weave.new none) atoms

structure Loaded (T : Type) where
  repo : CausalRepo T
  weave : Except Failure (Weave T)
  settings : CausalRepoBranchSettings

def replayStage (repo : CausalRepo T) (stage : AtomIndexFullDiff T) : CausalRepo T :=
  ((repo.addMany stage.additions).1.removeMany (stage.deletions.entries.map Prod.fst)).1

/-- `_loadRepo`; the weave that it builds last may fail where the repository does not. -/
def loadRepo (getHash : AtomHashInput T → JsString) (store : MemoryCausalRepoStore T)
    (stages : MemoryStageStore T) (branch : JsString) (createBranch : Bool) (now : Int) :
    Except RepoError (Loaded T) :=
  let called := CausalRepo.new.checkout store branch (if createBranch then some none else none) now
  match called.result with
  | .error e => .error e
  | .ok () =>
    let repo := replayStage called.repo (stages.getStage branch)
    .ok
      { repo := repo
        weave := weaveOf getHash repo.getAtoms
        settings := (called.store.getBranchSettings branch).getD
          { branch := branch, time := now, passwordHash := none } }

end CasualOS
