import CasualOS.AtomIndex

/-! A repository: a branch that is checked out, its atoms, and the changes since the last commit; and
the store that holds branches, commits and atoms. -/

namespace CasualOS

structure CausalRepoBranch where
  name : JsString
  hash : Option JsString
  time : Int
  deriving DecidableEq, Repr

structure CausalRepoReflog where
  branch : JsString
  hash : Option JsString
  time : Int
  deriving DecidableEq, Repr

structure CausalRepoBranchSettings where
  branch : JsString
  time : Int
  passwordHash : Option JsString
  deriving DecidableEq, Repr

structure CausalRepoCommit where
  hash : JsString
  message : JsString
  time : Int
  index : JsString
  previousCommit : Option JsString
  deriving DecidableEq, Repr

inductive CausalRepoObject (T : Type) where
  | atom (data : Atom T)
  | index (data : AtomIndex)
  | commit (data : CausalRepoCommit)

/-- The array whose hash is the hash of a commit. -/
structure CommitHashInput where
  message : JsString
  time : Int
  index : JsString
  previousCommit : Option JsString
  deriving DecidableEq, Repr

/-- `getHash` on the arrays that it is called with: atoms, lists of hashes, commits. -/
structure Hashes (T : Type) where
  ofAtom : AtomHashInput T → JsString
  ofList : List JsString → JsString
  ofCommit : CommitHashInput → JsString

variable {T : Type}

def getObjectHash : CausalRepoObject T → JsString
  | .atom data => data.hash
  | .index data => data.hash
  | .commit data => data.hash

/-- `commit(message, time, index, previousCommit)`. -/
def newCommit (hashes : Hashes T) (message : JsString) (time : Int) (index : AtomIndex)
    (previousCommit : Option CausalRepoCommit) : CausalRepoCommit where
  hash := hashes.ofCommit
    { message := message, time := time, index := index.hash,
      previousCommit := previousCommit.map CausalRepoCommit.hash }
  message := message
  time := time
  index := index.hash
  previousCommit := previousCommit.map CausalRepoCommit.hash

/-- The errors that reject a call: the two messages about branches, the two about bad data, and reading
a property of null or undefined. -/
inductive RepoError where
  | branchNotFound (name : JsString)
  | branchExists
  | commitWithoutIndex
  | indexWithoutAtom
  | typeError
  deriving DecidableEq, Repr

/-! ### The store -/

structure MemoryCausalRepoStore (T : Type) where
  map : OrderedMap JsString (CausalRepoObject T)
  headsMap : OrderedMap JsString (OrderedMap JsString (CausalRepoObject T))
  indexes : OrderedMap JsString (List (CausalRepoObject T))
  branches : List CausalRepoBranch
  reflog : OrderedMap JsString (List CausalRepoReflog)
  settings : OrderedMap JsString CausalRepoBranchSettings
  named : (branches.map CausalRepoBranch.name).Nodup

def putBranch (head : CausalRepoBranch) : List CausalRepoBranch → List CausalRepoBranch
  | [] => [head]
  | b :: rest => if b.name = head.name then head :: rest else b :: putBranch head rest

theorem putBranch_names (head : CausalRepoBranch) (branches : List CausalRepoBranch) :
    (putBranch head branches).map CausalRepoBranch.name =
      if head.name ∈ branches.map CausalRepoBranch.name
        then branches.map CausalRepoBranch.name
        else branches.map CausalRepoBranch.name ++ [head.name] := by
  induction branches with
  | nil => simp [putBranch]
  | cons b rest ih =>
    by_cases same : b.name = head.name
    · simp [putBranch, same]
    · rw [putBranch, if_neg same, List.map_cons, ih]
      by_cases present : head.name ∈ rest.map CausalRepoBranch.name
      · simp [present]
      · simp [present, Ne.symm same]

theorem putBranch_others (head : CausalRepoBranch) (branches : List CausalRepoBranch) :
    (putBranch head branches).filter (fun b => b.name ≠ head.name) =
      branches.filter (fun b => b.name ≠ head.name) := by
  induction branches with
  | nil => simp [putBranch]
  | cons b rest ih =>
    by_cases same : b.name = head.name
    · simp [putBranch, same]
    · simp only [putBranch, if_neg same, List.filter_cons, ih]

theorem mem_putBranch (head : CausalRepoBranch) (branches : List CausalRepoBranch) :
    head ∈ putBranch head branches := by
  induction branches with
  | nil => simp [putBranch]
  | cons b rest ih =>
    by_cases same : b.name = head.name
    · simp [putBranch, same]
    · simp [putBranch, if_neg same, ih]

namespace MemoryCausalRepoStore

variable (store : MemoryCausalRepoStore T)

def new : MemoryCausalRepoStore T where
  map := OrderedMap.empty
  headsMap := OrderedMap.empty
  indexes := OrderedMap.empty
  branches := []
  reflog := OrderedMap.empty
  settings := OrderedMap.empty
  named := List.nodup_nil

def getObject (key : JsString) : Option (CausalRepoObject T) := store.map.get key

def getObjects (head : JsString) (keys : List JsString) : List (Option (CausalRepoObject T)) :=
  keys.map (((store.headsMap.get head).getD OrderedMap.empty).get)

def storeObjects (head : JsString) (objects : List (CausalRepoObject T)) :
    MemoryCausalRepoStore T :=
  { store with
    map := objects.foldl (fun map obj => map.set (getObjectHash obj) obj) store.map
    headsMap := store.headsMap.set head
      (objects.foldl (fun map obj => map.set (getObjectHash obj) obj)
        ((store.headsMap.get head).getD OrderedMap.empty)) }

def loadIndex (head : JsString) (index : AtomIndex) : List (Option (CausalRepoObject T)) :=
  match store.indexes.get index.hash with
  | some data => data.map some
  | none => store.getObjects head (index.atoms.entries.map Prod.fst)

def storeIndex (head index : JsString) (objects : List (CausalRepoObject T)) :
    MemoryCausalRepoStore T :=
  { store with indexes := store.indexes.set index objects }.storeObjects head objects

/-- `start` is the text that the names begin with. -/
def getBranches (start : JsString) : List CausalRepoBranch :=
  (store.branches.filter (fun b => start.isPrefixOf b.name)).insertionSort
    (fun a b => ¬ b.name < a.name)

def saveBranch (head : CausalRepoBranch) (now : Int) : MemoryCausalRepoStore T :=
  { store with
    branches := putBranch head store.branches
    reflog := store.reflog.set head.name
      ({ branch := head.name, hash := head.hash, time := now } ::
        (store.reflog.get head.name).getD [])
    named := by
      rw [putBranch_names]
      split
      · exact store.named
      · next absent => simpa using store.named.concat absent }

def getBranchSettings (branch : JsString) : Option CausalRepoBranchSettings :=
  store.settings.get branch

def saveSettings (settings : CausalRepoBranchSettings) : MemoryCausalRepoStore T :=
  { store with settings := store.settings.set settings.branch settings }

end MemoryCausalRepoStore

/-! ### Loading commits -/

structure CommitData (T : Type) where
  commit : Option CausalRepoCommit
  index : AtomIndex
  atoms : OrderedMap JsString (Atom T)

def atomMap (atoms : List (Atom T)) : OrderedMap JsString (Atom T) :=
  atoms.foldl (fun map atom => map.set atom.hash atom) OrderedMap.empty

def atomOf : Option (CausalRepoObject T) → Except RepoError (Atom T)
  | some (.atom data) => .ok data
  | some _ => .error .indexWithoutAtom
  | none => .error .typeError

def loadAtomsForHeadOrIndex (store : MemoryCausalRepoStore T) (head : JsString) (index : AtomIndex) :
    Except RepoError (OrderedMap JsString (Atom T)) :=
  ((store.loadIndex head index).mapM atomOf).map atomMap

def loadIndexData (store : MemoryCausalRepoStore T) (head : JsString) (commit : Option CausalRepoCommit)
    (index : AtomIndex) : Except RepoError (CommitData T) :=
  (loadAtomsForHeadOrIndex store head index).map
    (fun atoms => { commit := commit, index := index, atoms := atoms })

def loadCommit (store : MemoryCausalRepoStore T) (head : JsString) (commit : CausalRepoCommit) :
    Except RepoError (CommitData T) :=
  match store.getObject commit.index with
  | none => .error .typeError
  | some (.index index) => loadIndexData store head (some commit) index
  | some _ => .error .commitWithoutIndex

/-- No data when the branch points to nothing, or to an atom. -/
def loadBranch (store : MemoryCausalRepoStore T) (branch : CausalRepoBranch) :
    Except RepoError (Option (CommitData T)) :=
  match branch.hash.bind store.getObject with
  | some (.commit commit) => (loadCommit store branch.name commit).map some
  | some (.index index) => (loadIndexData store branch.name none index).map some
  | _ => .ok none

/-! ### The repository -/

structure CausalRepo (T : Type) where
  stage : AtomIndexFullDiff T
  atoms : OrderedMap JsString (Atom T)
  head : Option CausalRepoBranch
  currentCommit : Option (CommitData T)

/-- A repository, its store, and what a call on them answered. -/
structure Called (T R : Type) where
  repo : CausalRepo T
  store : MemoryCausalRepoStore T
  result : Except RepoError R

namespace CausalRepo

def emptyStage : AtomIndexFullDiff T := { additions := [], deletions := OrderedMap.empty }

def new : CausalRepo T where
  stage := emptyStage
  atoms := OrderedMap.empty
  head := none
  currentCommit := none

variable (repo : CausalRepo T)

def getAtoms : List (Atom T) := repo.atoms.values

def hasChanges : Bool := repo.stage.additions.length > 0 || repo.stage.deletions.size > 0

def addOne (repo : CausalRepo T) (atom : Atom T) : CausalRepo T :=
  match repo.atoms.get atom.hash with
  | some _ => repo
  | none =>
    { repo with
      stage :=
        { additions := repo.stage.additions ++ [atom]
          deletions := repo.stage.deletions.delete atom.hash }
      atoms := repo.atoms.set atom.hash atom }

/-- The repository afterwards, and the atoms that were not in it before. -/
def addMany (repo : CausalRepo T) : List (Atom T) → CausalRepo T × List (Atom T)
  | [] => (repo, [])
  | atom :: rest =>
    let (final, added) := (repo.addOne atom).addMany rest
    (final, if (repo.atoms.get atom.hash).isNone then atom :: added else added)

/-- The entry of `additions` that `indexOf` finds is the one with the hash of the removed atom: a hash is
added only while it is absent. -/
def removeOne (repo : CausalRepo T) (hash : JsString) : CausalRepo T :=
  match repo.atoms.get hash with
  | none => repo
  | some existing =>
    { repo with
      stage :=
        { additions := repo.stage.additions.eraseP (fun a => a.hash = existing.hash)
          deletions := repo.stage.deletions.set hash (atomIdToString existing.id) }
      atoms := repo.atoms.delete hash }

def removeMany (repo : CausalRepo T) : List JsString → CausalRepo T × List (Atom T)
  | [] => (repo, [])
  | hash :: rest =>
    let (final, removed) := (repo.removeOne hash).removeMany rest
    (final, (repo.atoms.get hash).toList ++ removed)

def setCurrentCommit (commit : Option (CommitData T)) : CausalRepo T :=
  { repo with
    currentCommit := commit
    stage := emptyStage
    atoms := match commit with
      | some data => data.atoms
      | none => OrderedMap.empty }

variable (store : MemoryCausalRepoStore T)

def checkoutHead : Called T Unit :=
  match repo.head with
  | none => { repo := repo.setCurrentCommit none, store := store, result := .ok () }
  | some head =>
    match loadBranch store head with
    | .error e => { repo := repo, store := store, result := .error e }
    | .ok data => { repo := repo.setCurrentCommit data, store := store, result := .ok () }

/-- `_saveHead` and then `_checkoutHead`. -/
def moveHead (branch : CausalRepoBranch) (now : Int) : Called T Unit :=
  { repo with head := some branch }.checkoutHead (store.saveBranch branch now)

def createBranch (name : JsString) (hash : Option JsString) (now : Int) : Called T Unit :=
  match store.getBranches name with
  | _ :: _ => { repo := repo, store := store, result := .error .branchExists }
  | [] => repo.moveHead store { name := name, hash := hash.filter (· ≠ []), time := now } now

/-- `createIfDoesntExist` holds the hash that a missing branch is created at. -/
def checkout (branch : JsString) (createIfDoesntExist : Option (Option JsString)) (now : Int) :
    Called T Unit :=
  match store.getBranches branch with
  | [] =>
    match createIfDoesntExist with
    | some hash => repo.createBranch store branch hash now
    | none => { repo := repo, store := store, result := .error (.branchNotFound branch) }
  | b :: _ => repo.moveHead store b now

def commit (hashes : Hashes T) (message : JsString) (time now : Int) :
    Called T (Option CausalRepoCommit) :=
  if repo.hasChanges then
    match repo.head with
    | none => { repo := repo, store := store, result := .error .typeError }
    | some head =>
      let atoms := repo.getAtoms
      let idx := AtomIndex.createIndex hashes.ofList atoms
      let c := newCommit hashes message time idx (repo.currentCommit.bind CommitData.commit)
      let store := store.storeIndex head.name idx.hash (atoms.map .atom)
      let store := store.storeObjects head.name [.index idx, .commit c]
      let moved := repo.moveHead store { name := head.name, hash := some c.hash, time := now } now
      { repo := moved.repo, store := moved.store, result := moved.result.map (fun _ => some c) }
  else { repo := repo, store := store, result := .ok none }

end CausalRepo

end CasualOS
