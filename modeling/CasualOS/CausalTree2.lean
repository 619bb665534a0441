import CasualOS.Weave2

/-! The causal tree: a weave, the clocks of its sites and its version vector. -/

namespace CasualOS

/-! ### Sites -/

structure SiteStatus where
  id : JsString
  time : Int
  deriving DecidableEq, Repr

/-- `uuid` is the id that is made up when none is given. -/
def newSite (uuid : JsString) (id : Option JsString) (time : Option Int) : SiteStatus where
  id := (id.filter (· ≠ [])).getD uuid
  time := time.getD 0

def calculateTimeFromId (id : JsString) (time : Int) (newId : JsString) (newTime : Int) : Int :=
  if id ≠ newId then max time newTime + 1 else max time newTime

section Sites

variable {T : Type}

def calculateTime (site : SiteStatus) (atom : Atom T) : Int :=
  calculateTimeFromId site.id site.time atom.id.site atom.id.timestamp

def addedAtom : WeaveResult T → Option (Atom T ⊕ List (Atom T))
  | .atomAdded atom => some (.inl atom)
  | .conflict winner _ _ => some (.inl winner)
  | .atomsAdded atoms => some (.inr atoms)
  | _ => none

def updateSite (site : SiteStatus) (result : WeaveResult T) : SiteStatus :=
  match addedAtom result with
  | some (.inr added) =>
    { site with time := added.foldl (fun time a => max time (calculateTime site a)) (-1) }
  | some (.inl added) => { site with time := calculateTime site added }
  | none => site

def atomId (site : JsString) (timestamp : Int) (priority : Option Int)
    (cardinality : Field AtomCardinality) : AtomId where
  site := site
  timestamp := timestamp
  priority := match priority with
    | some priority => .value priority
    | none => .undefined
  cardinality := cardinality

def createAtom (getHash : AtomHashInput T → JsString) (site : SiteStatus) (cause : Option (Atom T))
    (value : T) (priority : Option Int) (cardinality : Field AtomCardinality) : Atom T :=
  newAtom getHash (atomId site.id (site.time + 1) priority cardinality) cause value

end Sites

/-! ### Trees -/

structure CausalTree (T : Type) where
  weave : Weave T
  site : SiteStatus
  remoteSite : Option SiteStatus
  version : OrderedMap JsString Int

structure TreeResult (T : Type) where
  results : List (WeaveResult T)
  newSite : SiteStatus
  newRemoteSite : Option SiteStatus

/-- One of the calls on a tree. What `addAtom`, `insertAtom` and `removeAtom` return is applied. -/
inductive Edit (T : Type) where
  | insertAtoms (atoms : List (Atom T))
  | removeAtoms (hashes : List JsString)
  | addAtom (cause : Option (Atom T)) (op : T) (priority : Option Int)
      (cardinality : Field AtomCardinality) (remote : Bool)
  | insertAtom (atom : Atom T)
  | removeAtom (hash : JsString)

namespace CausalTree

variable {T : Type}

/-- `tree(id, time, remoteId)`. -/
def tree (uuid : JsString) (id : Option JsString) (time : Option Int) (remoteId : Option JsString) :
    CausalTree T :=
  let site := CasualOS.newSite uuid id time
  { weave := Weave.new none
    site := site
    remoteSite := (remoteId.filter (· ≠ [])).map (fun remoteId =>
      CasualOS.newSite uuid (some remoteId) time)
    version := OrderedMap.empty.set site.id site.time }

/-- `version[added.id.site] = Math.max(added.id.timestamp, version[added.id.site] || 0)`. -/
def countAtom (version : OrderedMap JsString Int) (added : Atom T) : OrderedMap JsString Int :=
  version.set added.id.site (max added.id.timestamp ((version.get added.id.site).getD 0))

def noteAdded (tree : CausalTree T) (added : Atom T) : CausalTree T :=
  { tree with
    site := { tree.site with time := calculateTime tree.site added }
    version := countAtom tree.version added }

section Calls

variable (getHash : AtomHashInput T → JsString)

/-- One round of the loop of `insertAtoms`. -/
def insertOne (tree : CausalTree T) (atom : Atom T) : Except Failure (CausalTree T) := do
  let (weave, result) ← tree.weave.insert getHash atom
  return (addedWeaveAtoms result).foldl noteAdded { tree with weave := weave }

def insertAtoms (tree : CausalTree T) (atoms : List (Atom T)) : Except Failure (CausalTree T) :=
  atoms.foldlM (insertOne getHash) tree

/-- One round of the loop of `removeAtoms`. -/
def removeOne (tree : CausalTree T) (hash : JsString) : Except Failure (CausalTree T) :=
  match (tree.weave.getNodeByHash hash).bind tree.weave.atomAt with
  | none => return tree
  | some atom => do
      let (weave, _) ← tree.weave.remove atom
      return { tree with weave := weave }

def removeAtoms (tree : CausalTree T) (hashes : List JsString) : Except Failure (CausalTree T) :=
  hashes.foldlM removeOne tree

def insertAtom (tree : CausalTree T) (atom : Atom T) : Except Failure (CausalTree T × TreeResult T) := do
  let (weave, weaveResult) ← tree.weave.insert getHash atom
  return ({ tree with weave := weave },
    { results := [weaveResult]
      newSite := updateSite tree.site weaveResult
      newRemoteSite := tree.remoteSite.map (fun site => updateSite site weaveResult) })

/-- `remote ? tree.remoteSite ?? tree.site : tree.site`. -/
def editSite (tree : CausalTree T) (remote : Bool) : SiteStatus :=
  if remote then tree.remoteSite.getD tree.site else tree.site

/-- The atom that `addAtom` creates. -/
def nextAtom (tree : CausalTree T) (cause : Option (Atom T)) (op : T) (priority : Option Int)
    (cardinality : Field AtomCardinality) (remote : Bool) : Atom T :=
  createAtom getHash (tree.editSite remote) cause op priority cardinality

def addAtom (tree : CausalTree T) (cause : Option (Atom T)) (op : T) (priority : Option Int)
    (cardinality : Field AtomCardinality) (remote : Bool) :
    Except Failure (CausalTree T × TreeResult T) :=
  tree.insertAtom getHash (tree.nextAtom getHash cause op priority cardinality remote)

def removeAtom (tree : CausalTree T) (hash : JsString) : Except Failure (CausalTree T × TreeResult T) :=
  match (tree.weave.getNodeByHash hash).bind tree.weave.atomAt with
  | none => return (tree, { results := [], newSite := tree.site, newRemoteSite := none })
  | some atom => do
      let (weave, weaveResult) ← tree.weave.remove atom
      return ({ tree with weave := weave },
        { results := [weaveResult], newSite := tree.site, newRemoteSite := tree.remoteSite })

def applyResult (tree : CausalTree T) (result : TreeResult T) : CausalTree T where
  weave := tree.weave
  site := result.newSite
  remoteSite := result.newRemoteSite
  version := (result.results.flatMap addedWeaveAtoms).foldl countAtom tree.version

def applied (made : CausalTree T × TreeResult T) : CausalTree T := made.1.applyResult made.2

def perform (tree : CausalTree T) : Edit T → Except Failure (CausalTree T)
  | .insertAtoms atoms => tree.insertAtoms getHash atoms
  | .removeAtoms hashes => tree.removeAtoms hashes
  | .addAtom cause op priority cardinality remote =>
    (tree.addAtom getHash cause op priority cardinality remote).map applied
  | .insertAtom atom => (tree.insertAtom getHash atom).map applied
  | .removeAtom hash => (tree.removeAtom hash).map applied

def step (tree : CausalTree T) (edit : Edit T) : Option (CausalTree T) :=
  (tree.perform getHash edit).toOption

end Calls

end CausalTree

end CasualOS
