import CasualOS.Atom2
import CasualOS.Lib.Dll
import CasualOS.Lib.OrderedMap

/-! The weave: linked lists of atoms, the maps that find their nodes, and the reorder buffer. -/

namespace CasualOS

open Dll (Ref)

inductive WeaveResult (T : Type) where
  | atomAdded (atom : Atom T)
  | atomsAdded (atoms : List (Atom T))
  | atomAlreadyAdded (atom : Atom T)
  | atomRemoved (ref : Ref)
  | causeNotFound (atom : Atom T) (savedInReorderBuffer : Bool)
  | hashFailed (atom : Atom T)
  | invalidTimestamp (atom : Atom T)
  | conflict (winner loser : Atom T) (loserRef : Option Ref)
  | atomNotFound (atom : Atom T)
  | invalidCardinality (atom : Atom T)
  | cardinalityViolated (atom : Atom T)
  | nothingHappened
  deriving DecidableEq, Repr

def addedWeaveAtoms {T : Type} : WeaveResult T → List (Atom T)
  | .atomAdded atom => [atom]
  | .conflict winner _ _ => [winner]
  | .atomsAdded atoms => atoms
  | _ => []

/-- How a call can fail to return: it loops for ever, or reads a property of null. -/
inductive Failure where
  | diverges
  | typeError
  deriving DecidableEq, Repr

def orDiverges {α : Type} : Option α → Except Failure α
  | some a => .ok a
  | none => .error .diverges

structure CardinalityStats where
  current : Int
  max : Int
  deriving DecidableEq, Repr

/-- `nodes` is the heap of all `WeaveNode` objects, the unreachable ones included; everything else
refers to them by address. -/
structure Weave (T : Type) where
  nodes : Dll.Heap (Atom T)
  roots : List Ref
  cardinality : OrderedMap JsString CardinalityStats
  idMap : OrderedMap JsString Ref
  hashMap : OrderedMap JsString Ref
  reorderBuffer : OrderedMap JsString Ref
  maxReorderBufferSize : Int

def defaultReorderBufferSize : Int := 10

/-! ### Reading the lists -/

/-- The nodes that `iterateCausalGroup` yields from `current` on: it stops at the first node that is
not newer than `timestamp`. -/
def causalGroupFrom {T : Type} (h : Dll.Heap (Atom T)) (timestamp : Int) :
    Nat → Option Ref → Option (List Ref)
  | _, none => some []
  | 0, some _ => none
  | fuel + 1, some r =>
    match h[r]? with
    | none => some []
    | some node =>
      if node.val.id.timestamp ≤ timestamp then some []
      else (causalGroupFrom h timestamp fuel node.next).map (r :: ·)

/-- The test that ends `iterateSiblings`: the node's cause is older than the cause of the start. -/
def isOlderCause (nodeCause startCause : Option AtomId) : Bool :=
  match nodeCause, startCause with
  | some nodeCause, some startCause => decide (nodeCause.timestamp < startCause.timestamp)
  | _, _ => false

/-- The nodes that `iterateSiblings` yields from `current` on. -/
def siblingsFrom {T : Type} (h : Dll.Heap (Atom T)) (cause : Option AtomId) :
    Nat → Option Ref → Option (List Ref)
  | _, none => some []
  | 0, some _ => none
  | fuel + 1, some r =>
    match h[r]? with
    | none => some []
    | some node =>
      if isOlderCause node.val.cause cause then some []
      else if idEquals node.val.cause cause then
        (siblingsFrom h cause fuel node.next).map (r :: ·)
      else siblingsFrom h cause fuel node.next

/-- Where a new child goes: before a node, or after the last node of the causal group (`none` when
the group is empty). -/
inductive Position where
  | before (node : Ref)
  | after (last : Option Ref)
  deriving DecidableEq, Repr

/-- The scan that `_insertUnder` and `_insertNodeUnder` share. -/
def scanUnder {T : Type} (h : Dll.Heap (Atom T)) (cause : Atom T) (id : AtomId) :
    Nat → Option Ref → Option Ref → Option Position
  | _, none, last => some (.after last)
  | 0, some _, _ => none
  | fuel + 1, some r, last =>
    match h[r]? with
    | none => some (.after last)
    | some node =>
      if node.val.id.timestamp ≤ cause.id.timestamp then some (.after last)
      else if idEquals node.val.cause (some cause.id) && compareAtomIds id node.val.id < 0 then
        some (.before r)
      else scanUnder h cause id fuel node.next (some r)

namespace Weave

variable {T : Type}

/-- `new Weave(options)`; a missing or zero size gives the default. -/
def new (maxReorderBufferSize : Option Int) : Weave T where
  nodes := []
  roots := []
  cardinality := OrderedMap.empty
  idMap := OrderedMap.empty
  hashMap := OrderedMap.empty
  reorderBuffer := OrderedMap.empty
  maxReorderBufferSize :=
    match maxReorderBufferSize with
    | some size => if size = 0 then defaultReorderBufferSize else size
    | none => defaultReorderBufferSize

def atomAt (w : Weave T) (r : Ref) : Option (Atom T) := Dll.valAt w.nodes r

def getNode (w : Weave T) (atomId : AtomId) : Option Ref := w.idMap.get (atomIdToString atomId)

def getNodeByHash (w : Weave T) (hash : JsString) : Option Ref := w.hashMap.get hash

/-- `iterateFrom`, run to its end. -/
def iterateFrom (w : Weave T) (start : Option Ref) : Option (List Ref) := Dll.walk w.nodes start

def iterateCausalGroup (w : Weave T) (start : Ref) : Option (List Ref) :=
  match w.atomAt start with
  | some atom =>
    causalGroupFrom w.nodes atom.id.timestamp w.nodes.length (Dll.nextAt w.nodes start)
  | none => some []

def iterateSiblings (w : Weave T) (start : Ref) : Option (List Ref) :=
  match w.atomAt start with
  | some atom => siblingsFrom w.nodes atom.cause w.nodes.length (Dll.nextAt w.nodes start)
  | none => some []

def atomsFrom (w : Weave T) (start : Ref) : Option (List (Atom T)) :=
  (w.iterateFrom (some start)).map (List.filterMap w.atomAt)

def getAtoms (w : Weave T) : Option (List (Atom T)) :=
  (w.roots.mapM w.atomsFrom).map List.flatten

/-! ### The lookup maps -/

def addNodeToMaps (w : Weave T) (node : Ref) (reorderBuffer : Bool) : Weave T :=
  match w.atomAt node with
  | some atom =>
    if reorderBuffer then
      { w with reorderBuffer := w.reorderBuffer.set (atomIdToString atom.id) node }
    else
      { w with
        idMap := w.idMap.set (atomIdToString atom.id) node
        hashMap := w.hashMap.set atom.hash node }
  | none => w

def removeNodeIdFromMaps (w : Weave T) (node : Ref) (reorderBuffer : Bool) : Weave T :=
  match w.atomAt node with
  | some atom =>
    if reorderBuffer then
      { w with reorderBuffer := w.reorderBuffer.delete (atomIdToString atom.id) }
    else
      { w with
        idMap := w.idMap.delete (atomIdToString atom.id)
        hashMap := w.hashMap.delete atom.hash }
  | none => w

def removeListFromMaps (w : Weave T) (node : Ref) (reorderBuffer : Bool) : Except Failure (Weave T) := do
  let w := w.removeNodeIdFromMaps node reorderBuffer
  let nodes ← orDiverges (w.iterateFrom (some node))
  return nodes.foldl (fun w n => w.removeNodeIdFromMaps n reorderBuffer) w

/-! ### Linking nodes -/

def addRoot (w : Weave T) (atom : Atom T) : Weave T × Ref :=
  let (nodes, node) := Dll.alloc w.nodes atom none none
  (({ w with nodes := nodes, roots := w.roots ++ [node] } : Weave T).addNodeToMaps node false, node)

def addToReorderBuffer (w : Weave T) (atom : Atom T) : Weave T × Ref :=
  let (nodes, node) := Dll.alloc w.nodes atom none none
  (({ w with nodes := nodes } : Weave T).addNodeToMaps node true, node)

def insertBefore (w : Weave T) (pos : Ref) (atom : Atom T) (reorderBuffer : Bool) : Weave T × Ref :=
  let (nodes, node) := Dll.insertBefore w.nodes pos atom
  (({ w with nodes := nodes } : Weave T).addNodeToMaps node reorderBuffer, node)

def insertAfter (w : Weave T) (pos : Ref) (atom : Atom T) (reorderBuffer : Bool) : Weave T × Ref :=
  let (nodes, node) := Dll.insertAfter w.nodes pos atom
  (({ w with nodes := nodes } : Weave T).addNodeToMaps node reorderBuffer, node)

def insertNodeBefore (w : Weave T) (pos start stop : Ref) : Weave T :=
  { w with nodes := Dll.spliceBefore w.nodes pos start stop }

def insertNodeAfter (w : Weave T) (pos start stop : Ref) : Weave T :=
  { w with nodes := Dll.spliceAfter w.nodes pos start stop }

def positionUnder (w : Weave T) (cause : Ref) (id : AtomId) : Except Failure Position :=
  match w.atomAt cause with
  | some atom =>
    orDiverges (scanUnder w.nodes atom id w.nodes.length (Dll.nextAt w.nodes cause) none)
  | none => .ok (.after none)

def insertUnder (w : Weave T) (cause : Ref) (atom : Atom T) (reorderBuffer : Bool) :
    Except Failure (Weave T × Ref) := do
  match ← w.positionUnder cause atom.id with
  | .before node => return w.insertBefore node atom reorderBuffer
  | .after last => return w.insertAfter (last.getD cause) atom reorderBuffer

def insertNodeUnder (w : Weave T) (cause start stop : Ref) : Except Failure (Weave T) := do
  match w.atomAt start with
  | some atom =>
    match ← w.positionUnder cause atom.id with
    | .before node => return w.insertNodeBefore node start stop
    | .after last => return w.insertNodeAfter (last.getD cause) start stop
  | none => return w

def removeSpan (w : Weave T) (start stop : Ref) : Except Failure (Weave T) := do
  let w := { w with nodes := Dll.cut w.nodes start stop }
  let w ← w.removeListFromMaps start false
  match w.atomAt start with
  | some atom =>
    if atom.cause.isNone then return { w with roots := w.roots.erase start } else return w
  | none => return w

def lastInCausalGroup (w : Weave T) (start : Ref) : Except Failure Ref := do
  let group ← orDiverges (w.iterateCausalGroup start)
  return group.getLast?.getD start

def removeNode (w : Weave T) (node : Ref) : Except Failure (Weave T) := do
  let last ← w.lastInCausalGroup node
  w.removeSpan node last

/-! ### The reorder buffer -/

/-- One buffered node that waits for `atomNode`: its list is moved under it. -/
def addMissingChild (w : Weave T) (atomNode node : Ref) (reorderBuffer : Bool) :
    Except Failure (Weave T) := do
  let list ← orDiverges (w.iterateFrom (some node))
  let w := if reorderBuffer then w else
    list.foldl (fun w n => (w.removeNodeIdFromMaps n true).addNodeToMaps n false) w
  w.insertNodeUnder atomNode node (list.getLast?.getD node)

def isMissingChild (w : Weave T) (atomNode node : Ref) : Bool :=
  match w.atomAt atomNode, w.atomAt node with
  | some parent, some atom => idEquals (some parent.id) atom.cause
  | _, _ => false

/-- Returns whether a child was found. The nodes are those of the buffer before the first move. -/
def addMissingChildren (w : Weave T) (atomNode : Ref) (reorderBuffer : Bool) :
    Except Failure (Weave T × Bool) := do
  let children := w.reorderBuffer.values.filter (w.isMissingChild atomNode)
  let w ← children.foldlM (fun w node => w.addMissingChild atomNode node reorderBuffer) w
  return (w, !children.isEmpty)

/-- The last step of adding a node: the atoms that wait for it follow, when there are any. -/
def releaseMissing (w : Weave T) (atomNode : Ref) (atom : Atom T) :
    Except Failure (Weave T × WeaveResult T) :=
  if w.reorderBuffer.size > 0 then do
    let (w, foundMissingChildren) ← w.addMissingChildren atomNode false
    if foundMissingChildren then
      let group ← orDiverges (w.iterateCausalGroup atomNode)
      return (w, .atomsAdded ((atomNode :: group).filterMap w.atomAt))
    else return (w, .atomAdded atom)
  else .ok (w, .atomAdded atom)

/-! ### The operations -/

def resolveConflict (w : Weave T) (existing : Ref) (atom : Atom T) (causeNode : Option Ref) :
    Except Failure (Weave T × WeaveResult T) :=
  match w.atomAt existing with
  | some old =>
    if old.hash ≠ atom.hash then
      if old.hash < atom.hash then .ok (w, .conflict old atom none)
      else do
        let w ← w.removeNode existing
        let w ← match causeNode with
          | some cause => (w.insertUnder cause atom false).map Prod.fst
          | none => .ok (w.addRoot atom).1
        return (w, .conflict atom old (some existing))
    else .ok (w, .atomAlreadyAdded old)
  | none => .ok (w, .nothingHappened)

/-- The cardinality of the new root's group counted up, or `none` when the group is full. -/
def countCardinality (w : Weave T) (atom : Atom T) : Option (Weave T) :=
  match atom.id.cardinality.get? with
  | none => some w
  | some wanted =>
    let bump (stats : CardinalityStats) : Weave T :=
      { w with
        cardinality := w.cardinality.set wanted.group
          { current := stats.current + 1, max := min stats.max wanted.number } }
    match w.cardinality.get wanted.group with
    | some stats => if stats.current ≥ stats.max then none else some (bump stats)
    | none => some (bump { current := 0, max := wanted.number })

variable (getHash : AtomHashInput T → JsString)

def insertRoot (w : Weave T) (atom : Atom T) : Except Failure (Weave T × WeaveResult T) :=
  if !atomMatchesHash getHash atom none then .ok (w, .hashFailed atom)
  else
    let insertChecked : Except Failure (Weave T × WeaveResult T) :=
      match w.getNode atom.id with
      | some existing => w.resolveConflict existing atom none
      | none =>
        match w.countCardinality atom with
        | none => .ok (w, .cardinalityViolated atom)
        | some w => (w.addRoot atom).1.releaseMissing (w.addRoot atom).2 atom
    match atom.id.cardinality with
    | .undefined => insertChecked
    | .null => .error .typeError
    | .value cardinality =>
      if cardinality.number ≤ 0 then .ok (w, .invalidCardinality atom) else insertChecked

def checkCause (atom cause : Atom T) : Option (WeaveResult T) :=
  if !atomMatchesHash getHash atom (some cause) then some (.hashFailed atom)
  else if atom.id.timestamp ≤ cause.id.timestamp then some (.invalidTimestamp atom)
  else none

def insertMissing (w : Weave T) (atom : Atom T) (cause : AtomId) :
    Except Failure (Weave T × WeaveResult T) :=
  if (w.reorderBuffer.size : Int) ≥ w.maxReorderBufferSize then .ok (w, .causeNotFound atom false)
  else
    let causeNode := w.reorderBuffer.get (atomIdToString cause)
    match (causeNode.bind w.atomAt).bind (checkCause getHash atom) with
    | some rejection => .ok (w, rejection)
    | none => do
        let (w, atomNode) := w.addToReorderBuffer atom
        let w ← match causeNode with
          | some causeNode => w.insertNodeUnder causeNode atomNode atomNode
          | none => .ok w
        let (w, _) ← w.addMissingChildren atomNode true
        return (w, .causeNotFound atom true)

def insertChild (w : Weave T) (atom : Atom T) (causeNode : Ref) :
    Except Failure (Weave T × WeaveResult T) :=
  match (w.atomAt causeNode).bind (checkCause getHash atom) with
  | some rejection => .ok (w, rejection)
  | none =>
    match w.getNode atom.id with
    | some existing => w.resolveConflict existing atom (some causeNode)
    | none => do
        let (w, atomNode) ← w.insertUnder causeNode atom false
        w.releaseMissing atomNode atom

def insert (w : Weave T) (atom : Atom T) : Except Failure (Weave T × WeaveResult T) :=
  match atom.cause with
  | none => w.insertRoot getHash atom
  | some cause =>
    match w.getNode cause with
    | none => w.insertMissing getHash atom cause
    | some causeNode => w.insertChild getHash atom causeNode

def remove (w : Weave T) (atom : Atom T) : Except Failure (Weave T × WeaveResult T) := do
  match w.getNode atom.id with
  | none => return (w, .atomNotFound atom)
  | some node =>
    let w ← w.removeNode node
    return (w, .atomRemoved node)

def removeSiblingsBefore (w : Weave T) (atom : Atom T) : Except Failure (Weave T × WeaveResult T) := do
  match w.getNode atom.id with
  | none => return (w, .atomNotFound atom)
  | some node =>
    match ← orDiverges (w.iterateSiblings node) with
    | [] => return (w, .nothingHappened)
    | firstSibling :: siblings =>
      let lastSibling := siblings.getLast?.getD firstSibling
      let lastChild ← w.lastInCausalGroup lastSibling
      let w ← w.removeSpan firstSibling lastChild
      return (w, .atomRemoved firstSibling)

end Weave

section Runs

variable {T : Type} (getHash : AtomHashInput T → JsString)

/-- One `insert` after the other. -/
def insertAll (w : Weave T) (delivered : List (Atom T)) : Except Failure (Weave T) :=
  delivered.foldlM (fun w atom => (w.insert getHash atom).map Prod.fst) w

variable {getHash}

theorem insertAll_cons (w : Weave T) (a : Atom T) (rest : List (Atom T)) (w' : Weave T)
    (result : WeaveResult T) (run : w.insert getHash a = .ok (w', result)) :
    insertAll getHash w (a :: rest) = insertAll getHash w' rest := by
  simp only [insertAll, List.foldlM_cons, run, Except.map, bind, Except.bind]

theorem insertAll_append (w w' : Weave T) (first second : List (Atom T)) (run : insertAll getHash w first = .ok w') :
    insertAll getHash w (first ++ second) = insertAll getHash w' second := by
  simp only [insertAll] at run ⊢
  rw [List.foldlM_append, run]
  rfl

end Runs

end CasualOS
