import CasualOS.JsString

/-! Atoms of a causal tree, their ids and their hashes. -/

namespace CasualOS

open JsString (lit)

/-- A property of an object that may be missing, null or set. -/
inductive Field (α : Type) where
  | undefined
  | null
  | value (a : α)
  deriving DecidableEq, Repr

/-- Missing and null alike. -/
def Field.get? {α : Type} : Field α → Option α
  | undefined => none
  | null => none
  | value a => some a

structure AtomCardinality where
  group : JsString
  number : Int
  deriving DecidableEq, Repr

structure AtomId where
  site : JsString
  timestamp : Int
  priority : Field Int
  cardinality : Field AtomCardinality
  deriving DecidableEq, Repr

structure Atom (T : Type) where
  id : AtomId
  cause : Option AtomId
  value : T
  hash : JsString
  deriving DecidableEq, Repr

/-- The array that `atomHash` gives to `getHash`, as its JSON text shows it: null stands for missing
values too, and a set cardinality is a sixth element. -/
structure AtomHashInput (T : Type) where
  causeHash : Option JsString
  site : JsString
  timestamp : Int
  priority : Option Int
  cardinality : Option AtomCardinality
  value : T
  deriving DecidableEq, Repr

section Hash

variable {T : Type} (getHash : AtomHashInput T → JsString)

def atomHash (id : AtomId) (causeHash : Option JsString) (value : T) : JsString :=
  getHash {
    causeHash := causeHash.filter (· ≠ [])
    site := id.site
    timestamp := id.timestamp
    priority := id.priority.get?
    cardinality := id.cardinality.get?
    value := value }

def atomMatchesHash (atom : Atom T) (cause : Option (Atom T)) : Bool :=
  atomHash getHash atom.id (cause.map Atom.hash) atom.value = atom.hash

/-- `atom(id, cause, value)`. -/
def newAtom (id : AtomId) (cause : Option (Atom T)) (value : T) : Atom T where
  id := id
  cause := cause.map Atom.id
  value := value
  hash := atomHash getHash id (cause.map Atom.hash) value

end Hash

def atomIdToString (id : AtomId) : JsString :=
  let str := id.site ++ lit ['@'] ++ JsString.ofInt id.timestamp
  let str := match id.priority.get? with
    | some priority => if priority = 0 then str else str ++ lit [':'] ++ JsString.ofInt priority
    | none => str
  match id.cardinality.get? with
  | some cardinality =>
    str ++ lit ['-'] ++ cardinality.group ++ lit ['^'] ++
      JsString.ofInt cardinality.number
  | none => str

def idEquals (first second : Option AtomId) : Bool :=
  match first, second with
  | none, none => true
  | some first, some second =>
    second.site = first.site && second.timestamp = first.timestamp &&
      second.priority.get? = first.priority.get? &&
      second.cardinality.get? = first.cardinality.get?
  | _, _ => false

def getPriority (id : AtomId) : Int := id.priority.get?.getD 0

def compareAtomIds (first second : AtomId) : Int :=
  if getPriority first > getPriority second then -1
  else if getPriority first < getPriority second then 1
  else if first.timestamp > second.timestamp then -1
  else if first.timestamp < second.timestamp then 1
  else if first.site < second.site then -1
  else if first.site > second.site then 1
  else 0

end CasualOS
