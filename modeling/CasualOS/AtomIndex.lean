import CasualOS.Atom2
import CasualOS.Lib.OrderedMap
import Mathlib.Data.List.Sort

/-! Indexes of atoms: the hashes of a list of atoms with their ids, and the difference of two. -/

namespace CasualOS

abbrev AtomHashList := OrderedMap JsString JsString

structure AtomIndex where
  hash : JsString
  atoms : AtomHashList

structure AtomIndexDiff where
  additions : AtomHashList
  deletions : AtomHashList

structure AtomIndexFullDiff (T : Type) where
  additions : List (Atom T)
  deletions : AtomHashList

namespace AtomIndex

variable {T : Type}

def atomHashList (atoms : List (Atom T)) : AtomHashList :=
  atoms.foldl (fun list atom => list.set atom.hash (atomIdToString atom.id)) OrderedMap.empty

/-- `sort` of an array of strings. -/
def sortStrings (texts : List JsString) : List JsString := texts.insertionSort (fun a b => ¬ b < a)

variable (hashList : List JsString → JsString)

def hashAtoms (atoms : List (Atom T)) : JsString := hashList (sortStrings (atoms.map Atom.hash))

def createIndex (atoms : List (Atom T)) : AtomIndex where
  hash := hashAtoms hashList atoms
  atoms := atomHashList atoms

/-- An entry that is missing or empty counts as absent. -/
def lacks (list : AtomHashList) (hash : JsString) : Bool :=
  match list.get hash with
  | some id => id = []
  | none => true

def entriesWithout (first second : AtomHashList) : AtomHashList :=
  first.entries.foldl
    (fun list entry => if lacks second entry.1 then list.set entry.1 entry.2 else list)
    OrderedMap.empty

def calculateDiff (first second : AtomIndex) : AtomIndexDiff :=
  if first.hash = second.hash then { additions := OrderedMap.empty, deletions := OrderedMap.empty }
  else
    { additions := entriesWithout second.atoms first.atoms
      deletions := entriesWithout first.atoms second.atoms }

end AtomIndex

end CasualOS
