import CasualOS.YjsText

/-! The edits by which the transpiler turns AUX's dialect into JavaScript. -/

namespace CasualOS.TranspiledCode

open TagEdit YjsText

/-! ### Syntax trees -/

inductive NodeType where
  | whileStatement
  | doWhileStatement
  | forStatement
  | forInStatement
  | forOfStatement
  | blockStatement
  | expressionStatement
  | emptyStatement
  | functionDeclaration
  | functionExpression
  | arrowFunctionExpression
  | awaitExpression
  | property
  | jsxElement
  | jsxFragment
  | jsxText
  | jsxExpressionContainer
  | jsxEmptyExpression
  | other (name : JsString)
  deriving DecidableEq, Repr

def NodeType.isLoop : NodeType → Bool
  | .whileStatement => true
  | .doWhileStatement => true
  | .forStatement => true
  | .forInStatement => true
  | .forOfStatement => true
  | _ => false

inductive Field where
  | body
  | expression
  | other (name : JsString)
  deriving DecidableEq, Repr

structure Span where
  start : Nat
  stop : Nat
  deriving DecidableEq, Repr

structure NodeData extends Span where
  type : NodeType
  isAsync : Bool
  method : Bool
  deriving DecidableEq, Repr

/-- The name of an opening element; a `JSXIdentifier` is a name of one word. -/
structure ElementName extends Span where
  isIdentifier : Bool
  name : JsString
  deriving DecidableEq, Repr

structure OpeningElement extends Span where
  name : ElementName
  selfClosing : Bool
  deriving DecidableEq, Repr

mutual

inductive Node where
  | node (data : NodeData) (children : Children)
  | jsxElement (data : NodeData) (openingElement : OpeningElement) (closingElement : Option Span)
      (attributes : Attributes) (children : Children)
  | jsxFragment (data : NodeData) (openingFragment closingFragment : Span) (children : Children)
  | jsxText (data : NodeData)
  | jsxExpressionContainer (data : NodeData) (expression : Node)
  | jsxEmptyExpression (data : NodeData)

inductive Children where
  | nil
  | cons (field : Field) (child : Node) (rest : Children)

inductive Attributes where
  | nil
  | flag (span nameSpan : Span) (name : JsString) (rest : Attributes)
  | valued (span nameSpan : Span) (name : JsString) (value : Node) (rest : Attributes)
  | spread (span : Span) (argument : Node) (rest : Attributes)

end

def Node.data : Node → NodeData
  | .node data _ => data
  | .jsxElement data _ _ _ _ => data
  | .jsxFragment data _ _ _ => data
  | .jsxText data => data
  | .jsxExpressionContainer data _ => data
  | .jsxEmptyExpression data => data

def Children.find (field : Field) : Children → Option Node
  | .nil => none
  | .cons other child rest => if other = field then some child else rest.find field

def Attributes.isEmpty : Attributes → Bool
  | .nil => true
  | _ => false

def Attributes.spans : Attributes → List Span
  | .nil => []
  | .flag span _ _ rest => span :: rest.spans
  | .valued span _ _ _ rest => span :: rest.spans
  | .spread span _ rest => span :: rest.spans

/-! ### The text that is edited -/

structure Edit where
  index : Nat
  count : Nat
  text : JsString
  deriving DecidableEq, Repr

def Edit.apply (text : JsString) (edit : Edit) : JsString := splice text edit.index edit.count edit.text

def applyEdits (text : JsString) (edits : List Edit) : JsString := edits.foldl Edit.apply text

/-- The document of a text and what was done to it so far. -/
structure Editing (original : JsString) where
  doc : TextDoc
  clientID : Nat
  edits : List Edit
  logged : visible doc.items = applyEdits original edits

/-- Where a position is: at the id of a character, if there is one, or behind it. -/
structure RelativePosition where
  item : Option (Nat × Nat)
  behind : Bool

/-- The position of an index among the characters of the version, deleted ones included. -/
def relativeAt (version : VersionVector) : List Item → Nat → Option (Nat × Nat)
  | [], _ => none
  | t :: rest, index =>
    if knows version t.client t.clock then
      if index < t.content.length then some (t.client, t.clock + index)
      else relativeAt version rest (index - t.content.length)
    else relativeAt version rest index

def relativeBehind (version : VersionVector) : List Item → Nat → Option (Nat × Nat)
  | [], _ => none
  | t :: rest, index =>
    if knows version t.client t.clock then
      if index < t.content.length then some (t.client, t.clock + index)
      else if rest.isEmpty then some (t.client, t.clock + t.content.length - 1)
      else relativeBehind version rest (index - t.content.length)
    else relativeBehind version rest index

/-- The visible characters before the position of a character. -/
def indexAt (behind : Bool) : List Item → Nat × Nat → Option Nat
  | [], _ => none
  | t :: rest, id =>
    if t.client = id.1 ∧ t.clock ≤ id.2 ∧ id.2 < t.clock + t.content.length then
      some (if t.deleted then 0 else id.2 - t.clock + if behind then 1 else 0)
    else (indexAt behind rest id).map (fun index => t.shown.length + index)

namespace Editing

variable {original : JsString}

/-- The text of a new document. -/
def start (code : JsString) : Editing code where
  doc := { items := if code.isEmpty then [] else [⟨0, 0, code, false⟩]
           clocks := fun client => if client = 0 ∧ ¬ code.isEmpty then some code.length else none }
  clientID := 0
  edits := []
  logged := by
    cases code with
    | nil => rfl
    | cons c rest => exact visible_single _

def nextClient (s : Editing original) : Editing original := { s with clientID := s.clientID + 1 }

/-- The characters of the code. -/
def version (s : Editing original) : VersionVector := fun client => if client = 0 then s.doc.clocks 0 else none

def before (s : Editing original) (version : VersionVector) (index : Nat) : RelativePosition :=
  ⟨relativeAt version s.doc.items index, false⟩

def behind (s : Editing original) (version : VersionVector) (index : Nat) : RelativePosition :=
  ⟨if index = 0 then none else relativeBehind version s.doc.items (index - 1), true⟩

def absolute (s : Editing original) (position : RelativePosition) : Option Nat :=
  match position.item with
  | none => some (if position.behind then 0 else (visible s.doc.items).length)
  | some id => indexAt position.behind s.doc.items id

variable (merges : Nat → Nat → Bool)

def insert (s : Editing original) (index : Nat) (text : JsString) : Editing original :=
  if text.isEmpty then s
  else
    { s with
      doc := s.doc.insert (merges s.clientID) s.clientID index text
      edits := s.edits ++ [⟨index, 0, text⟩]
      logged := by
        rw [visible_insert, s.logged, applyEdits, applyEdits, List.foldl_append]
        rfl }

def delete (s : Editing original) (index count : Nat) : Editing original :=
  { s with
    doc := s.doc.delete index count
    edits := s.edits ++ [⟨index, count, []⟩]
    logged := by
      rw [visible_delete, s.logged, applyEdits, applyEdits, List.foldl_append]
      rfl }

def insertAt (s : Editing original) (position : RelativePosition) (text : JsString) : Option (Editing original) :=
  (s.absolute position).map fun index => s.insert merges index text

def deleteAt (s : Editing original) (position : RelativePosition) (count : Nat) : Option (Editing original) :=
  (s.absolute position).map fun index => s.delete index count

/-- What stands between two positions. -/
def deleteBetween (s : Editing original) (left right : RelativePosition) : Option (Editing original) :=
  (s.absolute left).bind fun first => (s.absolute right).map fun last => s.delete first (last - first)

end Editing

/-! ### The edits of one node -/

def energyCheckCall : JsString :=
  JsString.lit ['_', '_', 'e', 'n', 'e', 'r', 'g', 'y', 'C', 'h', 'e', 'c', 'k', '(', ')']

/-- A transpiler with its parser, which gives nothing for a syntax error, and with the fields that are visited of each
type of node. -/
structure Transpiler where
  parse : JsString → Option Node
  visitorKeys : NodeType → List Field
  merges : Nat → Nat → Bool
  jsxFactory : JsString
  jsxFragment : JsString

namespace Transpiler

variable (t : Transpiler) {original : JsString}

def insertEnergyCheck (version : VersionVector) (startIndex endIndex : Nat) (postfix' : JsString)
    (wrapWithBraces : Bool) (s : Editing original) : Option (Editing original) :=
  (if wrapWithBraces then s.insertAt t.merges (s.before version startIndex) [123] else some s).bind fun opened =>
    (opened.insertAt t.merges (opened.before version startIndex) (energyCheckCall ++ postfix')).bind fun checked =>
      if wrapWithBraces then checked.insertAt t.merges (checked.before version endIndex) [125] else some checked

def insertEnergyCheckIntoStatement (statement : NodeData) (s : Editing original) : Option (Editing original) :=
  let s := s.nextClient
  match statement.type with
  | .blockStatement => t.insertEnergyCheck s.version (statement.start + 1) statement.stop [59] false s
  | .expressionStatement => t.insertEnergyCheck s.version statement.start statement.stop [59] true s
  | .emptyStatement => t.insertEnergyCheck s.version statement.start statement.stop [] false s
  | _ => t.insertEnergyCheck s.version statement.start statement.stop [59] true s

/-- `async ` and `await ` have six characters each. -/
def removeKeyword (start : Nat) (s : Editing original) : Option (Editing original) :=
  let s := s.nextClient
  s.deleteAt (s.before s.version start) 6

def replaceAsyncFunction : Nat → Editing original → Option (Editing original) := removeKeyword

def replaceAwaitExpression : Nat → Editing original → Option (Editing original) := removeKeyword

/-- What is done when a node is entered that is not one of JSX. A function that is the root of a traversal has no parent
to ask. -/
def enter (forceSync : Bool) (parent : Option NodeData) (data : NodeData) (children : Children) (s : Editing original) :
    Option (Editing original) :=
  if data.type.isLoop then (children.find .body).bind fun body => t.insertEnergyCheckIntoStatement body.data s
  else if forceSync && data.isAsync && data.type = .functionDeclaration then replaceAsyncFunction data.start s
  else if forceSync && data.isAsync && data.type = .arrowFunctionExpression then replaceAsyncFunction data.start s
  else if forceSync && data.isAsync && data.type = .functionExpression then
    parent.bind fun parent =>
      if parent.type = .property ∧ parent.method = true then replaceAsyncFunction parent.start s
      else replaceAsyncFunction data.start s
  else if forceSync && data.type = .awaitExpression then replaceAwaitExpression data.start s
  else some s

/-! ### The edits of JSX -/

def insertElementName (data : NodeData) (openingElement : OpeningElement) (s : Editing original) :
    Option (Editing original × Nat) :=
  let nameStart := s.before s.version openingElement.name.start
  let nameEnd := s.behind s.version openingElement.name.stop
  (s.insertAt t.merges (s.before s.version data.start) (t.jsxFactory ++ [40])).bind fun opened =>
    if openingElement.name.isIdentifier && openingElement.name.name.head?.any (fun c => 97 ≤ c && c ≤ 122) then
      (opened.insertAt t.merges nameStart [34]).bind fun quoted =>
        (quoted.absolute nameEnd).map fun index => (quoted.insert t.merges index [34, 44], index + 2)
    else (opened.absolute nameEnd).map fun index => (opened.insert t.merges index [44], index + 1)

def insertFragmentName (data : NodeData) (s : Editing original) : Option (Editing original × Nat) :=
  (s.absolute (s.before s.version data.start)).map fun index =>
    let name := t.jsxFragment ++ [44]
    let currentIndex := index + t.jsxFactory.length + 1
    ((s.insert t.merges index (t.jsxFactory ++ [40])).insert t.merges currentIndex name, currentIndex + name.length)

def noProps : JsString := JsString.lit ['n', 'u', 'l', 'l', ',']

def attributeName (first : Bool) (name : JsString) (value : JsString) : JsString :=
  (if first then [] else [44]) ++ 34 :: name ++ [34, 58] ++ value

def trueValue : JsString := JsString.lit ['t', 'r', 'u', 'e']

def attributePositions (s : Editing original) (version : VersionVector) :
    Attributes → List (RelativePosition × RelativePosition)
  | .nil => []
  | .flag _ nameSpan _ rest =>
    (s.before version nameSpan.start, s.behind version nameSpan.stop) :: attributePositions s version rest
  | .valued _ nameSpan _ _ rest =>
    (s.before version nameSpan.start, s.behind version (nameSpan.stop + 1)) :: attributePositions s version rest
  | .spread span _ rest =>
    (s.before version span.start, s.before version (span.start + 1)) ::
      (s.behind version (span.stop - 1), s.behind version span.stop) :: attributePositions s version rest

def removeTag (openElement : Span) (closeElement : Option Span) (attributes : Attributes) (s : Editing original) :
    Option (Editing original) :=
  let s := s.nextClient
  let size := if closeElement.isSome then 1 else 2
  let openStart := s.before s.version openElement.start
  let openEnd := s.before s.version (openElement.stop - size)
  let closing := closeElement.map fun span => (s.before s.version span.start, s.behind s.version span.stop)
  ((attributePositions s s.version attributes).foldlM (fun (s : Editing original) ends => s.deleteBetween ends.1 ends.2) s).bind fun s =>
    (s.deleteAt openStart 1).bind fun s =>
      (s.deleteAt openEnd size).bind fun s =>
        match closing with
        | some ends => s.deleteBetween ends.1 ends.2
        | none => some s

def replaceJSXText (data : NodeData) (s : Editing original) : Option (Editing original) :=
  let s := s.nextClient
  let version := s.version
  (s.insertAt t.merges (s.before version data.start) [96]).bind fun opened =>
    opened.insertAt t.merges (opened.before version data.stop) [96]

def replaceJSXExpressionContainer (data : NodeData) (s : Editing original) : Option (Editing original) :=
  let valueStart := s.before s.version data.start
  let valueEnd := s.before s.version (data.stop - 1)
  (s.deleteAt valueStart 1).bind fun s => s.deleteAt valueEnd 1

/-- Two quotes stand at the index that the end had before the deletion. -/
def replaceJSXEmptyExpression (data : NodeData) (s : Editing original) : Option (Editing original) :=
  (s.absolute (s.before s.version data.start)).bind fun first =>
    (s.absolute (s.behind s.version (data.stop + 1))).map fun last =>
      (s.delete first (last - first)).insert t.merges last [39, 39]

/-! ### The traversal -/

mutual

def replace (forceSync : Bool) (parent : Option NodeData) : Node → Editing original → Option (Editing original)
  | .node data children, s =>
    (t.enter forceSync parent data children s).bind fun entered =>
      (t.visitorKeys data.type).foldlM (fun s key => replaceField forceSync data key children s) entered
  | .jsxElement data openingElement closingElement attributes children, s =>
    let s := s.nextClient
    let stop := s.behind s.version (match closingElement with
      | some span => span.stop
      | none => data.stop)
    (t.insertElementName data openingElement s).bind fun (named, currentIndex) =>
      (if attributes.isEmpty then some (named.insert t.merges currentIndex noProps)
        else
          let first := named.before named.version openingElement.name.stop
          let last := named.behind named.version
            (if openingElement.selfClosing then openingElement.stop - 2 else openingElement.stop)
          let starts := attributes.spans.map fun span => named.before named.version span.start
          (replaceAttributes forceSync true attributes starts named).bind fun s =>
            (s.insertAt t.merges first [123]).bind fun s => s.insertAt t.merges last [125, 44]).bind fun s =>
        (replaceJSXChildren forceSync s.version children s).bind fun s =>
          (s.absolute stop).bind fun index =>
            removeTag openingElement.toSpan closingElement attributes (s.nextClient.insert t.merges index [41])
  | .jsxFragment data openingFragment closingFragment children, s =>
    let s := s.nextClient
    let stop := s.behind s.version closingFragment.stop
    (t.insertFragmentName data s).bind fun (named, currentIndex) =>
      let s := named.insert t.merges currentIndex noProps
      (replaceJSXChildren forceSync s.version children s).bind fun s =>
        (s.absolute stop).bind fun index =>
          removeTag openingFragment (some closingFragment) .nil (s.nextClient.insert t.merges index [41])
  | .jsxText data, s => t.replaceJSXText data s
  | .jsxExpressionContainer data expression, s =>
    (replaceJSXExpressionContainer data s).bind fun s => replace forceSync (some data) expression s
  | .jsxEmptyExpression data, s => t.replaceJSXEmptyExpression data s

def replaceField (forceSync : Bool) (parent : NodeData) (key : Field) :
    Children → Editing original → Option (Editing original)
  | .nil, s => some s
  | .cons field child rest, s =>
    (if field = key then replace forceSync (some parent) child s else some s).bind fun s =>
      replaceField forceSync parent key rest s

def replaceAttributes (forceSync first : Bool) :
    Attributes → List RelativePosition → Editing original → Option (Editing original)
  | .nil, _, s => some s
  | .flag _ _ name rest, starts, s =>
    (starts.head?.bind fun start => s.insertAt t.merges start (attributeName first name trueValue)).bind fun s =>
      replaceAttributes forceSync false rest starts.tail s
  | .valued _ _ name value rest, starts, s =>
    (starts.head?.bind fun start => s.insertAt t.merges start (attributeName first name [])).bind fun s =>
      (replace forceSync none value s).bind fun s => replaceAttributes forceSync false rest starts.tail s
  | .spread _ argument rest, starts, s =>
    (starts.head?.bind fun start => s.insertAt t.merges start (if first then [] else [44])).bind fun s =>
      (replace forceSync none argument s).bind fun s => replaceAttributes forceSync false rest starts.tail s

def replaceJSXChildren (forceSync : Bool) (version : VersionVector) :
    Children → Editing original → Option (Editing original)
  | .nil, s => some s
  | .cons _ child rest, s =>
    let stop := s.before version child.data.stop
    (replace forceSync none child s).bind fun s =>
      (s.nextClient.insertAt t.merges stop [44]).bind fun s => replaceJSXChildren forceSync version rest s

end

end Transpiler

end CasualOS.TranspiledCode
