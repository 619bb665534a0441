import Mathlib.Logic.Relation
import CasualOS.TranspilerCache

/-! Programs with their texts, and the loops in them that pay energy. -/

namespace CasualOS.TranspiledCode

open TagEdit YjsText

/-! ### Programs -/

def NodeType.isPlain : NodeType → Bool
  | .expressionStatement => true
  | .functionDeclaration => true
  | .functionExpression => true
  | .arrowFunctionExpression => true
  | .awaitExpression => true
  | .property => true
  | .other _ => true
  | _ => false

mutual

/-- A node of a program without JSX, with its text. The head of a loop is what stands before the last character in front
of its body. -/
inductive Source where
  | node (type : NodeType) (plain : type.isPlain = true) (isAsync method : Bool) (pieces : Pieces)
  | loop (type : NodeType) (loops : type.isLoop = true) (head : Pieces) (last : CodeUnit) (body : Source)
      (tail : Pieces)
  | block (pieces : Pieces)
  | empty

/-- What a node consists of. A twin is a leaf that has its text in common with what follows, as the name of a shorthand
property has. -/
inductive Pieces where
  | nil
  | token (text : JsString) (rest : Pieces)
  | child (field : Field) (child : Source) (rest : Pieces)
  | twin (field : Field) (name : JsString) (size : Nat) (rest : Pieces)

end

mutual

def Source.text : Source → JsString
  | .node _ _ _ _ pieces => pieces.text
  | .loop _ _ head last body tail => head.text ++ last :: (body.text ++ tail.text)
  | .block pieces => 123 :: (pieces.text ++ [125])
  | .empty => [59]

def Pieces.text : Pieces → JsString
  | .nil => []
  | .token text rest => text ++ rest.text
  | .child _ child rest => child.text ++ rest.text
  | .twin _ _ _ rest => rest.text

end

mutual

def Source.place : Source → Nat → Node
  | .node type _ isAsync method pieces, offset =>
    .node ⟨⟨offset, offset + pieces.text.length⟩, type, isAsync, method⟩ (pieces.place offset .nil)
  | .loop type _ head _ body tail, offset =>
    let start := offset + head.text.length + 1
    let stop := start + body.text.length
    .node ⟨⟨offset, stop + tail.text.length⟩, type, false, false⟩
      (head.place offset (.cons .body (body.place start) (tail.place stop .nil)))
  | .block pieces, offset =>
    .node ⟨⟨offset, offset + pieces.text.length + 2⟩, .blockStatement, false, false⟩
      (pieces.place (offset + 1) .nil)
  | .empty, offset => .node ⟨⟨offset, offset + 1⟩, .emptyStatement, false, false⟩ .nil

def Pieces.place : Pieces → Nat → Children → Children
  | .nil, _, others => others
  | .token text rest, offset, others => rest.place (offset + text.length) others
  | .child field child rest, offset, others =>
    .cons field (child.place offset) (rest.place (offset + child.text.length) others)
  | .twin field name size rest, offset, others =>
    .cons field (.node ⟨⟨offset, offset + size⟩, .other name, false, false⟩ .nil) (rest.place offset others)

end

def Pieces.fields : Pieces → List Field
  | .nil => []
  | .token _ rest => rest.fields
  | .child field _ rest => field :: rest.fields
  | .twin _ _ _ rest => rest.fields

mutual

/-- All fields are visited, the body of a loop is found as such, and it is not without text. -/
def Source.Proper (keys : NodeType → List Field) : Source → Prop
  | .node type _ _ _ pieces => (∀ field ∈ pieces.fields, field ∈ keys type) ∧ pieces.Proper keys
  | .loop type _ head _ body tail => .body ∉ head.fields ∧
      (∀ field ∈ head.fields ++ .body :: tail.fields, field ∈ keys type) ∧ body.text ≠ [] ∧
      head.Proper keys ∧ body.Proper keys ∧ tail.Proper keys
  | .block pieces => (∀ field ∈ pieces.fields, field ∈ keys .blockStatement) ∧ pieces.Proper keys
  | .empty => True

def Pieces.Proper (keys : NodeType → List Field) : Pieces → Prop
  | .nil => True
  | .token _ rest => rest.Proper keys
  | .child _ child rest => child.Proper keys ∧ rest.Proper keys
  | .twin field _ _ rest => field ≠ .body ∧ rest.Proper keys

end

mutual

def Source.loopless : Source → Bool
  | .node _ _ _ _ pieces => pieces.loopless
  | .loop _ _ _ _ _ _ => false
  | .block pieces => pieces.loopless
  | .empty => true

def Pieces.loopless : Pieces → Bool
  | .nil => true
  | .token _ rest => rest.loopless
  | .child _ child rest => child.loopless && rest.loopless
  | .twin _ _ _ rest => rest.loopless

end

/-! ### Loops that pay -/

def callType : JsString :=
  JsString.lit ['C', 'a', 'l', 'l', 'E', 'x', 'p', 'r', 'e', 's', 's', 'i', 'o', 'n']

def calleeField : JsString := JsString.lit ['c', 'a', 'l', 'l', 'e', 'e']

def identifierType : JsString := JsString.lit ['I', 'd', 'e', 'n', 't', 'i', 'f', 'i', 'e', 'r']

/-- The statement `__energyCheck();`. -/
def callStatement : Source :=
  .node .expressionStatement rfl false false
    (.child .expression
      (.node (.other callType) rfl false false
        (.child (.other calleeField)
          (.node (.other identifierType) rfl false false
            (.token (energyCheckCall.take 13) .nil))
          (.token (energyCheckCall.drop 13) .nil)))
      (.token [59] .nil))

/-- A body that pays first. An empty statement becomes the call. -/
def Source.pay : Source → Source
  | .block pieces => .block (.child .body callStatement pieces)
  | .empty => callStatement
  | statement => .block (.child .body callStatement (.child .body statement .nil))

mutual

def Source.paid : Source → Source
  | .node type plain isAsync method pieces => .node type plain isAsync method pieces.paid
  | .loop type loops head last body tail => .loop type loops head.paid last body.paid.pay tail.paid
  | .block pieces => .block pieces.paid
  | .empty => .empty

def Pieces.paid : Pieces → Pieces
  | .nil => .nil
  | .token text rest => .token text rest.paid
  | .child field child rest => .child field child.paid rest.paid
  | .twin field name size rest => .twin field name size rest.paid

end

/-- The loop is `do;while` with nothing between `do` and its empty body. -/
def tight (type : NodeType) (head : Pieces) : Source → Bool
  | .empty => type = .doWhileStatement && head.text.length = 1
  | _ => false

mutual

def Source.spaced : Source → Bool
  | .node _ _ _ _ pieces => pieces.spaced
  | .loop type _ head _ body tail => !tight type head body && head.spaced && body.spaced && tail.spaced
  | .block pieces => pieces.spaced
  | .empty => true

def Pieces.spaced : Pieces → Bool
  | .nil => true
  | .token _ rest => rest.spaced
  | .child _ child rest => child.spaced && rest.spaced
  | .twin _ _ _ rest => rest.spaced

end

mutual

/-- One loop of a program pays, once more if it did already. -/
inductive Pays : Source → Source → Prop where
  | loop {type loops head last body tail} (apart : tight type head body = false) :
      Pays (.loop type loops head last body tail) (.loop type loops head last body.pay tail)
  | node {type plain isAsync method pieces pieces'} (inside : PaysIn pieces pieces') :
      Pays (.node type plain isAsync method pieces) (.node type plain isAsync method pieces')
  | head {type loops head head' last body tail} (inside : PaysIn head head') :
      Pays (.loop type loops head last body tail) (.loop type loops head' last body tail)
  | body {type loops head last body body' tail} (inside : Pays body body') :
      Pays (.loop type loops head last body tail) (.loop type loops head last body' tail)
  | tail {type loops head last body tail tail'} (inside : PaysIn tail tail') :
      Pays (.loop type loops head last body tail) (.loop type loops head last body tail')
  | block {pieces pieces'} (inside : PaysIn pieces pieces') : Pays (.block pieces) (.block pieces')

inductive PaysIn : Pieces → Pieces → Prop where
  | token {text rest rest'} (inside : PaysIn rest rest') : PaysIn (.token text rest) (.token text rest')
  | child {field child child' rest} (inside : Pays child child') :
      PaysIn (.child field child rest) (.child field child' rest)
  | rest {field child rest rest'} (inside : PaysIn rest rest') :
      PaysIn (.child field child rest) (.child field child rest')
  | twin {field name size rest rest'} (inside : PaysIn rest rest') :
      PaysIn (.twin field name size rest) (.twin field name size rest')

end

/-! ### The parser -/

mutual

def Node.hasJSX : Node → Bool
  | .node _ children => children.hasJSX
  | _ => true

def Children.hasJSX : Children → Bool
  | .nil => false
  | .cons _ child rest => child.hasJSX || rest.hasJSX

end

/-- How the parser reads a text without JSX. The body of a loop may be put in a block behind a call of the energy check,
as a block is a statement. -/
structure Grammar (t : Transpiler) (sourceOf : JsString → Option Source) : Prop where
  keys : ∀ type, (t.visitorKeys type).Nodup
  reads : ∀ text node, t.parse text = some node → node.hasJSX = false → ∃ c, sourceOf text = some c
  text : ∀ text c, sourceOf text = some c → c.text = text
  tree : ∀ text c, sourceOf text = some c → t.parse text = some (c.place 0)
  proper : ∀ text c, sourceOf text = some c → c.Proper t.visitorKeys
  pays : ∀ c c', sourceOf c.text = some c → Pays c c' → sourceOf c'.text = some c'

section Proofs

open Relation

section Lifts

theorem lift_node {type : NodeType} {plain : type.isPlain = true} {isAsync method : Bool} {pieces pieces' : Pieces}
    (inside : ReflTransGen PaysIn pieces pieces') :
    ReflTransGen Pays (.node type plain isAsync method pieces) (.node type plain isAsync method pieces') :=
  ReflTransGen.lift (Source.node type plain isAsync method) (fun _ _ => .node) _ _ inside

theorem lift_block {pieces pieces' : Pieces} (inside : ReflTransGen PaysIn pieces pieces') :
    ReflTransGen Pays (.block pieces) (.block pieces') := ReflTransGen.lift Source.block (fun _ _ => .block) _ _ inside

variable {type : NodeType} {loops : type.isLoop = true} {head head' : Pieces} {last : CodeUnit} {body body' : Source}
  {tail tail' : Pieces}

theorem lift_head (inside : ReflTransGen PaysIn head head') :
    ReflTransGen Pays (.loop type loops head last body tail) (.loop type loops head' last body tail) :=
  ReflTransGen.lift (fun head => Source.loop type loops head last body tail) (fun _ _ => .head) _ _ inside

theorem lift_body (inside : ReflTransGen Pays body body') :
    ReflTransGen Pays (.loop type loops head last body tail) (.loop type loops head last body' tail) :=
  ReflTransGen.lift (fun body => Source.loop type loops head last body tail) (fun _ _ => .body) _ _ inside

theorem lift_tail (inside : ReflTransGen PaysIn tail tail') :
    ReflTransGen Pays (.loop type loops head last body tail) (.loop type loops head last body tail') :=
  ReflTransGen.lift (fun tail => Source.loop type loops head last body tail) (fun _ _ => .tail) _ _ inside

variable {field : Field} {child child' : Source} {rest rest' : Pieces}

theorem lift_token {text : JsString} (inside : ReflTransGen PaysIn rest rest') :
    ReflTransGen PaysIn (.token text rest) (.token text rest') :=
  ReflTransGen.lift (Pieces.token text) (fun _ _ => .token) _ _ inside

theorem lift_child (inside : ReflTransGen Pays child child') :
    ReflTransGen PaysIn (.child field child rest) (.child field child' rest) :=
  ReflTransGen.lift (fun child => Pieces.child field child rest) (fun _ _ => .child) _ _ inside

theorem lift_rest (inside : ReflTransGen PaysIn rest rest') :
    ReflTransGen PaysIn (.child field child rest) (.child field child rest') :=
  ReflTransGen.lift (Pieces.child field child) (fun _ _ => .rest) _ _ inside

theorem lift_twin {name : JsString} {size : Nat} (inside : ReflTransGen PaysIn rest rest') :
    ReflTransGen PaysIn (.twin field name size rest) (.twin field name size rest') :=
  ReflTransGen.lift (Pieces.twin field name size) (fun _ _ => .twin) _ _ inside

end Lifts

theorem tight_paid (type : NodeType) (head : Pieces) (body : Source) :
    tight type head body.paid = tight type head body := by
  cases body <;> rfl

mutual

theorem pays_paid (c : Source) (spaced : c.spaced = true) : ReflTransGen Pays c c.paid := by
  cases c with
  | node type plain isAsync method pieces => exact lift_node (paysIn_paid pieces spaced)
  | loop type loops head last body tail =>
    rw [Source.spaced, Bool.and_eq_true, Bool.and_eq_true, Bool.and_eq_true, Bool.not_eq_true'] at spaced
    obtain ⟨⟨⟨apart, inHead⟩, inBody⟩, inTail⟩ := spaced
    rw [← tight_paid] at apart
    have first := @lift_body type loops head last _ _ tail (pays_paid body inBody)
    have second := (first.tail (.loop apart)).trans (lift_head (paysIn_paid head inHead))
    exact second.trans (lift_tail (paysIn_paid tail inTail))
  | block pieces => exact lift_block (paysIn_paid pieces spaced)
  | empty => exact .refl

theorem paysIn_paid (pieces : Pieces) (spaced : pieces.spaced = true) : ReflTransGen PaysIn pieces pieces.paid := by
  cases pieces with
  | nil => exact .refl
  | token text rest => exact lift_token (paysIn_paid rest spaced)
  | child field child rest =>
    rw [Pieces.spaced, Bool.and_eq_true] at spaced
    exact (lift_child (pays_paid child spaced.1)).trans (lift_rest (paysIn_paid rest spaced.2))
  | twin field name size rest => exact lift_twin (paysIn_paid rest spaced)

end

mutual

theorem not_pays {c c' : Source} (plain : c.loopless = true) : ¬ Pays c c' := by
  intro step
  cases c with
  | node type plain isAsync method pieces =>
    cases step with
    | node inside => exact not_paysIn plain inside
  | loop type loops head last body tail => cases plain
  | block pieces =>
    cases step with
    | block inside => exact not_paysIn plain inside
  | empty => cases step

theorem not_paysIn {pieces pieces' : Pieces} (plain : pieces.loopless = true) : ¬ PaysIn pieces pieces' := by
  intro step
  cases pieces with
  | nil => cases step
  | token text rest =>
    have later : rest.loopless = true := plain
    cases step with
    | token inside => exact not_paysIn later inside
  | child field child rest =>
    rw [Pieces.loopless, Bool.and_eq_true] at plain
    cases step with
    | child inside => exact not_pays plain.1 inside
    | rest inside => exact not_paysIn plain.2 inside
  | twin field name size rest =>
    have later : rest.loopless = true := plain
    cases step with
    | twin inside => exact not_paysIn later inside

end

theorem Grammar.reads_paid {t : Transpiler} {sourceOf : JsString → Option Source} (grammar : Grammar t sourceOf)
    {c : Source} (read : sourceOf c.text = some c) (spaced : c.spaced = true) :
    sourceOf c.paid.text = some c.paid := by
  have all : ∀ c', ReflTransGen Pays c c' → sourceOf c'.text = some c' := by
    intro c' steps
    induction steps with
    | refl => exact read
    | tail _ step ih => exact grammar.pays _ _ ih step
  exact all c.paid (pays_paid c spaced)

end Proofs

end CasualOS.TranspiledCode
