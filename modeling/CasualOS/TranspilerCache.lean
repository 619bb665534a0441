import CasualOS.Lib.OrderedMap
import CasualOS.Lib.Run
import CasualOS.TranspiledCode

/-! The cache of a transpiler, whose setting changes between its calls. -/

namespace CasualOS.TranspiledCode

open OrderedMap Run YjsText

/-! ### Calls -/

/-- Two code units that make one character. -/
def dna : JsString := [55358, 56812]

def replaceMacros (text : JsString) : JsString :=
  let code := if dna.isPrefixOf text then text.drop dna.length else text
  let quoted := code.map fun c => if c = 8220 ∨ c = 8221 then 34 else c
  quoted.map fun c => if c = 8216 ∨ c = 8217 then 39 else c

inductive Outcome where
  | syntaxError
  | failed
  | code (text : JsString)
  deriving DecidableEq

namespace Transpiler

variable (t : Transpiler)

/-- The edited text of a code, nothing where it has a syntax error. -/
def edited (forceSync : Bool) (code : JsString) : Option (Option (Editing code)) :=
  (t.parse (replaceMacros code)).map fun node => t.replace forceSync none node (.start code)

/-- What a transpiler without a cache makes of a code. -/
def fresh (forceSync : Bool) (code : JsString) : Outcome :=
  match t.edited forceSync code with
  | none => .syntaxError
  | some none => .failed
  | some (some s) => .code (visible s.doc.items)

end Transpiler

/-- A result, with the setting that it was made with. -/
structure Cached where
  code : JsString
  forceSync : Bool

structure Answer where
  source : JsString
  forceSync : Bool
  outcome : Outcome

structure World where
  forceSync : Bool
  cache : List (JsString × Cached)
  answers : List Answer

inductive Action where
  | setForceSync (value : Bool)
  | transpile (code : JsString)
  | evict (code : JsString)

def World.start (forceSync : Bool) : World := { forceSync := forceSync, cache := [], answers := [] }

section Calls

variable (t : Transpiler)

def World.transpile (w : World) (code : JsString) : Outcome × List (JsString × Cached) :=
  match lookup code w.cache with
  | some cached => (.code cached.code, w.cache)
  | none =>
    match t.fresh w.forceSync code with
    | .code text => (.code text, assign code { code := text, forceSync := w.forceSync } w.cache)
    | outcome => (outcome, w.cache)

def World.step (w : World) : Action → Option World
  | .setForceSync value => some { w with forceSync := value }
  | .evict code => some { w with cache := remove code w.cache }
  | .transpile code =>
    let (outcome, cache) := w.transpile t code
    some { w with cache := cache, answers := w.answers ++ [⟨code, w.forceSync, outcome⟩] }

/-- The macro-replaced code with the edits of the transpiler. -/
def OnlyEdited (answer : Answer) : Prop :=
  ∀ text, answer.outcome = .code text → ∃ s, t.edited answer.forceSync answer.source = some (some s) ∧
    text = applyEdits (replaceMacros answer.source) s.edits

def Exact (w : World) : Prop :=
  ∀ answer ∈ w.answers, answer.outcome = t.fresh answer.forceSync answer.source ∧ OnlyEdited t answer

end Calls

/-! ### When the cache is right -/

mutual

/-- A node of the tree is edited only where `forceSync` is set. -/
def usesAsync : Node → Bool
  | .node data children =>
    (data.isAsync && (data.type = .functionDeclaration || data.type = .arrowFunctionExpression ||
      data.type = .functionExpression)) || data.type = .awaitExpression || usesAsyncIn children
  | .jsxElement _ _ _ attributes children => usesAsyncWith attributes || usesAsyncIn children
  | .jsxFragment _ _ _ children => usesAsyncIn children
  | .jsxText _ => false
  | .jsxExpressionContainer _ expression => usesAsync expression
  | .jsxEmptyExpression _ => false

def usesAsyncIn : Children → Bool
  | .nil => false
  | .cons _ child rest => usesAsync child || usesAsyncIn rest

def usesAsyncWith : Attributes → Bool
  | .nil => false
  | .flag _ _ _ rest => usesAsyncWith rest
  | .valued _ _ _ value rest => usesAsync value || usesAsyncWith rest
  | .spread _ argument rest => usesAsync argument || usesAsyncWith rest

end

/-- The code has no macros, and a result that is cached for it was made with the same setting or does not depend on
it. -/
def Allowed (t : Transpiler) (w : World) : Action → Prop
  | .transpile code => replaceMacros code = code ∧ ∀ cached, lookup code w.cache = some cached →
      cached.forceSync = w.forceSync ∨ ∀ node, t.parse code = some node → usesAsync node = false
  | _ => True

section Proofs

variable (t : Transpiler) {original : JsString} (forceSync : Bool)

theorem enter_plain (parent : Option NodeData) (data : NodeData) (children : Children) (s : Editing original)
    (functions : (data.isAsync && (data.type = .functionDeclaration || data.type = .arrowFunctionExpression ||
      data.type = .functionExpression)) = false) (awaits : ¬ data.type = .awaitExpression) :
    t.enter forceSync parent data children s = t.enter false parent data children s := by
  rw [Transpiler.enter, Transpiler.enter]
  cases forceSync with
  | false => rfl
  | true =>
    cases isAsync : data.isAsync with
    | false => simp [awaits]
    | true =>
      rw [isAsync, Bool.true_and, Bool.or_eq_false_iff, Bool.or_eq_false_iff] at functions
      obtain ⟨⟨declaration, arrow⟩, expression⟩ := functions
      simp [awaits, of_decide_eq_false declaration, of_decide_eq_false arrow, of_decide_eq_false expression]

mutual

/-- The setting does not matter for a tree without asynchronous functions and `await`. -/
theorem replace_plain (parent : Option NodeData) (node : Node) (s : Editing original) (plain : usesAsync node = false) :
    t.replace forceSync parent node s = t.replace false parent node s := by
  cases node with
  | node data children =>
    rw [usesAsync, Bool.or_eq_false_iff, Bool.or_eq_false_iff] at plain
    have fields : ∀ key (s : Editing original), t.replaceField forceSync data key children s =
        t.replaceField false data key children s := fun key s => replaceField_plain data key children s plain.2
    simp only [Transpiler.replace, enter_plain t forceSync parent data children s plain.1.1
      (of_decide_eq_false plain.1.2), fields]
  | jsxElement data openingElement closingElement attributes children =>
    rw [usesAsync, Bool.or_eq_false_iff] at plain
    have inside : ∀ version (s : Editing original), t.replaceJSXChildren forceSync version children s =
        t.replaceJSXChildren false version children s :=
      fun version s => replaceJSXChildren_plain version children s plain.2
    have named : ∀ starts (s : Editing original), t.replaceAttributes forceSync true attributes starts s =
        t.replaceAttributes false true attributes starts s :=
      fun starts s => replaceAttributes_plain true attributes starts s plain.1
    simp only [Transpiler.replace, inside, named]
  | jsxFragment data openingFragment closingFragment children =>
    rw [usesAsync] at plain
    have inside : ∀ version (s : Editing original), t.replaceJSXChildren forceSync version children s =
        t.replaceJSXChildren false version children s :=
      fun version s => replaceJSXChildren_plain version children s plain
    simp only [Transpiler.replace, inside]
  | jsxText data => rfl
  | jsxExpressionContainer data expression =>
    rw [usesAsync] at plain
    have inside : ∀ s : Editing original, t.replace forceSync (some data) expression s =
        t.replace false (some data) expression s := fun s => replace_plain (some data) expression s plain
    simp only [Transpiler.replace, inside]
  | jsxEmptyExpression data => rfl

theorem replaceField_plain (parent : NodeData) (key : Field) (children : Children) (s : Editing original)
    (plain : usesAsyncIn children = false) :
    t.replaceField forceSync parent key children s = t.replaceField false parent key children s := by
  cases children with
  | nil => rfl
  | cons field child rest =>
    rw [usesAsyncIn, Bool.or_eq_false_iff] at plain
    have later : ∀ s : Editing original, t.replaceField forceSync parent key rest s =
        t.replaceField false parent key rest s := fun s => replaceField_plain parent key rest s plain.2
    simp only [Transpiler.replaceField, replace_plain (some parent) child s plain.1, later]

theorem replaceAttributes_plain (first : Bool) (attributes : Attributes) (starts : List RelativePosition)
    (s : Editing original) (plain : usesAsyncWith attributes = false) :
    t.replaceAttributes forceSync first attributes starts s = t.replaceAttributes false first attributes starts s := by
  cases attributes with
  | nil => rfl
  | flag span nameSpan name rest =>
    rw [usesAsyncWith] at plain
    have later : ∀ starts (s : Editing original), t.replaceAttributes forceSync false rest starts s =
        t.replaceAttributes false false rest starts s :=
      fun starts s => replaceAttributes_plain false rest starts s plain
    simp only [Transpiler.replaceAttributes, later]
  | valued span nameSpan name value rest =>
    rw [usesAsyncWith, Bool.or_eq_false_iff] at plain
    have later : ∀ starts (s : Editing original), t.replaceAttributes forceSync false rest starts s =
        t.replaceAttributes false false rest starts s :=
      fun starts s => replaceAttributes_plain false rest starts s plain.2
    have inside : ∀ s : Editing original, t.replace forceSync none value s = t.replace false none value s :=
      fun s => replace_plain none value s plain.1
    simp only [Transpiler.replaceAttributes, later, inside]
  | spread span argument rest =>
    rw [usesAsyncWith, Bool.or_eq_false_iff] at plain
    have later : ∀ starts (s : Editing original), t.replaceAttributes forceSync false rest starts s =
        t.replaceAttributes false false rest starts s :=
      fun starts s => replaceAttributes_plain false rest starts s plain.2
    have inside : ∀ s : Editing original, t.replace forceSync none argument s = t.replace false none argument s :=
      fun s => replace_plain none argument s plain.1
    simp only [Transpiler.replaceAttributes, later, inside]

theorem replaceJSXChildren_plain (version : VersionVector) (children : Children) (s : Editing original)
    (plain : usesAsyncIn children = false) :
    t.replaceJSXChildren forceSync version children s = t.replaceJSXChildren false version children s := by
  cases children with
  | nil => rfl
  | cons field child rest =>
    rw [usesAsyncIn, Bool.or_eq_false_iff] at plain
    have later : ∀ s : Editing original, t.replaceJSXChildren forceSync version rest s =
        t.replaceJSXChildren false version rest s := fun s => replaceJSXChildren_plain version rest s plain.2
    simp only [Transpiler.replaceJSXChildren, replace_plain none child s plain.1, later]

end

/-! ### Runs -/

theorem fresh_plain {code : JsString} (unmacroed : replaceMacros code = code)
    (plain : ∀ node, t.parse code = some node → usesAsync node = false) (forceSync : Bool) :
    t.fresh forceSync code = t.fresh false code := by
  have same : t.edited forceSync code = t.edited false code := by
    rw [Transpiler.edited, Transpiler.edited, unmacroed]
    cases parsed : t.parse code with
    | none => rfl
    | some node => exact congrArg some (replace_plain t forceSync none node (.start code) (plain node parsed))
  rw [Transpiler.fresh, Transpiler.fresh, same]

theorem edited_of_fresh {forceSync : Bool} {code text : JsString} (made : t.fresh forceSync code = .code text) :
    ∃ s, t.edited forceSync code = some (some s) ∧ text = applyEdits code s.edits := by
  rw [Transpiler.fresh] at made
  cases ran : t.edited forceSync code with
  | none =>
    rw [ran] at made
    cases made
  | some result =>
    rw [ran] at made
    cases result with
    | none => cases made
    | some s => exact ⟨s, rfl, (Outcome.code.inj made).symm.trans s.logged⟩

/-- Cached results are what a transpiler makes that has the setting of their time. -/
structure Kept (w : World) : Prop where
  exact : Exact t w
  cached : ∀ code cached, lookup code w.cache = some cached → t.fresh cached.forceSync code = .code cached.code

variable {t} {w : World}

theorem kept_start (forceSync : Bool) : Kept t (World.start forceSync) where
  exact answer member := by cases member
  cached code cached there := by cases there

/-- A call answers what a new transpiler makes. -/
theorem transpile_outcome (kept : Kept t w) {code : JsString} (allowed : Allowed t w (.transpile code)) :
    (w.transpile t code).1 = t.fresh w.forceSync code := by
  rw [World.transpile]
  cases there : lookup code w.cache with
  | some cached =>
    have made := kept.cached code cached there
    rcases allowed.2 cached there with same | plain
    · exact (same ▸ made).symm
    · rw [fresh_plain t allowed.1 plain] at made
      exact (fresh_plain t allowed.1 plain w.forceSync ▸ made).symm
  | none =>
    cases t.fresh w.forceSync code with
    | syntaxError => rfl
    | failed => rfl
    | code text => rfl

theorem transpile_cached (kept : Kept t w) (code other : JsString) (cached : Cached)
    (there : lookup other (w.transpile t code).2 = some cached) : t.fresh cached.forceSync other = .code cached.code := by
  rw [World.transpile] at there
  cases held : lookup code w.cache with
  | some old =>
    rw [held] at there
    exact kept.cached other cached there
  | none =>
    rw [held] at there
    cases made : t.fresh w.forceSync code with
    | syntaxError =>
      rw [made] at there
      exact kept.cached other cached there
    | failed =>
      rw [made] at there
      exact kept.cached other cached there
    | code text =>
      rw [made] at there
      simp only [lookup_assign] at there
      split at there
      · next own =>
          obtain rfl := Option.some.inj there
          rw [own]
          exact made
      · exact kept.cached other cached there

theorem onlyEdited_of_fresh {code : JsString} (unmacroed : replaceMacros code = code) (forceSync : Bool) :
    OnlyEdited t ⟨code, forceSync, t.fresh forceSync code⟩ := by
  intro text made
  rw [unmacroed]
  exact edited_of_fresh t made

theorem kept_step (kept : Kept t w) {action : Action} {next : World} (allowed : Allowed t w action)
    (ran : w.step t action = some next) : Kept t next := by
  cases action with
  | setForceSync value =>
    obtain rfl := Option.some.inj ran
    exact ⟨kept.exact, kept.cached⟩
  | evict code =>
    obtain rfl := Option.some.inj ran
    refine ⟨kept.exact, fun other cached there => kept.cached other cached ?_⟩
    rw [lookup_remove] at there
    split at there
    · cases there
    · exact there
  | transpile code =>
    obtain rfl := Option.some.inj ran
    refine ⟨?_, transpile_cached kept code⟩
    intro answer member
    rcases List.mem_append.mp member with old | new
    · exact kept.exact answer old
    · obtain rfl := List.mem_singleton.mp new
      have outcome := transpile_outcome kept allowed
      refine ⟨outcome, ?_⟩
      have edited := @onlyEdited_of_fresh t code allowed.1 w.forceSync
      rw [← outcome] at edited
      exact edited

/-- Calls answer what a new transpiler makes, as long as their codes have no macros and nothing is cached for them that
another setting would change. -/
theorem answers_fresh (t : Transpiler) (forceSync : Bool) (actions : List Action)
    (allowed : AllAllowed (World.step t) (Allowed t) (World.start forceSync) actions) :
    Throughout (World.step t) (Exact t) (World.start forceSync) actions :=
  throughout_of (fun _ kept => kept.exact) (fun _ _ _ kept meets ran => kept_step kept meets ran) (World.start forceSync)
    (kept_start forceSync) actions allowed

/-! An arrow function that is transpiled under both settings. -/

def arrowCode : JsString := JsString.lit ['a', 's', 'y', 'n', 'c', ' ', 'a', '=', '>', 'a']

def plainNode (type : NodeType) (start stop : Nat) (children : Children) : Node :=
  .node { start := start, stop := stop, type := type, isAsync := false, method := false } children

def identifier (start stop : Nat) : Node := plainNode (.other []) start stop .nil

def arrowTree : Node :=
  plainNode (.other [80]) 0 10 (.cons .body (plainNode .expressionStatement 0 10 (.cons .expression
    (.node { start := 0, stop := 10, type := .arrowFunctionExpression, isAsync := true, method := false }
      (.cons (.other []) (identifier 6 7) (.cons .body (identifier 9 10) .nil))) .nil)) .nil)

def arrowTranspiler : Transpiler where
  parse text := if text = arrowCode then some arrowTree else none
  visitorKeys
    | .expressionStatement => [.expression]
    | .arrowFunctionExpression => [.other [], .body]
    | _ => [.body]
  merges _ _ := false
  jsxFactory := [104]
  jsxFragment := [70]

theorem evicted_is_fresh : Throughout (World.step arrowTranspiler) (Exact arrowTranspiler) (World.start false)
    [.transpile arrowCode, .transpile arrowCode, .setForceSync true, .evict arrowCode, .transpile arrowCode] := by
  refine answers_fresh arrowTranspiler false _ ⟨⟨by decide, fun cached there => ?_⟩, fun next ran => ?_⟩
  · cases there
  · obtain rfl := Option.some.inj ran
    refine ⟨⟨by decide, fun cached there => ?_⟩, fun next ran => ?_⟩
    · obtain rfl := Option.some.inj there
      exact .inl rfl
    · obtain rfl := Option.some.inj ran
      refine ⟨trivial, fun next ran => ?_⟩
      obtain rfl := Option.some.inj ran
      refine ⟨trivial, fun next ran => ?_⟩
      obtain rfl := Option.some.inj ran
      refine ⟨⟨by decide, fun cached there => ?_⟩, fun next ran => trivial⟩
      cases there

theorem cached_without_sync :
    ∃ w, runAll (World.step arrowTranspiler) (World.start false)
      [.transpile arrowCode, .setForceSync true, .transpile arrowCode] = some w ∧ ¬ Exact arrowTranspiler w := by
  refine ⟨_, rfl, fun exact => ?_⟩
  have last := (exact ⟨arrowCode, true, .code arrowCode⟩ (List.mem_cons_of_mem _ (List.mem_singleton_self _))).1
  revert last
  decide

end Proofs

end CasualOS.TranspiledCode
