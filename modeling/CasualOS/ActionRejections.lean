import Mathlib.Data.Finset.Dedup
import Mathlib.Data.Finset.Erase
import Mathlib.Data.Finset.Lattice.Lemmas

/-! Which actions of a batch are left once the rejections among them are resolved. -/

namespace CasualOS.ActionRejections

variable {Action : Type}

variable [DecidableEq Action]

/-- The actions that were kept so far, from the end of the list. -/
structure Resolving (Action : Type) where
  rejections : Finset Action
  final : List Action

section Resolve

-- The actions that a reject action names, nothing for an action of another type.
variable (rejected : Action → Option (List Action))

def visit (action : Action) (s : Resolving Action) : Resolving Action :=
  if action ∈ s.rejections then { s with rejections := s.rejections.erase action }
  else match rejected action with
    | some actions => { s with rejections := s.rejections ∪ actions.toFinset }
    | none => { s with final := action :: s.final }

/-- The loop goes from the last action to the first. -/
def resolveFrom (actions : List Action) : Resolving Action :=
  actions.foldr (visit rejected) { rejections := ∅, final := [] }

def resolveRejectedActions (actions : List Action) : List Action :=
  (resolveFrom rejected actions).final.eraseDups

/-! ### What rejections are for -/

def named : List Action → List Action
  | [] => []
  | action :: rest =>
    if action ∈ named rest then named rest else (rejected action).getD [] ++ named rest

def kept : List Action → List Action
  | [] => []
  | action :: rest =>
    if action ∈ named rejected rest ∨ (rejected action).isSome then kept rest else action :: kept rest

def standing (actions : List Action) : List Action := (kept rejected actions).eraseDups

/-- An effective reject in the list names the action, with no occurrence of the action before it. -/
def NamedFirst (action : Action) (rest : List Action) : Prop :=
  ∃ between reject later, rest = between ++ reject :: later ∧ action ∉ between ∧
    reject ∉ named rejected later ∧ action ∈ (rejected reject).getD []

/-- Each rejected occurrence is named before the same action occurs again. -/
def NoneUsedUp (actions : List Action) : Prop :=
  ∀ before action rest, actions = before ++ action :: rest → action ∈ named rejected rest →
    NamedFirst rejected action rest

/-- Each occurrence is rejected by the loop exactly when an effective reject after it names it. -/
def TakesEffectExactly (actions : List Action) : Prop :=
  ∀ before action rest, actions = before ++ action :: rest →
    (action ∈ (resolveFrom rejected rest).rejections ↔ action ∈ named rejected rest)

end Resolve

variable {rejected : Action → Option (List Action)}

theorem mem_named (action : Action) (actions : List Action) : action ∈ named rejected actions ↔
    ∃ before reject rest, actions = before ++ reject :: rest ∧ reject ∉ named rejected rest ∧
      action ∈ (rejected reject).getD [] := by
  induction actions with
  | nil => simp [named]
  | cons first rest ih =>
    have later : (∃ before reject after, rest = before ++ reject :: after ∧
        reject ∉ named rejected after ∧ action ∈ (rejected reject).getD []) →
        ∃ before reject after, first :: rest = before ++ reject :: after ∧
          reject ∉ named rejected after ∧ action ∈ (rejected reject).getD [] := by
      rintro ⟨before, reject, after, rfl, effective, names⟩
      exact ⟨first :: before, reject, after, rfl, effective, names⟩
    rw [named]
    constructor
    · intro member
      split at member
      · exact later (ih.mp member)
      · next effective =>
          rcases List.mem_append.mp member with here | there
          · exact ⟨[], first, rest, rfl, effective, here⟩
          · exact later (ih.mp there)
    · rintro ⟨before, reject, after, same, effective, names⟩
      cases before with
      | nil =>
        obtain ⟨rfl, rfl⟩ := List.cons.inj same
        rw [if_neg effective]
        exact List.mem_append_left _ names
      | cons other before =>
        obtain ⟨rfl, rfl⟩ := List.cons.inj same
        have inRest := ih.mpr ⟨before, reject, after, rfl, effective, names⟩
        split
        · exact inRest
        · exact List.mem_append_right _ inRest

theorem named_of_namedFirst {action : Action} {rest : List Action} (first : NamedFirst rejected action rest) :
    action ∈ named rejected rest := by
  obtain ⟨between, reject, later, same, _, effective, names⟩ := first
  exact (mem_named action rest).mpr ⟨between, reject, later, same, effective, names⟩

/-! ### The loop -/

theorem resolveFrom_cons (action : Action) (rest : List Action) :
    resolveFrom rejected (action :: rest) = visit rejected action (resolveFrom rejected rest) := rfl

theorem namedFirst_cons (action first : Action) (rest : List Action) : NamedFirst rejected action (first :: rest) ↔
      (first ∉ named rejected rest ∧ action ∈ (rejected first).getD []) ∨
        (action ≠ first ∧ NamedFirst rejected action rest) := by
  constructor
  · rintro ⟨between, reject, later, same, apart, effective, names⟩
    cases between with
    | nil =>
      obtain ⟨rfl, rfl⟩ := List.cons.inj same
      exact .inl ⟨effective, names⟩
    | cons other between =>
      obtain ⟨rfl, rfl⟩ := List.cons.inj same
      rw [List.mem_cons, not_or] at apart
      exact .inr ⟨apart.1, between, reject, later, rfl, apart.2, effective, names⟩
  · rintro (⟨effective, names⟩ | ⟨apart, between, reject, later, rfl, before, effective, names⟩)
    · exact ⟨[], first, rest, rfl, List.not_mem_nil, effective, names⟩
    · refine ⟨first :: between, reject, later, rfl, ?_, effective, names⟩
      rw [List.mem_cons, not_or]
      exact ⟨apart, before⟩

/-- Where the loop is right so far, it goes on with the rejections that are not used up. -/
theorem rejections_of_exact {actions : List Action} (exactly : TakesEffectExactly rejected actions)
    (action : Action) : action ∈ (resolveFrom rejected actions).rejections ↔
      NamedFirst rejected action actions := by
  induction actions with
  | nil =>
    refine ⟨fun inside => absurd inside (Finset.notMem_empty action), ?_⟩
    rintro ⟨between, reject, later, same, _⟩
    simp at same
  | cons first rest ih =>
    have onRest : TakesEffectExactly rejected rest := by
      intro before other after same
      exact exactly (first :: before) other after (by rw [same]; rfl)
    have here : first ∈ (resolveFrom rejected rest).rejections ↔ first ∈ named rejected rest :=
      exactly [] first rest rfl
    rw [resolveFrom_cons, visit, namedFirst_cons, ← ih onRest, ← here]
    by_cases isRejected : first ∈ (resolveFrom rejected rest).rejections
    · rw [if_pos isRejected]
      simp [isRejected]
    · have other : action ∈ (resolveFrom rejected rest).rejections → action ≠ first := by
        rintro inside rfl
        exact isRejected inside
      rw [if_neg isRejected]
      cases names : rejected first with
      | none => simpa [isRejected] using other
      | some actions =>
        simp only [isRejected, Finset.mem_union, List.mem_toFinset, not_false_eq_true, true_and, Option.getD_some]
        tauto

theorem exact_iff (actions : List Action) : TakesEffectExactly rejected actions ↔ NoneUsedUp rejected actions := by
  constructor
  · intro exactly before action rest same isNamed
    have onRest : TakesEffectExactly rejected rest := by
      intro first other after isRest
      exact exactly (before ++ action :: first) other after (by rw [same, isRest]; simp)
    exact (rejections_of_exact onRest action).mp ((exactly before action rest same).mpr isNamed)
  · intro unused
    induction actions with
    | nil =>
      intro before action rest same
      simp at same
    | cons first rest ih =>
      have onRest : TakesEffectExactly rejected rest := by
        refine ih fun before action after same => ?_
        exact unused (first :: before) action after (by rw [same]; rfl)
      intro before action after same
      cases before with
      | nil =>
        obtain ⟨rfl, rfl⟩ := List.cons.inj same
        rw [rejections_of_exact onRest]
        exact ⟨named_of_namedFirst, unused [] first rest rfl⟩
      | cons other before =>
        obtain ⟨rfl, rfl⟩ := List.cons.inj same
        exact onRest before action after rfl

theorem final_of_exact {actions : List Action} (exactly : TakesEffectExactly rejected actions) :
    (resolveFrom rejected actions).final = kept rejected actions := by
  induction actions with
  | nil => rfl
  | cons first rest ih =>
    have onRest : TakesEffectExactly rejected rest := by
      intro before other after same
      exact exactly (first :: before) other after (by rw [same]; rfl)
    have here : first ∈ (resolveFrom rejected rest).rejections ↔ first ∈ named rejected rest :=
      exactly [] first rest rfl
    rw [resolveFrom_cons, visit, kept, ← ih onRest]
    by_cases isRejected : first ∈ (resolveFrom rejected rest).rejections
    · rw [if_pos isRejected, if_pos (.inl (here.mp isRejected))]
    · rw [if_neg isRejected]
      cases names : rejected first with
      | none => simp [mt here.mpr isRejected]
      | some actions => simp

/-- Each occurrence is rejected where an effective reject after it names it exactly when no rejection was
used up by a later occurrence; then the actions that are left are those that stand. -/
theorem rejections_exact_iff (rejected : Action → Option (List Action)) (actions : List Action) :
    (TakesEffectExactly rejected actions ↔ NoneUsedUp rejected actions) ∧
      (NoneUsedUp rejected actions → resolveRejectedActions rejected actions = standing rejected actions) := by
  refine ⟨exact_iff actions, fun unused => ?_⟩
  rw [resolveRejectedActions, final_of_exact ((exact_iff actions).mpr unused), standing]

/-! ### An action that is issued twice -/

/-- The action 0 is a toast, each other action rejects the action before it. -/
def chain : Nat → Option (List Nat)
  | 0 => none
  | n + 1 => some [n]

example : resolveRejectedActions chain [0, 1, 2] = [0] := by decide

theorem rejected_twice_stays :
    resolveRejectedActions chain [0, 0, 1] = [0] ∧ standing chain [0, 0, 1] = [] := by decide

end CasualOS.ActionRejections
