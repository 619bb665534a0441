import CasualOS.Lib.Run

/-! Handlers that run at the same time over one store, each from one await to the next. -/

namespace Handlers

open Run

structure State (Store Call : Type) where
  store : Store
  now : Int
  calls : List Call

/-- `given` is what a call gets from outside as it goes on. -/
inductive Label (Request Given : Type) where
  | call (request : Request)
  | resume (call : Nat) (given : Given)
  | pass (later : Int)

variable {Store Call Request Given : Type}

section Steps

variable (begin : State Store Call → Request → Call)
  (resume : State Store Call → Call → Given → Option (Store × Call))

/-- A call is begun, goes on, or time passes. -/
def step (s : State Store Call) : Label Request Given → Option (State Store Call)
  | .call request => some { s with calls := s.calls ++ [begin s request] }
  | .resume i given =>
    match s.calls[i]? with
    | none => none
    | some call => (resume s call given).map (fun next =>
      { s with
        store := next.1
        calls := s.calls.set i next.2 })
  | .pass later => if s.now ≤ later then some { s with now := later } else none

end Steps

def idle (store : Store) (now : Int) : State Store Call where
  store := store
  now := now
  calls := []

variable {begin : State Store Call → Request → Call}
  {resume : State Store Call → Call → Given → Option (Store × Call)}

theorem step_resume {s : State Store Call} {i : Nat} {given : Given} {next : State Store Call}
    (ran : step begin resume s (.resume i given) = some next) :
    ∃ call made, s.calls[i]? = some call ∧ resume s call given = some made ∧
      next = { s with store := made.1, calls := s.calls.set i made.2 } := by
  simp only [step] at ran
  split at ran
  · cases ran
  · rename_i call here
    have ⟨made, resumed, same⟩ := Option.map_eq_some_iff.mp ran
    exact ⟨call, made, here, resumed, same.symm⟩

theorem step_pass {s next : State Store Call} {later : Int}
    (ran : step begin resume s (.pass later) = some next) : s.now ≤ later ∧ next = { s with now := later } := by
  simp only [step] at ran
  split at ran
  · rename_i past
    exact ⟨past, (Option.some.inj ran).symm⟩
  · cases ran

theorem invariant {Allowed : State Store Call → Label Request Given → Prop} {Inv : State Store Call → Prop}
    {start s : State Store Call} (first : Inv start)
    (begins : ∀ s request, Inv s → Allowed s (.call request) →
      Inv { s with calls := s.calls ++ [begin s request] })
    (resumes : ∀ s i given call made, Inv s → Allowed s (.resume i given) → s.calls[i]? = some call →
      resume s call given = some made → Inv { s with store := made.1, calls := s.calls.set i made.2 })
    (passes : ∀ s later, Inv s → s.now ≤ later → Inv { s with now := later })
    (reached : Reaches (step begin resume) Allowed start s) : Inv s := by
  refine reached.invariant Inv first (fun s label next inv allowed ran => ?_)
  cases label with
  | call request =>
    rw [← Option.some.inj ran]
    exact begins s request inv allowed
  | resume i given =>
    have ⟨call, made, here, resumed, same⟩ := step_resume ran
    rw [same]
    exact resumes s i given call made inv allowed here resumed
  | pass later =>
    have ⟨past, same⟩ := step_pass ran
    rw [same]
    exact passes s later inv past

section Calls

variable {calls : List Call} {call next other : Call} {i j : Nat}

/-- The calls after one of them went on. -/
theorem getElem?_set_iff (here : calls[i]? = some call) :
    (calls.set i next)[j]? = some other ↔ (j = i ∧ other = next) ∨ (j ≠ i ∧ calls[j]? = some other) := by
  have inside := (List.getElem?_eq_some_iff.mp here).1
  by_cases same : j = i
  · rw [same, List.getElem?_set_self inside]
    simp [eq_comm]
  · rw [List.getElem?_set_ne (fun equal => same equal.symm)]
    simp [same]

theorem getElem?_set_cases (here : calls[i]? = some call) (there : (calls.set i next)[j]? = some other) :
    (j = i ∧ other = next) ∨ (j ≠ i ∧ calls[j]? = some other) := (getElem?_set_iff here).mp there

theorem getElem?_set_here (here : calls[i]? = some call) : (calls.set i next)[i]? = some next :=
  (getElem?_set_iff here).mpr (.inl ⟨rfl, rfl⟩)

theorem getElem?_set_there (here : calls[i]? = some call) (differ : j ≠ i) (there : calls[j]? = some other) :
    (calls.set i next)[j]? = some other := (getElem?_set_iff here).mpr (.inr ⟨differ, there⟩)

theorem getElem?_append_cases (there : (calls ++ [next])[j]? = some other) :
    (calls[j]? = some other) ∨ (j = calls.length ∧ other = next) := by
  by_cases inside : j < calls.length
  · rw [List.getElem?_append_left inside] at there
    exact .inl there
  · rw [List.getElem?_append_right (Nat.le_of_not_lt inside), List.getElem?_singleton] at there
    split at there
    · rename_i first
      exact .inr ⟨by omega, (Option.some.inj there).symm⟩
    · cases there

theorem getElem?_append_there (there : calls[j]? = some other) : (calls ++ [next])[j]? = some other := by
  rw [List.getElem?_append_left (List.getElem?_eq_some_iff.mp there).1]
  exact there

end Calls

theorem countP_set {calls : List Call} {kind : Call → Bool} {call next : Call} {i : Nat}
    (here : calls[i]? = some call) :
    (calls.set i next).countP kind + (if kind call then 1 else 0) =
      calls.countP kind + (if kind next then 1 else 0) := by
  induction calls generalizing i with
  | nil => cases here
  | cons first rest ih =>
    cases i with
    | zero =>
      rw [← Option.some.inj here, List.set_cons_zero, List.countP_cons, List.countP_cons]
      omega
    | succ i =>
      have counted := ih (i := i) here
      rw [List.set_cons_succ, List.countP_cons, List.countP_cons]
      omega

end Handlers
