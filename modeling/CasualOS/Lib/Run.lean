import Mathlib.Data.List.Basic

/-! Runs of a step function, and what holds in every state they reach. -/

namespace Run

variable {S L : Type}

theorem foldl_kept {X : Type} (read : S → X) {step : S → L → S}
    (each : ∀ state label, read (step state label) = read state) (labels : List L) (start : S) : read (labels.foldl step start) = read start := by
  induction labels generalizing start with
  | nil => rfl
  | cons label rest ih => exact (ih (step start label)).trans (each start label)

/-- The states reached from `start` by steps that are each `Allowed` in the state before them. -/
inductive Reaches (step : S → L → Option S) (Allowed : S → L → Prop) (start : S) : S → Prop where
  | start : Reaches step Allowed start start
  | step {state next : S} (label : L) : Reaches step Allowed start state → Allowed state label →
      step state label = some next → Reaches step Allowed start next

variable {step : S → L → Option S} {Allowed : S → L → Prop}

theorem Reaches.invariant {start state : S} (Inv : S → Prop) (first : Inv start)
    (keeps : ∀ state label next, Inv state → Allowed state label →
      step state label = some next → Inv next) (reached : Reaches step Allowed start state) : Inv state := by
  induction reached with
  | start => exact first
  | step label _ allowed ran ih => exact keeps _ label _ ih allowed ran

theorem Reaches.trans {start middle state : S} (first : Reaches step Allowed start middle)
    (second : Reaches step Allowed middle state) : Reaches step Allowed start state := by
  induction second with
  | start => exact first
  | step label _ allowed ran ih => exact .step label ih allowed ran

def runAll (step : S → L → Option S) (start : S) (labels : List L) : Option S :=
  labels.foldlM step start

/-- Each step is allowed in the state that the steps before it lead to. -/
def AllAllowed (step : S → L → Option S) (Allowed : S → L → Prop) : S → List L → Prop
  | _, [] => True
  | state, label :: rest =>
    Allowed state label ∧ ∀ next, step state label = some next → AllAllowed step Allowed next rest

instance instDecidableAllAllowed [∀ state label, Decidable (Allowed state label)] :
    (start : S) → (labels : List L) → Decidable (AllAllowed step Allowed start labels)
  | _, [] => .isTrue trivial
  | start, label :: rest =>
    match ran : step start label with
    | none => decidable_of_iff (Allowed start label)
        ⟨fun allowed => ⟨allowed, fun next same => by cases ran.symm.trans same⟩, And.left⟩
    | some next =>
      have : Decidable (AllAllowed step Allowed next rest) := instDecidableAllAllowed next rest
      decidable_of_iff (Allowed start label ∧ AllAllowed step Allowed next rest)
        ⟨fun both => ⟨both.1, fun other same =>
            Option.some.inj (ran.symm.trans same) ▸ both.2⟩,
          fun both => ⟨both.1, both.2 next ran⟩⟩

theorem AllAllowed.weaken {Wider : S → L → Prop} {start : S} (labels : List L)
    (wider : ∀ state label, Allowed state label → Wider state label)
    (allowed : AllAllowed step Allowed start labels) : AllAllowed step Wider start labels := by
  induction labels generalizing start with
  | nil => trivial
  | cons label rest ih =>
    exact ⟨wider _ label allowed.1, fun next ran => ih (allowed.2 next ran)⟩

theorem runAll_cons (start : S) (label : L) (rest : List L) : runAll step start (label :: rest) =
      (step start label).bind (fun next => runAll step next rest) := rfl

theorem runAll_append (start : S) (first second : List L) : runAll step start (first ++ second) =
      (runAll step start first).bind (fun middle => runAll step middle second) := List.foldlM_append

theorem reaches_of_runAll {start state : S} (labels : List L) (allowed : AllAllowed step Allowed start labels)
    (ran : runAll step start labels = some state) : Reaches step Allowed start state := by
  induction labels generalizing start with
  | nil =>
    have same : start = state := by simpa [runAll] using ran
    exact same ▸ .start
  | cons label rest ih =>
    cases first : step start label with
    | none => simp [runAll_cons, first] at ran
    | some next =>
      rw [runAll_cons, first] at ran
      exact (Reaches.start.step label allowed.1 first).trans (ih (allowed.2 next first) ran)

theorem allAllowed_true (start : S) (labels : List L) : AllAllowed step (fun _ _ => True) start labels := by
  induction labels generalizing start with
  | nil => trivial
  | cons label rest ih => exact ⟨trivial, fun next _ => ih next⟩

theorem allAllowed_of_mem {start : S} {labels : List L} (each : ∀ label ∈ labels, ∀ state, Allowed state label) :
    AllAllowed step Allowed start labels := by
  induction labels generalizing start with
  | nil => trivial
  | cons label rest ih =>
    exact ⟨each label List.mem_cons_self start, fun next _ => ih fun other later =>
      each other (List.mem_cons_of_mem label later)⟩

/-- The property holds before and after every step of a run. -/
def Throughout (step : S → L → Option S) (P : S → Prop) : S → List L → Prop
  | state, [] => P state
  | state, label :: rest =>
    P state ∧ ∀ next, step state label = some next → Throughout step P next rest

theorem Throughout.start {P : S → Prop} {start : S} {labels : List L}
    (all : Throughout step P start labels) : P start := by
  cases labels with
  | nil => exact all
  | cons label rest => exact all.1

theorem Throughout.last {P : S → Prop} {start last : S} (labels : List L)
    (all : Throughout step P start labels) (ran : runAll step start labels = some last) : P last := by
  induction labels generalizing start with
  | nil =>
    have same : start = last := by simpa [runAll] using ran
    exact same ▸ all
  | cons label rest ih =>
    rw [runAll_cons] at ran
    have ⟨next, first, later⟩ := Option.bind_eq_some_iff.mp ran
    exact ih (all.2 next first) later

theorem Throughout.after {P : S → Prop} {start middle : S} (first : List L) {second : List L}
    (all : Throughout step P start (first ++ second)) (ran : runAll step start first = some middle) :
    Throughout step P middle second := by
  induction first generalizing start with
  | nil =>
    have same : start = middle := by simpa [runAll] using ran
    exact same ▸ all
  | cons label rest ih =>
    rw [runAll_cons] at ran
    have ⟨next, stepped, later⟩ := Option.bind_eq_some_iff.mp ran
    exact ih (all.2 next stepped) later

theorem Throughout.blocks {C : Type} {P : S → Prop} (parts : C → List L) {start : S} {blocks : List C}
    (all : Throughout step P start (blocks.flatMap parts)) :
    Throughout (fun state block => runAll step state (parts block)) P start blocks := by
  induction blocks generalizing start with
  | nil => exact all
  | cons block rest ih =>
    rw [List.flatMap_cons] at all
    exact ⟨all.start, fun next ran => ih (all.after (parts block) ran)⟩

/-- Allowed steps keep a property that an invariant of theirs gives. -/
theorem throughout_of {P Inv : S → Prop} (gives : ∀ state, Inv state → P state)
    (keeps : ∀ state label next, Inv state → Allowed state label →
      step state label = some next → Inv next) (start : S) (first : Inv start) (labels : List L)
    (allowed : AllAllowed step Allowed start labels) : Throughout step P start labels := by
  induction labels generalizing start with
  | nil => exact gives start first
  | cons label rest ih =>
    refine ⟨gives start first, fun next ran => ?_⟩
    exact ih next (keeps _ label _ first allowed.1 ran) (allowed.2 next ran)

/-- Allowed steps are exactly what keeps the property, in runs whose steps all meet a condition, when an
invariant that gives it is kept by the allowed steps and a step that keeps it is allowed. -/
theorem throughout_iff_of {P Inv : S → Prop} {Meets : S → L → Prop} (gives : ∀ state, Inv state → P state)
    (keeps : ∀ state label next, Inv state → Meets state label → Allowed state label →
      step state label = some next → Inv next)
    (needs : ∀ state label, Inv state → Meets state label →
      (∀ next, step state label = some next → P next) → Allowed state label)
    (start : S) (first : Inv start) (labels : List L) (meets : AllAllowed step Meets start labels) :
    Throughout step P start labels ↔ AllAllowed step Allowed start labels := by
  induction labels generalizing start with
  | nil => exact ⟨fun _ => trivial, fun _ => gives start first⟩
  | cons label rest ih =>
    constructor
    · intro all
      have allowed := needs start label first meets.1 (fun next ran => (all.2 next ran).start)
      refine ⟨allowed, fun next ran => ?_⟩
      exact (ih next (keeps _ label _ first meets.1 allowed ran) (meets.2 next ran)).mp (all.2 next ran)
    · intro allowed
      refine ⟨gives start first, fun next ran => ?_⟩
      exact (ih next (keeps _ label _ first meets.1 allowed.1 ran) (meets.2 next ran)).mpr (allowed.2 next ran)

theorem throughout_iff {P Inv : S → Prop} (gives : ∀ state, Inv state → P state)
    (keeps : ∀ state label next, Inv state → Allowed state label →
      step state label = some next → Inv next)
    (needs : ∀ state label, Inv state →
      (∀ next, step state label = some next → P next) → Allowed state label)
    (start : S) (first : Inv start) (labels : List L) :
    Throughout step P start labels ↔ AllAllowed step Allowed start labels :=
  throughout_iff_of gives (fun _ label _ inv _ => keeps _ label _ inv) (fun _ label inv _ => needs _ label inv)
    start first labels (allAllowed_true start labels)

end Run
