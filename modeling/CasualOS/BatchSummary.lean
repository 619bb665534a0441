import CasualOS.BatchCalls
import CasualOS.HashText

/-! The runs of calls that their difference sums up. -/

namespace CasualOS.BatchSummary

open Dll (Ref)
open BatchCalls BatchDiff CheckedWeave Run WeaveFrame WeaveHeap WeaveOutcome WeaveRead WeaveRepr

variable {T : Type} {getHash : AtomHashInput T → JsString} {w w' : Weave T}
variable {lists buffered lists' buffered' : List (List (Cell T))} {r : WeaveResult T}

/-! ### The loop in the next weave -/

theorem Away.stays {ref : Ref} (away : Away w lists buffered ref) (repr : Repr w' lists' buffered')
    (stays : Stays (InUse w lists buffered) w w') :
    Away w' lists' buffered' ref ∧ w'.atomsFrom ref = w.atomsFrom ref := by
  rcases away with ⟨start, rest, rfl, apart⟩
  have later := apart.stays repr stays
  exact ⟨⟨start, rest, rfl, later⟩, later.atomsFrom.trans apart.atomsFrom.symm⟩

theorem same_result (changes : Changes T) (same : ∀ ref, takenOut r = some ref → w'.atomsFrom ref = w.atomsFrom ref) :
    addResult w' changes r = addResult w changes r := by
  have removed : ∀ (changes : Changes T) (ref : Ref), takenOut r = some ref →
      removeRef w' changes ref = removeRef w changes ref := fun changes ref out => by
    rw [removeRef, removeRef, same ref out]
  cases r with
  | conflict winner loser ref =>
    cases ref with
    | none => rfl
    | some ref => exact removed _ ref rfl
  | atomRemoved ref => exact removed _ ref rfl
  | _ => rfl

theorem same_fold (results : List (WeaveResult T)) (changes : Changes T)
    (same : ∀ r ∈ results, ∀ ref, takenOut r = some ref → w'.atomsFrom ref = w.atomsFrom ref) :
    results.foldlM (addResult w') changes = results.foldlM (addResult w) changes := by
  induction results generalizing changes with
  | nil => rfl
  | cons r rest ih =>
    rw [List.foldlM_cons, List.foldlM_cons, same_result changes (same r List.mem_cons_self)]
    exact bind_congr (fun next => ih next (fun s inside => same s (List.mem_cons_of_mem _ inside)))

/-! ### The effect of a call on what is known -/

theorem silent_result (silent : Silent r) (changes : Changes T) :
    addResult w changes r = some changes ∧ stood [r] = [] ∧ isReleased r = false ∧ entered r = [] := by
  cases r <;> first | exact ⟨rfl, rfl, rfl, rfl⟩ | exact silent.elim

theorem stood_append (results : List (WeaveResult T)) (r : WeaveResult T) :
    stood (results ++ [r]) = stood results ++ stood [r] := List.filterMap_append

theorem turn_moves {new gone : List (Atom T)} (turn : Turn w w' r new gone) (changes : Changes T) (hash : JsString) :
    Moves (hash ∈ hashes w) (hash ∈ hashes w') (changes.Deletes hash)
      ((gone.foldl removeAtom (changes.push new)).Deletes hash) (changes.count hash)
      ((gone.foldl removeAtom (changes.push new)).count hash) := by
  rcases foldl_removeAtom gone turn.distinct (changes.push new) hash with ⟨counts, deletes⟩
  have same : (changes.push new).Deletes hash ↔ changes.Deletes hash := Iff.rfl
  rw [count_push] at counts deletes
  rw [same] at deletes
  have listed : hash ∈ gone.map Atom.hash → hash ∈ hashes w := by
    intro member
    rcases List.mem_map.mp member with ⟨a, inside, rfl⟩
    exact turn.listed a inside
  by_cases inNew : hash ∈ new.map Atom.hash
  · have out : hash ∉ hashes w := by
      rcases List.mem_map.mp inNew with ⟨a, inside, rfl⟩
      exact turn.fresh a inside
    have stays : hash ∉ gone.map Atom.hash := fun member => out (listed member)
    rw [if_neg stays, List.count_eq_one_of_mem turn.once inNew] at counts
    exact .entered out ((turn.now hash).mpr (.inl inNew)) (by simp [deletes, stays]) counts
  · rw [List.count_eq_zero.mpr inNew, Nat.add_zero] at counts deletes
    by_cases inGone : hash ∈ gone.map Atom.hash
    · rw [if_pos inGone] at counts
      exact .left (listed inGone) (by simp [turn.now, inNew, inGone]) (by simp [deletes, inGone]) counts
    · rw [if_neg inGone] at counts
      exact .kept (by simp [turn.now, inNew, inGone]) (by simp [deletes, inGone]) counts

/-! ### Every call -/

structure Inv (getHash : AtomHashInput T → JsString) (b : Batch T) (lists buffered : List (List (Cell T)))
    (changes : Changes T) : Prop where
  standing : Standing getHash b.weave lists buffered
  away : ∀ r ∈ b.results, ∀ ref, takenOut r = some ref → Away b.weave lists buffered ref
  folded : b.results.foldlM (addResult b.weave) noChanges = some changes
  ledger : ∀ hash, Ledger (hash ∈ hashes b.start) (hash ∈ hashes b.weave) (changes.Deletes hash)
    (hash ∈ stood b.results) (changes.count hash)

def Settled (getHash : AtomHashInput T → JsString) (b : Batch T) : Prop :=
  ∃ lists buffered changes, Inv getHash b lists buffered changes

def Batch.begin (w : Weave T) : Batch T where
  start := w
  weave := w
  results := []

def Batch.after (b : Batch T) (w : Weave T) (r : WeaveResult T) : Batch T :=
  { b with weave := w, results := b.results ++ [r] }

theorem step_cases {b next : Batch T} {call : Call T} (ran : step getHash b call = some next) :
    ∃ w r, perform getHash b.weave call = .ok (w, r) ∧ next = Batch.after b w r := by
  unfold step at ran
  split at ran
  · next w r performed => exact ⟨w, r, performed, (Option.some.inj ran).symm⟩
  · cases ran

theorem settled_exact (b : Batch T) (settled : Settled getHash b) : Exact b := by
  rcases settled with ⟨lists, buffered, changes, inv⟩
  exact (exact_iff b).mpr ⟨changes, inv.folded, fun hash => (inv.ledger hash).exact⟩

theorem settled_begin (standing : Standing getHash w lists buffered) : Settled getHash (Batch.begin w) := by
  refine ⟨lists, buffered, noChanges, standing, fun r member => absurd member List.not_mem_nil, rfl, fun hash => ?_⟩
  exact (ledger_start (hash ∈ hashes w)).congr Iff.rfl (by simp [Changes.Deletes, noChanges])
    (iff_false_intro List.not_mem_nil) rfl

section Steps

variable {b : Batch T} {changes : Changes T}

theorem Inv.carried (inv : Inv getHash b lists buffered changes)
    (done : Passage getHash b.weave lists buffered w' r lists' buffered') :
    (∀ s ∈ (Batch.after b w' r).results, ∀ ref, takenOut s = some ref → Away w' lists' buffered' ref) ∧
      (Batch.after b w' r).results.foldlM (addResult w') noChanges = addResult w' changes r := by
  have repr := done.standing.checked.repr
  constructor
  · intro s member ref out
    rcases List.mem_append.mp member with old | new
    · exact (Away.stays (inv.away s old ref out) repr done.stays).1
    · exact done.away ref (List.mem_singleton.mp new ▸ out)
  · have same := same_fold b.results noChanges (fun s old ref out =>
      (Away.stays (inv.away s old ref out) repr done.stays).2)
    rw [Batch.after, List.foldlM_append, same, inv.folded]
    exact bind_pure (addResult w' changes r)

theorem inv_after (inv : Inv getHash b lists buffered changes)
    (done : Passage getHash b.weave lists buffered w' r lists' buffered')
    (allowed : AllowedOutcome b (.ok (w', r))) : Settled getHash (Batch.after b w' r) := by
  rcases inv.carried done with ⟨away, folded⟩
  have settle : ∀ changes', addResult w' changes r = some changes' →
      (∀ hash, Ledger (hash ∈ hashes b.start) (hash ∈ hashes w') (changes'.Deletes hash)
        (hash ∈ stood (b.results ++ [r])) (changes'.count hash)) → Settled getHash (Batch.after b w' r) :=
    fun changes' result ledger => ⟨lists', buffered', changes', done.standing, away, folded.trans result, ledger⟩
  cases done.effect with
  | quiet silent same =>
    refine settle changes (silent_result silent changes).1 (fun hash => ?_)
    refine (inv.ledger hash).congr (same hash) Iff.rfl ?_ rfl
    rw [stood_append, (silent_result (w := w') silent changes).2.1, List.append_nil]
  | @stood old loser here same =>
    refine settle (changes.push [old]) rfl (fun hash => ?_)
    have members : hash ∈ stood (b.results ++ [.conflict old loser none]) ↔
        hash ∈ stood b.results ∨ hash = old.hash := by
      rw [stood_append, List.mem_append]
      exact or_congr_right List.mem_singleton
    by_cases own : hash = old.hash
    · subst own
      refine ((inv.ledger old.hash).stand here).congr (same _) Iff.rfl (by simp [members]) ?_
      simp [count_push]
    · refine (inv.ledger hash).congr (same hash) Iff.rfl (by simp [members, own]) ?_
      simp [count_push, Ne.symm own]
  | released more => cases allowed.1
  | @turned _ new gone turn =>
    refine settle _ (turn.result changes) (fun hash => ?_)
    have none : stood (b.results ++ [r]) = stood b.results := by
      rw [stood_append, turn.plain.2, List.append_nil]
    rw [none]
    refine (inv.ledger hash).move (turn_moves turn changes hash) (fun out here => ?_) (fun _ out won => ?_)
    · rcases (turn.now hash).mp here with inNew | old
      · rcases List.mem_map.mp inNew with ⟨a, inside, rfl⟩
        exact allowed.2.1 a (turn.told ▸ inside)
      · exact absurd old.1 out
    · exact out (allowed.2.2 hash won)

theorem allowed_of_exact (inv : Inv getHash b lists buffered changes)
    (done : Passage getHash b.weave lists buffered w' r lists' buffered')
    (exact : Exact (Batch.after b w' r)) : AllowedOutcome b (.ok (w', r)) := by
  rcases (exact_iff _).mp exact with ⟨changes', made, exactly⟩
  have result : addResult w' changes r = some changes' := (inv.carried done).2.symm.trans made
  have listed : ∀ hash ∈ stood b.results, hash ∈ hashes b.weave := fun hash won => (inv.ledger hash).listed won
  cases done.effect with
  | quiet silent same =>
    have plain := (silent_result (w := w') silent changes).2.2
    refine ⟨plain.1, fun a inside => ?_, fun hash won => (same hash).mpr (listed hash won)⟩
    rw [plain.2] at inside
    cases inside
  | stood here same =>
    exact ⟨rfl, fun a inside => absurd inside List.not_mem_nil, fun hash won => (same hash).mpr (listed hash won)⟩
  | released more =>
    -- the result changes nothing, but an atom is listed that was not
    rcases more with ⟨hash, here, out⟩
    have unchanged : changes = changes' := Option.some.inj result
    subst unchanged
    exact absurd ((inv.ledger hash).exact.2.mpr ((exactly hash).2.mp here)) out
  | @turned _ new gone turn =>
    have moved : gone.foldl removeAtom (changes.push new) = changes' :=
      Option.some.inj ((turn.result changes).symm.trans result)
    subst moved
    have needs : ∀ hash, _ := fun hash =>
      (inv.ledger hash).move_needs (turn_moves turn changes hash) (exactly hash)
    refine ⟨turn.plain.1, fun a inside => ?_, fun hash won => ?_⟩
    · rw [turn.told] at inside
      have here := (turn.now a.hash).mpr (.inl (List.mem_map_of_mem inside))
      exact (needs a.hash).1 (turn.fresh a inside) here
    · by_contra out
      exact (needs hash).2 (listed hash won) out won

end Steps

/-- In a run of safe calls the difference of the results so far is exact throughout if and only if no call
releases atoms, puts in an atom that was listed at the start, or takes out one that has won a conflict. -/
theorem difference_exact_iff (injective : Function.Injective getHash) {w : Weave T}
    (reached : BatchDiff.Reached getHash w) (calls : List (Call T))
    (safe : AllAllowed (step getHash) (fun b call => SafeCall getHash b.weave call) (Batch.begin w) calls) :
    Throughout (step getHash) Exact (Batch.begin w) calls ↔
      AllAllowed (step getHash) (Allowed getHash) (Batch.begin w) calls := by
  rcases reached_standing injective reached with ⟨lists, buffered, standing⟩
  refine throughout_iff_of settled_exact ?_ ?_ _ (settled_begin standing) calls safe
  · rintro b call next ⟨lists, buffered, changes, inv⟩ safe allowed ran
    rcases step_cases ran with ⟨w', r, performed, rfl⟩
    rcases passage injective inv.standing safe performed with ⟨lists', buffered', done⟩
    rw [Allowed, performed] at allowed
    exact inv_after inv done allowed
  · rintro b call ⟨lists, buffered, changes, inv⟩ safe exact
    rw [Allowed]
    cases performed : perform getHash b.weave call with
    | error failure => trivial
    | ok made =>
      rcases passage injective inv.standing safe performed with ⟨lists', buffered', done⟩
      refine allowed_of_exact inv done (exact _ ?_)
      simp only [step, performed]
      rfl

/-! ### Every weave that calls lead to -/

/-- The first atom is a root, the others have a cause and are newer. -/
def RootFirst (atoms : List (Atom T)) : Prop :=
  ∃ root rest, atoms = root :: rest ∧ root.cause = none ∧
    ∀ a ∈ rest, a.cause ≠ none ∧ root.id.timestamp < a.id.timestamp

theorem rootFirst_atoms (standing : Standing getHash w lists buffered) (l : List (Cell T)) (member : l ∈ lists) :
    RootFirst (atoms l) := by
  obtain ⟨root, rest, rfl⟩ := List.exists_cons_of_ne_nil (standing.checked.repr.filled l member)
  refine ⟨root.2, atoms rest, rfl, standing.checked.roots _ member root rfl, fun a inside => ?_⟩
  obtain ⟨c, inRest, rfl⟩ := List.mem_map.mp inside
  have under := under_root (standing.checked.listed _ member) c inRest
  exact ⟨under.2, under.1⟩

section Sample

open HashText

def sampleRoot : Atom Unit := newAtom unitHash (sampleId 1 .undefined) none ()

def sampleChild : Atom Unit := newAtom unitHash (sampleId 2 .undefined) (some sampleRoot) ()

def sampleBatch (calls : List (Call Unit)) : Batch Unit :=
  (runAll (step unitHash) (Batch.begin (Weave.new none)) calls).getD (Batch.begin (Weave.new none))

theorem rooted_reached : BatchDiff.Reached unitHash (sampleBatch [.insert sampleRoot]).weave :=
  .call (.insert sampleRoot) (.new none) (safe_of_unbuffered sampleRoot rfl rfl (by decide)) rfl

theorem rooted_facts : (sampleBatch [.insert sampleRoot]).weave.reorderBuffer.values = [] ∧
    (sampleBatch [.insert sampleRoot]).weave.getNode sampleChild.id = none := by
  decide +kernel

theorem sample_safe : AllAllowed (step unitHash) (fun b call => SafeCall unitHash b.weave call)
    (Batch.begin (Weave.new none)) [.insert sampleRoot, .insert sampleChild, .remove sampleRoot] := by
  refine ⟨safe_of_unbuffered sampleRoot rfl rfl (by decide), fun next ran => ⟨?_, fun _ _ => ⟨trivial, fun _ _ => trivial⟩⟩⟩
  have same : next = sampleBatch [.insert sampleRoot] := by
    rw [sampleBatch, runAll_cons, ran]
    rfl
  rw [same]
  exact safe_of_unbuffered sampleChild rooted_facts.1 rooted_facts.2 (by decide)

theorem removed_again : Throughout (step unitHash) Exact (Batch.begin (Weave.new none))
    [.insert sampleRoot, .insert sampleChild, .remove sampleRoot] :=
  (difference_exact_iff unitHash_injective (.new none) _ sample_safe).mpr (by decide +kernel)

/-- The child has waited for its root; when this is inserted both are listed and none is told. -/
theorem released_missed : ∃ b, runAll (step unitHash) (Batch.begin (Weave.new none))
    [.insert sampleChild, .insert sampleRoot] = some b ∧ ¬ Exact b := by
  have facts : (runAll (step unitHash) (Batch.begin (Weave.new none))
      [.insert sampleChild, .insert sampleRoot]).map (fun b =>
        (hashes b.start, hashes b.weave, (batchDiff b.weave b.results).map (fun diff => diff.additions.map Atom.hash))) =
      some ([], [sampleRoot.hash, sampleChild.hash], some []) := by
    decide +kernel
  obtain ⟨b, ran, read⟩ := Option.map_eq_some_iff.mp facts
  refine ⟨b, ran, ?_⟩
  rintro ⟨diff, made, _, _, listed⟩
  simp only [made, Option.map_some, Prod.mk.injEq, Option.some.injEq] at read
  obtain ⟨first, last, additions⟩ := read
  have told := (listed sampleRoot.hash).mp (by simp [last])
  simp [first, additions] at told

end Sample

end CasualOS.BatchSummary
