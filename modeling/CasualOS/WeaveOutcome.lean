import CasualOS.WeaveFrame

/-! What one insertion can answer, and what it has then done to the id map. -/

namespace CasualOS.WeaveOutcome

open Dll (Ref)
open WeaveFrame WeaveNodes WeaveRepr
open Option (some)

variable {T : Type} {w w' : Weave T} {a : Atom T}

/-- The answers with which nothing is listed and nothing taken out. -/
def Silent : WeaveResult T → Prop
  | .atomAlreadyAdded _ => True
  | .causeNotFound _ _ => True
  | .hashFailed _ => True
  | .invalidTimestamp _ => True
  | .atomNotFound _ => True
  | .invalidCardinality _ => True
  | .cardinalityViolated _ => True
  | .nothingHappened => True
  | _ => False

/-- The node `n` of the new atom has been made, at the roots or under the node of its cause. -/
inductive Placed (w : Weave T) (a : Atom T) (mid w' : Weave T) : Prop where
  | root (noCause : a.cause = none) (made : w' = (mid.addRoot a).1)
  | under {cause : AtomId} {node : Ref} (caused : a.cause = some cause) (found : w.getNode cause = some node)
      (made : (mid.insertUnder node a false).map Prod.fst = .ok w')

inductive Outcome (w : Weave T) (a : Atom T) (w' : Weave T) : WeaveResult T → Prop where
  | silent {r : WeaveResult T} (ids : w'.idMap = w.idMap) (silent : Silent r) : Outcome w a w' r
  /-- The listed atom wins. -/
  | stood {e : Ref} {old : Atom T} (here : w.getNode a.id = some e) (atom : w.atomAt e = some old)
      (same : w' = w) : Outcome w a w' (.conflict old a none)
  | joined {n : Ref} (new : w.getNode a.id = none) (ids : w'.idMap = w.idMap.set (atomIdToString a.id) n)
      (atom : w'.atomAt n = some a) : Outcome w a w' (.atomAdded a)
  /-- Atoms that waited for the new one are listed too. -/
  | released {atoms : List (Atom T)} (new : w.getNode a.id = none) (known : w'.getNode a.id ≠ none) :
      Outcome w a w' (.atomsAdded atoms)
  /-- The new atom wins. -/
  | replaced {e n : Ref} {old : Atom T} {mid : Weave T} (here : w.getNode a.id = some e)
      (atom : w.atomAt e = some old) (differs : old.hash ≠ a.hash) (smaller : ¬ old.hash < a.hash)
      (removed : w.removeNode e = .ok mid) (placed : Placed w a mid w')
      (ids : w'.idMap = mid.idMap.set (atomIdToString a.id) n) (found : w'.atomAt n = some a) :
      Outcome w a w' (.conflict a old (some e))

/-! ### The id map -/

theorem addNodeToMaps_ids (node : Ref) (found : w.atomAt node = some a) :
    (w.addNodeToMaps node false).idMap = w.idMap.set (atomIdToString a.id) node ∧
      (w.addNodeToMaps node false).atomAt node = some a := by
  rw [addNodeToMaps_listed w node a found]
  exact ⟨rfl, found⟩

theorem addRoot_ids (w : Weave T) (a : Atom T) :
    (w.addRoot a).1.idMap = w.idMap.set (atomIdToString a.id) w.nodes.length ∧
      (w.addRoot a).1.atomAt w.nodes.length = some a := by
  exact addNodeToMaps_ids w.nodes.length ((Dll.valAt_alloc w.nodes a none none _).trans (if_pos rfl))

theorem insertUnder_ids {cause : Ref} {made : Weave T × Ref} (ran : w.insertUnder cause a false = .ok made) :
    made.1.idMap = w.idMap.set (atomIdToString a.id) w.nodes.length ∧
      made.1.atomAt w.nodes.length = some a := by
  rcases ok_of_bind _ _ _ ran with ⟨position, _, last⟩
  cases position with
  | before node =>
    rw [← Except.ok.inj last]
    exact addNodeToMaps_ids w.nodes.length ((Dll.valAt_insertBefore ..).trans (if_pos rfl))
  | after found =>
    rw [← Except.ok.inj last]
    exact addNodeToMaps_ids w.nodes.length ((Dll.valAt_insertAfter ..).trans (if_pos rfl))

theorem insertNodeUnder_ids {cause start stop : Ref} (ran : w.insertNodeUnder cause start stop = .ok w') :
    w'.idMap = w.idMap := by
  unfold Weave.insertNodeUnder at ran
  split at ran
  · rcases ok_of_bind _ _ _ ran with ⟨position, _, last⟩
    cases position with
    | before node => exact Except.ok.inj last ▸ rfl
    | after found => exact Except.ok.inj last ▸ rfl
  · exact Except.ok.inj ran ▸ rfl

/-- No id is lost. -/
def Keeps (w w' : Weave T) : Prop := ∀ key, w.idMap.get key ≠ none → w'.idMap.get key ≠ none

theorem keeps_foldl {step : Weave T → Ref → Weave T} (keeps : ∀ w n, Keeps w (step w n)) (nodes : List Ref)
    (w : Weave T) : Keeps w (nodes.foldl step w) := by
  induction nodes generalizing w with
  | nil => exact fun _ known => known
  | cons n rest ih => exact fun key known => ih _ key (keeps w n key known)

theorem keeps_moved (w : Weave T) (n : Ref) : Keeps w ((w.removeNodeIdFromMaps n true).addNodeToMaps n false) := by
  have same : (w.removeNodeIdFromMaps n true).idMap = w.idMap := by
    unfold Weave.removeNodeIdFromMaps
    split <;> rfl
  intro key known
  unfold Weave.addNodeToMaps
  split
  · simp only [Bool.false_eq_true, if_false, OrderedMap.get_set, same]
    split
    · exact Option.some_ne_none _
    · exact known
  · rw [same]
    exact known

theorem keeps_addMissingChild {atomNode node : Ref} (ran : w.addMissingChild atomNode node false = .ok w') :
    Keeps w w' := by
  rcases ok_of_bind _ _ _ ran with ⟨list, _, last⟩
  intro key known
  rw [insertNodeUnder_ids last]
  exact keeps_foldl keeps_moved list w key known

theorem keeps_addMissingChildren {atomNode : Ref} {made : Weave T × Bool}
    (ran : w.addMissingChildren atomNode false = .ok made) : Keeps w made.1 := by
  rcases ok_of_bind _ _ _ ran with ⟨mid, moved, last⟩
  rw [← Except.ok.inj last]
  clear last ran
  generalize w.reorderBuffer.values.filter (w.isMissingChild atomNode) = children at moved
  induction children generalizing w with
  | nil => exact Except.ok.inj moved ▸ fun _ known => known
  | cons n rest ih =>
    rw [List.foldlM_cons] at moved
    rcases ok_of_bind _ _ _ moved with ⟨next, first, later⟩
    exact fun key known => ih later key (keeps_addMissingChild first key known)

theorem ids_addMissingChildren {atomNode : Ref} {made : Weave T × Bool}
    (ran : w.addMissingChildren atomNode true = .ok made) : made.1.idMap = w.idMap := by
  rcases ok_of_bind _ _ _ ran with ⟨mid, moved, last⟩
  rw [← Except.ok.inj last]
  clear last ran
  generalize w.reorderBuffer.values.filter (w.isMissingChild atomNode) = children at moved
  induction children generalizing w with
  | nil => exact Except.ok.inj moved ▸ rfl
  | cons n rest ih =>
    rw [List.foldlM_cons] at moved
    rcases ok_of_bind _ _ _ moved with ⟨next, first, later⟩
    rcases ok_of_bind _ _ _ first with ⟨list, _, linked⟩
    exact (ih later).trans (insertNodeUnder_ids linked)

/-! ### The branches -/

theorem outcome_released {mid : Weave T} {n : Ref} {r : WeaveResult T} (new : w.getNode a.id = none)
    (ids : mid.idMap = w.idMap.set (atomIdToString a.id) n) (atom : mid.atomAt n = some a)
    (ran : mid.releaseMissing n a = .ok (w', r)) : Outcome w a w' r := by
  have known : mid.idMap.get (atomIdToString a.id) ≠ none := by
    rw [ids, OrderedMap.get_set, if_pos rfl]
    exact Option.some_ne_none _
  unfold Weave.releaseMissing at ran
  split at ran
  · rcases ok_of_bind _ _ _ ran with ⟨made, moved, last⟩
    have kept := keeps_addMissingChildren moved
    simp only at last
    split at last
    · rcases ok_of_bind _ _ _ last with ⟨group, _, final⟩
      have final := Prod.mk.inj (Except.ok.inj final)
      rw [← final.1, ← final.2]
      exact .released new (kept _ known)
    · next nobody =>
        rcases ok_of_bind _ _ _ moved with ⟨after, loop, same⟩
        have answer := Except.ok.inj same
        have nothing : mid.reorderBuffer.values.filter (mid.isMissingChild n) = [] := by
          rw [← answer] at nobody
          simpa using nobody
        rw [nothing] at loop
        have unchanged : mid = made.1 := by
          rw [← answer]
          exact Except.ok.inj loop
        have final := Prod.mk.inj (Except.ok.inj last)
        rw [← final.2, ← final.1, ← unchanged]
        exact .joined new ids atom
  · have final := Prod.mk.inj (Except.ok.inj ran)
    rw [← final.1, ← final.2]
    exact .joined new ids atom

/-- Where the new atom goes: to the roots, or under the node that its cause has. -/
def Goes (w : Weave T) (a : Atom T) : Option Ref → Prop
  | none => a.cause = none
  | some node => ∃ cause, a.cause = some cause ∧ w.getNode cause = some node

theorem outcome_resolved {e : Ref} {causeNode : Option Ref} {r : WeaveResult T}
    (here : w.getNode a.id = some e) (goes : Goes w a causeNode)
    (ran : w.resolveConflict e a causeNode = .ok (w', r)) : Outcome w a w' r := by
  unfold Weave.resolveConflict at ran
  split at ran
  · next old atom =>
      split at ran
      · next differs =>
          split at ran
          · have final := Prod.mk.inj (Except.ok.inj ran)
            rw [← final.2]
            exact .stood here atom final.1.symm
          · next smaller =>
              rcases ok_of_bind _ _ _ ran with ⟨mid, removed, later⟩
              cases causeNode with
              | none =>
                rcases ok_of_bind _ _ _ later with ⟨grown, second, last⟩
                have final := Prod.mk.inj (Except.ok.inj last)
                rw [← final.2, ← final.1, ← Except.ok.inj second]
                have ids := addRoot_ids mid a
                exact .replaced here atom differs smaller removed (.root goes rfl) ids.1 ids.2
              | some node =>
                rcases ok_of_bind _ _ _ later with ⟨grown, second, last⟩
                have final := Prod.mk.inj (Except.ok.inj last)
                rcases goes with ⟨cause, caused, found⟩
                have placed : Placed w a mid grown := .under caused found second
                cases put : mid.insertUnder node a false with
                | error failure =>
                  rw [put] at second
                  cases second
                | ok made =>
                  rw [put] at second
                  have ids := insertUnder_ids put
                  rw [show made.1 = grown from Except.ok.inj second] at ids
                  rw [← final.2, ← final.1]
                  exact .replaced here atom differs smaller removed placed ids.1 ids.2
      · have final := Prod.mk.inj (Except.ok.inj ran)
        rw [← final.2, ← final.1]
        exact .silent rfl trivial
  · have final := Prod.mk.inj (Except.ok.inj ran)
    rw [← final.2, ← final.1]
    exact .silent rfl trivial

variable {getHash : AtomHashInput T → JsString} {r : WeaveResult T}

theorem silent_rejection {cause : Atom T} {rejection : WeaveResult T}
    (rejected : Weave.checkCause getHash a cause = some rejection) : Silent rejection := by
  unfold Weave.checkCause at rejected
  split at rejected
  · exact some.inj rejected ▸ trivial
  · split at rejected
    · exact some.inj rejected ▸ trivial
    · cases rejected

theorem outcome_checkedRoot (noCause : a.cause = none) (ran : insertCheckedRoot w a = .ok (w', r)) :
    Outcome w a w' r := by
  unfold insertCheckedRoot at ran
  split at ran
  · next e here => exact @outcome_resolved _ _ _ _ e none _ here noCause ran
  · next new =>
      split at ran
      · have final := Prod.mk.inj (Except.ok.inj ran)
        rw [← final.2, ← final.1]
        exact .silent rfl trivial
      · next counted bumped =>
          have same : counted.idMap = w.idMap := by
            unfold Weave.countCardinality at bumped
            split at bumped
            · exact some.inj bumped ▸ rfl
            · simp only at bumped
              split at bumped
              · split at bumped
                · cases bumped
                · exact some.inj bumped ▸ rfl
              · exact some.inj bumped ▸ rfl
          have ids := addRoot_ids counted a
          exact outcome_released new (same ▸ ids.1) ids.2 ran

theorem outcome_root (noCause : a.cause = none) (ran : w.insertRoot getHash a = .ok (w', r)) : Outcome w a w' r := by
  unfold Weave.insertRoot at ran
  split at ran
  · have final := Prod.mk.inj (Except.ok.inj ran)
    rw [← final.2, ← final.1]
    exact .silent rfl trivial
  · simp only at ran
    split at ran
    · exact outcome_checkedRoot noCause ran
    · cases ran
    · split at ran
      · have final := Prod.mk.inj (Except.ok.inj ran)
        rw [← final.2, ← final.1]
        exact .silent rfl trivial
      · exact outcome_checkedRoot noCause ran

theorem missing_silent {cause : AtomId} (ran : w.insertMissing getHash a cause = .ok (w', r)) :
    w'.idMap = w.idMap ∧ Silent r := by
  have buffered : (w.addToReorderBuffer a).1.idMap = w.idMap := by
    simp only [Weave.addToReorderBuffer, Weave.addNodeToMaps]
    split <;> rfl
  unfold Weave.insertMissing at ran
  split at ran
  · have final := Prod.mk.inj (Except.ok.inj ran)
    rw [← final.2, ← final.1]
    exact ⟨rfl, trivial⟩
  · simp only at ran
    split at ran
    · next rejection rejected =>
        have final := Prod.mk.inj (Except.ok.inj ran)
        rcases Option.bind_eq_some_iff.mp rejected with ⟨c, _, check⟩
        rw [← final.2, ← final.1]
        exact ⟨rfl, silent_rejection check⟩
    · split at ran
      · rcases ok_of_bind _ _ _ ran with ⟨linked, first, later⟩
        rcases ok_of_bind _ _ _ later with ⟨waited, second, last⟩
        have final := Prod.mk.inj (Except.ok.inj last)
        rw [← final.2]
        refine ⟨?_, trivial⟩
        rw [← final.1, ids_addMissingChildren second, insertNodeUnder_ids first, buffered]
      · rcases ok_of_bind _ _ _ ran with ⟨linked, first, later⟩
        rcases ok_of_bind _ _ _ later with ⟨waited, second, last⟩
        have final := Prod.mk.inj (Except.ok.inj last)
        rw [← final.2]
        refine ⟨?_, trivial⟩
        rw [← final.1, ids_addMissingChildren second, ← Except.ok.inj first, buffered]

theorem outcome_child {cause : AtomId} {node : Ref} (caused : a.cause = some cause)
    (found : w.getNode cause = some node) (ran : w.insertChild getHash a node = .ok (w', r)) :
    Outcome w a w' r := by
  unfold Weave.insertChild at ran
  split at ran
  · next rejection rejected =>
      have final := Prod.mk.inj (Except.ok.inj ran)
      rcases Option.bind_eq_some_iff.mp rejected with ⟨c, _, check⟩
      rw [← final.2, ← final.1]
      exact .silent rfl (silent_rejection check)
  · split at ran
    · next e here => exact @outcome_resolved _ _ _ _ e (some node) _ here ⟨cause, caused, found⟩ ran
    · next new =>
        rcases ok_of_bind _ _ _ ran with ⟨placed, first, later⟩
        have ids := insertUnder_ids first
        have released : placed.1.releaseMissing placed.2 a = .ok (w', r) := later
        rw [insertUnder_node first] at released
        exact outcome_released new ids.1 ids.2 released

/-- Every way that an insertion can end. -/
theorem insert_outcome (ran : w.insert getHash a = .ok (w', r)) : Outcome w a w' r := by
  unfold Weave.insert at ran
  split at ran
  · next noCause => exact outcome_root noCause ran
  · next cause caused =>
      split at ran
      · have quiet := missing_silent ran
        exact .silent quiet.1 quiet.2
      · next node found => exact outcome_child caused found ran

end CasualOS.WeaveOutcome
