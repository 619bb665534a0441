import CasualOS.CausalTree2
import CasualOS.CheckedWeave
import CasualOS.Lib.Run
import CasualOS.WeaveNodes

/-! The clocks of a causal tree stay ahead of its listed atoms. -/

namespace CasualOS.SiteClocks

open CausalTree CheckedWeave HashText Run Supported WeaveHeap WeaveNodes WeaveRead WeaveRepr
open JsString (lit)

variable {T : Type}

/-! ### Times -/

theorem le_foldl_max (f : Atom T → Int) (added : List (Atom T)) (base : Int) :
    base ≤ added.foldl (fun time a => max time (f a)) base := by
  induction added generalizing base with
  | nil => exact le_rfl
  | cons a rest ih => exact (le_max_left base (f a)).trans (ih _)

theorem member_le_foldl_max (f : Atom T → Int) (added : List (Atom T)) (base : Int) (a : Atom T)
    (member : a ∈ added) : f a ≤ added.foldl (fun time a => max time (f a)) base := by
  induction added generalizing base with
  | nil => cases member
  | cons b rest ih =>
    rcases List.mem_cons.mp member with here | later
    · subst here
      exact (le_max_right base (f a)).trans (le_foldl_max f rest _)
    · exact ih _ later

theorem time_le (site : SiteStatus) (a : Atom T) : site.time ≤ calculateTime site a := by
  unfold calculateTime calculateTimeFromId
  split <;> omega

theorem timestamp_le (site : SiteStatus) (a : Atom T) : a.id.timestamp ≤ calculateTime site a := by
  unfold calculateTime calculateTimeFromId
  split <;> omega

section Updates

variable (site : SiteStatus) (r : WeaveResult T)

theorem updateSite_id : (updateSite site r).id = site.id := by
  unfold updateSite
  split <;> rfl

/-- An array of no atoms would set the clock back to -1. -/
theorem updateSite_time (filled : r ≠ .atomsAdded []) : site.time ≤ (updateSite site r).time := by
  cases r with
  | atomsAdded added =>
    cases added with
    | nil => exact absurd rfl filled
    | cons a rest =>
      have first := member_le_foldl_max (calculateTime site) (a :: rest) (-1) a List.mem_cons_self
      exact (time_le site a).trans first
  | atomAdded a => exact time_le site a
  | conflict winner loser ref => exact time_le site winner
  | _ => exact le_rfl

theorem updateSite_covers (a : Atom T) (member : a ∈ addedWeaveAtoms r) :
    a.id.timestamp ≤ (updateSite site r).time := by
  cases r with
  | atomsAdded added =>
    exact (timestamp_le site a).trans (member_le_foldl_max (calculateTime site) added (-1) a member)
  | atomAdded b => exact List.mem_singleton.mp member ▸ timestamp_le site a
  | conflict winner loser ref => exact List.mem_singleton.mp member ▸ timestamp_le site a
  | _ => cases member

end Updates

/-! ### Version vectors -/

/-- The version vector has reached the atom. -/
def Counts (version : OrderedMap JsString Int) (a : Atom T) : Prop :=
  ∃ time, version.get a.id.site = some time ∧ a.id.timestamp ≤ time

section Vectors

variable {version : OrderedMap JsString Int} {a : Atom T}

theorem counts_countAtom (added : Atom T) (counted : a = added ∨ Counts version a) :
    Counts (countAtom version added) a := by
  unfold Counts countAtom
  rw [OrderedMap.get_set]
  by_cases same : a.id.site = added.id.site
  · rw [if_pos same]
    refine ⟨_, rfl, ?_⟩
    rcases counted with here | ⟨time, found, reached⟩
    · exact here ▸ le_max_left _ _
    · rw [← same, found]
      exact reached.trans (le_max_right _ _)
  · rw [if_neg same]
    rcases counted with here | before
    · exact absurd (here ▸ rfl) same
    · exact before

theorem counts_all (added : List (Atom T)) (counted : a ∈ added ∨ Counts version a) :
    Counts (added.foldl countAtom version) a := by
  induction added generalizing version with
  | nil => exact counted.resolve_left List.not_mem_nil
  | cons b rest ih =>
    apply ih
    rcases counted with member | before
    · rcases List.mem_cons.mp member with here | later
      · exact .inr (counts_countAtom b (.inl here))
      · exact .inl later
    · exact .inr (counts_countAtom b (.inr before))

end Vectors

/-! ### The loop over the added atoms -/

section Noted

variable (tree : CausalTree T) (added : List (Atom T))

theorem noted_weave : (added.foldl noteAdded tree).weave = tree.weave := by
  induction added generalizing tree with
  | nil => rfl
  | cons a rest ih => exact ih _

theorem noted_remote : (added.foldl noteAdded tree).remoteSite = tree.remoteSite := by
  induction added generalizing tree with
  | nil => rfl
  | cons a rest ih => exact ih _

theorem noted_id : (added.foldl noteAdded tree).site.id = tree.site.id := by
  induction added generalizing tree with
  | nil => rfl
  | cons a rest ih => exact ih _

theorem noted_version : (added.foldl noteAdded tree).version = added.foldl countAtom tree.version := by
  induction added generalizing tree with
  | nil => rfl
  | cons a rest ih => exact ih _

theorem noted_time : tree.site.time ≤ (added.foldl noteAdded tree).site.time := by
  induction added generalizing tree with
  | nil => exact le_rfl
  | cons a rest ih => exact (time_le tree.site a).trans (ih (noteAdded tree a))

theorem noted_covers (a : Atom T) (member : a ∈ added) : a.id.timestamp ≤ (added.foldl noteAdded tree).site.time := by
  induction added generalizing tree with
  | nil => cases member
  | cons b rest ih =>
    rcases List.mem_cons.mp member with here | later
    · subst here
      exact (timestamp_le tree.site a).trans (noted_time (noteAdded tree a) rest)
    · exact ih (noteAdded tree b) later

end Noted

variable {getHash : AtomHashInput T → JsString} {w : Weave T}
variable {lists buffered : List (List (Cell T))}

/-! ### The invariant -/

/-- Both clocks and the version vector have reached the atom. -/
structure Known (tree : CausalTree T) (a : Atom T) : Prop where
  site : a.id.timestamp ≤ tree.site.time
  remote : ∀ remote, tree.remoteSite = some remote → a.id.timestamp ≤ remote.time
  version : Counts tree.version a

structure Ahead (getHash : AtomHashInput T → JsString) (tree : CausalTree T)
    (lists buffered : List (List (Cell T))) : Prop where
  checked : Checked getHash Older tree.weave lists buffered
  known : ∀ d ∈ lists.flatten, Known tree d.2

/-- The sites are still there, and no clock has gone back. -/
structure Follows (before after : CausalTree T) : Prop where
  id : after.site.id = before.site.id
  time : before.site.time ≤ after.site.time
  remote : ∀ old, before.remoteSite = some old → ∃ new, after.remoteSite = some new ∧
    new.id = old.id ∧ old.time ≤ new.time

theorem Follows.refl (tree : CausalTree T) : Follows tree tree :=
  ⟨rfl, le_rfl, fun old found => ⟨old, found, rfl, le_rfl⟩⟩

theorem follows_weave (tree : CausalTree T) (weave : Weave T) : Follows tree { tree with weave := weave } :=
  ⟨rfl, le_rfl, fun old found => ⟨old, found, rfl, le_rfl⟩⟩

theorem Follows.trans {first second third : CausalTree T} (before : Follows first second)
    (after : Follows second third) : Follows first third where
  id := after.id.trans before.id
  time := before.time.trans after.time
  remote old found := by
    rcases before.remote old found with ⟨mid, foundMid, sameMid, grownMid⟩
    rcases after.remote mid foundMid with ⟨new, foundNew, sameNew, grownNew⟩
    exact ⟨new, foundNew, sameNew.trans sameMid, grownMid.trans grownNew⟩

/-! ### The steps that the clocks keep up with -/

section Conditions

variable (getHash : AtomHashInput T → JsString)

structure SafeInsert (w : Weave T) (a : Atom T) : Prop where
  safe : Safe getHash w a
  defined : a.cause = none → a.id.cardinality ≠ .null

/-- The clock of the remote site, which `insertAtoms` leaves alone, has reached what it lists. -/
def RemoteKnows (tree : CausalTree T) (a : Atom T) : Prop :=
  ∀ remote, tree.remoteSite = some remote → ∀ b, Arrives getHash tree.weave a b →
    b.id.timestamp ≤ remote.time

def SafeAtoms : CausalTree T → List (Atom T) → Prop
  | _, [] => True
  | tree, a :: rest => SafeInsert getHash tree.weave a ∧ RemoteKnows getHash tree a ∧
      ∀ next, tree.insertOne getHash a = .ok next → SafeAtoms next rest

def SafeEdit (tree : CausalTree T) : Edit T → Prop
  | .insertAtoms atoms => SafeAtoms getHash tree atoms
  | .removeAtoms _ => True
  | .addAtom cause op priority cardinality remote =>
    SafeInsert getHash tree.weave (tree.nextAtom getHash cause op priority cardinality remote)
  | .insertAtom atom => SafeInsert getHash tree.weave atom
  | .removeAtom hash =>
    tree.remoteSite = none ∨ (tree.weave.getNodeByHash hash).bind tree.weave.atomAt ≠ none

end Conditions

section Steps

variable {tree : CausalTree T}

theorem insertOne_ahead (ahead : Ahead getHash tree lists buffered) (a : Atom T)
    (safe : SafeInsert getHash tree.weave a) (knows : RemoteKnows getHash tree a) :
    ∃ next lists' buffered', tree.insertOne getHash a = .ok next ∧
      Ahead getHash next lists' buffered' ∧ Follows tree next := by
  rcases ahead.checked.insert older_orders a safe.safe (fun _ => cuts_older ahead.checked a)
    safe.defined with ⟨w', r, lists', buffered', run, held, _, _, grown⟩
  let grew : CausalTree T := { tree with weave := w' }
  have weave := noted_weave grew (addedWeaveAtoms r)
  have remote := noted_remote grew (addedWeaveAtoms r)
  have version := noted_version grew (addedWeaveAtoms r)
  have time := noted_time grew (addedWeaveAtoms r)
  refine ⟨(addedWeaveAtoms r).foldl noteAdded grew, lists', buffered', ?_, ⟨?_, ?_⟩, ?_⟩
  · simp only [insertOne, run, bind, Except.bind, pure, Except.pure]
    rfl
  · rw [weave]
    exact held
  · intro d inside
    rcases grown d inside with old | ⟨added, arrives⟩
    · have known := ahead.known d old
      refine ⟨known.site.trans time, fun site found => ?_, ?_⟩
      · exact known.remote site (remote.symm.trans found)
      · rw [version]
        exact counts_all _ (.inr known.version)
    · refine ⟨noted_covers grew _ d.2 added, fun site found => ?_, ?_⟩
      · exact knows site (remote.symm.trans found) d.2 arrives
      · rw [version]
        exact counts_all _ (.inl added)
  · refine ⟨noted_id grew _, time, fun old found => ⟨old, ?_, rfl, le_rfl⟩⟩
    rw [remote]
    exact found

theorem insertAtoms_ahead (ahead : Ahead getHash tree lists buffered) (atoms : List (Atom T))
    (safe : SafeAtoms getHash tree atoms) :
    ∃ next lists' buffered', tree.insertAtoms getHash atoms = .ok next ∧
      Ahead getHash next lists' buffered' ∧ Follows tree next := by
  induction atoms generalizing tree lists buffered with
  | nil => exact ⟨tree, lists, buffered, rfl, ahead, Follows.refl tree⟩
  | cons a rest ih =>
    rcases safe with ⟨here, knows, later⟩
    rcases insertOne_ahead ahead a here knows with ⟨mid, lists', buffered', run, held, grown⟩
    rcases ih held (later mid run) with ⟨next, last, buffered'', run', held', grown'⟩
    refine ⟨next, last, buffered'', ?_, held', grown.trans grown'⟩
    simp only [insertAtoms, List.foldlM_cons, run, bind, Except.bind]
    exact run'

theorem removeOne_ahead (ahead : Ahead getHash tree lists buffered) (hash : JsString) :
    ∃ next lists', tree.removeOne hash = .ok next ∧ Ahead getHash next lists' buffered ∧ Follows tree next := by
  cases found : (tree.weave.getNodeByHash hash).bind tree.weave.atomAt with
  | none =>
    refine ⟨tree, lists, ?_, ahead, Follows.refl tree⟩
    simp [removeOne, found, pure, Except.pure]
  | some a =>
    rcases remove_checked ahead.checked a with ⟨w', r, lists', run, held, _, kept⟩
    refine ⟨{ tree with weave := w' }, lists', ?_, ⟨held, fun d inside => ?_⟩, follows_weave tree w'⟩
    · simp [removeOne, found, run, bind, Except.bind, pure, Except.pure]
    · have known := ahead.known d (kept d inside)
      exact ⟨known.site, known.remote, known.version⟩

theorem removeAtoms_ahead (ahead : Ahead getHash tree lists buffered) (hashes : List JsString) :
    ∃ next lists', tree.removeAtoms hashes = .ok next ∧ Ahead getHash next lists' buffered ∧ Follows tree next := by
  induction hashes generalizing tree lists with
  | nil => exact ⟨tree, lists, rfl, ahead, Follows.refl tree⟩
  | cons hash rest ih =>
    rcases removeOne_ahead ahead hash with ⟨mid, lists', run, held, grown⟩
    rcases ih held with ⟨next, last, run', held', grown'⟩
    refine ⟨next, last, ?_, held', grown.trans grown'⟩
    simp only [removeAtoms, List.foldlM_cons, run, bind, Except.bind]
    exact run'

theorem insertAtom_ahead (ahead : Ahead getHash tree lists buffered) (a : Atom T)
    (safe : SafeInsert getHash tree.weave a) :
    ∃ made lists' buffered', tree.insertAtom getHash a = .ok made ∧
      Ahead getHash (applied made) lists' buffered' ∧ Follows tree (applied made) := by
  rcases ahead.checked.insert older_orders a safe.safe (fun _ => cuts_older ahead.checked a)
    safe.defined with ⟨w', r, lists', buffered', run, held, filled, _, grown⟩
  let result : TreeResult T :=
    { results := [r]
      newSite := updateSite tree.site r
      newRemoteSite := tree.remoteSite.map (fun site => updateSite site r) }
  refine ⟨({ tree with weave := w' }, result), lists', buffered', ?_, ⟨held, fun d inside => ?_⟩, ?_⟩
  · simp only [insertAtom, run, bind, Except.bind, pure, Except.pure]
    rfl
  · have version : Counts tree.version d.2 ∨ d.2 ∈ addedWeaveAtoms r →
        Counts (([r].flatMap addedWeaveAtoms).foldl countAtom tree.version) d.2 := by
      intro counted
      apply counts_all
      simpa using counted.symm
    rcases grown d inside with old | ⟨added, _⟩
    · have known := ahead.known d old
      refine ⟨known.site.trans (updateSite_time tree.site r filled), fun site found => ?_, version (.inl known.version)⟩
      rcases Option.map_eq_some_iff.mp found with ⟨before, foundBefore, rfl⟩
      exact (known.remote before foundBefore).trans (updateSite_time before r filled)
    · refine ⟨updateSite_covers tree.site r d.2 added, fun site found => ?_, version (.inr added)⟩
      rcases Option.map_eq_some_iff.mp found with ⟨before, _, rfl⟩
      exact updateSite_covers before r d.2 added
  · refine ⟨updateSite_id tree.site r, updateSite_time tree.site r filled, fun old found => ?_⟩
    refine ⟨updateSite old r, ?_, updateSite_id old r, updateSite_time old r filled⟩
    simp [applied, applyResult, result, found]

theorem removeAtom_ahead (ahead : Ahead getHash tree lists buffered) (hash : JsString)
    (present : tree.remoteSite = none ∨
      (tree.weave.getNodeByHash hash).bind tree.weave.atomAt ≠ none) :
    ∃ made lists', tree.removeAtom hash = .ok made ∧ Ahead getHash (applied made) lists' buffered ∧
      Follows tree (applied made) := by
  cases found : (tree.weave.getNodeByHash hash).bind tree.weave.atomAt with
  | none =>
    have alone : tree.remoteSite = none := present.resolve_right (fun other => other found)
    let result : TreeResult T := { results := [], newSite := tree.site, newRemoteSite := none }
    refine ⟨(tree, result), lists, ?_, ⟨ahead.checked, fun d inside => ?_⟩, ⟨rfl, le_rfl, ?_⟩⟩
    · simp only [removeAtom, found, pure, Except.pure]
      rfl
    · have known := ahead.known d inside
      exact ⟨known.site, nofun, known.version⟩
    · intro old site
      rw [alone] at site
      cases site
  | some a =>
    rcases remove_checked ahead.checked a with ⟨w', r, lists', run, held, none, kept⟩
    let result : TreeResult T :=
      { results := [r], newSite := tree.site, newRemoteSite := tree.remoteSite }
    refine ⟨({ tree with weave := w' }, result), lists', ?_, ⟨held, fun d inside => ?_⟩, ?_⟩
    · simp only [removeAtom, found, run, bind, Except.bind, pure, Except.pure]
      rfl
    · have known := ahead.known d (kept d inside)
      refine ⟨known.site, known.remote, ?_⟩
      exact counts_all _ (.inr known.version)
    · exact ⟨rfl, le_rfl, fun old site => ⟨old, site, rfl, le_rfl⟩⟩

theorem step_ahead (ahead : Ahead getHash tree lists buffered) (edit : Edit T) (safe : SafeEdit getHash tree edit) :
    ∃ next lists' buffered', tree.step getHash edit = some next ∧
      Ahead getHash next lists' buffered' ∧ Follows tree next := by
  cases edit with
  | insertAtoms atoms =>
    rcases insertAtoms_ahead ahead atoms safe with ⟨next, lists', buffered', run, held⟩
    exact ⟨next, lists', buffered', by simp [step, perform, run, Except.toOption], held⟩
  | removeAtoms hashes =>
    rcases removeAtoms_ahead ahead hashes with ⟨next, lists', run, held⟩
    exact ⟨next, lists', buffered, by simp [step, perform, run, Except.toOption], held⟩
  | addAtom cause op priority cardinality remote =>
    rcases insertAtom_ahead ahead _ safe with ⟨made, lists', buffered', run, held⟩
    exact ⟨applied made, lists', buffered', by simp [step, perform, addAtom, run, Except.map, Except.toOption], held⟩
  | insertAtom a =>
    rcases insertAtom_ahead ahead a safe with ⟨made, lists', buffered', run, held⟩
    exact ⟨applied made, lists', buffered', by simp [step, perform, run, Except.map, Except.toOption], held⟩
  | removeAtom hash =>
    rcases removeAtom_ahead ahead hash safe with ⟨made, lists', run, held⟩
    exact ⟨applied made, lists', buffered, by simp [step, perform, run, Except.map, Except.toOption], held⟩

end Steps

/-! ### The next atom -/

theorem releaseMissing_valid (w : Weave T) (n : Dll.Ref) (a b : Atom T) (made : Weave T × WeaveResult T)
    (ran : w.releaseMissing n a = .ok made) : made.2 ≠ .invalidTimestamp b := by
  unfold Weave.releaseMissing at ran
  split at ran
  · rcases ok_of_bind _ _ _ ran with ⟨released, _, later⟩
    simp only at later
    split at later
    · rcases ok_of_bind _ _ _ later with ⟨group, _, final⟩
      exact Except.ok.inj final ▸ nofun
    · exact Except.ok.inj later ▸ nofun
  · exact Except.ok.inj ran ▸ nofun

theorem resolveConflict_valid (w : Weave T) (existing : Dll.Ref) (a b : Atom T)
    (causeNode : Option Dll.Ref) (made : Weave T × WeaveResult T)
    (ran : w.resolveConflict existing a causeNode = .ok made) : made.2 ≠ .invalidTimestamp b := by
  unfold Weave.resolveConflict at ran
  split at ran
  · split at ran
    · split at ran
      · exact Except.ok.inj ran ▸ nofun
      · rcases ok_of_bind _ _ _ ran with ⟨cleared, _, later⟩
        cases causeNode with
        | none =>
          rcases ok_of_bind _ _ _ later with ⟨grown, _, final⟩
          exact Except.ok.inj final ▸ nofun
        | some cause =>
          rcases ok_of_bind _ _ _ later with ⟨grown, _, final⟩
          exact Except.ok.inj final ▸ nofun
    · exact Except.ok.inj ran ▸ nofun
  · exact Except.ok.inj ran ▸ nofun

theorem checkCause_valid (a b c : Atom T) (newer : c.id.timestamp < a.id.timestamp) :
    Weave.checkCause getHash a c ≠ some (.invalidTimestamp b) := by
  unfold Weave.checkCause
  rw [if_neg (not_le.mpr newer)]
  split <;> simp

/-- An atom that is newer than its listed cause is not turned away for its timestamp. -/
theorem insert_valid (a b c : Atom T) (cause : AtomId) (n : Dll.Ref) (caused : a.cause = some cause)
    (found : w.getNode cause = some n) (atom : w.atomAt n = some c)
    (newer : c.id.timestamp < a.id.timestamp) (made : Weave T × WeaveResult T)
    (ran : w.insert getHash a = .ok made) : made.2 ≠ .invalidTimestamp b := by
  simp only [Weave.insert, caused, found, Weave.insertChild, atom, Option.bind_some] at ran
  split at ran
  · next rejection check =>
      intro invalid
      rw [← Except.ok.inj ran] at invalid
      exact checkCause_valid a b c newer (check.trans (congrArg some invalid))
  · split at ran
    · exact resolveConflict_valid w _ a b _ made ran
    · rcases ok_of_bind _ _ _ ran with ⟨placed, _, later⟩
      exact releaseMissing_valid placed.1 placed.2 a b made later

section Next

variable {tree : CausalTree T}

theorem known_editSite (a : Atom T) (known : Known tree a) (remote : Bool) :
    a.id.timestamp ≤ (tree.editSite remote).time := by
  unfold editSite
  cases remote with
  | false => exact known.site
  | true =>
    cases site : tree.remoteSite with
    | none => exact known.site
    | some other => exact known.remote other site

/-- What the clocks promise of the listed atoms. -/
structure ClocksAhead (getHash : AtomHashInput T → JsString) (tree : CausalTree T)
    (listed : List (Atom T)) : Prop where
  /-- The next atom of either site has an id of its own. -/
  fresh : ∀ cause ∈ listed, ∀ op priority cardinality remote, ∀ a ∈ listed, idEquals (some a.id)
    (some (tree.nextAtom getHash (some cause) op priority cardinality remote).id) = false
  accepted : ∀ cause ∈ listed, ∀ op priority cardinality remote made,
    tree.addAtom getHash (some cause) op priority cardinality remote = .ok made →
      ∀ a, WeaveResult.invalidTimestamp a ∉ made.2.results
  version : ∀ a ∈ listed, Counts tree.version a

theorem Ahead.clocks (ahead : Ahead getHash tree lists buffered) :
    ∃ listed, tree.weave.getAtoms = some listed ∧ ClocksAhead getHash tree listed := by
  have read := rootLists_repr ahead.checked.repr
  have cells : ∀ a ∈ (lists.map atoms).flatten, ∃ d ∈ lists.flatten, d.2 = a := by
    intro a member
    rcases List.mem_flatten.mp member with ⟨_, inLists, inside⟩
    rcases List.mem_map.mp inLists with ⟨l, present, rfl⟩
    rcases List.mem_map.mp inside with ⟨d, inL, same⟩
    exact ⟨d, List.mem_flatten.mpr ⟨l, present, inL⟩, same⟩
  refine ⟨(lists.map atoms).flatten, ?_, ?_, ?_, ?_⟩
  · exact congrArg (Option.map List.flatten) read
  · intro cause _ op priority cardinality remote a member
    rcases cells a member with ⟨d, inside, rfl⟩
    have known := known_editSite d.2 (ahead.known d inside) remote
    have later : d.2.id.timestamp ≠ (tree.editSite remote).time + 1 := by omega
    simp [idEquals, nextAtom, createAtom, newAtom, atomId, later.symm]
  · intro cause member op priority cardinality remote made ran b inside
    rcases cells cause member with ⟨d, inD, rfl⟩
    have node := (ahead.checked.repr.getNode d.2.id d.1).mpr ⟨d, inD, rfl, rfl⟩
    have known := known_editSite d.2 (ahead.known d inD) remote
    rcases ok_of_bind _ _ _ ran with ⟨grown, inserted, final⟩
    rw [← Except.ok.inj final] at inside
    have result : grown.2 = .invalidTimestamp b := (List.mem_singleton.mp inside).symm
    refine insert_valid _ b d.2 d.2.id d.1 rfl node (ahead.checked.repr.atomAt d (.inl inD)) ?_ grown inserted result
    show d.2.id.timestamp < (tree.editSite remote).time + 1
    omega
  · intro a member
    rcases cells a member with ⟨d, inside, rfl⟩
    exact (ahead.known d inside).version

end Next

/-! ### Runs -/

theorem tree_ahead (uuid : JsString) (id : Option JsString) (time : Option Int)
    (remoteId : Option JsString) : Ahead getHash (tree (T := T) uuid id time remoteId) [] [] where
  checked := checked_new none
  known := by simp

def sampleTree : CausalTree Unit :=
  tree [] (some (lit ['a'])) (some 1) (some (lit ['r']))

def rootAt (timestamp : Int) : Atom Unit :=
  newAtom unitHash (atomId (lit ['b']) timestamp none .undefined) none ()

def rootedTree : CausalTree Unit :=
  match sampleTree.step unitHash (.insertAtoms [rootAt 1]) with
  | some made => made
  | none => sampleTree

theorem rootedTree_facts : rootedTree.weave.reorderBuffer.values = [] ∧
    rootedTree.weave.getNode (rootedTree.nextAtom unitHash (some (rootAt 1)) () none .undefined true).id =
      none := by
  decide +kernel

theorem sample_safe : AllAllowed (step unitHash) (SafeEdit unitHash) sampleTree
    [.insertAtoms [rootAt 1], .addAtom (some (rootAt 1)) () none .undefined true] := by
  refine ⟨⟨⟨?_, by decide⟩, ?_, fun _ _ => trivial⟩, fun next ran => ⟨⟨?_, nofun⟩, fun _ _ => trivial⟩⟩
  · exact safe_of_unbuffered _ rfl rfl rfl
  · intro remote found b arrives
    have same : remote = { id := lit ['r'], time := 1 } := (Option.some.inj found).symm
    rcases arrives.2 with here | ⟨_, n, value, _⟩
    · rw [here, same]
      decide
    · cases value
  · have same : next = rootedTree := by simp only [rootedTree, ran]
    subst same
    exact safe_of_unbuffered _ rootedTree_facts.1 rootedTree_facts.2 (by decide +kernel)

end CasualOS.SiteClocks
