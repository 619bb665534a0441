import CasualOS.HashText
import CasualOS.WeaveInsert
import Mathlib.Data.List.Sort

/-! Inserting one set of atoms in different causal orders. -/

namespace CasualOS.Convergence

open PathOrder WeaveHeap CausalOrder WeaveInsert HashText
open List (append_of_mem cons_append flatten_append flatten_cons mem_append mem_append_left mem_append_right mem_cons
  mem_cons_self mem_flatten mem_singleton nil_append nodup_append)

variable {T : Type} (getHash : AtomHashInput T → JsString)

/-- A set of valid atoms that holds the causes of its atoms. -/
structure CausalSet (S : List (Atom T)) : Prop where
  distinct : (S.map (fun a => atomIdToString a.id)).Nodup
  simple : ∀ a ∈ S, a.id.cardinality = .undefined
  closed : ∀ a ∈ S, ∀ cause, a.cause = some cause → ∃ p ∈ S, idEquals (some cause) (some p.id) = true
  rootHash : ∀ a ∈ S, a.cause = none → atomMatchesHash getHash a none = true
  childHash : ∀ a ∈ S, ∀ p ∈ S, idEquals a.cause (some p.id) = true →
    atomMatchesHash getHash a (some p) = true
  newer : ∀ a ∈ S, ∀ p ∈ S, idEquals a.cause (some p.id) = true → p.id.timestamp < a.id.timestamp

/-- Each atom comes after its cause. -/
def CausesFirst (delivered : List (Atom T)) : Prop :=
  ∀ pre a post, delivered = pre ++ a :: post → ∀ cause, a.cause = some cause →
    ∃ p ∈ pre, idEquals (some cause) (some p.id) = true

/-- Every two causal orders of `S` give the same list for each root. -/
def Converges (S : List (Atom T)) : Prop :=
  ∀ size size' (first second : List (Atom T)), first.Perm S → CausesFirst first → second.Perm S →
    CausesFirst second → ∀ root ∈ S, root.cause = none →
      ∃ w w' l, insertAll getHash (Weave.new size) first = .ok w ∧
        insertAll getHash (Weave.new size') second = .ok w' ∧
        listAt w root = some l ∧ listAt w' root = some l

/-- Some atom with a child has a later sibling that is newer. -/
def Overtaken (S : List (Atom T)) : Prop :=
  ∃ a ∈ S, ∃ b ∈ S, ∃ c ∈ S, a.cause ≠ none ∧ idEquals a.cause b.cause = true ∧
    compareAtomIds a.id b.id < 0 ∧ a.id.timestamp < b.id.timestamp ∧
    idEquals c.cause (some a.id) = true

instance (S : List (Atom T)) : Decidable (Overtaken S) :=
  inferInstanceAs (Decidable (∃ a ∈ S, ∃ b ∈ S, ∃ c ∈ S, a.cause ≠ none ∧
    idEquals a.cause b.cause = true ∧ compareAtomIds a.id b.id < 0 ∧
    a.id.timestamp < b.id.timestamp ∧ idEquals c.cause (some a.id) = true))

variable {getHash} {S : List (Atom T)}

theorem CausalSet.nodup (set : CausalSet getHash S) : S.Nodup := set.distinct.of_map _

theorem CausalSet.string_unique (set : CausalSet getHash S) (a b : Atom T) (left : a ∈ S)
    (right : b ∈ S) (same : atomIdToString a.id = atomIdToString b.id) : a = b :=
  List.inj_on_of_nodup_map set.distinct left right same

theorem CausalSet.unique (set : CausalSet getHash S) (a b : Atom T) (left : a ∈ S) (right : b ∈ S)
    (same : idEquals (some a.id) (some b.id) = true) : a = b :=
  set.string_unique a b left right (idEquals_string _ _ same)

theorem CausalSet.key_unique (set : CausalSet getHash S) (a b : Atom T) (left : a ∈ S) (right : b ∈ S)
    (same : key a.id = key b.id) : a = b := by
  have plain : ∀ c ∈ S, c.id.cardinality.get? = none := fun c member => by
    rw [set.simple c member]
    rfl
  exact set.string_unique a b left right (string_of_key _ _ (plain a left) (plain b right) same)

/-! ### Runs -/

/-- The lists after a sequence of atoms has been added to them. -/
inductive PlacedAll : List (Atom T) → List (List (Atom T)) → List (List (Atom T)) → Prop where
  | nil (lists : List (List (Atom T))) : PlacedAll [] lists lists
  | cons {a : Atom T} {rest : List (Atom T)} {lists mid lists' : List (List (Atom T))}
      (step : Placed a lists mid) (steps : PlacedAll rest mid lists') : PlacedAll (a :: rest) lists lists'

theorem PlacedAll.perm {delivered : List (Atom T)} {lists lists' : List (List (Atom T))}
    (steps : PlacedAll delivered lists lists') : lists'.flatten.Perm (lists.flatten ++ delivered) := by
  induction steps with
  | nil lists => simp
  | cons step steps ih =>
    refine ih.trans ((step.perm.append_right _).trans ?_)
    exact List.perm_middle.symm

theorem PlacedAll.extends {delivered : List (Atom T)} {lists lists' : List (List (Atom T))}
    (steps : PlacedAll delivered lists lists') (l : List (Atom T)) (member : l ∈ lists)
    (filled : l ≠ []) : ∃ l' ∈ lists', Extends l l' := by
  induction steps generalizing l with
  | nil lists => exact ⟨l, member, List.Sublist.refl l, rfl⟩
  | cons step steps ih =>
    obtain ⟨m, inMid, sub, head⟩ := step.extends l member filled
    obtain ⟨l', inLast, sub', head'⟩ := ih m inMid (fun empty => filled (by
      rw [empty] at sub
      exact List.sublist_nil.mp sub))
    exact ⟨l', inLast, sub.trans sub', head'.trans head⟩

theorem PlacedAll.rooted {delivered : List (Atom T)} {lists lists' : List (List (Atom T))}
    (steps : PlacedAll delivered lists lists') (rooted : ∀ l ∈ lists, Rooted l) : ∀ l ∈ lists', Rooted l := by
  induction steps with
  | nil lists => exact rooted
  | cons step steps ih => exact ih (step.rooted rooted)

variable {w : Weave T} {lists : List (List (Atom T))}

theorem CausalSet.insert (set : CausalSet getHash S) (holds : Holds w lists)
    (listed : ∀ b ∈ lists.flatten, b ∈ S) (a : Atom T) (member : a ∈ S) (fresh : a ∉ lists.flatten)
    (causes : ∀ cause, a.cause = some cause → ∃ p ∈ lists.flatten,
      idEquals (some cause) (some p.id) = true) :
    ∃ w' lists', w.insert getHash a = .ok (w', .atomAdded a) ∧ Holds w' lists' ∧ Placed a lists lists' := by
  refine insert_fresh getHash holds a (fun b inside same => ?_) (set.simple a member) ?_
  · exact fresh (set.string_unique b a (listed b inside) member same ▸ inside)
  · cases caused : a.cause with
    | none => exact set.rootHash a member caused
    | some cause =>
      obtain ⟨p, inside, named⟩ := causes cause caused
      have link : idEquals a.cause (some p.id) = true := caused ▸ named
      have inS := listed p inside
      exact ⟨p, inside, (idEquals_string _ _ named).symm, checkCause_none getHash a p
        (set.childHash a member p inS link) (set.newer a member p inS link)⟩

theorem CausalSet.run (set : CausalSet getHash S) (holds : Holds w lists) (done more : List (Atom T))
    (same : lists.flatten.Perm done) (members : ∀ a ∈ done ++ more, a ∈ S)
    (distinct : (done ++ more).Nodup) (causal : CausesFirst (done ++ more)) :
    ∃ w' lists', insertAll getHash w more = .ok w' ∧ Holds w' lists' ∧ PlacedAll more lists lists' := by
  induction more generalizing w lists done with
  | nil => exact ⟨w, lists, rfl, holds, .nil lists⟩
  | cons a more ih =>
    have fresh : a ∉ lists.flatten := by
      rw [same.mem_iff]
      exact fun inside => (nodup_append.mp distinct).2.2 a inside a mem_cons_self rfl
    obtain ⟨mid, mids, run, held, step⟩ := set.insert holds
      (fun b inside => members b (mem_append_left _ (same.mem_iff.mp inside))) a
      (members a (by simp)) fresh (fun cause caused => by
        obtain ⟨p, inside, named⟩ := causal done a more rfl cause caused
        exact ⟨p, same.mem_iff.mpr inside, named⟩)
    have shift : done ++ a :: more = (done ++ [a]) ++ more := by simp
    have grown : mids.flatten.Perm (done ++ [a]) :=
      step.perm.trans ((same.cons a).trans (List.perm_append_singleton a done).symm)
    rw [shift] at members distinct causal
    obtain ⟨w', lists', rest, held', steps⟩ := ih held (done ++ [a]) grown members distinct causal
    exact ⟨w', lists', (insertAll_cons _ a more _ _ run).trans rest, held', .cons step steps⟩

/-! ### Paths -/

/-- Every atom of the set has the path of its cause and then its own key. -/
structure Paths (S : List (Atom T)) (path : Atom T → List Key) : Prop where
  root : ∀ a ∈ S, a.cause = none → path a = [key a.id]
  child : ∀ a ∈ S, ∀ p ∈ S, idEquals a.cause (some p.id) = true → path a = path p ++ [key a.id]

theorem CausalSet.paths_of (set : CausalSet getHash S) (order : List (Atom T))
    (members : ∀ a ∈ order, a ∈ S) (distinct : order.Nodup) (causal : CausesFirst order) :
    ∃ path, Paths order path := by
  induction order using List.reverseRecOn with
  | nil => exact ⟨fun _ => [], by simp, by simp⟩
  | append_singleton done a ih =>
    have before : ∀ b ∈ done, b ≠ a := fun b inside same =>
      (nodup_append.mp distinct).2.2 b inside a (by simp) same
    have inS : ∀ b ∈ done, b ∈ S := fun b inside => members b (mem_append_left _ inside)
    have aS : a ∈ S := members a (by simp)
    have prefixCausal : CausesFirst done := by
      intro pre b post split
      exact causal pre b (post ++ [a]) (by simp [split])
    obtain ⟨path, paths⟩ := ih inS (nodup_append.mp distinct).1 prefixCausal
    obtain ⟨own, isOwn, ownRoot⟩ : ∃ own, (∀ p ∈ done, idEquals a.cause (some p.id) = true →
        own = path p ++ [key a.id]) ∧ (a.cause = none → own = [key a.id]) := by
      cases caused : a.cause with
      | none => exact ⟨[key a.id], by simp [idEquals], fun _ => rfl⟩
      | some cause =>
        obtain ⟨p, inside, named⟩ := causal done a [] rfl cause caused
        refine ⟨path p ++ [key a.id], fun q inQ other => ?_, by simp⟩
        have same := set.unique p q (inS p inside) (inS q inQ) (idEquals_trans _ _ _ (idEquals_symm _ _ named) other)
        rw [same]
    classical
    refine ⟨fun x => if x = a then own else path x, fun x member noCause => ?_,
      fun x member p found link => ?_⟩
    · rcases mem_append.mp member with old | new
      · simp only [before x old, if_false, paths.root x old noCause]
      · obtain rfl := mem_singleton.mp new
        simp only [if_true, ownRoot noCause]
    · have notLater : p ∈ done := by
        rcases mem_append.mp found with old | new
        · exact old
        · obtain rfl := mem_singleton.mp new
          obtain ⟨cause, caused, named⟩ := idEquals_cause _ _ link
          obtain ⟨pre, post, split⟩ := append_of_mem member
          obtain ⟨q, inPre, namedQ⟩ := causal pre x post split cause caused
          have same := set.unique q p (members q (by simp [split, inPre])) aS
            (idEquals_trans _ _ _ (idEquals_symm _ _ namedQ) named)
          subst same
          obtain ⟨pre', post', rfl⟩ := append_of_mem inPre
          rcases List.eq_nil_or_concat' post with rfl | ⟨post, z, rfl⟩
          · have last := List.append_inj' split rfl
            exact absurd (last.1 ▸ by simp) (fun inDone => before q inDone rfl)
          · have last := List.append_inj' (split.trans (List.append_assoc _ (x :: post) [z]).symm) rfl
            exact absurd (last.1 ▸ by simp) (fun inDone => before q inDone rfl)
      rcases mem_append.mp member with old | new
      · simp only [before x old, before p notLater, if_false, paths.child x old p notLater link]
      · obtain rfl := mem_singleton.mp new
        simp only [if_true, before p notLater, if_false, isOwn p notLater link]

theorem CausalSet.exists_paths (set : CausalSet getHash S) (order : List (Atom T))
    (same : order.Perm S) (causal : CausesFirst order) : ∃ path, Paths S path := by
  obtain ⟨path, root, child⟩ := set.paths_of order (fun a inside => same.mem_iff.mp inside)
    (same.nodup_iff.mpr set.nodup) causal
  exact ⟨path, fun a member => root a (same.mem_iff.mpr member),
    fun a member p found => child a (same.mem_iff.mpr member) p (same.mem_iff.mpr found)⟩

section Sorted

variable {path : Atom T → List Key} {l front after : List (Atom T)} {a c : Atom T}

theorem CausalSet.path_injective (set : CausalSet getHash S) (paths : Paths S path) (a b : Atom T)
    (left : a ∈ S) (right : b ∈ S) (same : path a = path b) : a = b := by
  have last : ∀ x ∈ S, ∃ s, path x = s ++ [key x.id] := by
    intro x member
    cases caused : x.cause with
    | none => exact ⟨[], by simp [paths.root x member caused]⟩
    | some cause =>
      obtain ⟨p, found, named⟩ := set.closed x member cause caused
      exact ⟨path p, paths.child x member p found (caused ▸ named)⟩
  obtain ⟨s, pathA⟩ := last a left
  obtain ⟨t, pathB⟩ := last b right
  rw [pathA, pathB] at same
  exact set.key_unique a b left right (List.singleton_inj.mp (List.append_inj' same rfl).2)

theorem settled_of (good : ¬ Overtaken S)
    (tree : CausalList path l) (listed : ∀ b ∈ l, b ∈ S) (member : a ∈ S) (found : c ∈ l)
    (link : idEquals a.cause (some c.id) = true) : Settled path l c := by
  intro p inP x inX y inY childX childY within less
  by_contra overtakes
  obtain ⟨d, inD, linkD⟩ : ∃ d ∈ S, idEquals d.cause (some x.id) = true := by
    by_cases same : path x = path c
    · rw [tree.preordered.injective x c inX found same]
      exact ⟨a, member, link⟩
    · obtain ⟨k, t, longer⟩ := append_of_start within same
      obtain ⟨h, head⟩ : ∃ h, l.head? = some h := by
        cases l with
        | nil => cases found
        | cons h l => exact ⟨h, rfl⟩
      have base := tree.preordered.head_prefix h head x inX
      obtain ⟨d, inD, pathD⟩ := tree.preordered.complete h head c found (path x ++ [k])
        (base.trans (List.prefix_append _ _)) (by simp [longer])
      obtain ⟨q, inQ, childQ, pathQ, _⟩ := tree.parent_of_path h head inD _ k pathD base
      rw [tree.preordered.injective q x inQ inX pathQ] at childQ
      exact ⟨d, listed d inD, childQ.caused⟩
  obtain ⟨cause, caused, _⟩ := idEquals_cause _ _ childX.caused
  exact good ⟨x, listed x inX, y, listed y inY, d, inD, by simp [caused],
    idEquals_trans _ _ _ childX.caused (idEquals_symm _ _ childY.caused),
    (compare_neg _ _).mpr less, not_le.mp overtakes, linkD⟩

theorem CausalSet.graft (set : CausalSet getHash S) (paths : Paths S path) {s : List (Atom T)}
    {p start : Atom T} (tree : CausalList path (front ++ p :: after)) (block : CausalList path s)
    (settled : Settled path (front ++ p :: after) p) (first : s.head? = some start)
    (link : idEquals start.cause (some p.id) = true) (members : ∀ b ∈ front ++ p :: after, b ∈ S)
    (added : ∀ b ∈ s, b ∈ S) (apart : ∀ x ∈ s, x ∉ front ++ p :: after) :
    CausalList path (front ++ p :: placed p start.id s after) := by
  have inS : start ∈ S := added start (List.mem_of_head? first)
  have inP : p ∈ front ++ p :: after := by simp
  have child : ChildOf path start p := ⟨link, set.newer start inS p (members p inP) link,
    paths.child start inS p (members p inP) link⟩
  apply tree.graft block settled first child
  · intro y inAfter within
    obtain ⟨h, head⟩ := exists_head front after p
    have base := tree.preordered.head_prefix h head p inP
    obtain ⟨z, inZ, pathZ⟩ := tree.preordered.complete h head y (by simp [inAfter]) (path start)
      (child.path ▸ base.trans (List.prefix_append _ _)) within
    have same := set.path_injective paths z start (members z inZ) inS pathZ
    exact apart start (List.mem_of_head? first) (same ▸ inZ)
  · intro x inBlock y inList
    cases equal : idEquals (some x.id) (some y.id) with
    | false => rfl
    | true =>
      have same := set.unique x y (added x inBlock) (members y inList) equal
      exact absurd (same ▸ inList) (apart x inBlock)

theorem CausalSet.placed_causal (set : CausalSet getHash S) (paths : Paths S path)
    (good : ¬ Overtaken S) {lists lists' : List (List (Atom T))} (step : Placed a lists lists')
    (trees : ∀ l ∈ lists, CausalList path l) (listed : ∀ b ∈ lists.flatten, b ∈ S) (member : a ∈ S)
    (fresh : a ∉ lists.flatten) : ∀ l ∈ lists', CausalList path l := by
  have single : CausalList path [a] :=
    ⟨by simp, by simp, by simp⟩
  cases step with
  | root lists noCause =>
    intro l inside
    rcases mem_append.mp inside with old | new
    · exact trees l old
    · exact mem_singleton.mp new ▸ single
  | child pre post front after cause c caused named =>
    intro l inside
    rcases mem_append.mp inside with before | here
    · exact trees l (mem_append_left _ before)
    · rcases mem_cons.mp here with rfl | later
      · have tree := trees (front ++ c :: after) (mem_append_right _ mem_cons_self)
        have own : ∀ b ∈ front ++ c :: after, b ∈ S ∧ b ≠ a := by
          intro b inB
          have inAll : b ∈ (pre ++ (front ++ c :: after) :: post).flatten :=
            mem_flatten.mpr ⟨_, mem_append_right _ mem_cons_self, inB⟩
          exact ⟨listed b inAll, fun same => fresh (same ▸ inAll)⟩
        have inC : c ∈ front ++ c :: after := by simp
        obtain ⟨p, inP, link⟩ := set.closed a member cause caused
        have same : p = c := set.string_unique p c inP (own c inC).1 ((idEquals_string _ _ link).symm.trans named.symm)
        subst same
        rw [← caused] at link
        apply set.graft paths tree single (settled_of good tree (fun b inB => (own b inB).1) member inC link) rfl link
          (fun b inB => (own b inB).1)
        · intro b isA
          exact mem_singleton.mp isA ▸ member
        · intro x isA inList
          exact (own x inList).2 (mem_singleton.mp isA)
      · exact trees l (mem_append_right _ (List.mem_cons_of_mem _ later))

theorem CausalSet.placedAll_causal (set : CausalSet getHash S) (paths : Paths S path)
    (good : ¬ Overtaken S) {delivered : List (Atom T)} {lists lists' : List (List (Atom T))}
    (steps : PlacedAll delivered lists lists') (trees : ∀ l ∈ lists, CausalList path l)
    (members : ∀ b ∈ lists.flatten ++ delivered, b ∈ S) (distinct : (lists.flatten ++ delivered).Nodup) :
    ∀ l ∈ lists', CausalList path l := by
  induction steps with
  | nil lists => exact trees
  | @cons a rest lists mid lists' step steps ih =>
    have moved : (mid.flatten ++ rest).Perm (lists.flatten ++ a :: rest) :=
      (step.perm.append_right rest).trans List.perm_middle.symm
    have fresh : a ∉ lists.flatten := fun inside =>
      (nodup_append.mp distinct).2.2 a inside a mem_cons_self rfl
    exact ih (set.placed_causal paths good step trees
        (fun b inside => members b (mem_append_left _ inside)) (members a (by simp)) fresh)
      (fun b inside => members b (moved.mem_iff.mp inside)) (moved.nodup_iff.mpr distinct)

end Sorted

theorem list_unique (lists : List (List (Atom T))) (distinct : lists.flatten.Nodup) (l m : List (Atom T))
    (left : l ∈ lists) (right : m ∈ lists) (a : Atom T) (inL : a ∈ l) (inM : a ∈ m) : l = m := by
  induction lists with
  | nil => cases left
  | cons x lists ih =>
    rw [flatten_cons] at distinct
    obtain ⟨_, rest, apart⟩ := nodup_append.mp distinct
    rcases mem_cons.mp left with rfl | leftLater <;> rcases mem_cons.mp right with rfl | rightLater
    · rfl
    · exact absurd rfl (apart a inL a (mem_flatten.mpr ⟨m, rightLater, inM⟩))
    · exact absurd rfl (apart a inM a (mem_flatten.mpr ⟨l, leftLater, inL⟩))
    · exact ih rest leftLater rightLater

theorem CausalSet.run_new (set : CausalSet getHash S) (size : Option Int) (order : List (Atom T))
    (same : order.Perm S) (causal : CausesFirst order) :
    ∃ w lists, insertAll getHash (Weave.new size) order = .ok w ∧ Holds w lists ∧
      PlacedAll order [] lists ∧ lists.flatten.Perm S ∧ ∀ l ∈ lists, Rooted l := by
  obtain ⟨w, lists, run, holds, steps⟩ := set.run (holds_new size) [] order (by simp)
    (fun a inside => same.mem_iff.mp (by simpa using inside))
    (by simpa using same.nodup_iff.mpr set.nodup) (by simpa using causal)
  exact ⟨w, lists, run, holds, steps, (by simpa using steps.perm : lists.flatten.Perm order).trans same,
    steps.rooted (by simp)⟩

theorem list_of_root {lists : List (List (Atom T))}
    (same : lists.flatten.Perm S) (rooted : ∀ l ∈ lists, Rooted l) (root : Atom T) (member : root ∈ S)
    (noCause : root.cause = none) : ∃ rest, root :: rest ∈ lists := by
  obtain ⟨l, present, inside⟩ := mem_flatten.mp (same.mem_iff.mpr member)
  obtain ⟨r, rest, rfl, _, others⟩ := rooted l present
  rcases mem_cons.mp inside with rfl | later
  · exact ⟨rest, present⟩
  · exact absurd noCause (others root later)

theorem CausalSet.mem_list (set : CausalSet getHash S) {path : Atom T → List Key} (paths : Paths S path)
    {lists : List (List (Atom T))} (same : lists.flatten.Perm S) (rooted : ∀ l ∈ lists, Rooted l)
    (trees : ∀ l ∈ lists, CausalList path l) (root : Atom T) (rest : List (Atom T))
    (member : root :: rest ∈ lists) (a : Atom T) : a ∈ root :: rest ↔ a ∈ S ∧ path root <+: path a := by
  constructor
  · intro inside
    exact ⟨same.mem_iff.mp (mem_flatten.mpr ⟨_, member, inside⟩),
      (trees _ member).preordered.head_prefix root rfl a inside⟩
  · rintro ⟨inS, within⟩
    obtain ⟨m, present, inside⟩ := mem_flatten.mp (same.mem_iff.mpr inS)
    obtain ⟨r, others, rfl, noCause, _⟩ := rooted m present
    have other := (trees _ present).preordered.head_prefix r rfl a inside
    have rootS : root ∈ S := same.mem_iff.mp (mem_flatten.mpr ⟨_, member, mem_cons_self⟩)
    have rS : r ∈ S := same.mem_iff.mp (mem_flatten.mpr ⟨_, present, mem_cons_self⟩)
    have rootNone : root.cause = none := by
      obtain ⟨r', rest', split, noCause', _⟩ := rooted _ member
      exact (List.cons.inj split).1 ▸ noCause'
    rw [paths.root root rootS rootNone] at within
    rw [paths.root r rS noCause] at other
    have equal : path root = path r := by
      rw [paths.root root rootS rootNone, paths.root r rS noCause]
      have both := List.prefix_or_prefix_of_prefix within other
      exact both.elim (fun h => h.eq_of_length_le (by simp)) (fun h => (h.eq_of_length_le (by simp)).symm)
    have equalRoot := set.path_injective paths root r rootS rS equal
    subst equalRoot
    rw [list_unique lists (same.nodup_iff.mpr set.nodup) _ _ member present root mem_cons_self mem_cons_self]
    exact inside

/-- Two collections of trees of the whole set have the same list for each root. -/
theorem CausalSet.same_list (set : CausalSet getHash S) {path : Atom T → List Key} (paths : Paths S path)
    {lists lists' : List (List (Atom T))} (same : lists.flatten.Perm S) (same' : lists'.flatten.Perm S)
    (rooted : ∀ l ∈ lists, Rooted l) (rooted' : ∀ l ∈ lists', Rooted l)
    (trees : ∀ l ∈ lists, CausalList path l) (trees' : ∀ l ∈ lists', CausalList path l)
    (root : Atom T) (member : root ∈ S) (noCause : root.cause = none) :
    ∃ rest, root :: rest ∈ lists ∧ root :: rest ∈ lists' := by
  obtain ⟨rest, present⟩ := list_of_root same rooted root member noCause
  obtain ⟨rest', present'⟩ := list_of_root same' rooted' root member noCause
  have equal : root :: rest = root :: rest' :=
    ordered_ext (trees _ present).ordered (trees' _ present').ordered (fun a => by
      rw [set.mem_list paths same rooted trees root rest present,
        set.mem_list paths same' rooted' trees' root rest' present'])
  exact ⟨rest, present, equal ▸ present'⟩

theorem CausalSet.run_trees (set : CausalSet getHash S) (good : ¬ Overtaken S)
    {path : Atom T → List Key} (paths : Paths S path) (size : Option Int) (order : List (Atom T))
    (same : order.Perm S) (causal : CausesFirst order) :
    ∃ w lists, insertAll getHash (Weave.new size) order = .ok w ∧ Holds w lists ∧
      lists.flatten.Perm S ∧ (∀ l ∈ lists, Rooted l) ∧ ∀ l ∈ lists, CausalList path l := by
  obtain ⟨w, lists, run, holds, steps, whole, rooted⟩ := set.run_new size order same causal
  have trees := set.placedAll_causal paths good steps (by simp)
    (fun b inside => same.mem_iff.mp (by simpa using inside))
    (by simpa using same.nodup_iff.mpr set.nodup)
  exact ⟨w, lists, run, holds, whole, rooted, trees⟩

theorem CausalSet.converges (set : CausalSet getHash S) (good : ¬ Overtaken S) : Converges getHash S := by
  intro size size' first second firstSame firstCausal secondSame secondCausal root member noCause
  obtain ⟨path, paths⟩ := set.exists_paths first firstSame firstCausal
  obtain ⟨w, lists, run, holds, same, rooted, trees⟩ :=
    set.run_trees good paths size first firstSame firstCausal
  obtain ⟨w', lists', run', holds', same', rooted', trees'⟩ :=
    set.run_trees good paths size' second secondSame secondCausal
  obtain ⟨rest, present, present'⟩ :=
    set.same_list paths same same' rooted rooted' trees trees' root member noCause
  exact ⟨w, w', root :: rest, run, run', listAt_holds holds root rest present, listAt_holds holds' root rest present'⟩

/-! ### An overtaken atom -/

theorem causesFirst_append (base more : List (Atom T)) (causal : CausesFirst base)
    (ordered : more.Pairwise (fun x y => x.id.timestamp ≤ y.id.timestamp))
    (causes : ∀ x ∈ more, ∀ cause, x.cause = some cause → ∃ q ∈ base ++ more,
      idEquals (some cause) (some q.id) = true ∧ (q ∈ base ∨ q.id.timestamp < x.id.timestamp)) :
    CausesFirst (base ++ more) := by
  intro pre x post split cause caused
  rcases List.append_eq_append_iff.mp split with ⟨front, rfl, rest⟩ | ⟨back, rfl, rest⟩
  · obtain ⟨q, found, named, earlier⟩ := causes x (by simp [rest]) cause caused
    refine ⟨q, ?_, named⟩
    rcases earlier with inBase | older
    · exact mem_append_left _ inBase
    · rcases mem_append.mp found with inBase | inMore
      · exact mem_append_left _ inBase
      · rw [rest] at inMore ordered
        rcases mem_append.mp inMore with before | here
        · exact mem_append_right _ before
        · rcases mem_cons.mp here with rfl | later
          · exact absurd older (lt_irrefl _)
          · have after := List.rel_of_pairwise_cons (List.pairwise_append.mp ordered).2.1 later
            exact absurd older (not_lt.mpr after)
  · cases back with
    | nil =>
      have rest' : more = x :: post := rest.symm
      obtain ⟨q, found, named, earlier⟩ := causes x (by simp [rest']) cause caused
      refine ⟨q, ?_, named⟩
      rcases earlier with inBase | older
      · simpa using inBase
      · rcases mem_append.mp found with inBase | inMore
        · simpa using inBase
        · rw [rest'] at inMore ordered
          rcases mem_cons.mp inMore with rfl | later
          · exact absurd older (lt_irrefl _)
          · exact absurd older (not_lt.mpr (List.rel_of_pairwise_cons ordered later))
    | cons y back =>
      obtain ⟨rfl, _⟩ := List.cons.inj rest
      exact causal pre x back rfl cause caused

def byTime (l : List (Atom T)) : List (Atom T) :=
  l.mergeSort (fun x y => decide (x.id.timestamp ≤ y.id.timestamp))

theorem byTime_perm (l : List (Atom T)) : (byTime l).Perm l := List.mergeSort_perm ..

theorem byTime_ordered (l : List (Atom T)) : (byTime l).Pairwise (fun x y => x.id.timestamp ≤ y.id.timestamp) := by
  have sorted : (byTime l).Pairwise (fun x y => decide (x.id.timestamp ≤ y.id.timestamp)) := by
    apply List.pairwise_mergeSort
    · intro x y z first second
      simp only [decide_eq_true_eq] at first second ⊢
      exact first.trans second
    · intro x y
      simp only [Bool.or_eq_true, decide_eq_true_eq]
      exact le_total _ _
  exact sorted.imp (fun h => of_decide_eq_true h)

theorem placed_old (cause : Atom T) (id : AtomId) (s passed after : List (Atom T))
    (kept : ∀ x ∈ passed, keeps cause id x = true) (old : ∀ x ∈ after, x.id.timestamp ≤ cause.id.timestamp) :
    placed cause id s (passed ++ after) = passed ++ s ++ after := by
  have stops : after.takeWhile (keeps cause id) = [] ∧ after.dropWhile (keeps cause id) = after := by
    cases after with
    | nil => exact ⟨rfl, rfl⟩
    | cons x after =>
      have stop : ¬ keeps cause id x = true := by
        simp [keeps, isNewer, not_lt.mpr (old x mem_cons_self)]
      exact ⟨List.takeWhile_cons_of_neg stop, List.dropWhile_cons_of_neg stop⟩
  rw [placed, List.takeWhile_append_of_pos kept, List.dropWhile_append_of_pos kept, stops.1, stops.2, List.append_nil]

theorem not_both_orders (l : List (Atom T)) (distinct : l.Nodup) (b c : Atom T)
    (first : [c, b].Sublist l) (second : [b, c].Sublist l) : False := by
  induction l with
  | nil => simp at first
  | cons x l ih =>
    obtain ⟨fresh, rest⟩ := List.nodup_cons.mp distinct
    have inTail : ∀ y z : Atom T, [y, z].Sublist (x :: l) → z ∈ l := by
      intro y z sub
      cases sub with
      | cons _ sub => exact sub.subset (by simp)
      | cons_cons _ sub => exact sub.subset (by simp)
    have shorter : ∀ y z : Atom T, y ∈ l → [y, z].Sublist (x :: l) → [y, z].Sublist l := by
      intro y z member sub
      cases sub with
      | cons _ sub => exact sub
      | cons_cons _ sub => exact absurd member fresh
    exact ih rest (shorter c b (inTail b c second) first) (shorter b c (inTail c b first) second)

section Overtaken

variable {pre post : List (List (Atom T))} {front after : List (Atom T)} {a c : Atom T}

theorem CausalSet.insert_under (set : CausalSet getHash S) (holds : Holds w (pre ++ (front ++ c :: after) :: post))
    (listed : ∀ b ∈ (pre ++ (front ++ c :: after) :: post).flatten, b ∈ S) (member : a ∈ S)
    (fresh : a ∉ (pre ++ (front ++ c :: after) :: post).flatten)
    (link : idEquals a.cause (some c.id) = true) :
    ∃ w', w.insert getHash a = .ok (w', .atomAdded a) ∧
      Holds w' (pre ++ (front ++ c :: placed c a.id [a] after) :: post) := by
  obtain ⟨cause, caused, named⟩ := idEquals_cause _ _ link
  have inC : c ∈ S := listed c (by simp)
  refine WeaveInsert.insert_under getHash holds a cause caused (idEquals_string _ _ named).symm
    (checkCause_none getHash a c (set.childHash a member c inC link) (set.newer a member c inC link))
    (fun b inside same => ?_)
  exact fresh (set.string_unique b a (listed b inside) member same ▸ inside)

/-- Two ways to add three atoms, when the cause of the first is the newest atom so far. -/
theorem CausalSet.add_three (set : CausalSet getHash S) {p b : Atom T}
    (holds : Holds w (pre ++ (front ++ p :: after) :: post))
    (listed : ∀ x ∈ (pre ++ (front ++ p :: after) :: post).flatten,
      x ∈ S ∧ x.id.timestamp ≤ p.id.timestamp)
    (inA : a ∈ S) (inB : b ∈ S) (inC : c ∈ S) (linkA : idEquals a.cause (some p.id) = true)
    (linkB : idEquals b.cause (some p.id) = true) (linkC : idEquals c.cause (some a.id) = true)
    (sorted : compareAtomIds a.id b.id < 0) (newer : a.id.timestamp < b.id.timestamp) :
    (∃ w', insertAll getHash w [a, c, b] = .ok w' ∧ Holds w' (pre ++ (front ++ p :: a :: c :: b :: after) :: post)) ∧
    ∃ w', insertAll getHash w [a, b, c] = .ok w' ∧ Holds w' (pre ++ (front ++ p :: a :: b :: c :: after) :: post) := by
  have inP : p ∈ S := (listed p (by simp)).1
  have pa := set.newer a inA p inP linkA
  have pb := set.newer b inB p inP linkB
  have ac := set.newer c inC a inA linkC
  have fresh : ∀ x, p.id.timestamp < x.id.timestamp → x ∉ (pre ++ (front ++ p :: after) :: post).flatten :=
    fun x later inside => absurd later (not_lt.mpr (listed x inside).2)
  have old : ∀ x ∈ after, x.id.timestamp ≤ p.id.timestamp :=
    fun x inside => (listed x (by simp [inside])).2
  have notSame : idEquals (some a.id) (some p.id) = false := by
    cases same : idEquals (some a.id) (some p.id) with
    | false => rfl
    | true => exact absurd pa (set.unique a p inA inP same ▸ lt_irrefl _)
  have cNotP : idEquals c.cause (some p.id) = false := by
    cases same : idEquals c.cause (some p.id) with
    | false => rfl
    | true =>
      have equal := idEquals_trans _ _ _ (idEquals_symm _ _ linkC) same
      simp [notSame] at equal
  have bNotA : idEquals b.cause (some a.id) = false := by
    cases same : idEquals b.cause (some a.id) with
    | false => rfl
    | true =>
      have equal := idEquals_trans _ _ _ (idEquals_symm _ _ same) linkB
      simp [notSame] at equal
  have ba : a ≠ b := fun same => absurd newer (same ▸ lt_irrefl _)
  have ca : c ≠ a := fun same => absurd ac (same ▸ lt_irrefl _)
  have cb : c ≠ b := by
    rintro rfl
    simp [cNotP] at linkB
  have keepsA : keeps p b.id a = true := by
    have later : ¬ compareAtomIds b.id a.id < 0 := by
      rw [compare_neg] at sorted ⊢
      exact lt_asymm sorted
    simp [keeps, isNewer, pa, later]
  have keepsC : keeps p b.id c = true := by simp [keeps, isNewer, pa.trans ac, cNotP]
  have keepsB : keeps a c.id b = true := by simp [keeps, isNewer, newer, bNotA]
  obtain ⟨w1, run1, held1⟩ := set.insert_under holds (fun x inside => (listed x inside).1) inA (fresh a pa) linkA
  rw [show after = [] ++ after from rfl, placed_old p a.id [a] [] after (by simp) old] at held1
  have members1 : ∀ x, x ∈ (pre ++ (front ++ p :: a :: after) :: post).flatten ↔
      x = a ∨ x ∈ (pre ++ (front ++ p :: after) :: post).flatten := by
    intro x
    simp only [flatten_append, flatten_cons, mem_append, mem_cons]
    grind
  have inS1 : ∀ x ∈ (pre ++ (front ++ p :: a :: after) :: post).flatten, x ∈ S := fun x inside =>
    ((members1 x).mp inside).elim (fun same => same ▸ inA) (fun before => (listed x before).1)
  have oldA : ∀ x ∈ after, x.id.timestamp ≤ a.id.timestamp := fun x inside =>
    (old x inside).trans (le_of_lt pa)
  have shape : ∀ x : List (Atom T), front ++ p :: a :: x = (front ++ [p]) ++ a :: x := by simp
  constructor
  · have held1' : Holds w1 (pre ++ ((front ++ [p]) ++ a :: after) :: post) := shape after ▸ held1
    obtain ⟨w2, run2, held2⟩ := set.insert_under held1' (by rw [← shape]; exact inS1) inC (by
      rw [← shape, members1]
      exact fun inside => inside.elim ca (fresh c (pa.trans ac))) linkC
    rw [show after = [] ++ after from rfl, placed_old a c.id [c] [] after (by simp) oldA, ← shape] at held2
    have members2 : ∀ x, x ∈ (pre ++ (front ++ p :: a :: c :: after) :: post).flatten ↔
        x = c ∨ x ∈ (pre ++ (front ++ p :: a :: after) :: post).flatten := by
      intro x
      simp only [flatten_append, flatten_cons, mem_append, mem_cons]
      grind
    obtain ⟨w3, run3, held3⟩ := set.insert_under held2 (fun x inside =>
        ((members2 x).mp inside).elim (fun same => same ▸ inC) (inS1 x)) inB (by
      rw [nil_append, List.singleton_append, members2, members1]
      exact fun inside => inside.elim (Ne.symm cb) (fun rest => rest.elim (Ne.symm ba) (fresh b pb))) linkB
    have final : placed p b.id [b] ([a, c] ++ after) = [a, c] ++ [b] ++ after :=
      placed_old p b.id [b] [a, c] after (by simp [keepsA, keepsC]) old
    refine ⟨w3, ?_, ?_⟩
    · rw [insertAll_cons _ a _ _ _ run1, insertAll_cons _ c _ _ _ run2, insertAll_cons _ b _ _ _ run3]
      rfl
    · simp only [cons_append, nil_append] at final held3
      rw [final] at held3
      exact held3
  · obtain ⟨w2, run2, held2⟩ := set.insert_under held1 inS1 inB (by
      rw [nil_append, List.singleton_append, members1]
      exact fun inside => inside.elim (Ne.symm ba) (fresh b pb)) linkB
    have placedB : placed p b.id [b] ([a] ++ after) = [a] ++ [b] ++ after :=
      placed_old p b.id [b] [a] after (by simp [keepsA]) old
    simp only [cons_append, nil_append] at placedB held2
    rw [placedB] at held2
    have members2 : ∀ x, x ∈ (pre ++ (front ++ p :: a :: b :: after) :: post).flatten ↔
        x = b ∨ x ∈ (pre ++ (front ++ p :: a :: after) :: post).flatten := by
      intro x
      simp only [flatten_append, flatten_cons, mem_append, mem_cons]
      grind
    have held2' : Holds w2 (pre ++ ((front ++ [p]) ++ a :: b :: after) :: post) := shape _ ▸ held2
    obtain ⟨w3, run3, held3⟩ := set.insert_under held2' (by
        rw [← shape]
        exact fun x inside => ((members2 x).mp inside).elim (fun same => same ▸ inB) (inS1 x)) inC (by
      rw [← shape, members2, members1]
      exact fun inside => inside.elim cb (fun rest => rest.elim ca (fresh c (pa.trans ac)))) linkC
    have final : placed a c.id [c] ([b] ++ after) = [b] ++ [c] ++ after :=
      placed_old a c.id [c] [b] after (by simp [keepsB]) oldA
    refine ⟨w3, ?_, ?_⟩
    · rw [insertAll_cons _ a _ _ _ run1, insertAll_cons _ b _ _ _ run2, insertAll_cons _ c _ _ _ run3]
      rfl
    · simp only [cons_append, nil_append] at final held3
      rw [final, ← shape] at held3
      exact held3

end Overtaken

def upTo (S : List (Atom T)) (time : Int) : List (Atom T) :=
  byTime (S.filter (fun x => decide (x.id.timestamp ≤ time)))

open Classical in
noncomputable def laterWithout (S : List (Atom T)) (time : Int) (these : List (Atom T)) :
    List (Atom T) :=
  byTime (S.filter (fun x => decide (time < x.id.timestamp ∧ x ∉ these)))

theorem mem_upTo (time : Int) (x : Atom T) : x ∈ upTo S time ↔ x ∈ S ∧ x.id.timestamp ≤ time := by
  rw [upTo, (byTime_perm _).mem_iff, List.mem_filter, decide_eq_true_eq]

theorem mem_laterWithout (time : Int) (these : List (Atom T)) (x : Atom T) :
    x ∈ laterWithout S time these ↔ x ∈ S ∧ time < x.id.timestamp ∧ x ∉ these := by
  classical
  rw [laterWithout, (byTime_perm _).mem_iff, List.mem_filter, decide_eq_true_eq]

theorem CausalSet.upTo_causal (set : CausalSet getHash S) (time : Int) : CausesFirst (upTo S time) := by
  refine causesFirst_append [] (upTo S time) (fun pre x post split => by simp at split)
    (byTime_ordered _) (fun x member cause caused => ?_)
  obtain ⟨inS, early⟩ := (mem_upTo time x).mp member
  obtain ⟨q, found, named⟩ := set.closed x inS cause caused
  have older := set.newer x inS q found (caused ▸ named)
  exact ⟨q, (mem_upTo time q).mpr ⟨found, (le_of_lt older).trans early⟩, named, .inr older⟩

theorem CausalSet.byTime_causal (set : CausalSet getHash S) : CausesFirst (byTime S) := by
  apply causesFirst_append [] (byTime S) (fun pre x post split => by simp at split) (byTime_ordered _)
  intro x member cause caused
  have inS := (byTime_perm S).mem_iff.mp member
  obtain ⟨q, found, named⟩ := set.closed x inS cause caused
  have older := set.newer x inS q found (caused ▸ named)
  exact ⟨q, (byTime_perm S).mem_iff.mpr found, named, .inr older⟩

theorem causesFirst_concat (base : List (Atom T)) (x p : Atom T) (causal : CausesFirst base)
    (member : p ∈ base) (link : idEquals x.cause (some p.id) = true) : CausesFirst (base ++ [x]) := by
  refine causesFirst_append base [x] causal (by simp) (fun y isX cause caused => ?_)
  obtain rfl := mem_singleton.mp isX
  exact ⟨p, mem_append_left _ member, caused ▸ link, .inl member⟩

theorem CausalSet.order_of (set : CausalSet getHash S) (time : Int) (these : List (Atom T))
    (members : ∀ x ∈ these, x ∈ S ∧ time < x.id.timestamp) (distinct : these.Nodup)
    (causal : CausesFirst (upTo S time ++ these)) :
    ((upTo S time ++ these) ++ laterWithout S time these).Perm S ∧
      CausesFirst ((upTo S time ++ these) ++ laterWithout S time these) := by
  constructor
  · have nodup : ((upTo S time ++ these) ++ laterWithout S time these).Nodup := by
      refine nodup_append.mpr ⟨nodup_append.mpr ⟨?_, distinct, ?_⟩, ?_, ?_⟩
      · exact (byTime_perm _).nodup_iff.mpr (set.nodup.filter _)
      · rintro x early _ later rfl
        exact absurd ((mem_upTo time x).mp early).2 (not_le.mpr (members x later).2)
      · exact (byTime_perm _).nodup_iff.mpr (set.nodup.filter _)
      · rintro x member _ later rfl
        obtain ⟨_, above, out⟩ := (mem_laterWithout time these x).mp later
        rcases mem_append.mp member with early | inThese
        · exact absurd ((mem_upTo time x).mp early).2 (not_le.mpr above)
        · exact out inThese
    refine (List.perm_ext_iff_of_nodup nodup set.nodup).mpr fun x => ?_
    rw [mem_append, mem_append, mem_upTo, mem_laterWithout]
    constructor
    · rintro ((⟨inS, _⟩ | inThese) | ⟨inS, _⟩)
      · exact inS
      · exact (members x inThese).1
      · exact inS
    · intro inS
      by_cases early : x.id.timestamp ≤ time
      · exact .inl (.inl ⟨inS, early⟩)
      · by_cases inThese : x ∈ these
        · exact .inl (.inr inThese)
        · exact .inr ⟨inS, not_le.mp early, inThese⟩
  · refine causesFirst_append _ _ causal (byTime_ordered _) (fun x member cause caused => ?_)
    obtain ⟨inS, above, _⟩ := (mem_laterWithout time these x).mp member
    obtain ⟨q, found, named⟩ := set.closed x inS cause caused
    have older := set.newer x inS q found (caused ▸ named)
    refine ⟨q, ?_, named, .inr older⟩
    rw [mem_append, mem_append, mem_upTo, mem_laterWithout]
    by_cases early : q.id.timestamp ≤ time
    · exact .inl (.inl ⟨found, early⟩)
    · by_cases inThese : q ∈ these
      · exact .inl (.inr inThese)
      · exact .inr ⟨found, not_le.mp early, inThese⟩

/-- What a complete run makes of a list that it held on the way. -/
theorem CausalSet.finish (set : CausalSet getHash S) (start : Weave T) (done rest : List (Atom T))
    {lists : List (List (Atom T))} (run : insertAll getHash start done = .ok w) (holds : Holds w lists)
    (same : lists.flatten.Perm done) (whole : (done ++ rest).Perm S)
    (causal : CausesFirst (done ++ rest)) (l : List (Atom T)) (member : l ∈ lists) (rooted : Rooted l) :
    ∃ w' root tail, insertAll getHash start (done ++ rest) = .ok w' ∧ l.head? = some root ∧
      l.Sublist (root :: tail) ∧ (root :: tail).Nodup ∧ root ∈ S ∧ root.cause = none ∧
      listAt w' root = some (root :: tail) := by
  obtain ⟨w', lists', run', holds', steps⟩ := set.run holds done rest same
    (fun a inside => whole.mem_iff.mp inside) (whole.nodup_iff.mpr set.nodup) causal
  obtain ⟨root, others, rfl, noCause, _⟩ := rooted
  obtain ⟨l', present, sub, head⟩ := steps.extends _ member (by simp)
  obtain ⟨tail, rfl⟩ : ∃ tail, l' = root :: tail := by
    cases l' with
    | nil => simp at head
    | cons x tail => exact ⟨tail, by simpa using head⟩
  have all : lists'.flatten.Perm S := steps.perm.trans ((same.append_right rest).trans whole)
  refine ⟨w', root, tail, (insertAll_append start w done rest run).trans run', rfl, sub, ?_, ?_,
    noCause, listAt_holds holds' root tail present⟩
  · have nodup := all.nodup_iff.mpr set.nodup
    obtain ⟨before, after, rfl⟩ := append_of_mem present
    rw [flatten_append, flatten_cons] at nodup
    exact (nodup_append.mp (nodup_append.mp nodup).2.1).1
  · exact all.mem_iff.mp (mem_flatten.mpr ⟨_, present, mem_cons_self⟩)

theorem CausalSet.not_converges (set : CausalSet getHash S) (overtaken : Overtaken S) : ¬ Converges getHash S := by
  obtain ⟨a, inA, b, inB, c, inC, hasCause, siblings, sorted, newer, linkC⟩ := overtaken
  obtain ⟨cause, caused⟩ := Option.ne_none_iff_exists'.mp hasCause
  obtain ⟨p, inP, named⟩ := set.closed a inA cause caused
  have linkA : idEquals a.cause (some p.id) = true := caused ▸ named
  have linkB : idEquals b.cause (some p.id) = true :=
    idEquals_trans _ _ _ (idEquals_symm _ _ siblings) linkA
  have pa := set.newer a inA p inP linkA
  have pb := set.newer b inB p inP linkB
  have ac := set.newer c inC a inA linkC
  have ab : a ≠ b := fun same => absurd newer (same ▸ lt_irrefl _)
  have ca : c ≠ a := fun same => absurd ac (same ▸ lt_irrefl _)
  have cb : c ≠ b := by
    rintro rfl
    have equal := set.unique p a inP inA (idEquals_trans _ _ _ (idEquals_symm _ _ linkB) linkC)
    exact absurd pa (equal ▸ lt_irrefl _)
  -- everything up to the time of `p` comes first, so `p` is the newest atom of its list
  have start := set.upTo_causal p.id.timestamp
  have inStart : p ∈ upTo S p.id.timestamp := (mem_upTo _ p).mpr ⟨inP, le_rfl⟩
  obtain ⟨w, lists, run, holds, steps⟩ := set.run (holds_new none) [] (upTo S p.id.timestamp) (by simp)
    (fun x inside => ((mem_upTo _ x).mp (by simpa using inside)).1)
    ((byTime_perm _).nodup_iff.mpr (set.nodup.filter _)) start
  have same : lists.flatten.Perm (upTo S p.id.timestamp) := by simpa using steps.perm
  obtain ⟨l, present, inside⟩ := mem_flatten.mp (same.mem_iff.mpr inStart)
  have rooted := steps.rooted (by simp) l present
  obtain ⟨pre, post, rfl⟩ := append_of_mem present
  obtain ⟨front, after, rfl⟩ := append_of_mem inside
  obtain ⟨⟨w1, run1, held1⟩, w2, run2, held2⟩ := set.add_three holds
    (fun x inX => (mem_upTo _ x).mp (same.mem_iff.mp inX)) inA inB inC linkA linkB linkC sorted newer
  have causal1 : CausesFirst (upTo S p.id.timestamp ++ [a, c, b]) := by
    have step1 := causesFirst_concat _ a p start inStart linkA
    have step2 := causesFirst_concat _ c a step1 (by simp) linkC
    simpa using causesFirst_concat _ b p step2 (by simp [inStart]) linkB
  have causal2 : CausesFirst (upTo S p.id.timestamp ++ [a, b, c]) := by
    have step1 := causesFirst_concat _ a p start inStart linkA
    have step2 := causesFirst_concat _ b p step1 (by simp [inStart]) linkB
    simpa using causesFirst_concat _ c a step2 (by simp) linkC
  have later : ∀ x ∈ [a, c, b], x ∈ S ∧ p.id.timestamp < x.id.timestamp := by
    simp [inA, inB, inC, pa, pb, pa.trans ac]
  have order1 := set.order_of p.id.timestamp [a, c, b] later (by simp [ab, Ne.symm ca, cb]) causal1
  have order2 := set.order_of p.id.timestamp [a, b, c]
    (fun x inX => later x (by simpa [or_comm, or_assoc, or_left_comm] using inX))
    (by simp [ab, Ne.symm ca, Ne.symm cb]) causal2
  have flat : ∀ these : List (Atom T), (pre ++ (front ++ p :: (these ++ after)) :: post).flatten.Perm
        (upTo S p.id.timestamp ++ these) := by
    intro these
    refine List.Perm.trans ?_ (same.append_right these)
    simp only [flatten_append, flatten_cons, List.append_assoc, cons_append]
    refine ((List.Perm.cons p ?_).append_left front).append_left _
    calc
      (these ++ (after ++ post.flatten)).Perm ((after ++ post.flatten) ++ these) :=
        List.perm_append_comm
      _ = after ++ (post.flatten ++ these) := List.append_assoc ..
  have rootedWith : ∀ these : List (Atom T), (∀ x ∈ these, x.cause ≠ none) →
      Rooted (front ++ p :: (these ++ after)) := by
    intro these caused'
    obtain ⟨root, rest, split, noCause, others⟩ := rooted
    cases front with
    | nil =>
      obtain ⟨rfl, rfl⟩ := List.cons.inj split
      exact ⟨p, _, rfl, noCause, fun x inX =>
        (mem_append.mp inX).elim (caused' x) (others x)⟩
    | cons first front =>
      obtain ⟨rfl, rfl⟩ := List.cons.inj split
      refine ⟨first, _, rfl, noCause, fun x inX => ?_⟩
      rcases mem_append.mp inX with old | tail
      · exact others x (mem_append_left _ old)
      · rcases mem_cons.mp tail with rfl | tail
        · exact others x (by simp)
        · exact (mem_append.mp tail).elim (caused' x) (fun old => others x (by simp [old]))
  have causes : ∀ x q : Atom T, idEquals x.cause (some q.id) = true → x.cause ≠ none := by
    intro x q link
    obtain ⟨_, shown, _⟩ := idEquals_cause _ _ link
    simp [shown]
  have noneRoot1 : ∀ x ∈ [a, c, b], x.cause ≠ none := by
    simp [causes a p linkA, causes b p linkB, causes c a linkC]
  have noneRoot2 : ∀ x ∈ [a, b, c], x.cause ≠ none := by
    simp [causes a p linkA, causes b p linkB, causes c a linkC]
  obtain ⟨f1, root, tail1, final1, head1, sub1, nodup1, inRoot, noCause, at1⟩ := set.finish
    (Weave.new none) _ (laterWithout S p.id.timestamp [a, c, b])
    ((insertAll_append _ w _ _ run).trans run1) held1 (flat [a, c, b]) order1.1 order1.2 _
    (mem_append_right _ mem_cons_self) (rootedWith [a, c, b] noneRoot1)
  obtain ⟨f2, root2, tail2, final2, head2, sub2, nodup2, _, _, at2⟩ := set.finish
    (Weave.new none) _ (laterWithout S p.id.timestamp [a, b, c])
    ((insertAll_append _ w _ _ run).trans run2) held2 (flat [a, b, c]) order2.1 order2.2 _
    (mem_append_right _ mem_cons_self) (rootedWith [a, b, c] noneRoot2)
  have sameRoot : root = root2 := by
    have heads : (front ++ p :: a :: c :: b :: after).head? = (front ++ p :: a :: b :: c :: after).head? := by
      cases front <;> rfl
    rw [head1, head2] at heads
    exact Option.some.inj heads
  subst sameRoot
  intro converges
  obtain ⟨g1, g2, l, again1, again2, got1, got2⟩ := converges none none _ _ order1.1 order1.2 order2.1
    order2.2 root inRoot noCause
  rw [final1, Except.ok.injEq] at again1
  rw [final2, Except.ok.injEq] at again2
  subst again1
  subst again2
  have equal : root :: tail1 = root :: tail2 := Option.some.inj ((at1.symm.trans got1).trans (got2.symm.trans at2))
  rw [← equal] at sub2
  refine not_both_orders _ nodup1 b c (List.Sublist.trans ?_ sub1) (List.Sublist.trans ?_ sub2)
  · exact (((((List.nil_sublist after).cons_cons b).cons_cons c).cons a).cons p).trans
      (List.sublist_append_right front _)
  · exact (((((List.nil_sublist after).cons_cons c).cons_cons b).cons a).cons p).trans
      (List.sublist_append_right front _)

/-- A set converges exactly when no atom with a child has a newer later sibling. -/
theorem weave_converges_iff (S : List (Atom T)) (set : CausalSet getHash S) :
    Converges getHash S ↔ ¬ Overtaken S :=
  ⟨fun converges overtaken => set.not_converges overtaken converges, fun good => set.converges good⟩

section Sample

def sampleRoot : Atom Unit := newAtom unitHash (sampleId 1 .undefined) none ()

/-- An atom that is sorted first for its priority, and is older than its sibling. -/
def samplePrior : Atom Unit := newAtom unitHash (sampleId 5 (.value 1)) (some sampleRoot) ()

def sampleSibling : Atom Unit := newAtom unitHash (sampleId 10 .undefined) (some sampleRoot) ()

def sampleChild : Atom Unit := newAtom unitHash (sampleId 6 .undefined) (some samplePrior) ()

def sampleSet : List (Atom Unit) := [sampleRoot, samplePrior, sampleChild, sampleSibling]

theorem sampleSet_causal : CausalSet unitHash sampleSet where
  distinct := by decide +kernel
  simple := by decide +kernel
  closed := by
    have causes : ∀ a ∈ sampleSet, ∀ cause ∈ a.cause, ∃ p ∈ sampleSet,
        idEquals (some cause) (some p.id) = true := by decide +kernel
    exact fun a member cause caused => causes a member cause caused
  rootHash := by decide +kernel
  childHash := by decide +kernel
  newer := by decide +kernel

theorem sampleSet_overtaken : Overtaken sampleSet := by decide +kernel

/-- The child of an atom with a priority may come before or after the newer sibling. -/
theorem sampleSet_not_converges : Function.Injective unitHash ∧ CausalSet unitHash sampleSet ∧
    ¬ Converges unitHash sampleSet :=
  ⟨unitHash_injective, sampleSet_causal, sampleSet_causal.not_converges sampleSet_overtaken⟩

theorem sampleSet_converges_iff : Converges unitHash sampleSet ↔ ¬ Overtaken sampleSet :=
  weave_converges_iff sampleSet sampleSet_causal

end Sample

end CasualOS.Convergence
