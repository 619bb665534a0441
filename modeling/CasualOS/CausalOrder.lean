import CasualOS.Lib.PathOrder
import CasualOS.WeaveHeap
import Mathlib.Data.Prod.Lex

/-! The lists of a weave as causal trees in preorder: siblings by priority, then newest first, then by
site. -/

namespace CasualOS.CausalOrder

open PathOrder WeaveHeap

variable {T : Type}

abbrev Key := ℤᵒᵈ ×ₗ ℤᵒᵈ ×ₗ JsString

def key (id : AtomId) : Key :=
  toLex (OrderDual.toDual (getPriority id), toLex (OrderDual.toDual id.timestamp, id.site))

theorem key_lt (a b : AtomId) : key a < key b ↔ getPriority b < getPriority a ∨ getPriority a = getPriority b ∧
      (b.timestamp < a.timestamp ∨ a.timestamp = b.timestamp ∧ a.site < b.site) := by
  simp only [key, Prod.Lex.toLex_lt_toLex, OrderDual.toDual_lt_toDual, EmbeddingLike.apply_eq_iff_eq]

theorem key_eq (a b : AtomId) : key a = key b ↔
    getPriority a = getPriority b ∧ a.timestamp = b.timestamp ∧ a.site = b.site := by
  simp only [key, EmbeddingLike.apply_eq_iff_eq, Prod.mk.injEq]

theorem compare_neg (a b : AtomId) : compareAtomIds a b < 0 ↔ key a < key b := by
  rw [key_lt, compareAtomIds]
  rcases lt_trichotomy (getPriority a) (getPriority b) with h | h | h
  · simp [h, not_lt.mpr (le_of_lt h), ne_of_lt h]
  · rcases lt_trichotomy a.timestamp b.timestamp with t | t | t
    · simp [h, t, not_lt.mpr (le_of_lt t), ne_of_lt t]
    · rcases lt_trichotomy a.site b.site with s | s | s
      · simp [h, t, s]
      · simp [h, t, s]
      · simp [h, t, s, not_lt.mpr (le_of_lt s)]
    · simp [h, t, Ne.symm (ne_of_lt t)]
  · simp [h, Ne.symm (ne_of_lt h)]

theorem idEquals_iff (a b : AtomId) : idEquals (some a) (some b) = true ↔
    b.site = a.site ∧ b.timestamp = a.timestamp ∧ b.priority.get? = a.priority.get? ∧
      b.cardinality.get? = a.cardinality.get? := by
  simp [idEquals, and_assoc]

theorem idEquals_cause (cause : Option AtomId) (p : AtomId) (same : idEquals cause (some p) = true) :
    ∃ c, cause = some c ∧ idEquals (some c) (some p) = true := by
  cases cause with
  | none => simp [idEquals] at same
  | some c => exact ⟨c, rfl, same⟩

theorem idEquals_refl (a : Option AtomId) : idEquals a a = true := by
  cases a <;> simp [idEquals]

theorem idEquals_symm (a b : Option AtomId) (same : idEquals a b = true) : idEquals b a = true := by
  cases a <;> cases b <;> simp_all [idEquals]

theorem idEquals_trans (a b c : Option AtomId) (first : idEquals a b = true)
    (second : idEquals b c = true) : idEquals a c = true := by
  cases a <;> cases b <;> cases c <;> simp_all [idEquals]

theorem idEquals_string (a b : AtomId) (same : idEquals (some a) (some b) = true) :
    atomIdToString a = atomIdToString b := by
  obtain ⟨site, timestamp, priority, cardinality⟩ := (idEquals_iff a b).mp same
  simp only [atomIdToString, site, timestamp, priority, cardinality]

/-- Without cardinality the sort key decides the id string. -/
theorem string_of_key (a b : AtomId) (left : a.cardinality.get? = none)
    (right : b.cardinality.get? = none) (same : key a = key b) : atomIdToString a = atomIdToString b := by
  have shown : ∀ id : AtomId, id.cardinality.get? = none → atomIdToString id =
      let str := id.site ++ JsString.lit ['@'] ++ JsString.ofInt id.timestamp
      if getPriority id = 0 then str
      else str ++ JsString.lit [':'] ++ JsString.ofInt (getPriority id) := by
    rintro ⟨site, timestamp, priority, cardinality⟩ simple
    cases priority <;> cases cardinality <;> simp_all [atomIdToString, getPriority, Field.get?]
  obtain ⟨priority, timestamp, site⟩ := (key_eq a b).mp same
  simp only [shown a left, shown b right, priority, timestamp, site]

/-- `c` is a child of `p`, with the path of one. -/
structure ChildOf (path : Atom T → List Key) (c p : Atom T) : Prop where
  caused : idEquals c.cause (some p.id) = true
  newer : p.id.timestamp < c.id.timestamp
  path : path c = path p ++ [key c.id]

/-- A list in the preorder of its causal tree. -/
structure CausalList (path : Atom T → List Key) (l : List (Atom T)) : Prop where
  ordered : l.Pairwise (fun x y => path x < path y)
  parent : ∀ a ∈ l, l.head? = some a ∨ ∃ p ∈ l, ChildOf path a p
  unique : ∀ x ∈ l, ∀ y ∈ l, idEquals (some x.id) (some y.id) = true → x = y

variable {path : Atom T → List Key} {l front after : List (Atom T)} {x y : Atom T}

theorem CausalList.preordered (tree : CausalList path l) : Preordered path l where
  ordered := tree.ordered
  parent a member := (tree.parent a member).imp id
    (fun ⟨p, found, child⟩ => ⟨p, found, key a.id, child.path⟩)

theorem CausalList.congr {path' : Atom T → List Key} (tree : CausalList path l)
    (same : ∀ a ∈ l, path' a = path a) : CausalList path' l where
  ordered := tree.ordered.imp_of_mem (fun {a b} left right less => by
    rw [same a left, same b right]
    exact less)
  parent a member := (tree.parent a member).imp id (fun ⟨p, found, child⟩ =>
    ⟨p, found, child.caused, child.newer, by rw [same a member, same p found, child.path]⟩)
  unique := tree.unique

theorem CausalList.parent_of_path (tree : CausalList path l) (h : Atom T)
    (head : l.head? = some h) (member : x ∈ l) (s : List Key) (k : Key) (longer : path x = s ++ [k])
    (base : path h <+: s) : ∃ p ∈ l, ChildOf path x p ∧ path p = s ∧ k = key x.id := by
  rcases tree.parent x member with first | ⟨p, found, child⟩
  · rw [head, Option.some.injEq] at first
    subst first
    have short := base.length_le
    rw [longer, List.length_append, List.length_singleton] at short
    exact absurd short (Nat.not_succ_le_self _)
  · obtain ⟨same, last⟩ := List.append_inj' (child.path.symm.trans longer) rfl
    exact ⟨p, found, child, same, (List.singleton_inj.mp last).symm⟩

theorem CausalList.newer (tree : CausalList path l) (left : x ∈ l) (right : y ∈ l)
    (inside : path x <+: path y) (apart : path x ≠ path y) : x.id.timestamp < y.id.timestamp := by
  suffices bounded : ∀ n, ∀ y ∈ l, (path y).length ≤ n → path x <+: path y → path x ≠ path y →
      x.id.timestamp < y.id.timestamp from bounded _ y right le_rfl inside apart
  clear right inside apart
  intro n
  induction n with
  | zero =>
    intro y _ short inside apart
    rw [List.length_eq_zero_iff.mp (Nat.le_zero.mp short), List.prefix_nil] at inside
    exact absurd (inside.trans (List.length_eq_zero_iff.mp (Nat.le_zero.mp short)).symm) apart
  | succ n ih =>
    intro y member short inside apart
    rcases tree.parent y member with first | ⟨p, found, child⟩
    · exact absurd (inside.eq_of_length_le (tree.preordered.head_prefix y first x left).length_le) apart
    · rw [child.path, List.prefix_concat_iff] at inside
      rcases inside with whole | within
      · exact absurd (whole.trans child.path.symm) apart
      · by_cases same : path x = path p
        · exact tree.preordered.injective x p left found same ▸ child.newer
        · exact (ih p found (by simpa [child.path] using short) within same).trans child.newer

/-- No later sibling of `x` or of an ancestor of `x` is newer than it. -/
def Settled (path : Atom T → List Key) (l : List (Atom T)) (x : Atom T) : Prop :=
  ∀ p ∈ l, ∀ a ∈ l, ∀ b ∈ l, ChildOf path a p → ChildOf path b p → path a <+: path x →
    key a.id < key b.id → b.id.timestamp ≤ a.id.timestamp

/-- The first atom after a subtree is a later sibling of an atom whose subtree has ended. -/
theorem CausalList.first_outside (tree : CausalList path (front ++ x :: after)) {rest : List (Atom T)}
    (outside : after.dropWhile (under path x) = y :: rest) :
    ∃ p ∈ front ++ x :: after, ∃ a ∈ front ++ x :: after, ChildOf path a p ∧ ChildOf path y p ∧
      path a <+: path x ∧ key a.id < key y.id := by
  obtain ⟨h, head⟩ := exists_head front after x
  obtain ⟨s, k, k', t, pathX, pathY, less, base, a, inA, pathA⟩ :=
    tree.preordered.first_outside head outside
  have inY : y ∈ front ++ x :: after := by
    have inDrop : y ∈ after.dropWhile (under path x) := by simp [outside]
    simp [(List.dropWhile_sublist _).subset inDrop]
  obtain ⟨p, inP, childA, pathP, rfl⟩ := tree.parent_of_path h head inA s k pathA base
  obtain ⟨q, inQ, childY, pathQ, rfl⟩ := tree.parent_of_path h head inY s k' pathY base
  have same : q = p := tree.preordered.injective q p inQ inP (pathQ.trans pathP.symm)
  subst same
  refine ⟨q, inP, a, inA, childA, childY, ?_, less⟩
  rw [pathA, pathX]
  exact ⟨t, by simp⟩

theorem CausalList.group_eq (tree : CausalList path (front ++ x :: after))
    (settled : Settled path (front ++ x :: after) x) :
    after.takeWhile (isNewer x.id.timestamp) = after.takeWhile (under path x) ∧
      after.dropWhile (isNewer x.id.timestamp) = after.dropWhile (under path x) := by
  refine run_eq _ _ after (fun y member inside => ?_) (fun y rest outside => ?_)
  · have above := ordered_after tree.ordered y member
    exact decide_eq_true (tree.newer (by simp) (by simp [member]) ((under_iff x y).mp inside) (ne_of_lt above))
  · obtain ⟨p, inP, a, inA, childA, childY, within, less⟩ := tree.first_outside outside
    have inDrop : y ∈ after.dropWhile (under path x) := by simp [outside]
    have inY : y ∈ front ++ x :: after := by simp [(List.dropWhile_sublist _).subset inDrop]
    have notNewer := settled p inP a inA y inY childA childY within less
    have aOld : a.id.timestamp ≤ x.id.timestamp := by
      by_cases same : path a = path x
      · rw [tree.preordered.injective a x inA (by simp) same]
      · exact le_of_lt (tree.newer inA (by simp) within same)
    exact decide_eq_false (not_lt.mpr (notNewer.trans aOld))

/-- The scan under a settled cause finds the place that the paths ask for. -/
theorem CausalList.scan_eq {cause : Atom T} (id : AtomId) (tree : CausalList path (front ++ cause :: after))
    (settled : Settled path (front ++ cause :: after) cause)
    (free : ∀ y ∈ after, ¬ path cause ++ [key id] <+: path y) :
    after.takeWhile (keeps cause id) = after.takeWhile (before path (path cause ++ [key id])) ∧
      after.dropWhile (keeps cause id) = after.dropWhile (before path (path cause ++ [key id])) := by
  refine tree.preordered.scan (keeps cause id) free ?_ ?_ ?_
  · intro y member inside lower
    have inY : y ∈ front ++ cause :: after := by simp [member]
    have newer := tree.newer (by simp) inY inside (ne_of_lt (ordered_after tree.ordered y member))
    have early : ¬ (idEquals y.cause (some cause.id) = true ∧ compareAtomIds id y.id < 0) := by
      rintro ⟨caused, sorted⟩
      rcases tree.parent y inY with first | ⟨q, inQ, child⟩
      · have back := (tree.preordered.head_prefix y first cause (by simp)).length_le
        exact ne_of_lt (ordered_after tree.ordered y member) (inside.eq_of_length_le back)
      · have same : q = cause := tree.unique q inQ cause (by simp)
          (idEquals_trans _ _ _ (idEquals_symm _ _ child.caused) caused)
        subst same
        rw [child.path] at lower
        exact lt_asymm lower (branch_lt ((compare_neg id y.id).mp sorted))
    simp only [keeps, isNewer, newer, decide_true, Bool.true_and, Bool.not_eq_true', Bool.and_eq_false_iff]
    by_cases caused : idEquals y.cause (some cause.id) = true
    · exact .inr (decide_eq_false (fun sorted => early ⟨caused, sorted⟩))
    · exact .inl (by simpa using caused)
  · intro y member k' longer less
    obtain ⟨h, head⟩ := exists_head front after cause
    obtain ⟨q, inQ, child, same, rfl⟩ := tree.parent_of_path h head (x := y) (by simp [member]) _ k'
      longer (tree.preordered.head_prefix h head cause (by simp))
    have equal : q = cause := tree.preordered.injective q cause inQ (by simp) same
    subst equal
    simp [keeps, child.caused, (compare_neg id y.id).mpr less]
  · intro y rest outside
    have ends := (tree.group_eq settled).2
    have stop : isNewer cause.id.timestamp y = false := by
      cases newer : isNewer cause.id.timestamp y with
      | false => rfl
      | true =>
        have kept : y ∈ after.dropWhile (isNewer cause.id.timestamp) := by simp [ends, outside]
        rw [outside] at ends
        have first := List.head?_dropWhile_not (isNewer cause.id.timestamp) after
        simp [ends, newer] at first
    simp [keeps, stop]

theorem CausalList.graft {cause start : Atom T} {s : List (Atom T)}
    (tree : CausalList path (front ++ cause :: after)) (block : CausalList path s)
    (settled : Settled path (front ++ cause :: after) cause) (first : s.head? = some start)
    (child : ChildOf path start cause) (free : ∀ y ∈ after, ¬ path start <+: path y)
    (apart : ∀ x ∈ s, ∀ y ∈ front ++ cause :: after, idEquals (some x.id) (some y.id) = false) :
    CausalList path (front ++ cause :: (after.takeWhile (keeps cause start.id) ++ s ++
      after.dropWhile (keeps cause start.id))) := by
  have scanned := tree.scan_eq start.id settled (child.path ▸ free)
  rw [← child.path] at scanned
  have placed := tree.preordered.graft block.preordered first child.path free
  rw [scanned.1, scanned.2]
  have split := List.takeWhile_append_dropWhile (p := before path (path start)) (l := after)
  have same : ∀ y, y ∈ front ++ cause :: (after.takeWhile (before path (path start)) ++ s ++
      after.dropWhile (before path (path start))) ↔ y ∈ s ∨ y ∈ front ++ cause :: after := by
    intro y
    have inAfter : y ∈ after ↔ y ∈ after.takeWhile (before path (path start)) ∨
        y ∈ after.dropWhile (before path (path start)) := by rw [← List.mem_append, split]
    simp only [List.mem_append, List.mem_cons, inAfter]
    grind
  have heads : (front ++ cause :: (after.takeWhile (before path (path start)) ++ s ++
      after.dropWhile (before path (path start)))).head? = (front ++ cause :: after).head? := by
    cases front <;> rfl
  refine ⟨placed.ordered, fun a member => ?_, fun x left y right equal => ?_⟩
  · rw [heads]
    rcases (same a).mp member with inS | old
    · refine .inr ?_
      rcases block.parent a inS with top | ⟨q, found, link⟩
      · rw [first, Option.some.injEq] at top
        exact ⟨cause, (same cause).mpr (.inr (by simp)), top ▸ child⟩
      · exact ⟨q, (same q).mpr (.inl found), link⟩
    · exact (tree.parent a old).imp id (fun ⟨q, found, link⟩ => ⟨q, (same q).mpr (.inr found), link⟩)
  · rcases (same x).mp left with xNew | xOld <;> rcases (same y).mp right with yNew | yOld
    · exact block.unique x xNew y yNew equal
    · simp [apart x xNew y yOld] at equal
    · exact absurd (idEquals_symm _ _ equal) (by simp [apart y yNew x xOld])
    · exact tree.unique x xOld y yOld equal

theorem CausalList.part {m : List (Atom T)} (tree : CausalList path l) (sub : m.Sublist l)
    (head : m.head? = l.head?) (closed : ∀ y ∈ m, ∀ p ∈ l, ChildOf path y p → p ∈ m) : CausalList path m where
  ordered := tree.ordered.sublist sub
  parent a member := by
    rw [head]
    exact (tree.parent a (sub.subset member)).imp id
      (fun ⟨p, found, child⟩ => ⟨p, closed a member p found child, child⟩)
  unique a left b right := tree.unique a (sub.subset left) b (sub.subset right)

theorem CausalList.cut (tree : CausalList path (front ++ x :: after)) (inner : front ≠ []) :
    CausalList path (front ++ after.dropWhile (under path x)) := by
  have sub : (front ++ after.dropWhile (under path x)).Sublist (front ++ x :: after) :=
    ((List.dropWhile_sublist _).trans (List.sublist_cons_self x after)).append_left front
  have heads : (front ++ after.dropWhile (under path x)).head? = (front ++ x :: after).head? := by
    obtain ⟨h, front, rfl⟩ := List.exists_cons_of_ne_nil inner
    rfl
  refine tree.part sub heads fun y member p inP child => ?_
  have out : ¬ path x <+: path y := by
    rcases List.mem_append.mp member with inFront | inDrop
    · intro inside
      exact absurd ((List.pairwise_append.mp tree.ordered).2.2 y inFront x List.mem_cons_self)
        (not_lt.mpr (le_of_start inside))
    · exact ((dropWhile_under tree.ordered y).mp inDrop).2
  have outP : ¬ path x <+: path p := fun inside =>
    out (child.path ▸ inside.trans (List.prefix_append _ _))
  rcases List.mem_append.mp inP with inFront | here
  · exact List.mem_append_left _ inFront
  · rcases List.mem_cons.mp here with rfl | later
    · exact absurd List.prefix_rfl outP
    · exact List.mem_append_right _ ((dropWhile_under tree.ordered p).mpr ⟨later, outP⟩)

end CasualOS.CausalOrder
