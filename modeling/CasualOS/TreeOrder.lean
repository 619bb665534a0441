import CasualOS.CausalOrder
import Mathlib.Data.List.Sort

/-! The causal tree of a list of atoms without priority, and its depth-first preorder. -/

namespace CasualOS.TreeOrder

open PathOrder CausalOrder
open List (mem_append mem_filter prefix_append)
open WeaveHeap (isSibling notOlder)

variable {T : Type}

/-- An id without priority and cardinality. -/
structure Plain (id : AtomId) : Prop where
  priority : id.priority.get? = none
  cardinality : id.cardinality = .undefined

structure PlainAtom (a : Atom T) : Prop where
  id : Plain a.id
  cause : ∀ cause, a.cause = some cause → Plain cause

/-- Siblings are in order: the newest first, then by site. -/
def inOrder (a b : Atom T) : Prop :=
  b.id.timestamp < a.id.timestamp ∨ a.id.timestamp = b.id.timestamp ∧ a.id.site ≤ b.id.site

instance (a b : Atom T) : Decidable (inOrder a b) :=
  inferInstanceAs (Decidable (b.id.timestamp < a.id.timestamp ∨
    a.id.timestamp = b.id.timestamp ∧ a.id.site ≤ b.id.site))

instance : Std.Total (inOrder (T := T)) := ⟨fun a b => by
  rcases lt_trichotomy a.id.timestamp b.id.timestamp with t | t | t
  · exact .inr (.inl t)
  · rcases le_total a.id.site b.id.site with s | s
    · exact .inl (.inr ⟨t, s⟩)
    · exact .inr (.inr ⟨t.symm, s⟩)
  · exact .inl (.inl t)⟩

instance : IsTrans (Atom T) inOrder := ⟨fun a b c first second => by
  rcases first with t | ⟨t, s⟩ <;> rcases second with t' | ⟨t', s'⟩
  · exact .inl (t'.trans t)
  · exact .inl (t' ▸ t)
  · exact .inl (t ▸ t')
  · exact .inr ⟨t.trans t', s.trans s'⟩⟩

def childrenOf (listed : List (Atom T)) (a : Atom T) : List (Atom T) :=
  (listed.filter (fun c => idEquals c.cause (some a.id))).insertionSort inOrder

/-- `a` and everything below it in the causal tree of the listed atoms, depth first; trees deeper than
`depth` are cut. -/
def preorder (listed : List (Atom T)) : Nat → Atom T → List (Atom T)
  | 0, _ => []
  | depth + 1, a => a :: (childrenOf listed a).flatMap (preorder listed depth)

def laterSiblings (listed : List (Atom T)) (a : Atom T) : List (Atom T) :=
  match a.cause with
  | none => []
  | some cause =>
    (listed.filter (fun c => idEquals c.cause (some cause) && !decide (inOrder c a))).insertionSort
      inOrder

theorem plain_key (a b : AtomId) (left : Plain a) (right : Plain b) :
    key a < key b ↔ b.timestamp < a.timestamp ∨ a.timestamp = b.timestamp ∧ a.site < b.site := by
  simp [key_lt, getPriority, left.priority, right.priority]

theorem key_of_inOrder (a b : Atom T) (left : Plain a.id) (right : Plain b.id) (sorted : inOrder a b)
    (apart : key a.id ≠ key b.id) : key a.id < key b.id := by
  rw [plain_key a.id b.id left right]
  rcases sorted with t | ⟨t, s⟩
  · exact .inl t
  · refine .inr ⟨t, lt_of_le_of_ne s fun same => apart ?_⟩
    rw [key_eq]
    exact ⟨by simp [getPriority, left.priority, right.priority], t, same⟩

theorem inOrder_of_key (a b : Atom T) (left : Plain a.id) (right : Plain b.id)
    (less : key a.id < key b.id) : inOrder a b := by
  rcases (plain_key a.id b.id left right).mp less with t | ⟨t, s⟩
  · exact .inl t
  · exact .inr ⟨t, le_of_lt s⟩

theorem idEquals_of_key (a b : AtomId) (left : Plain a) (right : Plain b) (same : key a = key b) :
    idEquals (some a) (some b) = true := by
  obtain ⟨_, timestamp, site⟩ := (key_eq a b).mp same
  exact (idEquals_iff a b).mpr ⟨site.symm, timestamp.symm, by rw [left.priority, right.priority],
    by rw [left.cardinality, right.cardinality]⟩

theorem idEquals_of_string (a b : AtomId) (left : Plain a) (right : Plain b)
    (same : atomIdToString a = atomIdToString b) : idEquals (some a) (some b) = true := by
  have shown : ∀ id : AtomId, Plain id →
      atomIdToString id = id.site ++ Fin.ofNat 65536 '@'.toNat :: JsString.ofInt id.timestamp := by
    intro id plain
    have bare : id.cardinality.get? = none := by
      rw [plain.cardinality]
      rfl
    simp [atomIdToString, plain.priority, bare, JsString.lit]
  have absent : ∀ n : Int, Fin.ofNat 65536 '@'.toNat ∉ JsString.ofInt n := by
    intro n member
    have code := JsString.ofInt_code n _ member
    exact absurd code (by decide)
  rw [shown a left, shown b right] at same
  obtain ⟨site, time⟩ := JsString.split_unique _ _ _ _ _ (absent _) (absent _) same
  refine (idEquals_iff a b).mpr ⟨site.symm, (JsString.ofInt_injective _ _ time).symm, ?_, ?_⟩
  · rw [left.priority, right.priority]
  · rw [left.cardinality, right.cardinality]

variable {path : Atom T → List Key} {l listed : List (Atom T)}

theorem settled_plain (plain : ∀ a ∈ l, Plain a.id) (x : Atom T) : Settled path l x := by
  intro p _ a inA b inB _ _ _ less
  rcases (plain_key a.id b.id (plain a inA) (plain b inB)).mp less with t | ⟨t, _⟩
  · exact le_of_lt t
  · exact le_of_eq t.symm

/-- A whole list of a weave among all the listed atoms: the tree of its root. -/
structure TreeList (path : Atom T → List Key) (listed l : List (Atom T)) : Prop where
  tree : CausalList path l
  plain : ∀ a ∈ l, Plain a.id
  root : ∀ a, l.head? = some a → a.cause = none
  sub : ∀ a ∈ l, a ∈ listed
  closed : ∀ c ∈ listed, ∀ a ∈ l, idEquals c.cause (some a.id) = true → c ∈ l

theorem TreeList.child_iff (list : TreeList path listed l) (a : Atom T) (member : a ∈ l) (c : Atom T) :
    c ∈ listed ∧ idEquals c.cause (some a.id) = true ↔ c ∈ l ∧ ∃ k, path c = path a ++ [k] := by
  obtain ⟨h, head⟩ : ∃ h, l.head? = some h := by
    cases l with
    | nil => cases member
    | cons h l => exact ⟨h, rfl⟩
  constructor
  · rintro ⟨found, caused⟩
    have inL := list.closed c found a member caused
    rcases list.tree.parent c inL with first | ⟨p, inP, child⟩
    · simp [list.root c first, idEquals] at caused
    · have same := list.tree.unique p inP a member (idEquals_trans _ _ _ (idEquals_symm _ _ child.caused) caused)
      exact ⟨inL, key c.id, same ▸ child.path⟩
  · rintro ⟨inL, k, longer⟩
    obtain ⟨p, inP, child, same, _⟩ := list.tree.parent_of_path h head inL _ k longer
      (list.tree.preordered.head_prefix h head a member)
    rw [list.tree.preordered.injective p a inP member same] at child
    exact ⟨list.sub c inL, child.caused⟩

theorem TreeList.key_unique (list : TreeList path listed l) (a b : Atom T) (left : a ∈ l)
    (right : b ∈ l) (same : key a.id = key b.id) : a = b :=
  list.tree.unique a left b right (idEquals_of_key _ _ (list.plain a left) (list.plain b right) same)

theorem TreeList.sorted_children (list : TreeList path listed l) (s : List Key) (cs : List (Atom T))
    (distinct : cs.Nodup) (sorted : cs.Pairwise inOrder)
    (children : ∀ c ∈ cs, c ∈ l ∧ path c = s ++ [key c.id]) : cs.Pairwise (fun x y => path x < path y) := by
  refine (List.pairwise_and_iff.mpr ⟨sorted, distinct⟩).imp_of_mem ?_
  rintro x y inX inY ⟨order, apart⟩
  obtain ⟨xL, pathX⟩ := children x inX
  obtain ⟨yL, pathY⟩ := children y inY
  rw [pathX, pathY, lt_append, List.cons_lt_cons_iff]
  refine .inl (key_of_inOrder x y (list.plain x xL) (list.plain y yL) order fun same => ?_)
  exact apart (list.key_unique x y xL yL same)

theorem TreeList.childrenOf (list : TreeList path listed l) (distinct : listed.Nodup) (a : Atom T)
    (member : a ∈ l) : (childrenOf listed a).Pairwise (fun x y => path x < path y) ∧
      ∀ c, c ∈ childrenOf listed a ↔ c ∈ l ∧ ∃ k, path c = path a ++ [k] := by
  have same := List.perm_insertionSort inOrder (listed.filter (fun c => idEquals c.cause (some a.id)))
  have exact : ∀ c, c ∈ TreeOrder.childrenOf listed a ↔ c ∈ l ∧ ∃ k, path c = path a ++ [k] := by
    intro c
    rw [TreeOrder.childrenOf, same.mem_iff, mem_filter]
    exact list.child_iff a member c
  obtain ⟨h, head⟩ : ∃ h, l.head? = some h := by
    cases l with
    | nil => cases member
    | cons h l => exact ⟨h, rfl⟩
  refine ⟨list.sorted_children (path a) _ (same.nodup_iff.mpr (distinct.filter _))
    (List.pairwise_insertionSort inOrder _) (fun c inside => ?_), exact⟩
  obtain ⟨inL, k, longer⟩ := (exact c).mp inside
  obtain ⟨_, _, _, _, rfl⟩ := list.tree.parent_of_path h head inL _ k longer
    (list.tree.preordered.head_prefix h head a member)
  exact ⟨inL, longer⟩

theorem TreeList.preorder_eq (list : TreeList path listed l) (distinct : listed.Nodup) (depth : Nat)
    (a : Atom T) (member : a ∈ l) (enough : (l.filter (under path a)).length ≤ depth) :
    preorder listed depth a = l.filter (under path a) := by
  induction depth generalizing a with
  | zero =>
    have inside : a ∈ l.filter (under path a) :=
      mem_filter.mpr ⟨member, (under_iff a a).mpr List.prefix_rfl⟩
    rw [List.length_eq_zero_iff.mp (Nat.le_zero.mp enough)] at inside
    cases inside
  | succ depth ih =>
    obtain ⟨sorted, exact⟩ := list.childrenOf distinct a member
    have split := list.tree.preordered.subtree a member _ sorted exact
    rw [split] at enough ⊢
    rw [preorder]
    refine congrArg (a :: ·) (List.flatMap_congr fun c inside => ?_)
    refine ih c ((exact c).mp inside).1 ?_
    have part : (l.filter (under path c)).length ≤ ((TreeOrder.childrenOf listed a).flatMap
        (fun c => l.filter (under path c))).length :=
      (List.sublist_flatten_of_mem
        (List.mem_map_of_mem (f := fun c => l.filter (under path c)) inside)).length_le
    simp only [List.length_cons] at enough
    omega

theorem TreeList.whole (list : TreeList path listed l) (distinct : listed.Nodup) (root : Atom T)
    (head : l.head? = some root) : l = preorder listed listed.length root := by
  have all : l.filter (under path root) = l := List.filter_eq_self.mpr fun y member =>
    (under_iff root y).mpr (list.tree.preordered.head_prefix root head y member)
  have nodup : l.Nodup := list.tree.ordered.imp
    (fun {x y} less (same : x = y) => absurd (same ▸ less) (lt_irrefl _))
  have short : l.length ≤ listed.length := (List.subperm_of_subset nodup list.sub).length_le
  rw [list.preorder_eq distinct listed.length root (List.mem_of_head? head) (all.symm ▸ short), all]

/-! ### Later siblings -/

section Siblings

variable {front after : List (Atom T)} {x p : Atom T}

theorem isOlderCause_iff (a b q r : Atom T) (first : idEquals a.cause (some q.id) = true)
    (second : idEquals b.cause (some r.id) = true) :
    isOlderCause a.cause b.cause = decide (q.id.timestamp < r.id.timestamp) := by
  obtain ⟨c, caused, named⟩ := idEquals_cause _ _ first
  obtain ⟨d, caused', named'⟩ := idEquals_cause _ _ second
  rw [caused, caused', isOlderCause, ((idEquals_iff c q.id).mp named).2.1, ((idEquals_iff d r.id).mp named').2.1]

theorem TreeList.parent_of (list : TreeList path listed (front ++ x :: after)) (y : Atom T)
    (member : y ∈ after) : ∃ q ∈ front ++ x :: after, ChildOf path y q := by
  rcases list.tree.parent y (by simp [member]) with first | found
  · obtain ⟨h, head⟩ := exists_head front after x
    rw [head, Option.some.injEq] at first
    have low := list.tree.preordered.head_prefix h head x (by simp)
    rw [first] at low
    exact absurd (ordered_after list.tree.ordered y member) (not_lt.mpr (le_of_start low))
  · exact found

theorem TreeList.sibling_iff (list : TreeList path listed (front ++ x :: after))
    (parent : p ∈ front ++ x :: after) (child : ChildOf path x p) (y : Atom T) :
    y ∈ listed ∧ idEquals y.cause x.cause = true ∧ ¬ inOrder y x ↔
      y ∈ front ++ x :: after ∧ ∃ k, path y = path p ++ [k] ∧ key x.id < k := by
  have inX : x ∈ front ++ x :: after := by simp
  obtain ⟨h, head⟩ := exists_head front after x
  constructor
  · rintro ⟨found, sibling, later⟩
    obtain ⟨inL, k, longer⟩ := (list.child_iff p parent y).mp ⟨found, idEquals_trans _ _ _ sibling child.caused⟩
    obtain ⟨_, _, _, _, rfl⟩ := list.tree.parent_of_path h head inL _ k longer
      (list.tree.preordered.head_prefix h head p parent)
    refine ⟨inL, key y.id, longer, ?_⟩
    rcases lt_trichotomy (key x.id) (key y.id) with less | same | more
    · exact less
    · rw [list.key_unique x y inX inL same] at later
      exact absurd (.inr ⟨rfl, le_rfl⟩) later
    · exact absurd (inOrder_of_key y x (list.plain y inL) (list.plain x inX) more) later
  · rintro ⟨inL, k, longer, less⟩
    obtain ⟨found, caused⟩ := (list.child_iff p parent y).mpr ⟨inL, k, longer⟩
    obtain ⟨_, _, _, _, rfl⟩ := list.tree.parent_of_path h head inL _ k longer
      (list.tree.preordered.head_prefix h head p parent)
    refine ⟨found, idEquals_trans _ _ _ caused (idEquals_symm _ _ child.caused), fun sorted => ?_⟩
    exact absurd (key_of_inOrder y x (list.plain y inL) (list.plain x inX) sorted
      (Ne.symm (ne_of_lt less))) (lt_asymm less)

theorem TreeList.laterSiblings_sorted (list : TreeList path listed (front ++ x :: after))
    (distinct : listed.Nodup) (parent : p ∈ front ++ x :: after) (child : ChildOf path x p) :
    (laterSiblings listed x).Pairwise (fun x y => path x < path y) ∧
      ∀ y, y ∈ laterSiblings listed x ↔ y ∈ front ++ x :: after ∧ ∃ k, path y = path p ++ [k] ∧ key x.id < k := by
  obtain ⟨cause, caused, _⟩ := idEquals_cause _ _ child.caused
  have same := List.perm_insertionSort inOrder
    (listed.filter (fun c => idEquals c.cause (some cause) && !decide (inOrder c x)))
  have exact : ∀ y, y ∈ laterSiblings listed x ↔
      y ∈ front ++ x :: after ∧ ∃ k, path y = path p ++ [k] ∧ key x.id < k := by
    intro y
    rw [← list.sibling_iff parent child y, caused]
    simp only [laterSiblings, caused, same.mem_iff, mem_filter, Bool.and_eq_true,
      Bool.not_eq_true', decide_eq_false_iff_not]
  obtain ⟨h, head⟩ := exists_head front after x
  refine ⟨?_, exact⟩
  refine list.sorted_children (path p) _ ?_ ?_ (fun c inside => ?_)
  · simp only [laterSiblings, caused]
    exact same.nodup_iff.mpr (distinct.filter _)
  · simp only [laterSiblings, caused]
    exact List.pairwise_insertionSort inOrder _
  · obtain ⟨inL, k, longer, _⟩ := (exact c).mp inside
    obtain ⟨_, _, _, _, rfl⟩ := list.tree.parent_of_path h head inL _ k longer
      (list.tree.preordered.head_prefix h head p parent)
    exact ⟨inL, longer⟩

/-- The search for siblings ends where the subtree of the parent ends. -/
theorem TreeList.notOlder_eq (list : TreeList path listed (front ++ x :: after))
    (parent : p ∈ front ++ x :: after) (child : ChildOf path x p) :
    after.takeWhile (notOlder x.cause) = after.takeWhile (within path (path p)) ∧
      after.dropWhile (notOlder x.cause) = after.dropWhile (within path (path p)) := by
  have pBelow : path p < path x := child.path ▸ lt_of_start (prefix_append _ _) (by simp)
  refine run_eq _ _ after (fun y member inside => ?_) (fun y rest outside => ?_)
  · obtain ⟨q, inQ, link⟩ := list.parent_of y member
    have low : path p <+: path q := by
      have inside' := (within_iff (path p) y).mp inside
      rw [link.path, List.prefix_concat_iff] at inside'
      refine inside'.resolve_left fun whole => ?_
      have above := pBelow.trans (ordered_after list.tree.ordered y member)
      exact ne_of_lt above (whole.trans link.path.symm)
    have time : p.id.timestamp ≤ q.id.timestamp := by
      by_cases same : path p = path q
      · rw [list.tree.preordered.injective p q parent inQ same]
      · exact le_of_lt (list.tree.newer parent inQ low same)
    simp [notOlder, isOlderCause_iff y x q p link.caused child.caused, not_lt.mpr time]
  · -- the atom after the subtree of `p` is caused by a proper ancestor of `p`
    obtain ⟨before, between, rfl⟩ : ∃ before between, front = before ++ p :: between := by
      rcases mem_append.mp parent with inFront | here
      · exact List.append_of_mem inFront
      · rcases List.mem_cons.mp here with rfl | later
        · exact absurd pBelow (lt_irrefl _)
        · exact absurd pBelow (lt_asymm (ordered_after list.tree.ordered p later))
    have tree := list.tree
    rw [List.append_assoc, List.cons_append] at tree
    have inside : ∀ z ∈ between ++ [x], under path p z = true := by
      intro z member
      rw [under_iff]
      by_contra out
      have lower : path p < path z := ordered_after tree.ordered z (by
        rcases mem_append.mp member with inB | isX
        · exact List.mem_append_left _ inB
        · exact List.mem_append_right _ (by simp [List.mem_singleton.mp isX]))
      have upper : path z ≤ path x := by
        rcases mem_append.mp member with inB | isX
        · exact le_of_lt ((List.pairwise_append.mp (tail_of_ordered tree.ordered)).2.2 z inB x List.mem_cons_self)
        · exact le_of_eq (by rw [List.mem_singleton.mp isX])
      exact apart_of_le lower out upper (child.path ▸ prefix_append _ _)
    have skipped : (between ++ x :: after).dropWhile (under path p) = y :: rest := by
      rw [show between ++ x :: after = (between ++ [x]) ++ after by simp,
        List.dropWhile_append_of_pos inside]
      exact outside
    obtain ⟨q, inQ, a, inA, childA, childY, low, _⟩ := tree.first_outside skipped
    have inP : p ∈ before ++ p :: (between ++ x :: after) := by simp
    have time : q.id.timestamp < p.id.timestamp := by
      by_cases same : path a = path p
      · rw [← tree.preordered.injective a p inA inP same]
        exact childA.newer
      · exact childA.newer.trans (tree.newer inA inP low same)
    simp [notOlder, isOlderCause_iff y x q p childY.caused child.caused, time]

/-- The siblings that the search finds are the later ones, in order. -/
theorem TreeList.siblings_eq (list : TreeList path listed (front ++ x :: after))
    (distinct : listed.Nodup) (parent : p ∈ front ++ x :: after) (child : ChildOf path x p) :
    (after.takeWhile (notOlder x.cause)).filter (isSibling x.cause) =
      laterSiblings listed x := by
  obtain ⟨sorted, exact⟩ := list.laterSiblings_sorted distinct parent child
  have tail := tail_of_ordered list.tree.ordered
  have pBelow : path p < path x := child.path ▸ lt_of_start (prefix_append _ _) (by simp)
  rw [(list.notOlder_eq parent child).1]
  refine ordered_ext (tail.sublist (List.filter_sublist.trans (List.takeWhile_sublist _))) sorted (fun y => ?_)
  rw [mem_filter, takeWhile_within tail (path p) (fun z member => le_of_lt
    (pBelow.trans (ordered_after list.tree.ordered z member))), exact, isSibling]
  constructor
  · rintro ⟨⟨inAfter, _⟩, sibling⟩
    have inL : y ∈ front ++ x :: after := by simp [inAfter]
    obtain ⟨_, k, longer⟩ := (list.child_iff p parent y).mp ⟨list.sub y inL, idEquals_trans _ _ _ sibling child.caused⟩
    refine ⟨inL, k, longer, ?_⟩
    have above := ordered_after list.tree.ordered y inAfter
    rw [longer, child.path, lt_append, List.cons_lt_cons_iff] at above
    exact above.elim id (fun h => absurd h.2 (lt_irrefl _))
  · rintro ⟨inL, k, longer, less⟩
    have above : path x < path y := by
      rw [longer, child.path]
      exact branch_lt less
    obtain ⟨_, caused⟩ := (list.child_iff p parent y).mpr ⟨inL, k, longer⟩
    exact ⟨⟨list.tree.preordered.mem_after inL above, longer ▸ prefix_append _ _⟩,
      idEquals_trans _ _ _ caused (idEquals_symm _ _ child.caused)⟩

theorem TreeList.after_siblings (list : TreeList path listed (front ++ x :: after))
    (distinct : listed.Nodup) (parent : p ∈ front ++ x :: after) (child : ChildOf path x p) :
    after = after.takeWhile (under path x) ++
      (laterSiblings listed x).flatMap (fun c => (front ++ x :: after).filter (under path c)) ++
      after.dropWhile (within path (path p)) := by
  obtain ⟨sorted, exact⟩ := list.laterSiblings_sorted distinct parent child
  exact list.tree.preordered.later_siblings child.path ⟨p, parent, rfl⟩ _ sorted exact

theorem TreeList.cut_siblings (list : TreeList path listed (front ++ x :: after))
    (distinct : listed.Nodup) (parent : p ∈ front ++ x :: after) (child : ChildOf path x p) :
    CausalList path (front ++ x :: (after.takeWhile (under path x) ++
      after.dropWhile (within path (path p)))) := by
  have parts := list.after_siblings distinct parent child
  obtain ⟨_, exact⟩ := list.laterSiblings_sorted distinct parent child
  have ordered := list.tree.ordered
  have pBelow : path p < path x := child.path ▸ lt_of_start (prefix_append _ _) (by simp)
  have sub : (after.takeWhile (under path x) ++ after.dropWhile (within path (path p))).Sublist after := by
    conv_rhs => rw [parts]
    rw [List.append_assoc]
    exact (List.sublist_append_right _ _).append_left _
  refine list.tree.part ((sub.cons_cons x).append_left front) (by cases front <;> rfl)
    fun y member q inQ link => ?_
  by_contra removed
  have inTrees : q ∈ (laterSiblings listed x).flatMap (fun c => (front ++ x :: after).filter (under path c)) := by
    rcases mem_append.mp inQ with inFront | here
    · exact absurd (List.mem_append_left _ inFront) removed
    · rcases List.mem_cons.mp here with rfl | inAfter
      · exact absurd (by simp) removed
      · rw [parts, mem_append, mem_append] at inAfter
        rcases inAfter with (left | mid) | right
        · exact absurd (by simp [left]) removed
        · exact mid
        · exact absurd (by simp [right]) removed
  obtain ⟨s, inS, inTree⟩ := List.mem_flatMap.mp inTrees
  obtain ⟨_, k, pathS, less⟩ := (exact s).mp inS
  have low : path s <+: path y :=
    ((under_iff s q).mp (mem_filter.mp inTree).2).trans (link.path ▸ prefix_append _ _)
  have above : path x < path s := by
    rw [pathS, child.path]
    exact branch_lt less
  rcases mem_append.mp member with inFront | here
  · exact absurd ((List.pairwise_append.mp ordered).2.2 y inFront x List.mem_cons_self)
      (lt_asymm (lt_of_lt_of_le above (le_of_start low)))
  · rcases List.mem_cons.mp here with rfl | inRest
    · exact absurd (le_of_start low) (not_le.mpr above)
    · rcases mem_append.mp inRest with left | right
      · have deep := ((takeWhile_under ordered y).mp left).2
        rw [child.path] at deep
        rw [pathS] at low
        have both := List.prefix_of_prefix_length_le deep low (by simp)
        have equal := both.eq_of_length (by simp)
        exact absurd (List.singleton_inj.mp (List.append_cancel_left equal)) (ne_of_lt less)
      · have out := ((dropWhile_within (tail_of_ordered ordered) (path p) (fun z inAfter => le_of_lt
          (pBelow.trans (ordered_after ordered z inAfter))) y).mp right).2
        exact out ((pathS ▸ prefix_append _ _ : path p <+: path s).trans low)

end Siblings

end CasualOS.TreeOrder
