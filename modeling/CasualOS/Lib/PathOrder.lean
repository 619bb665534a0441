import Mathlib.Data.List.Infix
import Mathlib.Data.List.Lex
import Mathlib.Data.List.Nodup
import Mathlib.Data.List.Sort
import Mathlib.Data.List.TakeWhile

/-! Lists in the preorder of a tree, whose nodes are given by their paths of keys from the root. -/

namespace PathOrder

open List (append_assoc cons_lt_cons_iff dropWhile_sublist mem_append mem_cons mem_cons_self mem_filter
  pairwise_append pairwise_cons prefix_append prefix_rfl)

section Paths

variable {K : Type} [LinearOrder K]

theorem lt_append (p q r : List K) : p ++ q < p ++ r ↔ q < r := by
  induction p with
  | nil => rfl
  | cons k p ih => simp [ih]

variable {p q : List K}

theorem lt_of_start (within : p <+: q) (apart : p ≠ q) : p < q := by
  obtain ⟨tail, rfl⟩ := within
  cases tail with
  | nil => simp at apart
  | cons k tail =>
    have step := (lt_append p [] (k :: tail)).mpr (List.nil_lt_cons k tail)
    simpa using step

theorem le_of_start (within : p <+: q) : p ≤ q := by
  by_cases same : p = q
  · exact le_of_eq same
  · exact le_of_lt (lt_of_start within same)

/-- Two paths that part: the keys where they do decide their order. -/
theorem branch (lower : p < q) (apart : ¬ p <+: q) : ∃ s k k' t t', p = s ++ k :: t ∧ q = s ++ k' :: t' ∧ k < k' := by
  induction p generalizing q with
  | nil => exact absurd (List.nil_prefix) apart
  | cons k p ih =>
    cases q with
    | nil => exact absurd lower (List.not_lt_nil _)
    | cons k' q =>
      rcases cons_lt_cons_iff.mp lower with less | ⟨rfl, later⟩
      · exact ⟨[], k, k', p, q, rfl, rfl, less⟩
      · obtain ⟨s, a, b, t, t', rfl, rfl, less⟩ :=
          ih later (fun within => apart (List.cons_prefix_cons.mpr ⟨rfl, within⟩))
        exact ⟨k :: s, a, b, t, t', rfl, rfl, less⟩

theorem branch_lt {s t t' : List K} {k k' : K} (less : k < k') : s ++ k :: t < s ++ k' :: t' :=
  (lt_append s _ _).mpr (cons_lt_cons_iff.mpr (.inl less))

theorem branch_apart {s t t' : List K} {k k' : K} (less : k < k') : ¬ s ++ k :: t <+: s ++ k' :: t' := by
  rw [List.prefix_append_right_inj, List.cons_prefix_cons]
  exact fun within => absurd within.1 (ne_of_lt less)

/-- Once the paths have left a subtree they stay outside. -/
theorem apart_of_le {r : List K} (lower : p < q) (apart : ¬ p <+: q) (later : q ≤ r) : ¬ p <+: r := by
  intro within
  obtain ⟨s, k, k', t, t', rfl, rfl, less⟩ := branch lower apart
  obtain ⟨tail, rfl⟩ := within
  rw [append_assoc, List.cons_append] at later
  have parted : s ++ k :: (t ++ tail) < s ++ k' :: t' := branch_lt less
  exact absurd parted (not_lt.mpr later)

/-- A common prefix of two paths ends before they part. -/
theorem start_of_branch {K : Type} {b s t t' : List K} {k k' : K} (first : b <+: s ++ k :: t)
    (second : b <+: s ++ k' :: t') (apart : k ≠ k') : b <+: s := by
  rcases List.prefix_or_prefix_of_prefix first (prefix_append s _) with within | longer
  · exact within
  · obtain ⟨tail, rfl⟩ := longer
    cases tail with
    | nil => simp
    | cons x tail =>
      simp only [List.prefix_append_right_inj, List.cons_prefix_cons] at first second
      exact absurd (first.1.symm.trans second.1) apart

end Paths

section Runs

variable {α : Type}

/-- Two runs end together when the second test implies the first, and the first fails where the
second stops. -/
theorem run_eq (p q : α → Bool) (l : List α) (inner : ∀ y ∈ l, q y = true → p y = true)
    (stop : ∀ y rest, l.dropWhile q = y :: rest → p y = false) :
    l.takeWhile p = l.takeWhile q ∧ l.dropWhile p = l.dropWhile q := by
  induction l with
  | nil => exact ⟨rfl, rfl⟩
  | cons x l ih =>
    cases here : q x with
    | true =>
      have tested := inner x mem_cons_self here
      have later := ih (fun y member => inner y (List.mem_cons_of_mem _ member))
        (fun y rest same => stop y rest (by rw [List.dropWhile_cons_of_pos here, same]))
      simp only [List.takeWhile_cons_of_pos here, List.dropWhile_cons_of_pos here,
        List.takeWhile_cons_of_pos tested, List.dropWhile_cons_of_pos tested, later, and_self]
    | false =>
      have kept : ¬ q x = true := by simp [here]
      have ends : ¬ p x = true := by
        simp [stop x l (List.dropWhile_cons_of_neg kept)]
      simp only [List.takeWhile_cons_of_neg kept, List.dropWhile_cons_of_neg kept,
        List.takeWhile_cons_of_neg ends, List.dropWhile_cons_of_neg ends, and_self]

end Runs

section Preorder

variable {ν K : Type} [LinearOrder K] (path : ν → List K)

/-- `l` is a tree in preorder: its paths increase, and every node but the first has its parent in
the list. -/
structure Preordered (l : List ν) : Prop where
  ordered : l.Pairwise (fun x y => path x < path y)
  parent : ∀ x ∈ l, l.head? = some x ∨ ∃ p ∈ l, ∃ k, path x = path p ++ [k]

def under (x y : ν) : Bool := decide (path x <+: path y)

def before (n : List K) (y : ν) : Bool := decide (path y < n)

variable {path}

theorem under_iff (x y : ν) : under path x y = true ↔ path x <+: path y := by simp [under]

theorem before_iff (n : List K) (y : ν) : before path n y = true ↔ path y < n := by simp [before]

variable {front after : List ν} {x : ν} {k : K}

theorem ordered_after (ordered : (front ++ x :: after).Pairwise (fun x y => path x < path y)) :
    ∀ y ∈ after, path x < path y :=
  fun _ member => List.rel_of_pairwise_cons (pairwise_append.mp ordered).2.1 member

def within (path : ν → List K) (s : List K) (y : ν) : Bool := decide (s <+: path y)

theorem within_iff (s : List K) (y : ν) : within path s y = true ↔ s <+: path y := by simp [within]

/-- In increasing order the nodes within `s` come first, and then only others. -/
theorem dropWhile_within {l : List ν} (ordered : l.Pairwise (fun x y => path x < path y)) (s : List K)
    (above : ∀ y ∈ l, s ≤ path y) (y : ν) : y ∈ l.dropWhile (within path s) ↔ y ∈ l ∧ ¬ s <+: path y := by
  induction l with
  | nil => simp
  | cons z l ih =>
    obtain ⟨first, tail⟩ := pairwise_cons.mp ordered
    by_cases inside : s <+: path z
    · have rest := ih tail (fun w member => above w (List.mem_cons_of_mem _ member))
      rw [List.dropWhile_cons_of_pos ((within_iff s z).mpr inside), mem_cons]
      refine rest.trans ?_
      constructor
      · exact fun h => ⟨.inr h.1, h.2⟩
      · rintro ⟨rfl | member, out⟩
        · exact absurd inside out
        · exact ⟨member, out⟩
    · have higher : s < path z := lt_of_le_of_ne (above z mem_cons_self) (fun same => inside (same ▸ prefix_rfl))
      rw [List.dropWhile_cons_of_neg (by simpa [within] using inside)]
      constructor
      · intro member
        refine ⟨member, ?_⟩
        rcases mem_cons.mp member with rfl | later
        · exact inside
        · exact apart_of_le higher inside (le_of_lt (first y later))
      · exact fun h => h.1

theorem takeWhile_within {l : List ν} (ordered : l.Pairwise (fun x y => path x < path y)) (s : List K)
    (above : ∀ y ∈ l, s ≤ path y) (y : ν) : y ∈ l.takeWhile (within path s) ↔ y ∈ l ∧ s <+: path y := by
  constructor
  · exact fun member => ⟨(List.takeWhile_prefix _).subset member, (within_iff s y).mp (List.mem_takeWhile_imp member)⟩
  · rintro ⟨member, inside⟩
    rw [← List.takeWhile_append_dropWhile (p := within path s) (l := l), mem_append] at member
    exact member.elim id (fun out => absurd inside ((dropWhile_within ordered s above y).mp out).2)

theorem tail_of_ordered (ordered : (front ++ x :: after).Pairwise (fun x y => path x < path y)) :
    after.Pairwise (fun x y => path x < path y) :=
  (pairwise_cons.mp (pairwise_append.mp ordered).2.1).2

/-- What follows a node is its subtree first and then only nodes outside it. -/
theorem dropWhile_under (ordered : (front ++ x :: after).Pairwise (fun x y => path x < path y)) (y : ν) :
    y ∈ after.dropWhile (under path x) ↔ y ∈ after ∧ ¬ path x <+: path y :=
  dropWhile_within (tail_of_ordered ordered) (path x)
    (fun y member => le_of_lt (ordered_after ordered y member)) y

theorem takeWhile_under (ordered : (front ++ x :: after).Pairwise (fun x y => path x < path y)) (y : ν) :
    y ∈ after.takeWhile (under path x) ↔ y ∈ after ∧ path x <+: path y :=
  takeWhile_within (tail_of_ordered ordered) (path x)
    (fun y member => le_of_lt (ordered_after ordered y member)) y

variable {l : List ν}

theorem Preordered.injective (pre : Preordered path l) (x y : ν) (left : x ∈ l) (right : y ∈ l)
    (same : path x = path y) : x = y := by
  have distinct : (l.map path).Nodup := List.pairwise_map.mpr (pre.ordered.imp ne_of_lt)
  exact List.inj_on_of_nodup_map distinct left right same

theorem Preordered.head_prefix (pre : Preordered path l) (h : ν) (head : l.head? = some h) :
    ∀ x ∈ l, path h <+: path x := by
  suffices bounded : ∀ n, ∀ x ∈ l, (path x).length ≤ n → path h <+: path x from
    fun x member => bounded _ x member le_rfl
  intro n
  induction n with
  | zero =>
    intro x member short
    rcases pre.parent x member with first | ⟨p, _, k, longer⟩
    · rw [head, Option.some.injEq] at first
      exact first ▸ prefix_rfl
    · simp [longer] at short
  | succ n ih =>
    intro x member short
    rcases pre.parent x member with first | ⟨p, found, k, longer⟩
    · rw [head, Option.some.injEq] at first
      exact first ▸ prefix_rfl
    · rw [longer]
      exact (ih p found (by simpa [longer] using short)).trans (prefix_append _ _)

/-- Every path between the first node's and a listed one belongs to a listed node. -/
theorem Preordered.complete (pre : Preordered path l) (h : ν) (head : l.head? = some h) :
    ∀ x ∈ l, ∀ q, path h <+: q → q <+: path x → ∃ y ∈ l, path y = q := by
  suffices bounded : ∀ n, ∀ x ∈ l, (path x).length ≤ n → ∀ q, path h <+: q → q <+: path x →
      ∃ y ∈ l, path y = q from fun x member => bounded _ x member le_rfl
  intro n
  induction n with
  | zero =>
    intro x member short q _ within
    have empty : path x = [] := List.length_eq_zero_iff.mp (Nat.le_zero.mp short)
    rw [empty, List.prefix_nil] at within
    exact ⟨x, member, empty.trans within.symm⟩
  | succ n ih =>
    intro x member short q base within
    rcases pre.parent x member with first | ⟨p, found, k, longer⟩
    · rw [head, Option.some.injEq] at first
      subst first
      exact ⟨h, member, (base.eq_of_length_le within.length_le)⟩
    · rw [longer, List.prefix_concat_iff] at within
      rcases within with whole | within
      · exact ⟨x, member, by rw [longer, whole]⟩
      · exact ih p found (by simpa [longer] using short) q base within

/-- The first node after a subtree is a later sibling of its top or of one of the top's ancestors. -/
theorem Preordered.first_outside {rest : List ν} {y h : ν}
    (pre : Preordered path (front ++ x :: after)) (head : (front ++ x :: after).head? = some h)
    (outside : after.dropWhile (under path x) = y :: rest) :
    ∃ s k k' t, path x = s ++ k :: t ∧ path y = s ++ [k'] ∧ k < k' ∧ path h <+: s ∧
      ∃ a ∈ front ++ x :: after, path a = s ++ [k] := by
  have inOutside : y ∈ after.dropWhile (under path x) := by simp [outside]
  obtain ⟨inAfter, out⟩ := (dropWhile_under pre.ordered y).mp inOutside
  have higher := ordered_after pre.ordered y inAfter
  obtain ⟨s, k, k', t, t', pathX, pathY, less⟩ := branch higher out
  have inX : x ∈ front ++ x :: after := by simp
  have inY : y ∈ front ++ x :: after := by simp [inAfter]
  have base : path h <+: s := by
    have first := pre.head_prefix h head x inX
    have second := pre.head_prefix h head y inY
    rw [pathX] at first
    rw [pathY] at second
    exact start_of_branch first second (ne_of_lt less)
  obtain ⟨a, inA, pathA⟩ := pre.complete h head x inX (s ++ [k]) (base.trans (prefix_append _ _))
    ⟨t, by rw [pathX, append_assoc, List.singleton_append]⟩
  obtain ⟨z, inZ, pathZ⟩ := pre.complete h head y inY (s ++ [k']) (base.trans (prefix_append _ _))
    ⟨t', by rw [pathY, append_assoc, List.singleton_append]⟩
  have aboveX : path x < path z := by
    rw [pathX, pathZ]
    exact branch_lt less
  have apart : ¬ path x <+: path z := by
    rw [pathX, pathZ]
    exact branch_apart less
  have zAfter : z ∈ after := by
    rcases mem_append.mp inZ with inFront | here
    · exact absurd ((pairwise_append.mp pre.ordered).2.2 z inFront x mem_cons_self)
        (not_lt.mpr (le_of_lt aboveX))
    · rcases mem_cons.mp here with rfl | later
      · exact absurd aboveX (lt_irrefl _)
      · exact later
  have zOutside := (dropWhile_under pre.ordered z).mpr ⟨zAfter, apart⟩
  have below : path z ≤ path y := by
    rw [pathZ, pathY]
    exact le_of_start ⟨t', by rw [append_assoc, List.singleton_append]⟩
  have same : z = y := by
    rw [outside] at zOutside
    rcases mem_cons.mp zOutside with same | later
    · exact same
    · have order : (y :: rest).Pairwise (fun x y => path x < path y) := by
        rw [← outside]
        exact (pairwise_cons.mp (pairwise_append.mp pre.ordered).2.1).2.sublist (dropWhile_sublist _)
      exact absurd (List.rel_of_pairwise_cons order later) (not_lt.mpr below)
  exact ⟨s, k, k', t, pathX, same ▸ pathZ, less, base, a, inA, pathA⟩

theorem ordered_ext {m : List ν} (left : l.Pairwise (fun x y => path x < path y))
    (right : m.Pairwise (fun x y => path x < path y)) (same : ∀ y, y ∈ l ↔ y ∈ m) : l = m := by
  have distinct : ∀ n : List ν, n.Pairwise (fun x y => path x < path y) → n.Nodup :=
    fun n ordered => ordered.imp (fun {x y} less (equal : x = y) => absurd (equal ▸ less) (lt_irrefl _))
  refine List.Perm.eq_of_pairwise (fun x y _ _ less more => absurd less (lt_asymm more)) left right ?_
  exact (List.perm_ext_iff_of_nodup (distinct l left) (distinct m right)).mpr same

theorem dropWhile_before (ordered : l.Pairwise (fun x y => path x < path y)) (n : List K) (y : ν)
    (member : y ∈ l.dropWhile (before path n)) : n ≤ path y := by
  induction l with
  | nil => cases member
  | cons x l ih =>
    obtain ⟨first, tail⟩ := pairwise_cons.mp ordered
    by_cases lower : path x < n
    · rw [List.dropWhile_cons_of_pos ((before_iff n x).mpr lower)] at member
      exact ih tail member
    · rw [List.dropWhile_cons_of_neg (by simpa [before] using lower)] at member
      rcases mem_cons.mp member with rfl | later
      · exact not_lt.mp lower
      · exact le_of_lt (lt_of_le_of_lt (not_lt.mp lower) (first y later))

theorem mem_dropWhile_before (n : List K) (y : ν) (member : y ∈ l) (later : n ≤ path y) :
    y ∈ l.dropWhile (before path n) := by
  rw [← List.takeWhile_append_dropWhile (p := before path n) (l := l), mem_append] at member
  refine member.elim (fun kept => ?_) id
  exact absurd ((before_iff n y).mp (List.mem_takeWhile_imp kept)) (not_lt.mpr later)

/-- The first node of a part that a test cuts off comes before its other nodes. -/
theorem first_le {q : ν → Bool} (ordered : l.Pairwise (fun x y => path x < path y)) {y : ν}
    {rest : List ν} (cut : l.dropWhile q = y :: rest) (z : ν) (member : z ∈ l.dropWhile q) :
    z = y ∨ path y < path z := by
  have tail := ordered.sublist (dropWhile_sublist q)
  rw [cut] at member tail
  exact (mem_cons.mp member).imp id (List.rel_of_pairwise_cons tail)

theorem append_of_start {K : Type} {p q : List K} (within : p <+: q) (apart : p ≠ q) : ∃ k t, q = p ++ k :: t := by
  obtain ⟨t, rfl⟩ := within
  cases t with
  | nil => simp at apart
  | cons k t => exact ⟨k, t, rfl⟩

theorem Preordered.tail_ordered (pre : Preordered path (front ++ x :: after)) :
    after.Pairwise (fun x y => path x < path y) := tail_of_ordered pre.ordered

/-- A listed node with a greater path comes later. -/
theorem Preordered.mem_after {z : ν} (pre : Preordered path (front ++ x :: after)) (member : z ∈ front ++ x :: after)
    (above : path x < path z) : z ∈ after := by
  rcases mem_append.mp member with inFront | here
  · exact absurd ((pairwise_append.mp pre.ordered).2.2 z inFront x mem_cons_self)
      (lt_asymm above)
  · rcases mem_cons.mp here with rfl | later
    · exact absurd above (lt_irrefl _)
    · exact later

theorem exists_head (front after : List ν) (x : ν) : ∃ h, (front ++ x :: after).head? = some h := by
  cases front <;> exact ⟨_, rfl⟩

/-- A search for the place of a new child stops where it should: it passes what comes before the
child and stops at a later sibling and at the end of the parent's subtree. -/
theorem Preordered.scan {p : ν} (keeps : ν → Bool)
    (pre : Preordered path (front ++ p :: after)) (free : ∀ y ∈ after, ¬ path p ++ [k] <+: path y)
    (passes : ∀ y ∈ after, path p <+: path y → path y < path p ++ [k] → keeps y = true)
    (later : ∀ y ∈ after, ∀ k', path y = path p ++ [k'] → k < k' → keeps y = false)
    (ends : ∀ y rest, after.dropWhile (under path p) = y :: rest → keeps y = false) :
    after.takeWhile keeps = after.takeWhile (before path (path p ++ [k])) ∧
      after.dropWhile keeps = after.dropWhile (before path (path p ++ [k])) := by
  have beyond : ∀ y ∈ after, ¬ path p <+: path y → path p ++ [k] < path y := by
    intro y member out
    obtain ⟨s, a, a', t, t', pathP, pathY, less⟩ := branch (ordered_after pre.ordered y member) out
    rw [pathP, pathY, append_assoc]
    exact branch_lt less
  refine run_eq _ _ after (fun y member lower => ?_) (fun y rest cut => ?_)
  · have less := (before_iff _ y).mp lower
    by_cases inside : path p <+: path y
    · exact passes y member inside less
    · exact absurd (beyond y member inside) (lt_asymm less)
  · have inDrop : y ∈ after.dropWhile (before path (path p ++ [k])) := by simp [cut]
    have member := (dropWhile_sublist _).subset inDrop
    have least := dropWhile_before pre.tail_ordered _ y inDrop
    by_cases inside : path p <+: path y
    · obtain ⟨k', t, pathY⟩ := append_of_start inside
        (ne_of_lt (ordered_after pre.ordered y member))
      have above : k < k' := by
        have strict := lt_of_le_of_ne least (fun same => free y member (same ▸ prefix_rfl))
        rw [pathY, lt_append, cons_lt_cons_iff] at strict
        rcases strict with less | ⟨rfl, _⟩
        · exact less
        · exact absurd (by simp [pathY]) (free y member)
      obtain ⟨h, head⟩ := exists_head front after p
      have base := pre.head_prefix h head p (by simp)
      obtain ⟨z, inZ, pathZ⟩ := pre.complete h head y (by simp [member]) (path p ++ [k'])
        (base.trans (prefix_append _ _)) (by simp [pathY])
      have zAfter := pre.mem_after inZ (by
        rw [pathZ]
        exact lt_of_start (prefix_append _ _) (by simp))
      have zDrop : z ∈ after.dropWhile (before path (path p ++ [k])) :=
        mem_dropWhile_before _ z zAfter (by
          rw [pathZ]
          exact le_of_lt (branch_lt above))
      rcases first_le pre.tail_ordered cut z zDrop with rfl | less
      · exact later z zAfter k' pathZ above
      · refine absurd less (not_lt.mpr (le_of_start ?_))
        simp [pathY, pathZ]
    · have outside := (dropWhile_under pre.ordered y).mpr ⟨member, inside⟩
      cases first : after.dropWhile (under path p) with
      | nil => simp [first] at outside
      | cons y' rest' =>
        have inFirst : y' ∈ after.dropWhile (under path p) := by simp [first]
        obtain ⟨member', out'⟩ := (dropWhile_under pre.ordered y').mp inFirst
        have drop' := mem_dropWhile_before _ y' member' (le_of_lt (beyond y' member' out'))
        rcases first_le pre.tail_ordered first y outside with rfl | less
        · exact ends y rest' first
        · rcases first_le pre.tail_ordered cut y' drop' with rfl | more
          · exact absurd less (lt_irrefl _)
          · exact absurd less (lt_asymm more)

/-- A tree whose top is a child of `p` goes under `p`, before the first node that is past it. -/
theorem Preordered.graft {s : List ν} {p start : ν}
    (pre : Preordered path (front ++ p :: after)) (block : Preordered path s)
    (first : s.head? = some start) (child : path start = path p ++ [k])
    (free : ∀ y ∈ after, ¬ path start <+: path y) :
    Preordered path (front ++ p :: (after.takeWhile (before path (path start)) ++ s ++
      after.dropWhile (before path (path start)))) := by
  have inner := block.head_prefix start first
  have tail := pre.tail_ordered
  have split := List.takeWhile_append_dropWhile (p := before path (path start)) (l := after)
  have pBelow : path p < path start := by
    rw [child]
    exact lt_of_start (prefix_append _ _) (by simp)
  have blockBelow : ∀ x ∈ s, ∀ y ∈ after.dropWhile (before path (path start)), path x < path y := by
    intro x inS y inDrop
    have member := (dropWhile_sublist _).subset inDrop
    have least := dropWhile_before tail _ y inDrop
    have out := free y member
    have strict := lt_of_le_of_ne least (fun same => out (same ▸ prefix_rfl))
    obtain ⟨a, b, b', t, t', pathStart, pathY, less⟩ := branch strict out
    obtain ⟨r, pathX⟩ := inner x inS
    rw [← pathX, pathStart, pathY, append_assoc]
    exact branch_lt less
  have blockAbove : ∀ z, path z < path start → ∀ x ∈ s, path z < path x :=
    fun z less x inS => lt_of_lt_of_le less (le_of_start (inner x inS))
  obtain ⟨frontOrdered, restOrdered, cross⟩ := pairwise_append.mp pre.ordered
  rw [← split] at restOrdered cross tail
  obtain ⟨pFirst, _⟩ := pairwise_cons.mp restOrdered
  obtain ⟨leftOrdered, rightOrdered, leftRight⟩ := pairwise_append.mp tail
  refine ⟨?_, ?_⟩
  · refine pairwise_append.mpr ⟨frontOrdered, pairwise_cons.mpr ⟨fun y member => ?_, ?_⟩,
      fun x inFront y member => ?_⟩
    · simp only [mem_append] at member
      rcases member with (left | inS) | right
      · exact pFirst y (List.mem_append_left _ left)
      · exact blockAbove p pBelow y inS
      · exact pFirst y (List.mem_append_right _ right)
    · refine pairwise_append.mpr ⟨pairwise_append.mpr ⟨leftOrdered, block.ordered,
        fun x left y inS => ?_⟩, rightOrdered, fun x member y right => ?_⟩
      · exact blockAbove x ((before_iff _ x).mp (List.mem_takeWhile_imp left)) y inS
      · rcases mem_append.mp member with left | inS
        · exact leftRight x left y right
        · exact blockBelow x inS y right
    · simp only [mem_cons, mem_append] at member
      rcases member with rfl | (left | inS) | right
      · exact cross x inFront y mem_cons_self
      · exact cross x inFront y (List.mem_cons_of_mem _ (List.mem_append_left _ left))
      · exact blockAbove x ((cross x inFront p mem_cons_self).trans pBelow) y inS
      · exact cross x inFront y (List.mem_cons_of_mem _ (List.mem_append_right _ right))
  · have heads : (front ++ p :: (after.takeWhile (before path (path start)) ++ s ++
        after.dropWhile (before path (path start)))).head? = (front ++ p :: after).head? := by
      cases front <;> rfl
    have same : ∀ y, y ∈ front ++ p :: (after.takeWhile (before path (path start)) ++ s ++
        after.dropWhile (before path (path start))) ↔ y ∈ s ∨ y ∈ front ++ p :: after := by
      intro y
      rw [← split]
      simp only [split, mem_append, mem_cons]
      rw [← split, mem_append]
      grind
    intro x member
    rw [heads]
    rcases (same x).mp member with inS | old
    · refine .inr ?_
      rcases block.parent x inS with top | ⟨q, found, k', longer⟩
      · rw [first, Option.some.injEq] at top
        exact ⟨p, (same p).mpr (.inr (by simp)), k, top ▸ child⟩
      · exact ⟨q, (same q).mpr (.inl found), k', longer⟩
    · rcases pre.parent x old with top | ⟨q, found, k', longer⟩
      · exact .inl top
      · exact .inr ⟨q, (same q).mpr (.inr found), k', longer⟩

theorem Preordered.filter_under (pre : Preordered path (front ++ x :: after)) :
    (front ++ x :: after).filter (under path x) = x :: after.takeWhile (under path x) := by
  refine ordered_ext (pre.ordered.sublist List.filter_sublist) ?_ (fun y => ?_)
  · refine pairwise_cons.mpr ⟨fun y member => ?_, pre.tail_ordered.sublist (List.takeWhile_sublist _)⟩
    exact ordered_after pre.ordered y ((List.takeWhile_sublist _).subset member)
  · rw [mem_filter, under_iff, mem_cons, takeWhile_under pre.ordered]
    constructor
    · rintro ⟨member, inside⟩
      by_cases same : path x = path y
      · exact .inl (pre.injective y x member (by simp) same.symm)
      · exact .inr ⟨pre.mem_after member (lt_of_start inside same), inside⟩
    · rintro (rfl | ⟨later, inside⟩)
      · exact ⟨by simp, prefix_rfl⟩
      · exact ⟨by simp [later], inside⟩

/-- The subtrees of siblings in order, one after another, are in order. -/
theorem trees_ordered {siblings : List ν} (ordered : l.Pairwise (fun x y => path x < path y))
    (sorted : siblings.Pairwise (fun x y => path x < path y)) (s : List K)
    (children : ∀ c ∈ siblings, ∃ k, path c = s ++ [k]) :
    (siblings.flatMap (fun c => l.filter (under path c))).Pairwise
      (fun x y => path x < path y) := by
  refine List.pairwise_flatMap.mpr ⟨fun c _ => ordered.sublist List.filter_sublist, ?_⟩
  refine List.Pairwise.imp_of_mem (fun {c d} inC inD less y inY z inZ => ?_) sorted
  obtain ⟨k, pathC⟩ := children c inC
  obtain ⟨k', pathD⟩ := children d inD
  obtain ⟨t, pathY⟩ := (under_iff c y).mp (mem_filter.mp inY).2
  obtain ⟨t', pathZ⟩ := (under_iff d z).mp (mem_filter.mp inZ).2
  rw [pathC, pathD, lt_append, cons_lt_cons_iff] at less
  rw [← pathY, ← pathZ, pathC, pathD, append_assoc, append_assoc]
  exact branch_lt (less.elim id (fun h => absurd h.2 (lt_irrefl _)))

theorem Preordered.subtree (pre : Preordered path l) (x : ν) (member : x ∈ l) (children : List ν)
    (ordered : children.Pairwise (fun x y => path x < path y))
    (exact : ∀ y, y ∈ children ↔ y ∈ l ∧ ∃ k, path y = path x ++ [k]) :
    l.filter (under path x) = x :: children.flatMap (fun c => l.filter (under path c)) := by
  have inTree : ∀ y, y ∈ children.flatMap (fun c => l.filter (under path c)) ↔
      y ∈ l ∧ path x <+: path y ∧ path x ≠ path y := by
    intro y
    simp only [List.mem_flatMap, mem_filter, under_iff, exact]
    constructor
    · rintro ⟨c, ⟨_, k, child⟩, found, t, inside⟩
      rw [child] at inside
      refine ⟨found, ⟨k :: t, by rw [← inside]; simp⟩, fun same => ?_⟩
      rw [← same] at inside
      simp at inside
    · rintro ⟨found, inside, apart⟩
      obtain ⟨k, t, pathY⟩ := append_of_start inside apart
      obtain ⟨h, head⟩ : ∃ h, l.head? = some h := by
        cases l with
        | nil => cases member
        | cons h l => exact ⟨h, rfl⟩
      obtain ⟨c, inL, pathC⟩ := pre.complete h head y found (path x ++ [k])
        ((pre.head_prefix h head x member).trans (prefix_append _ _)) (by simp [pathY])
      exact ⟨c, ⟨inL, k, pathC⟩, found, by simp [pathC, pathY]⟩
  refine ordered_ext (pre.ordered.sublist List.filter_sublist) ?_ (fun y => ?_)
  · refine pairwise_cons.mpr ⟨fun y inside => ?_, ?_⟩
    · obtain ⟨_, within, apart⟩ := (inTree y).mp inside
      exact lt_of_start within apart
    · exact trees_ordered pre.ordered ordered (path x) (fun c inC => ((exact c).mp inC).2)
  · rw [mem_cons, inTree, mem_filter, under_iff]
    constructor
    · rintro ⟨found, inside⟩
      by_cases same : path x = path y
      · exact .inl (pre.injective y x found member same.symm)
      · exact .inr ⟨found, inside, same⟩
    · rintro (rfl | ⟨found, inside, _⟩)
      · exact ⟨member, prefix_rfl⟩
      · exact ⟨found, inside⟩

/-- After the subtree of a node come the subtrees of its later siblings, and then what is outside
the subtree of their parent. -/
theorem Preordered.later_siblings {s : List K} (pre : Preordered path (front ++ x :: after)) (top : path x = s ++ [k])
    (inner : ∃ p ∈ front ++ x :: after, path p = s) (siblings : List ν)
    (ordered : siblings.Pairwise (fun x y => path x < path y))
    (exact : ∀ y, y ∈ siblings ↔ y ∈ front ++ x :: after ∧ ∃ k', path y = s ++ [k'] ∧ k < k') :
    after = after.takeWhile (under path x) ++
      siblings.flatMap (fun c => (front ++ x :: after).filter (under path c)) ++
      after.dropWhile (within path s) := by
  have above : ∀ y ∈ after, s ≤ path y := fun y member =>
    le_of_lt (lt_of_le_of_lt (le_of_start (top ▸ prefix_append s [k]))
      (ordered_after pre.ordered y member))
  have inTrees : ∀ y, y ∈ siblings.flatMap (fun c => (front ++ x :: after).filter (under path c)) ↔
      y ∈ after ∧ s <+: path y ∧ ¬ path x <+: path y := by
    intro y
    simp only [List.mem_flatMap, mem_filter, under_iff, exact]
    constructor
    · rintro ⟨c, ⟨_, k', pathC, less⟩, found, t, inside⟩
      rw [pathC, append_assoc, List.singleton_append] at inside
      have higher : path x < path y := by
        rw [top, ← inside]
        exact branch_lt less
      refine ⟨pre.mem_after found higher, ⟨k' :: t, inside⟩, ?_⟩
      rw [top, ← inside]
      exact branch_apart less
    · rintro ⟨member, ⟨t, inside⟩, out⟩
      have higher := ordered_after pre.ordered y member
      cases t with
      | nil =>
        rw [List.append_nil] at inside
        rw [top, ← inside] at higher
        exact absurd higher (not_lt.mpr (le_of_start (prefix_append s [k])))
      | cons k' t =>
        have less : k < k' := by
          rw [top, ← inside, lt_append, cons_lt_cons_iff] at higher
          rcases higher with less | ⟨rfl, _⟩
          · exact less
          · exact absurd (by simp [top, ← inside]) out
        obtain ⟨h, head⟩ := exists_head front after x
        obtain ⟨p, inP, pathP⟩ := inner
        obtain ⟨c, inC, pathC⟩ := pre.complete h head y (by simp [member]) (s ++ [k'])
          ((pathP ▸ pre.head_prefix h head p inP).trans (prefix_append _ _))
          (by simp [← inside])
        exact ⟨c, ⟨inC, k', pathC, less⟩, by simp [member], t, by simp [pathC, ← inside]⟩
  have tail := pre.tail_ordered
  refine ordered_ext tail ?_ (fun y => ?_)
  · refine pairwise_append.mpr ⟨pairwise_append.mpr
      ⟨tail.sublist (List.takeWhile_sublist _), ?_, ?_⟩, tail.sublist (dropWhile_sublist _), ?_⟩
    · refine trees_ordered pre.ordered ordered s (fun c inC => ?_)
      obtain ⟨_, a, pathC, _⟩ := (exact c).mp inC
      exact ⟨a, pathC⟩
    · intro y inY z inZ
      have inside := ((takeWhile_under pre.ordered y).mp inY).2
      obtain ⟨inAfter, _, out⟩ := (inTrees z).mp inZ
      obtain ⟨a, b, b', t, t', pathX, pathZ, less⟩ :=
        branch (ordered_after pre.ordered z inAfter) out
      obtain ⟨r, pathY⟩ := inside
      rw [← pathY, pathX, pathZ, append_assoc]
      exact branch_lt less
    · intro y inY z inZ
      obtain ⟨zAfter, out⟩ := (dropWhile_within tail s above z).mp inZ
      have inside : s <+: path y ∧ y ∈ after := by
        rcases mem_append.mp inY with left | right
        · have both := (takeWhile_under pre.ordered y).mp left
          exact ⟨(top ▸ prefix_append s [k]).trans both.2, both.1⟩
        · exact ⟨((inTrees y).mp right).2.1, ((inTrees y).mp right).1⟩
      have higher : s < path z := lt_of_le_of_ne (above z zAfter) (fun same => out (same ▸ prefix_rfl))
      obtain ⟨a, b, b', t, t', pathS, pathZ, less⟩ := branch higher out
      obtain ⟨r, pathY⟩ := inside.1
      rw [← pathY, pathS, pathZ, append_assoc]
      exact branch_lt less
  · rw [mem_append, mem_append, takeWhile_under pre.ordered, inTrees, dropWhile_within tail s above]
    constructor
    · intro member
      by_cases inside : s <+: path y
      · by_cases deep : path x <+: path y
        · exact .inl (.inl ⟨member, deep⟩)
        · exact .inl (.inr ⟨member, inside, deep⟩)
      · exact .inr ⟨member, inside⟩
    · rintro ((h | h) | h) <;> exact h.1

end Preorder

end PathOrder
