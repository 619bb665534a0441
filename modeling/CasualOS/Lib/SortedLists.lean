import Mathlib.Data.List.InsertIdx
import Mathlib.Data.List.Lex
import Mathlib.Data.List.Sort
import Mathlib.Data.List.TakeWhile

/-! Lists that are kept strictly sorted by a key of their records, with an index found by bisection. -/

namespace SortedLists

open List (pairwise_insertionSort take_succ_cons)

variable {R K : Type} [LinearOrder K]

def SortedBy (key : R → K) (records : List R) : Prop := (records.map key).Pairwise (· < ·)

/-- The lowest index at which the key keeps the order of a sorted list. -/
structure Lowest (sortedIndex : List K → K → Nat) : Prop where
  bound : ∀ (keys : List K) (key : K), keys.Pairwise (· < ·) → sortedIndex keys key ≤ keys.length
  below : ∀ (keys : List K) (key : K), keys.Pairwise (· < ·) → ∀ other ∈ keys.take (sortedIndex keys key), other < key
  above : ∀ (keys : List K) (key : K), keys.Pairwise (· < ·) → ∀ other ∈ keys.drop (sortedIndex keys key), key ≤ other

section Lists

variable (sortedIndex : List K → K → Nat) (key : R → K)

def findKey (k : K) (records : List R) : Option R := records.find? fun record => key record = k

def insertSorted (record : R) (records : List R) : List R :=
  let index := sortedIndex (records.map key) (key record)
  match records[index]? with
  | none => records.insertIdx index record
  | some item => if key item ≠ key record then records.insertIdx index record else records

/-- Nothing when the index is past the end. -/
def deleteAt (index : Nat) (k : K) (records : List R) : Option (List R) :=
  (records[index]?).map fun item => if key item = k then records.eraseIdx index else records

def deleteSorted (k : K) (records : List R) : Option (List R) :=
  deleteAt key (sortedIndex (records.map key) k) k records

end Lists

section Rules

variable {sortedIndex : List K → K → Nat} {key : R → K} {records : List R} {k : K}

theorem find_append (first second : List R) :
    findKey key k (first ++ second) = (findKey key k first).or (findKey key k second) :=
  List.find?_append

theorem find_eq_none : findKey key k records = none ↔ ∀ record ∈ records, key record ≠ k := by
  simp [findKey]

theorem key_of_find {record : R} (found : findKey key k records = some record) : key record = k := by
  simpa using List.find?_some found

theorem mem_of_find {record : R} (found : findKey key k records = some record) : record ∈ records :=
  List.mem_of_find?_eq_some found

/-- The index parts the list: smaller keys stand before it, no smaller ones after. -/
theorem split (lowest : Lowest sortedIndex) (sorted : SortedBy key records) (k : K) :
    ∃ before after, records = before ++ after ∧ sortedIndex (records.map key) k = before.length ∧
      (∀ record ∈ before, key record < k) ∧ ∀ record ∈ after, k ≤ key record := by
  have bound : sortedIndex (records.map key) k ≤ records.length := by
    simpa using lowest.bound (records.map key) k sorted
  refine ⟨records.take (sortedIndex (records.map key) k), records.drop (sortedIndex (records.map key) k),
    (List.take_append_drop _ _).symm, ?_, fun record inside => ?_, fun record inside => ?_⟩
  · rw [List.length_take, Nat.min_eq_left bound]
  · apply lowest.below (records.map key) k sorted
    rw [← List.map_take]
    exact List.mem_map_of_mem inside
  · apply lowest.above (records.map key) k sorted
    rw [← List.map_drop]
    exact List.mem_map_of_mem inside

theorem insertIdx_split (before after : List R) (record : R) :
    (before ++ after).insertIdx before.length record = before ++ record :: after := by
  induction before with
  | nil => rfl
  | cons first rest ih => simpa using ih

theorem find_below (before : List R) (below : ∀ record ∈ before, key record < k) : findKey key k before = none :=
  find_eq_none.mpr fun record inside => (below record inside).ne

/-- A strictly sorted list has the key at the head of what is not below it, or not at all. -/
theorem find_above {item : R} {rest : List R} (sorted : SortedBy key (item :: rest))
    (above : ∀ record ∈ item :: rest, k ≤ key record) (other : key item ≠ k) :
    findKey key k (item :: rest) = none := by
  refine find_eq_none.mpr fun record inside same => ?_
  have itemAbove := above item List.mem_cons_self
  rcases List.mem_cons.mp inside with isItem | later
  · exact other (isItem ▸ same)
  · have less : key item < key record := (List.pairwise_cons.mp sorted).1 _ (List.mem_map_of_mem later)
    exact absurd (same ▸ less) (not_lt.mpr itemAbove)

theorem SortedBy.nodup (sorted : SortedBy key records) : (records.map key).Nodup :=
  List.Pairwise.imp (fun less => less.ne) sorted

theorem find_of_mem (sorted : SortedBy key records) {record : R} (inside : record ∈ records) :
    findKey key (key record) records = some record := by
  cases found : findKey key (key record) records with
  | none => exact absurd rfl (find_eq_none.mp found record inside)
  | some other =>
    have isRecord := List.inj_on_of_nodup_map sorted.nodup (mem_of_find found) inside (key_of_find found)
    exact congrArg some isRecord

theorem sorted_append {before after : List R} : SortedBy key (before ++ after) ↔
    SortedBy key before ∧ SortedBy key after ∧ ∀ first ∈ before, ∀ second ∈ after, key first < key second := by
  simp [SortedBy, List.pairwise_append]

theorem sorted_cons {item : R} {rest : List R} : SortedBy key (item :: rest) ↔
    (∀ record ∈ rest, key item < key record) ∧ SortedBy key rest := by
  simp [SortedBy]

theorem insert_spec (lowest : Lowest sortedIndex) (sorted : SortedBy key records) (record : R) :
    SortedBy key (insertSorted sortedIndex key record records) ∧
      ∀ k, findKey key k (insertSorted sortedIndex key record records) =
        if k = key record then some ((findKey key k records).getD record) else findKey key k records := by
  obtain ⟨before, after, parts, index, below, above⟩ := split lowest sorted (key record)
  have put : (∀ other ∈ after, key record ≠ key other) →
      SortedBy key (before ++ record :: after) ∧ ∀ k, findKey key k (before ++ record :: after) =
        if k = key record then some ((findKey key k records).getD record) else findKey key k records := by
    intro absent
    rw [parts] at sorted
    obtain ⟨sortedBefore, sortedAfter, across⟩ := sorted_append.mp sorted
    constructor
    · refine sorted_append.mpr ⟨sortedBefore, sorted_cons.mpr ⟨fun other inside => ?_, sortedAfter⟩, ?_⟩
      · exact lt_of_le_of_ne (above other inside) (absent other inside)
      · intro first inBefore second inside
        rcases List.mem_cons.mp inside with isRecord | inAfter
        · exact isRecord ▸ below first inBefore
        · exact across first inBefore second inAfter
    · intro k
      rw [parts, find_append, find_append]
      by_cases same : k = key record
      · subst same
        have none_after : findKey key (key record) after = none :=
          find_eq_none.mpr fun other inside equal => absent other inside equal.symm
        have first : findKey key (key record) (record :: after) = some record := by simp [findKey]
        rw [if_pos rfl, find_below before below, none_after, first]
        rfl
      · have skipped : findKey key k (record :: after) = findKey key k after := by
          simp [findKey, Ne.symm same]
        rw [if_neg same, skipped]
  have item : records[before.length]? = after.head? := by
    rw [parts, List.getElem?_append_right (Nat.le_refl _), Nat.sub_self, List.head?_eq_getElem?]
  rw [insertSorted, index]
  simp only [item]
  cases after with
  | nil =>
    rw [parts, List.head?_nil, insertIdx_split, ← parts]
    exact put fun other inside => by cases inside
  | cons first rest =>
    have sortedAfter : SortedBy key (first :: rest) := (sorted_append.mp (parts ▸ sorted)).2.1
    simp only [List.head?_cons]
    by_cases same : key first = key record
    · rw [if_neg (not_not.mpr same)]
      refine ⟨sorted, fun k => ?_⟩
      split
      · next isKey =>
          have found : findKey key k records = some first := by
            rw [parts, find_append, isKey, find_below before below]
            simp [findKey, same]
          rw [found]
          rfl
      · rfl
    · rw [if_pos same]
      have absent : ∀ other ∈ first :: rest, key record ≠ key other := fun other inside equal =>
        find_eq_none.mp (find_above sortedAfter above same) other inside equal.symm
      have moved := put absent
      rwa [← insertIdx_split, ← parts] at moved

/-- Taking out a key that is not there throws when all keys are below it. -/
theorem delete_isSome (lowest : Lowest sortedIndex) (sorted : SortedBy key records) (k : K) :
    (deleteSorted sortedIndex key k records).isSome = true ↔ ∃ record ∈ records, k ≤ key record := by
  obtain ⟨before, after, parts, index, below, above⟩ := split lowest sorted k
  have item : records[before.length]? = after.head? := by
    rw [parts, List.getElem?_append_right (Nat.le_refl _), Nat.sub_self, List.head?_eq_getElem?]
  rw [deleteSorted, deleteAt, index]
  simp only [item, Option.isSome_map]
  constructor
  · intro some
    obtain ⟨first, isFirst⟩ := Option.isSome_iff_exists.mp some
    have inside : first ∈ after := List.mem_of_mem_head? isFirst
    exact ⟨first, parts ▸ List.mem_append_right before inside, above first inside⟩
  · rintro ⟨record, inside, notBelow⟩
    rw [parts] at inside
    rcases List.mem_append.mp inside with inBefore | inAfter
    · exact absurd (below record inBefore) (not_lt.mpr notBelow)
    · cases after with
      | nil => cases inAfter
      | cons first rest => rfl

theorem delete_spec (lowest : Lowest sortedIndex) (sorted : SortedBy key records) {left : List R}
    (ran : deleteSorted sortedIndex key k records = some left) :
    SortedBy key left ∧ ∀ other, findKey key other left = if other = k then none else findKey key other records := by
  obtain ⟨before, after, parts, index, below, above⟩ := split lowest sorted k
  have item : records[before.length]? = after.head? := by
    rw [parts, List.getElem?_append_right (Nat.le_refl _), Nat.sub_self, List.head?_eq_getElem?]
  rw [deleteSorted, deleteAt, index] at ran
  simp only [item] at ran
  cases after with
  | nil => cases ran
  | cons first rest =>
    have sortedAll := sorted_append.mp (parts ▸ sorted)
    have found : ∀ other, findKey key other records =
        (findKey key other before).or (findKey key other (first :: rest)) :=
      fun other => parts ▸ find_append before (first :: rest)
    simp only [List.head?_cons, Option.map_some, Option.some.injEq] at ran
    by_cases same : key first = k
    · rw [if_pos same, parts, List.eraseIdx_append_of_length_le (Nat.le_refl _), Nat.sub_self,
        List.eraseIdx_cons_zero] at ran
      subst ran
      obtain ⟨later, sortedRest⟩ := sorted_cons.mp sortedAll.2.1
      refine ⟨sorted_append.mpr ⟨sortedAll.1, sortedRest, fun one inBefore two inRest =>
        sortedAll.2.2 one inBefore two (List.mem_cons_of_mem _ inRest)⟩, fun other => ?_⟩
      rw [find_append, found other]
      by_cases isKey : other = k
      · have noRest : findKey key k rest = none :=
          find_eq_none.mpr fun record inside => same ▸ (later record inside).ne'
        rw [if_pos isKey, isKey, find_below before below, noRest]
        rfl
      · have skipped : findKey key other (first :: rest) = findKey key other rest := by
          simp [findKey, same, Ne.symm isKey]
        rw [if_neg isKey, skipped]
    · rw [if_neg same] at ran
      subst ran
      refine ⟨sorted, fun other => ?_⟩
      split
      · next isKey =>
          rw [found other, isKey, find_below before below, find_above sortedAll.2.1 above same]
          rfl
      · rfl

end Rules

/-! ### Repeated keys, of which the smallest are kept -/

section Repeated

/-- The lowest index at which the key keeps the order of a list that may repeat its keys. -/
structure LowestIndex (sortedIndex : List K → K → Nat) : Prop where
  bound : ∀ (keys : List K) (key : K), keys.Pairwise (· ≤ ·) → sortedIndex keys key ≤ keys.length
  below : ∀ (keys : List K) (key : K), keys.Pairwise (· ≤ ·) → ∀ other ∈ keys.take (sortedIndex keys key), other < key
  above : ∀ (keys : List K) (key : K), keys.Pairwise (· ≤ ·) → ∀ other ∈ keys.drop (sortedIndex keys key), key ≤ other

def smallest (count : Nat) (keys : List K) : List K := (keys.insertionSort (· ≤ ·)).take count

variable {sortedIndex : List K → K → Nat} {keys : List K} {key : K} {count : Nat}

theorem LowestIndex.lowest (lowest : LowestIndex sortedIndex) : Lowest sortedIndex where
  bound keys key sorted := lowest.bound keys key (sorted.imp le_of_lt)
  below keys key sorted := lowest.below keys key (sorted.imp le_of_lt)
  above keys key sorted := lowest.above keys key (sorted.imp le_of_lt)

def countBelow (keys : List K) (key : K) : Nat := (keys.takeWhile fun other => other < key).length

theorem takeWhile_of_parts {before after : List K} (below : ∀ other ∈ before, other < key)
    (above : ∀ other ∈ after, key ≤ other) :
    (before ++ after).takeWhile (fun other => other < key) = before := by
  rw [List.takeWhile_append_of_pos fun other member => decide_eq_true (below other member)]
  cases after with
  | nil => simp
  | cons first rest => simp [above first List.mem_cons_self]

theorem LowestIndex.eq_countBelow (lowest : LowestIndex sortedIndex) (sorted : keys.Pairwise (· ≤ ·)) (key : K) :
    sortedIndex keys key = countBelow keys key := by
  have parts := takeWhile_of_parts (lowest.below keys key sorted) (lowest.above keys key sorted)
  rw [List.take_append_drop] at parts
  rw [countBelow, parts, List.length_take, Nat.min_eq_left (lowest.bound keys key sorted)]

theorem lowestIndex_countBelow : LowestIndex (@countBelow K _) where
  bound keys key _ := (List.takeWhile_prefix _).length_le
  below keys key _ := by
    intro other inside
    rw [countBelow, ← List.prefix_iff_eq_take.mp (List.takeWhile_prefix _)] at inside
    simpa using List.all_eq_true.mp List.all_takeWhile other inside
  above keys key sorted := by
    induction keys with
    | nil => exact fun other inside => by cases inside
    | cons first rest ih =>
      obtain ⟨later, sortedRest⟩ := List.pairwise_cons.mp sorted
      by_cases less : first < key
      · have index : countBelow (first :: rest) key = countBelow rest key + 1 := by
          simp [countBelow, less]
        rw [index, List.drop_succ_cons]
        exact ih sortedRest
      · have index : countBelow (first :: rest) key = 0 := by
          simp [countBelow, less]
        rw [index, List.drop_zero]
        intro other inside
        rcases List.mem_cons.mp inside with isFirst | inRest
        · exact isFirst ▸ not_lt.mp less
        · exact (not_lt.mp less).trans (later other inRest)

theorem lowest_countBelow : Lowest (@countBelow K _) := lowestIndex_countBelow.lowest

theorem LowestIndex.past_iff (lowest : LowestIndex sortedIndex) (sorted : keys.Pairwise (· ≤ ·)) :
    keys.length ≤ sortedIndex keys key ↔ ∀ other ∈ keys, other < key := by
  rw [lowest.eq_countBelow sorted, countBelow]
  constructor
  · intro past other inside
    have whole := (List.takeWhile_prefix fun other => decide (other < key)).eq_of_length_le past
    exact of_decide_eq_true (List.takeWhile_eq_self_iff.mp whole other inside)
  · intro below
    have whole := List.takeWhile_eq_self_iff.mpr fun other inside => decide_eq_true (below other inside)
    exact le_of_eq (congrArg List.length whole).symm

theorem insertIdx_lowest (lowest : LowestIndex sortedIndex) (sorted : keys.Pairwise (· ≤ ·)) (key : K) :
    keys.insertIdx (sortedIndex keys key) key = keys.orderedInsert (· ≤ ·) key := by
  rw [lowest.eq_countBelow sorted, List.orderedInsert_eq_take_drop]
  simp only [not_le]
  have split := insertIdx_split (keys.takeWhile fun other => other < key) (keys.dropWhile fun other => other < key) key
  rwa [List.takeWhile_append_dropWhile] at split

theorem orderedInsert_of_above (above : ∀ other ∈ keys, other < key) :
    keys.orderedInsert (· ≤ ·) key = keys ++ [key] := by
  induction keys with
  | nil => rfl
  | cons first rest ih =>
    have low := above first List.mem_cons_self
    rw [List.orderedInsert_of_not_le _ _ (not_le.mpr low),
      ih fun other member => above other (List.mem_cons_of_mem first member)]
    rfl

theorem insertionSort_concat (keys : List K) (key : K) :
    (keys ++ [key]).insertionSort (· ≤ ·) = (keys.insertionSort (· ≤ ·)).orderedInsert (· ≤ ·) key := by
  have sorted := pairwise_insertionSort (· ≤ ·) keys
  have moved : ((keys ++ [key]).insertionSort (· ≤ ·)).Perm ((keys.insertionSort (· ≤ ·)).orderedInsert (· ≤ ·) key) :=
    calc List.Perm ((keys ++ [key]).insertionSort (· ≤ ·)) (keys ++ [key]) := List.perm_insertionSort (· ≤ ·) _
      List.Perm _ (key :: keys) := List.perm_append_singleton key keys
      List.Perm _ (key :: keys.insertionSort (· ≤ ·)) := ((List.perm_insertionSort (· ≤ ·) keys).cons key).symm
      List.Perm _ ((keys.insertionSort (· ≤ ·)).orderedInsert (· ≤ ·) key) :=
        (List.perm_orderedInsert (· ≤ ·) key _).symm
  exact moved.eq_of_pairwise' (pairwise_insertionSort (· ≤ ·) _) (sorted.orderedInsert key _)

theorem take_orderedInsert (count : Nat) (keys : List K) (key : K) :
    (keys.orderedInsert (· ≤ ·) key).take count = ((keys.take count).orderedInsert (· ≤ ·) key).take count := by
  induction keys generalizing count with
  | nil => rw [List.take_nil]
  | cons first rest ih =>
    cases count with
    | zero => rfl
    | succ count =>
      rw [take_succ_cons]
      by_cases low : key ≤ first
      · rw [List.orderedInsert_cons_of_le _ _ low, List.orderedInsert_cons_of_le _ _ low, take_succ_cons,
          take_succ_cons]
        cases count with
        | zero => rfl
        | succ count =>
          rw [take_succ_cons, take_succ_cons, List.take_take, Nat.min_eq_left (Nat.le_succ count)]
      · rw [List.orderedInsert_of_not_le _ _ low, List.orderedInsert_of_not_le _ _ low, take_succ_cons,
          take_succ_cons, ih]

theorem smallest_concat (count : Nat) (keys : List K) (key : K) :
    smallest count (keys ++ [key]) = ((smallest count keys).orderedInsert (· ≤ ·) key).take count := by
  rw [smallest, insertionSort_concat, take_orderedInsert]
  rfl

theorem smallest_sorted (count : Nat) (keys : List K) : (smallest count keys).Pairwise (· ≤ ·) :=
  (pairwise_insertionSort (· ≤ ·) keys).sublist (List.take_sublist _ _)

theorem smallest_subset (count : Nat) (keys : List K) : smallest count keys ⊆ keys := fun _ member =>
  (List.mem_insertionSort (· ≤ ·)).mp (List.mem_of_mem_take member)

theorem length_smallest (count : Nat) (keys : List K) : (smallest count keys).length = min count keys.length := by
  rw [smallest, List.length_take, List.length_insertionSort]

theorem smallest_least (inside : key ∈ keys) : key ∈ smallest count keys ∨ ∀ low ∈ smallest count keys, low ≤ key := by
  have sorted := pairwise_insertionSort (· ≤ ·) keys
  have member := (List.mem_insertionSort (· ≤ ·)).mpr inside
  rw [← List.take_append_drop count (keys.insertionSort (· ≤ ·))] at sorted member
  rcases List.mem_append.mp member with kept | left
  · exact .inl kept
  · exact .inr fun low here => (List.pairwise_append.mp sorted).2.2 low here key left

theorem smallest_replicate {often : Nat} {later : List K} (enough : count ≤ often)
    (low : ∀ other ∈ later, key ≤ other) :
    smallest count (List.replicate often key ++ later) = List.replicate count key := by
  have moved : ((List.replicate often key ++ later).insertionSort (· ≤ ·)).Perm
      (List.replicate often key ++ later.insertionSort (· ≤ ·)) :=
    (List.perm_insertionSort (· ≤ ·) _).trans ((List.perm_insertionSort (· ≤ ·) later).symm.append_left _)
  have sorted : (List.replicate often key ++ later.insertionSort (· ≤ ·)).Pairwise (· ≤ ·) := by
    refine List.pairwise_append.mpr ⟨List.pairwise_replicate.mpr (.inr le_rfl),
      pairwise_insertionSort (· ≤ ·) later, fun one isKey other inside => ?_⟩
    rw [List.eq_of_mem_replicate isKey]
    exact low other ((List.mem_insertionSort (· ≤ ·)).mp inside)
  rw [smallest, moved.eq_of_pairwise' (pairwise_insertionSort (· ≤ ·) _) sorted,
    List.take_append_of_le_length (by rwa [List.length_replicate]), List.take_replicate, Nat.min_eq_left enough]

end Repeated

end SortedLists
