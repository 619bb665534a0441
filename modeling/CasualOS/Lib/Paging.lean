import Mathlib.Data.List.Sort

/-! Lists that are read in pages, each asked for by the key of the last record of the one before. -/

namespace Paging

variable {R K : Type} [LinearOrder K]

section Reading

variable (key : R → K) (starts : K → Bool) (size : Nat) (records : List R)

/-- The records below a key. Some keys ask for all records, as having no key does. -/
def below : Option K → List R
  | none => records
  | some last => if starts last then records else records.filter (fun record => key record < last)

def page (after : Option K) : List R := (below key starts records after).take size

/-- Page after page, until one is empty. -/
inductive Reads : Option K → List R → Prop where
  | done {after : Option K} : page key starts size records after = [] → Reads after []
  | page {after : Option K} {last : R} {rest : List R} :
      (page key starts size records after).getLast? = some last → Reads (some (key last)) rest →
      Reads after (page key starts size records after ++ rest)

/-- No page ends with a record whose key asks for all records, or stands right before a record of the same
key. -/
def Cuts : Prop :=
  ∀ i last, records[i]? = some last → (i + 1) % size = 0 ∨ i + 1 = records.length →
    starts (key last) = false ∧ ∀ next, records[i + 1]? = some next → key next ≠ key last

/-- Higher keys come first. -/
def Descending : Prop := records.Pairwise (fun first second => key second ≤ key first)

end Reading

variable {key : R → K} {starts : K → Bool} {size : Nat} {records : List R}

/-! ### The records below a key -/

variable {last : K} {after : Option K} {read : List R}

theorem below_of_starts (begins : starts last = true) : below key starts records (some last) = records := if_pos begins

theorem below_of_not_starts (goesOn : starts last = false) :
    below key starts records (some last) = records.filter (fun record => key record < last) :=
  if_neg (Bool.eq_false_iff.mp goesOn)

theorem mem_of_below {record : R} (member : record ∈ below key starts records after) : record ∈ records := by
  cases after with
  | none => exact member
  | some last =>
    cases begins : starts last with
    | true =>
      rw [below_of_starts begins] at member
      exact member
    | false =>
      rw [below_of_not_starts begins] at member
      exact (List.mem_filter.mp member).1

theorem filter_front {front back : List R} {last : R} (sorted : Descending key (front ++ last :: back)) :
    (front ++ last :: back).filter (fun record => key record < key last) =
      back.filter (fun record => key record < key last) := by
  have first : front.filter (fun record => decide (key record < key last)) = [] := by
    refine List.filter_eq_nil_iff.mpr (fun record member => ?_)
    have order := (List.pairwise_append.mp sorted).2.2 record member last List.mem_cons_self
    simpa using order
  rw [List.filter_append, first, List.filter_cons_of_neg (by simp)]
  rfl

theorem filter_back {back : List R} {last : R} (sorted : Descending key (last :: back))
    (differ : ∀ next, back.head? = some next → key next ≠ key last) :
    back.filter (fun record => key record < key last) = back := by
  refine List.filter_eq_self.mpr (fun record member => ?_)
  cases back with
  | nil => cases member
  | cons next rest =>
    have ⟨first, others⟩ := List.pairwise_cons.mp sorted
    have lower : key next < key last := lt_of_le_of_ne (first next List.mem_cons_self) (differ next rfl)
    rcases List.mem_cons.mp member with same | later
    · exact same ▸ decide_eq_true lower
    · exact decide_eq_true (lt_of_le_of_lt ((List.pairwise_cons.mp others).1 record later) lower)

theorem filter_suffix (sorted : Descending key records) (last : K) :
    ∃ front, records = front ++ records.filter (fun record => key record < last) := by
  induction records with
  | nil => exact ⟨[], rfl⟩
  | cons first rest ih =>
    have ⟨order, others⟩ := List.pairwise_cons.mp sorted
    by_cases lower : key first < last
    · have all : (first :: rest).filter (fun record => key record < last) = first :: rest := by
        refine List.filter_eq_self.mpr (fun record member => ?_)
        rcases List.mem_cons.mp member with same | later
        · exact same ▸ decide_eq_true lower
        · exact decide_eq_true (lt_of_le_of_lt (order record later) lower)
      exact ⟨[], all.symm⟩
    · have ⟨front, parts⟩ := ih others
      refine ⟨first :: front, ?_⟩
      rw [List.filter_cons_of_neg (by simpa using lower), List.cons_append, ← parts]

/-! ### One page -/

/-- `front` and `last` are the first page, which is full if anything follows it. -/
structure FirstPage (size : Nat) (rest front : List R) (last : R) : Prop where
  ends : rest.take size = front ++ [last]
  parts : rest = front ++ last :: rest.drop size
  short : front.length < size
  full : rest.drop size ≠ [] → front.length + 1 = size

omit [LinearOrder K] in
theorem exists_firstPage (positive : 0 < size) {rest : List R} (filled : rest ≠ []) :
    ∃ front last, FirstPage size rest front last := by
  rcases List.eq_nil_or_concat' (rest.take size) with nothing | ⟨front, last, ends⟩
  · rcases List.take_eq_nil_iff.mp nothing with zero | empty
    · omega
    · exact absurd empty filled
  · have long := congrArg List.length ends
    simp only [List.length_take, List.length_append, List.length_singleton] at long
    refine ⟨front, last, ends, ?_, by omega, ?_⟩
    · calc
        rest = rest.take size ++ rest.drop size := (List.take_append_drop size rest).symm
        _ = front ++ last :: rest.drop size := by rw [ends]; simp
    · intro follows
      have more := List.length_pos_iff.mpr follows
      rw [List.length_drop] at more
      omega

omit [LinearOrder K] in
theorem cuts_iff {rest front : List R} {last : R} (first : FirstPage size rest front last) :
    Cuts key starts size rest ↔ (starts (key last) = false ∧
      ∀ next, (rest.drop size).head? = some next → key next ≠ key last) ∧ Cuts key starts size (rest.drop size) := by
  have ⟨_, parts, short, full⟩ := first
  have here : rest[front.length]? = some last := by
    rw [parts]
    simp
  have after : ∀ j, rest[front.length + 1 + j]? = (rest.drop size)[j]? := by
    intro j
    conv_lhs => rw [parts]
    rw [List.getElem?_append_right (by omega)]
    have index : front.length + 1 + j - front.length = j + 1 := by omega
    rw [index, List.getElem?_cons_succ]
  have long : rest.length = front.length + 1 + (rest.drop size).length := by
    conv_lhs => rw [parts]
    simp only [List.length_append, List.length_cons]
    omega
  constructor
  · intro cuts
    have atEnd : (front.length + 1) % size = 0 ∨ front.length + 1 = rest.length := by
      by_cases follows : rest.drop size = []
      · rw [follows] at long
        exact .inr long.symm
      · rw [full follows]
        exact .inl (Nat.mod_self size)
    refine ⟨⟨(cuts _ last here atEnd).1, fun next first => ?_⟩, ?_⟩
    · refine (cuts _ last here atEnd).2 next ?_
      rw [← first, List.head?_eq_getElem?]
      exact after 0
    · intro j other found atPage
      have follows : rest.drop size ≠ [] := by
        intro nothing
        rw [nothing] at found
        cases found
      have whole := full follows
      have moved := cuts (front.length + 1 + j) other ((after j).trans found) ?_
      · exact ⟨moved.1, fun next following => moved.2 next ((after (j + 1)).trans following)⟩
      · rcases atPage with multiple | final
        · left
          rw [whole, Nat.add_assoc, Nat.add_mod_left]
          exact multiple
        · right
          omega
  · rintro ⟨good, later⟩ i other found atPage
    have bound := (List.getElem?_eq_some_iff.mp found).1
    rcases Nat.lt_or_ge front.length i with beyond | within
    · have index : i = front.length + 1 + (i - (front.length + 1)) := by omega
      rw [index, after] at found
      have follows : rest.drop size ≠ [] := by
        intro nothing
        rw [nothing] at found
        cases found
      have whole := full follows
      have moved := later _ other found ?_
      · refine ⟨moved.1, fun next following => moved.2 next ?_⟩
        rw [← following, ← after]
        congr 1
        omega
      · rcases atPage with multiple | final
        · left
          have split : i + 1 = size + (i - (front.length + 1) + 1) := by omega
          rw [split, Nat.add_mod_left] at multiple
          exact multiple
        · right
          omega
    · have index : i = front.length := by
        rcases atPage with multiple | final
        · have whole : size ≤ i + 1 := Nat.le_of_dvd (Nat.succ_pos i) (Nat.dvd_of_mod_eq_zero multiple)
          omega
        · omega
      subst index
      have same : last = other := Option.some.inj (here.symm.trans found)
      refine same ▸ ⟨good.1, fun next following => good.2 next ?_⟩
      rw [← following, List.head?_eq_getElem?]
      exact (after 0).symm

/-! ### All pages -/

theorem reads_rest (positive : 0 < size) (sorted : Descending key records) (rest : List R)
    (cuts : Cuts key starts size rest) (front : List R) (after : Option K) (parts : records = front ++ rest)
    (left : below key starts records after = rest) : Reads key starts size records after rest := by
  induction long : rest.length using Nat.strong_induction_on generalizing rest front after with
  | _ length ih =>
    by_cases filled : rest = []
    · subst filled
      refine .done ?_
      rw [page, left, List.take_nil]
    · have ⟨read, last, first⟩ := exists_firstPage positive filled
      have ⟨good, later⟩ := (cuts_iff first).mp cuts
      have shown : page key starts size records after = read ++ [last] := by
        rw [page, left, first.ends]
      have whole : records = (front ++ read) ++ last :: rest.drop size := by
        conv_lhs => rw [parts, first.parts]
        rw [List.append_assoc]
      have remains : below key starts records (some (key last)) = rest.drop size := by
        rw [below_of_not_starts good.1]
        have both := whole ▸ sorted
        conv_lhs => rw [whole]
        rw [filter_front both, filter_back (List.pairwise_append.mp both).2.1 good.2]
      have shorter : (rest.drop size).length < length := by
        have some := List.length_pos_iff.mpr filled
        rw [List.length_drop]
        omega
      have next := ih _ shorter (rest.drop size) later (front ++ read ++ [last]) (some (key last))
        (by rw [whole]; simp) remains rfl
      have ends : (page key starts size records after).getLast? = some last := by
        rw [shown, List.getLast?_concat]
      have done := Reads.page ends next
      rw [page, left, List.take_append_drop] at done
      exact done

theorem Reads.unique {first second : List R} (reads : Reads key starts size records after first)
    (again : Reads key starts size records after second) : first = second := by
  induction reads generalizing second with
  | done empty =>
    cases again with
    | done _ => rfl
    | page ends _ => rw [empty] at ends; cases ends
  | page ends _ ih =>
    cases again with
    | done empty => rw [empty] at ends; cases ends
    | page ends' later =>
      have same := Option.some.inj (ends.symm.trans ends')
      rw [ih (same ▸ later)]

theorem reads_start (begins : starts last = true)
    (reads : Reads key starts size records (some last) read) : Reads key starts size records none read := by
  have same : page key starts size records (some last) = page key starts size records none := by
    rw [page, page, below_of_starts begins]
    rfl
  cases reads with
  | done empty => exact .done (same ▸ empty)
  | page ends later =>
    rw [same] at ends ⊢
    exact .page ends later

theorem reads_cases (positive : 0 < size) (sorted : Descending key records)
    (reads : Reads key starts size records after read) :
    ∀ front rest, records = front ++ rest → below key starts records after = rest →
      (∃ before again, before ≠ [] ∧ read = before ++ again ∧ Reads key starts size records none again) ∨
        (read.length ≤ rest.length ∧ (read.length = rest.length → Cuts key starts size rest)) := by
  induction reads with
  | done empty =>
    intro front rest _ left
    have nothing : rest = [] := by
      rw [page, left] at empty
      exact (List.take_eq_nil_iff.mp empty).resolve_left (by omega)
    subst nothing
    refine .inr ⟨le_refl 0, fun _ i last found => ?_⟩
    cases found
  | @page after last later ends continues ih =>
    intro front rest parts left
    have filled : rest ≠ [] := by
      rintro rfl
      rw [page, left, List.take_nil] at ends
      cases ends
    have ⟨read, final, first⟩ := exists_firstPage positive filled
    have shown : page key starts size records after = read ++ [final] := by
      rw [page, left, first.ends]
    rw [shown, List.getLast?_concat] at ends
    obtain rfl := Option.some.inj ends
    rw [shown]
    cases begins : starts (key final) with
    | true => exact .inl ⟨read ++ [final], later, by simp, rfl, reads_start begins continues⟩
    | false =>
      have whole : records = (front ++ read) ++ final :: rest.drop size := by
        conv_lhs => rw [parts, first.parts]
        rw [List.append_assoc]
      have both := whole ▸ sorted
      have remains : below key starts records (some (key final)) =
          (rest.drop size).filter (fun record => key record < key final) := by
        rw [below_of_not_starts begins]
        conv_lhs => rw [whole]
        exact filter_front both
      have ⟨before, split⟩ := filter_suffix sorted (key final)
      have suffix : records = before ++ (rest.drop size).filter (fun record => key record < key final) := by
        rw [← remains, below_of_not_starts begins]
        exact split
      have long : rest.length = (read ++ [final]).length + (rest.drop size).length := by
        rw [← first.ends, ← List.length_append, List.take_append_drop]
      have fewer := List.length_filter_le (fun record => decide (key record < key final)) (rest.drop size)
      rcases ih before _ suffix remains with ⟨more, again, _, same, anew⟩ | ⟨most, all⟩
      · refine .inl ⟨read ++ [final] ++ more, again, by simp, ?_, anew⟩
        rw [same, List.append_assoc (read ++ [final])]
      · refine .inr ⟨?_, fun equal => ?_⟩
        · rw [List.length_append, long]
          omega
        · rw [List.length_append, long] at equal
          have kept : (rest.drop size).filter (fun record => decide (key record < key final)) =
              rest.drop size := List.filter_eq_self.mpr (List.length_filter_eq_length_iff.mp (by omega))
          rw [kept] at all
          refine (cuts_iff first).mpr ⟨⟨begins, fun next head => ?_⟩, all (by omega)⟩
          have member : next ∈ (rest.drop size).filter (fun record => decide (key record < key final)) := by
            rw [kept]
            exact List.mem_of_head? head
          exact ne_of_lt (of_decide_eq_true (List.mem_filter.mp member).2)

/-- Reading page after page reads every record once where the pages end well. -/
theorem reads_all (positive : 0 < size) (sorted : Descending key records) (cuts : Cuts key starts size records) :
    Reads key starts size records none records :=
  reads_rest positive sorted records cuts [] none rfl rfl

theorem cuts_of_reads (positive : 0 < size) (sorted : Descending key records)
    (reads : Reads key starts size records none read) (all : read.length = records.length) :
    Cuts key starts size records := by
  rcases reads_cases positive sorted reads [] records rfl rfl with
    ⟨before, again, filled, same, anew⟩ | ⟨_, cuts⟩
  · have long := congrArg List.length same
    have more := List.length_pos_iff.mpr filled
    rw [List.length_append, reads.unique anew] at long
    omega
  · exact cuts all

end Paging
