import Mathlib.Data.List.Nodup

/-! Maps that remember the order in which their keys were first set. -/

namespace OrderedMap

open List (append_assoc map_cons mem_cons_of_mem mem_map)

variable {K V : Type}

/-- An empty map is left out. -/
def dropEmpty : Option (List (K × V)) → Option (List (K × V))
  | some [] => none
  | m => m

@[simp] theorem getD_dropEmpty (m : Option (List (K × V))) : (dropEmpty m).getD [] = m.getD [] := by
  match m with
  | none | some [] | some (_ :: _) => rfl

theorem dropEmpty_dropEmpty (m : Option (List (K × V))) : dropEmpty (dropEmpty m) = dropEmpty m := by
  match m with
  | none | some [] | some (_ :: _) => rfl

variable [DecidableEq K]

def lookup (key : K) : List (K × V) → Option V
  | [] => none
  | (other, value) :: rest => if key = other then some value else lookup key rest

/-- A present key keeps its place, a new one goes to the end. -/
def assign (key : K) (value : V) : List (K × V) → List (K × V)
  | [] => [(key, value)]
  | (other, previous) :: rest =>
    if key = other then (key, value) :: rest else (other, previous) :: assign key value rest

def remove (key : K) (entries : List (K × V)) : List (K × V) :=
  entries.filter (fun entry => entry.1 ≠ key)

theorem assign_keys (key : K) (value : V) (entries : List (K × V)) : (assign key value entries).map Prod.fst =
      if key ∈ entries.map Prod.fst then entries.map Prod.fst
      else entries.map Prod.fst ++ [key] := by
  induction entries with
  | nil => simp [assign]
  | cons entry rest ih =>
    rcases entry with ⟨other, previous⟩
    by_cases same : key = other
    · simp [assign, same]
    · rw [assign, if_neg same, map_cons, ih]
      by_cases present : key ∈ rest.map Prod.fst <;> simp [present, same]

variable {entries left : List (K × V)} {X W : Type} {Rel : V → V → Prop}

theorem nodup_assign (distinct : (entries.map Prod.fst).Nodup)
    (key : K) (value : V) : ((assign key value entries).map Prod.fst).Nodup := by
  rw [assign_keys]
  split
  · exact distinct
  · next absent => simpa using distinct.concat absent

/-- A new key goes to the end. -/
theorem assign_new (key : K) (value : V)
    (absent : lookup key entries = none) : assign key value entries = entries ++ [(key, value)] := by
  induction entries with
  | nil => rfl
  | cons entry rest ih =>
    rcases entry with ⟨other, previous⟩
    rw [lookup] at absent
    split at absent
    · cases absent
    · next apart => rw [assign, if_neg apart, ih absent, List.cons_append]

theorem lookup_assign (key other : K) (value : V) (entries : List (K × V)) : lookup other (assign key value entries) =
      if other = key then some value else lookup other entries := by
  induction entries with
  | nil => simp [assign, lookup]
  | cons entry rest ih =>
    rcases entry with ⟨head, previous⟩
    by_cases same : key = head
    · subst head
      by_cases found : other = key <;> simp [assign, lookup, found]
    · by_cases found : other = head
      · subst head
        simp [assign, lookup, same, Ne.symm same]
      · simp [assign, lookup, same, found, ih]

theorem lookup_remove (key other : K) (entries : List (K × V)) :
    lookup other (remove key entries) = if other = key then none else lookup other entries := by
  induction entries with
  | nil => simp [remove, lookup]
  | cons entry rest ih =>
    rcases entry with ⟨head, previous⟩
    simp only [remove, ne_eq, decide_not] at ih ⊢
    by_cases same : head = key
    · subst head
      by_cases found : other = key
      · subst other
        simpa using ih
      · simp [lookup, found, ih]
    · by_cases found : other = head
      · subst head
        simp [lookup, same]
      · simp [lookup, same, found, ih]

theorem mem_of_lookup (key : K) (value : V) (entries : List (K × V))
    (found : lookup key entries = some value) : (key, value) ∈ entries := by
  induction entries with
  | nil => simp [lookup] at found
  | cons entry rest ih =>
    rcases entry with ⟨other, previous⟩
    by_cases same : key = other
    · subst other
      simp only [lookup, if_true, Option.some.injEq] at found
      exact found ▸ List.mem_cons_self
    · exact mem_cons_of_mem _ (ih (by simpa [lookup, same] using found))

theorem lookup_of_mem (key : K) (value : V) (entries : List (K × V))
    (distinct : (entries.map Prod.fst).Nodup) (member : (key, value) ∈ entries) :
    lookup key entries = some value := by
  induction entries with
  | nil => cases member
  | cons entry rest ih =>
    rcases entry with ⟨other, previous⟩
    simp only [map_cons, List.nodup_cons] at distinct
    rcases List.mem_cons.mp member with same | later
    · simp only [Prod.mk.injEq] at same
      simp [lookup, same]
    · have apart : key ≠ other := by
        rintro rfl
        exact distinct.1 (mem_map.mpr ⟨_, later, rfl⟩)
      simpa [lookup, apart] using ih distinct.2 later

/-- The entry of a present key is the only place that setting and removing the key touch. -/
theorem entry_split {key : K} {value : V} (found : lookup key entries = some value) :
    ∃ before after, entries = before ++ (key, value) :: after ∧ lookup key before = none ∧
      ∀ next, assign key next entries = before ++ (key, next) :: after := by
  induction entries with
  | nil => cases found
  | cons entry rest ih =>
    obtain ⟨other, previous⟩ := entry
    by_cases same : key = other
    · subst same
      rw [lookup, if_pos rfl] at found
      cases found
      exact ⟨[], rest, rfl, rfl, fun next => by rw [assign, if_pos rfl]; rfl⟩
    · rw [lookup, if_neg same] at found
      obtain ⟨before, after, split, absent, assigned⟩ := ih found
      refine ⟨(other, previous) :: before, after, by rw [split]; rfl, ?_, fun next => ?_⟩
      · rw [lookup, if_neg same, absent]
      · rw [assign, if_neg same, assigned next]
        rfl

theorem lookup_append (key : K) (first second : List (K × V)) :
    lookup key (first ++ second) = (lookup key first).or (lookup key second) := by
  induction first with
  | nil => simp [lookup]
  | cons entry rest ih =>
    rcases entry with ⟨other, value⟩
    by_cases same : key = other
    · simp [lookup, same]
    · simp [lookup, same, ih]

theorem lookup_filter (key : K) (keep : K → Bool) (entries : List (K × V)) :
    lookup key (entries.filter fun entry => keep entry.1) =
      if keep key then lookup key entries else none := by
  induction entries with
  | nil => simp [lookup]
  | cons entry rest ih =>
    rcases entry with ⟨other, value⟩
    by_cases same : key = other
    · subst other
      by_cases kept : keep key
      · simp [lookup, kept]
      · simpa [kept] using ih
    · by_cases kept : keep other <;> simp [lookup, kept, same, ih]

theorem eq_nil_iff (entries : List (K × V)) : entries = [] ↔ ∀ key, lookup key entries = none := by
  constructor
  · rintro rfl key
    rfl
  · intro none
    cases entries with
    | nil => rfl
    | cons entry rest =>
      have first := none entry.1
      simp [lookup] at first

/-- The map that holds for every key of either map what `f` makes of its two values. -/
def combine {W X : Type} (f : Option V → Option W → Option X) (left : List (K × V))
    (right : List (K × W)) : List (K × X) :=
  (left.map Prod.fst ++ (right.map Prod.fst).filter (fun key => key ∉ left.map Prod.fst)).filterMap
    (fun key => (f (lookup key left) (lookup key right)).map (key, ·))

theorem lookup_filterMap (key : K) (f : K → Option X) (keys : List K) :
    lookup key (keys.filterMap fun other => (f other).map (other, ·)) =
      if key ∈ keys then f key else none := by
  induction keys with
  | nil => simp [lookup]
  | cons other rest ih =>
    by_cases same : key = other
    · subst other
      cases value : f key with
      | none => simp [value, ih]
      | some x => simp [value, lookup]
    · cases value : f other with
      | none => simp [value, ih, same]
      | some x => simp [value, lookup, same, ih]

theorem lookup_eq_none_iff (key : K) (entries : List (K × V)) :
    lookup key entries = none ↔ key ∉ entries.map Prod.fst := by
  induction entries with
  | nil => simp [lookup]
  | cons entry rest ih =>
    by_cases same : key = entry.1
    · simp [lookup, same]
    · simp [lookup, same, ih]

theorem remove_absent {key : K} (absent : lookup key entries = none) :
    remove key entries = entries := by
  refine List.filter_eq_self.mpr fun entry member => decide_eq_true fun same => ?_
  exact (lookup_eq_none_iff key entries).mp absent (mem_map.mpr ⟨entry, member, same⟩)

/-- Values that leave the list of a key leave the lists of all keys. -/
theorem flatMap_assign {key : K} {list next gone : List V} {entries : List (K × List V)}
    (found : lookup key entries = some list) (left : list.Perm (next ++ gone)) :
    (entries.flatMap Prod.snd).Perm ((assign key next entries).flatMap Prod.snd ++ gone) := by
  obtain ⟨before, after, split, -, assigned⟩ := entry_split found
  rw [assigned next, split, List.flatMap_append, List.flatMap_append, List.flatMap_cons, List.flatMap_cons,
    append_assoc]
  refine List.Perm.append_left _ ?_
  rw [append_assoc]
  refine (left.append_right _).trans ?_
  rw [append_assoc]
  exact List.perm_append_comm.append_left next

theorem flatMap_remove {key : K} {list : List V} {entries : List (K × List V)}
    (distinct : (entries.map Prod.fst).Nodup) (found : lookup key entries = some list) :
    (entries.flatMap Prod.snd).Perm ((remove key entries).flatMap Prod.snd ++ list) := by
  obtain ⟨before, after, split, absent, -⟩ := entry_split found
  rw [split, List.map_append, map_cons] at distinct
  have later := (List.nodup_cons.mp (List.nodup_append'.mp distinct).2.1).1
  have removed : remove key entries = before ++ after := by
    rw [split, remove, List.filter_append, List.filter_cons_of_neg (by simp)]
    congr 1
    · exact remove_absent absent
    · refine List.filter_eq_self.mpr fun entry member => decide_eq_true ?_
      exact fun same => later (mem_map.mpr ⟨entry, member, same⟩)
  rw [removed, split, List.flatMap_append, List.flatMap_append, List.flatMap_cons, append_assoc]
  exact List.perm_append_comm.append_left _

theorem lookup_combine {f : Option V → Option W → Option X}
    (nothing : f none none = none) (key : K) (left : List (K × V)) (right : List (K × W)) :
    lookup key (combine f left right) = f (lookup key left) (lookup key right) := by
  rw [combine, lookup_filterMap]
  split
  · rfl
  · next outside =>
      have outLeft : key ∉ left.map Prod.fst := fun inside => outside (List.mem_append_left _ inside)
      have outRight : key ∉ right.map Prod.fst := fun inside =>
        outside (List.mem_append_right _ (List.mem_filter.mpr ⟨inside, decide_eq_true outLeft⟩))
      rw [(lookup_eq_none_iff key left).mpr outLeft, (lookup_eq_none_iff key right).mpr outRight, nothing]

/-- What the two values of a key become when either may be missing. -/
def both (f : V → V → V) : Option V → Option V → Option V
  | some v, some w => some (f v w)
  | some v, none => some v
  | none, w => w

/-- The maps have the same keys, with related values. -/
def Agree {W : Type} (Rel : V → W → Prop) (left : List (K × V)) (right : List (K × W)) :
    Prop :=
  ∀ key, Option.Rel Rel (lookup key left) (lookup key right)

theorem rel_refl (refl : ∀ v, Rel v v) (value : Option V) : Option.Rel Rel value value := by
  cases value with
  | none => exact .none
  | some v => exact .some (refl v)

theorem agree_refl (refl : ∀ v, Rel v v) (entries : List (K × V)) :
    Agree Rel entries entries := fun _ => rel_refl refl _

/-- Two updates of a map can be merged when the two updates of each value can. -/
theorem agree_twice (refl : ∀ v, Rel v v)
    {set : Option V → Option W → Option V} (keeps : ∀ old, set old none = old) {merge : W → W → W}
    (old : List (K × V)) (first second : List (K × W))
    (twice : ∀ key v w before, lookup key first = some v → lookup key second = some w →
      Option.Rel Rel (set before (some (merge v w))) (set (set before (some v)) (some w))) :
    Agree Rel (combine set old (combine (both merge) first second))
      (combine set (combine set old first) second) := by
  intro key
  rw [lookup_combine (keeps none), lookup_combine (f := both merge) rfl, lookup_combine (keeps none),
    lookup_combine (keeps none)]
  cases left : lookup key first with
  | none =>
    rw [keeps]
    exact rel_refl refl _
  | some v =>
    cases right : lookup key second with
    | none =>
      rw [keeps]
      exact rel_refl refl _
    | some w => exact twice key v w _ left right

/-- Conversely, what holds of the maps holds of the values of each key. -/
theorem Agree.twice
    {set : Option V → Option W → Option V} (keeps : ∀ old, set old none = old) {merge : W → W → W}
    {old : List (K × V)} {first second : List (K × W)}
    (agree : Agree Rel (combine set old (combine (both merge) first second))
      (combine set (combine set old first) second))
    {key : K} {v w : W} (left : lookup key first = some v) (right : lookup key second = some w) :
    Option.Rel Rel (set (lookup key old) (some (merge v w)))
      (set (set (lookup key old) (some v)) (some w)) := by
  have values := agree key
  rw [lookup_combine (keeps none), lookup_combine (f := both merge) rfl, lookup_combine (keeps none),
    lookup_combine (keeps none), left, right] at values
  exact values

theorem rel_mono {Rel Wider : V → W → Prop} (wider : ∀ v w, Rel v w → Wider v w)
    {left : Option V} {right : Option W} (related : Option.Rel Rel left right) :
    Option.Rel Wider left right := by
  cases related with
  | none => exact .none
  | some holds => exact .some (wider _ _ holds)

theorem agree_mono {Rel Wider : V → W → Prop} (wider : ∀ v w, Rel v w → Wider v w)
    {right : List (K × W)} (agree : Agree Rel left right) :
    Agree Wider left right := fun key => rel_mono wider (agree key)

theorem rel_symm {Rel : V → W → Prop} {Back : W → V → Prop} (turn : ∀ v w, Rel v w → Back w v)
    {left : Option V} {right : Option W} (related : Option.Rel Rel left right) :
    Option.Rel Back right left := by
  cases related with
  | none => exact .none
  | some holds => exact .some (turn _ _ holds)

theorem rel_trans (join : ∀ u v w, Rel u v → Rel v w → Rel u w)
    {first second third : Option V} (left : Option.Rel Rel first second)
    (right : Option.Rel Rel second third) : Option.Rel Rel first third := by
  cases left with
  | none => exact right
  | some holds =>
    cases right with
    | some next => exact .some (join _ _ _ holds next)

theorem agree_symm {Rel : V → W → Prop} {Back : W → V → Prop}
    (turn : ∀ v w, Rel v w → Back w v) {right : List (K × W)}
    (agree : Agree Rel left right) : Agree Back right left := fun key => rel_symm turn (agree key)

theorem agree_trans (join : ∀ u v w, Rel u v → Rel v w → Rel u w)
    {first second third : List (K × V)} (left : Agree Rel first second) (right : Agree Rel second third) :
    Agree Rel first third := fun key => rel_trans join (left key) (right key)

theorem agree_eq_trans {first second third : List (K × V)} (left : Agree Eq first second)
    (right : Agree Eq second third) : Agree Eq first third :=
  agree_trans (fun _ _ _ same next => same.trans next) left right

theorem rel_agree_iff {Rel : V → W → Prop} {left : Option (List (K × V))}
    {right : Option (List (K × W))} : Option.Rel (Agree Rel) left right ↔
      left.isSome = right.isSome ∧
        ∀ key, Option.Rel Rel (lookup key (left.getD [])) (lookup key (right.getD [])) := by
  constructor
  · intro related
    cases related with
    | none => exact ⟨rfl, fun _ => .none⟩
    | some agree => exact ⟨rfl, agree⟩
  · rintro ⟨shape, values⟩
    cases left with
    | none =>
      cases right with
      | none => exact .none
      | some entries => cases shape
    | some entries =>
      cases right with
      | none => cases shape
      | some others => exact .some values

theorem eq_of_rel {left right : Option V} (related : Option.Rel Eq left right) : left = right := by
  cases related with
  | none => rfl
  | some same => rw [same]

theorem rel_getD {Rel : V → W → Prop} {left : Option (List (K × V))}
    {right : Option (List (K × W))} (related : Option.Rel (Agree Rel) left right) (key : K) :
    Option.Rel Rel (lookup key (left.getD [])) (lookup key (right.getD [])) := by
  cases related with
  | none => exact .none
  | some agree => exact agree key

theorem cells_foldl {S C : Type} {Inv : S → Prop} {write : S → K × V → S} {cell : S → K → C}
    {put : K → V → C → C} (entries : List (K × V)) (distinct : (entries.map Prod.fst).Nodup)
    (keeps : ∀ s, ∀ entry ∈ entries, Inv s → Inv (write s entry))
    (one : ∀ s, ∀ entry ∈ entries, ∀ key, Inv s →
      cell (write s entry) key = if key = entry.1 then put key entry.2 (cell s key) else cell s key)
    (s : S) (inv : Inv s) : Inv (entries.foldl write s) ∧ ∀ key, cell (entries.foldl write s) key =
      (lookup key entries).elim (cell s key) fun value => put key value (cell s key) := by
  induction entries generalizing s with
  | nil => exact ⟨inv, fun _ => rfl⟩
  | cons entry rest ih =>
    rw [map_cons, List.nodup_cons] at distinct
    have here : entry ∈ entry :: rest := List.mem_cons_self
    obtain ⟨invLast, cells⟩ := ih distinct.2 (fun s entry later => keeps s entry (mem_cons_of_mem _ later))
      (fun s entry later => one s entry (mem_cons_of_mem _ later)) (write s entry) (keeps s entry here inv)
    refine ⟨invLast, fun key => ?_⟩
    rw [List.foldl_cons, cells, one s entry here key inv, lookup]
    by_cases same : key = entry.1
    · rw [if_pos same, if_pos same, (lookup_eq_none_iff key rest).mpr (same ▸ distinct.1)]
      rfl
    · rw [if_neg same, if_neg same]

theorem mem_assign {key : K} {value : V} {entry : K × V}
    (member : entry ∈ assign key value entries) : entry = (key, value) ∨ entry ∈ entries := by
  induction entries with
  | nil => exact .inl (List.mem_singleton.mp member)
  | cons first rest ih =>
    rcases first with ⟨other, previous⟩
    by_cases same : key = other
    · rw [assign, if_pos same] at member
      rcases List.mem_cons.mp member with new | old
      · exact .inl new
      · exact .inr (mem_cons_of_mem _ old)
    · rw [assign, if_neg same] at member
      rcases List.mem_cons.mp member with here | later
      · exact .inr (here ▸ List.mem_cons_self)
      · exact (ih later).imp id (mem_cons_of_mem _)

theorem agree_dropEmpty_iff {Rel : V → W → Prop}
    {right : List (K × W)} : Option.Rel (Agree Rel) (dropEmpty (some left)) (dropEmpty (some right)) ↔
      Agree Rel left right := by
  match left, right with
  | [], [] => exact ⟨fun _ _ => .none, fun _ => .none⟩
  | [], entry :: rest =>
    refine ⟨fun impossible => (by cases impossible), fun agree => ?_⟩
    have first := agree entry.1
    simp only [lookup, if_true] at first
    cases first
  | entry :: rest, [] =>
    refine ⟨fun impossible => (by cases impossible), fun agree => ?_⟩
    have first := agree entry.1
    simp only [lookup, if_true] at first
    cases first
  | _ :: _, _ :: _ =>
    exact ⟨fun related => (by cases related; assumption), fun agree => .some agree⟩

/-- Every updated value is set in turn, in a map that is made when there is none. -/
def setAll {W : Type} (set : Option V → Option W → Option V)
    (old : Option (List (K × V))) : Option (List (K × W)) → Option (List (K × V))
  | none => old
  | some update => some (combine set (old.getD []) update)

theorem setAll_twice (refl : ∀ v, Rel v v)
    {set : Option V → Option W → Option V} (keeps : ∀ old, set old none = old) {merge : W → W → W}
    (old : Option (List (K × V))) (first second : Option (List (K × W)))
    (twice : ∀ key v w before, lookup key (first.getD []) = some v →
      lookup key (second.getD []) = some w →
        Option.Rel Rel (set before (some (merge v w))) (set (set before (some v)) (some w))) :
    Option.Rel (Agree Rel) (setAll set old (both (combine (both merge)) first second))
      (setAll set (setAll set old first) second) := by
  match first, second with
  | none, _ | some _, none => exact rel_refl (agree_refl refl) _
  | some update, some other => exact .some (agree_twice refl keeps (old.getD []) update other twice)

theorem mem_combine {f : Option V → Option W → Option X}
    {right : List (K × W)} {key : K} {value : X} (member : (key, value) ∈ combine f left right) :
    f (lookup key left) (lookup key right) = some value := by
  have ⟨other, _, made⟩ := List.mem_filterMap.mp member
  have ⟨x, found, same⟩ := Option.map_eq_some_iff.mp made
  cases same
  exact found

theorem rel_dropEmpty {Rel : V → W → Prop} {left : Option (List (K × V))}
    {right : Option (List (K × W))} (related : Option.Rel (Agree Rel) left right) :
    Option.Rel (Agree Rel) (dropEmpty left) (dropEmpty right) := by
  cases related with
  | none => exact .none
  | some agree => exact agree_dropEmpty_iff.mpr agree

theorem lookup_setAll {set : Option V → Option W → Option V}
    (keeps : ∀ old, set old none = old) (old : Option (List (K × V))) (update : Option (List (K × W)))
    (key : K) : lookup key ((setAll set old update).getD []) =
      set (lookup key (old.getD [])) (lookup key (update.getD [])) := by
  cases update with
  | none => exact (keeps _).symm
  | some update => exact lookup_combine (keeps none) key _ _

theorem setAll_dropEmpty (set : Option V → Option W → Option V)
    (old : Option (List (K × V))) (update : Option (List (K × W))) :
    dropEmpty (setAll set (dropEmpty old) update) = dropEmpty (setAll set old update) := by
  cases update with
  | none => exact dropEmpty_dropEmpty old
  | some update => simp only [setAll, getD_dropEmpty]

end OrderedMap

/-- A finite map whose entries are listed in insertion order, each key once. -/
structure OrderedMap (K V : Type) where
  entries : List (K × V)
  distinct : (entries.map Prod.fst).Nodup

namespace OrderedMap

variable {K V : Type}

def empty : OrderedMap K V := ⟨[], List.nodup_nil⟩

def size (m : OrderedMap K V) : Nat := m.entries.length

def values (m : OrderedMap K V) : List V := m.entries.map Prod.snd

@[simp] theorem values_empty : (empty : OrderedMap K V).values = [] := rfl

theorem size_pos_iff (m : OrderedMap K V) : 0 < m.size ↔ ∃ value, value ∈ m.values := by
  simp only [size, List.length_pos_iff_exists_mem, values, List.mem_map]
  constructor
  · rintro ⟨entry, member⟩
    exact ⟨_, entry, member, rfl⟩
  · rintro ⟨_, entry, member, _⟩
    exact ⟨entry, member⟩

variable [DecidableEq K]

def get (m : OrderedMap K V) (key : K) : Option V := lookup key m.entries

def set (m : OrderedMap K V) (key : K) (value : V) : OrderedMap K V where
  entries := assign key value m.entries
  distinct := by
    rw [assign_keys]
    split
    · exact m.distinct
    · next absent => simpa using m.distinct.concat absent

def delete (m : OrderedMap K V) (key : K) : OrderedMap K V where
  entries := remove key m.entries
  distinct := m.distinct.sublist (List.filter_sublist.map Prod.fst)

@[simp] theorem get_empty (key : K) : (empty : OrderedMap K V).get key = none := rfl

theorem get_set (m : OrderedMap K V) (key other : K) (value : V) :
    (m.set key value).get other = if other = key then some value else m.get other :=
  lookup_assign key other value m.entries

theorem get_delete (m : OrderedMap K V) (key other : K) :
    (m.delete key).get other = if other = key then none else m.get other :=
  lookup_remove key other m.entries

theorem get_iff_mem (m : OrderedMap K V) (key : K) (value : V) : m.get key = some value ↔ (key, value) ∈ m.entries :=
  ⟨mem_of_lookup key value m.entries, lookup_of_mem key value m.entries m.distinct⟩

theorem mem_values (m : OrderedMap K V) (value : V) : value ∈ m.values ↔ ∃ key, m.get key = some value := by
  simp only [values, List.mem_map, Prod.exists, exists_eq_right, get_iff_mem]

/-- Each value is listed once when no two keys share one. -/
theorem values_nodup (m : OrderedMap K V)
    (single : ∀ k k' v, m.get k = some v → m.get k' = some v → k = k') : m.values.Nodup := by
  have distinct : m.entries.Nodup := m.distinct.of_map _
  refine distinct.map_on fun left inLeft right inRight same => ?_
  have first : m.get left.1 = some left.2 := (get_iff_mem m _ _).mpr inLeft
  have second : m.get right.1 = some left.2 := (get_iff_mem m _ _).mpr (same ▸ inRight)
  exact Prod.ext (single _ _ _ first second) same

/-! A map that indexes a list of cells: it has exactly the keys of the cells, with their values. -/

section Indexes

variable {C : Type} {m : OrderedMap K V} {key : C → K} {val : C → V} {cells cells' : List C}

def Indexes (m : OrderedMap K V) (key : C → K) (val : C → V) (cells : List C) : Prop :=
  ∀ k v, m.get k = some v ↔ ∃ c ∈ cells, val c = v ∧ key c = k

theorem indexes_empty (key : C → K) (val : C → V) : Indexes (empty : OrderedMap K V) key val [] := by simp [Indexes]

theorem Indexes.get (index : Indexes m key val cells) (c : C) (member : c ∈ cells) :
    m.get (key c) = some (val c) := (index _ _).mpr ⟨c, member, rfl, rfl⟩

theorem Indexes.absent (index : Indexes m key val cells) (k : K) : m.get k = none ↔ ∀ c ∈ cells, key c ≠ k := by
  constructor
  · rintro missing c member rfl
    rw [index.get c member] at missing
    cases missing
  · intro fresh
    cases found : m.get k with
    | none => rfl
    | some v =>
      obtain ⟨c, member, _, same⟩ := (index k v).mp found
      exact absurd same (fresh c member)

theorem Indexes.unique (index : Indexes m key val cells) (c d : C) (left : c ∈ cells)
    (right : d ∈ cells) (same : key c = key d) : val c = val d := by
  have found := index.get c left
  rw [same, index.get d right] at found
  exact (Option.some.inj found).symm

theorem Indexes.congr (index : Indexes m key val cells) (same : ∀ c, c ∈ cells ↔ c ∈ cells') :
    Indexes m key val cells' := by
  intro k v
  simp only [index k v, same]

theorem Indexes.set (index : Indexes m key val cells) (c : C)
    (fresh : ∀ d ∈ cells, key d ≠ key c) (same : ∀ d, d ∈ cells' ↔ d = c ∨ d ∈ cells) :
    Indexes (m.set (key c) (val c)) key val cells' := by
  intro k v
  rw [get_set]
  by_cases here : k = key c
  · subst here
    simp only [if_true, Option.some.injEq]
    constructor
    · rintro rfl
      exact ⟨c, (same c).mpr (.inl rfl), rfl, rfl⟩
    · rintro ⟨d, member, rfl, equal⟩
      rcases (same d).mp member with rfl | member
      · rfl
      · exact absurd equal (fresh d member)
  · rw [if_neg here, index k v]
    constructor
    · rintro ⟨d, member, rest⟩
      exact ⟨d, (same d).mpr (.inr member), rest⟩
    · rintro ⟨d, member, rfl, rfl⟩
      rcases (same d).mp member with rfl | member
      · exact absurd rfl here
      · exact ⟨d, member, rfl, rfl⟩

theorem Indexes.replace {old : C} (index : Indexes m key val (old :: cells)) (c : C)
    (same : key c = key old) (fresh : ∀ d ∈ cells, key d ≠ key old) :
    Indexes (m.set (key c) (val c)) key val (c :: cells) := by
  intro k v
  rw [get_set, same]
  by_cases here : k = key old
  · subst here
    simp only [if_true, Option.some.injEq]
    constructor
    · intro equal
      exact ⟨c, List.mem_cons_self, equal, same⟩
    · intro ⟨d, member, value, equal⟩
      rcases List.mem_cons.mp member with first | later
      · exact first ▸ value
      · exact absurd equal (fresh d later)
  · rw [if_neg here, index k v]
    constructor
    · intro ⟨d, member, value, equal⟩
      rcases List.mem_cons.mp member with first | later
      · exact absurd (first ▸ equal.symm) here
      · exact ⟨d, List.mem_cons_of_mem _ later, value, equal⟩
    · intro ⟨d, member, value, equal⟩
      rcases List.mem_cons.mp member with first | later
      · exact absurd ((first ▸ equal.symm).trans same) here
      · exact ⟨d, List.mem_cons_of_mem _ later, value, equal⟩

theorem Indexes.setAll (index : Indexes m key val cells) (added : List C)
    (fresh : ∀ c ∈ added, ∀ d ∈ cells, key d ≠ key c) (distinct : added.Pairwise (fun c d => key c ≠ key d))
    (same : ∀ d, d ∈ cells' ↔ d ∈ added ∨ d ∈ cells) :
    Indexes (added.foldl (fun m c => m.set (key c) (val c)) m) key val cells' := by
  induction added generalizing m cells with
  | nil => exact index.congr (fun d => by simp [same])
  | cons c added ih =>
    have apart := List.pairwise_cons.mp distinct
    have grown : Indexes (m.set (key c) (val c)) key val (c :: cells) :=
      index.set c (fresh c List.mem_cons_self) (fun d => List.mem_cons)
    refine ih grown (fun e member d inside => ?_) apart.2 (fun d => ?_)
    · rcases List.mem_cons.mp inside with first | later
      · exact first ▸ apart.1 e member
      · exact fresh e (List.mem_cons_of_mem _ member) d later
    · rw [same]
      simp only [List.mem_cons]
      tauto

theorem Indexes.mem_values (index : Indexes m key val cells) (v : V) : v ∈ m.values ↔ ∃ c ∈ cells, val c = v := by
  rw [OrderedMap.mem_values]
  constructor
  · intro ⟨k, found⟩
    rcases (index k v).mp found with ⟨c, member, value, _⟩
    exact ⟨c, member, value⟩
  · intro ⟨c, member, value⟩
    exact ⟨key c, (index _ v).mpr ⟨c, member, value, rfl⟩⟩

theorem get_deleteAll (m : OrderedMap K V) (removed : List K) (k : K) :
    (removed.foldl delete m).get k = if k ∈ removed then none else m.get k := by
  induction removed generalizing m with
  | nil => simp
  | cons r removed ih =>
    rw [List.foldl_cons, ih, get_delete]
    by_cases first : k = r <;> by_cases later : k ∈ removed <;> simp [first, later]

theorem Indexes.deleteAll (index : Indexes m key val cells) (removed : List C)
    (parts : ∀ c, c ∈ cells ↔ c ∈ removed ∨ c ∈ cells') (apart : ∀ c ∈ removed, ∀ d ∈ cells', key c ≠ key d) :
    Indexes ((removed.map key).foldl delete m) key val cells' := by
  intro k v
  rw [get_deleteAll]
  split
  · next gone =>
      obtain ⟨c, member, rfl⟩ := List.mem_map.mp gone
      simp only [reduceCtorEq, false_iff, not_exists, not_and]
      intro d kept _ same
      exact apart c member d kept same.symm
  · next kept =>
      rw [index k v]
      constructor
      · rintro ⟨c, member, rfl, rfl⟩
        rcases (parts c).mp member with gone | member
        · exact absurd (List.mem_map_of_mem gone) kept
        · exact ⟨c, member, rfl, rfl⟩
      · rintro ⟨c, member, rest⟩
        exact ⟨c, (parts c).mpr (.inr member), rest⟩

end Indexes

end OrderedMap
