import Mathlib.Data.Set.Basic

/-! Sets that change by additions and removals, and what is lost when several changes become one. -/

namespace Deltas

variable {α : Type}

/-- What one change adds and then removes. -/
@[ext]
structure Delta (α : Type) where
  added : Set α
  removed : Set α

namespace Delta

def apply (d : Delta α) (s : Set α) : Set α := { x | (x ∈ s ∨ x ∈ d.added) ∧ x ∉ d.removed }

/-- All additions of the changes, then all their removals. -/
def merge (ds : List (Delta α)) : Delta α where
  added := { x | ∃ d ∈ ds, x ∈ d.added }
  removed := { x | ∃ d ∈ ds, x ∈ d.removed }

end Delta

def applyAll (s : Set α) (ds : List (Delta α)) : Set α := ds.foldl (fun s d => d.apply s) s

variable {s : Set α} {x : α}

theorem applyAll_append (ds late : List (Delta α)) : applyAll s (ds ++ late) = applyAll (applyAll s ds) late :=
  List.foldl_append

/-- What is there in the end was there or was added, and nothing has removed it since. -/
theorem mem_applyAll (ds : List (Delta α)) : x ∈ applyAll s ds ↔ (x ∈ s ∧ ∀ d ∈ ds, x ∉ d.removed) ∨
      ∃ pre d post, ds = pre ++ d :: post ∧ x ∈ d.added ∧ ∀ e ∈ d :: post, x ∉ e.removed := by
  induction ds generalizing s with
  | nil => simp [applyAll]
  | cons d rest ih =>
    have tail : applyAll s (d :: rest) = applyAll (d.apply s) rest := rfl
    rw [tail, ih]
    constructor
    · rintro (⟨⟨held, kept⟩, later⟩ | ⟨pre, e, post, shape, added, later⟩)
      · have all : ∀ e ∈ d :: rest, x ∉ e.removed := List.forall_mem_cons.mpr ⟨kept, later⟩
        rcases held with old | added
        · exact .inl ⟨old, all⟩
        · exact .inr ⟨[], d, rest, rfl, added, all⟩
      · exact .inr ⟨d :: pre, e, post, by rw [shape, List.cons_append], added, later⟩
    · rintro (⟨old, all⟩ | ⟨pre, e, post, shape, added, later⟩)
      · obtain ⟨kept, later⟩ := List.forall_mem_cons.mp all
        exact .inl ⟨⟨.inl old, kept⟩, later⟩
      · cases pre with
        | nil =>
          obtain ⟨rfl, rfl⟩ := List.cons.inj shape
          obtain ⟨kept, later⟩ := List.forall_mem_cons.mp later
          exact .inl ⟨⟨.inr added, kept⟩, later⟩
        | cons first pre =>
          obtain ⟨rfl, rfl⟩ := List.cons.inj shape
          exact .inr ⟨pre, e, post, rfl, added, later⟩

theorem merge_subset (ds : List (Delta α)) : (Delta.merge ds).apply s ⊆ applyAll s ds := by
  rintro x ⟨held, kept⟩
  have never : ∀ d ∈ ds, x ∉ d.removed := fun d member gone => kept ⟨d, member, gone⟩
  rw [mem_applyAll]
  rcases held with old | ⟨d, member, added⟩
  · exact .inl ⟨old, never⟩
  · obtain ⟨pre, post, shape⟩ := List.append_of_mem member
    refine .inr ⟨pre, d, post, shape, added, fun e inside => never e ?_⟩
    exact shape ▸ List.mem_append_right pre inside

/-- One change does what all of them do one by one, exactly when nothing that was removed before stays
once it is added. -/
theorem merge_eq_iff (ds : List (Delta α)) : (Delta.merge ds).apply s = applyAll s ds ↔
      ∀ pre d post, ds = pre ++ d :: post → ∀ x ∈ d.added, (∃ e ∈ pre, x ∈ e.removed) →
        ∃ e ∈ d :: post, x ∈ e.removed := by
  constructor
  · intro same pre d post shape x added ⟨e, earlier, gone⟩
    by_contra stays
    have last : x ∈ applyAll s ds := (mem_applyAll ds).mpr
      (.inr ⟨pre, d, post, shape, added, fun e inside removed => stays ⟨e, inside, removed⟩⟩)
    rw [← same] at last
    exact last.2 ⟨e, shape ▸ List.mem_append_left _ earlier, gone⟩
  · intro again
    refine (merge_subset ds).antisymm fun x last => ?_
    rcases (mem_applyAll ds).mp last with ⟨old, never⟩ | ⟨pre, d, post, shape, added, later⟩
    · exact ⟨.inl old, fun ⟨d, member, gone⟩ => never d member gone⟩
    · refine ⟨.inr ⟨d, by simp [shape], added⟩, fun ⟨e, member, gone⟩ => ?_⟩
      rw [shape, List.mem_append] at member
      rcases member with earlier | inside
      · obtain ⟨e', inside, removed⟩ := again pre d post shape x added ⟨e, earlier, gone⟩
        exact later e' inside removed
      · exact later e inside gone

theorem merge_map_iff {β : Type} (change : β → Delta α) (l : List β) :
    (Delta.merge (l.map change)).apply s = applyAll s (l.map change) ↔
      ∀ pre b post, l = pre ++ b :: post → ∀ x ∈ (change b).added, (∃ e ∈ pre, x ∈ (change e).removed) →
        ∃ e ∈ b :: post, x ∈ (change e).removed := by
  rw [merge_eq_iff]
  constructor
  · intro again pre b post shape x added ⟨e, earlier, gone⟩
    obtain ⟨d, inside, removed⟩ := again (pre.map change) (change b) (post.map change) (by simp [shape]) x
      added ⟨change e, List.mem_map_of_mem earlier, gone⟩
    rw [← List.map_cons] at inside
    obtain ⟨e', later, rfl⟩ := List.mem_map.mp inside
    exact ⟨e', later, removed⟩
  · intro again pre d post shape x added ⟨e, earlier, gone⟩
    obtain ⟨first, rest, split, rfl, tail⟩ := List.map_eq_append_iff.mp shape
    obtain ⟨b, last, rfl, rfl, rfl⟩ := List.map_eq_cons_iff.mp tail
    obtain ⟨c, inFirst, rfl⟩ := List.mem_map.mp earlier
    obtain ⟨e', inside, removed⟩ := again first b last split x added ⟨c, inFirst, gone⟩
    rw [← List.map_cons]
    exact ⟨change e', List.mem_map_of_mem inside, removed⟩

end Deltas
