import CasualOS.DimensionTracking

/-! What each event of the index does in the middle of a batch of them. -/

namespace CasualOS.DimensionTracking

open OrderedMap AuxRuntime BotValues TagIndex Run
open List (foldl_append foldl_cons foldl_nil mem_cons mem_filter)

/-! ### Maps of sets -/

section Sets

variable {id other key dimension : JsString} {sets : TagMap} {c : Copied}

/-- There is a set for the key. -/
def Has (sets : TagMap) (key : JsString) : Prop := (lookup key sets).isSome = true

theorem has_of_mem (inside : id ∈ botList sets key) : Has sets key := by
  rw [Has]
  cases found : lookup key sets with
  | none =>
    rw [botList, found] at inside
    cases inside
  | some ids => rfl

theorem botList_of_not_has (absent : ¬ Has sets key) : botList sets key = [] := by
  rw [botList, Option.not_isSome_iff_eq_none.mp absent, Option.getD_none]

theorem has_assign (ids : List JsString) : Has (assign other ids sets) key ↔ key = other ∨ Has sets key := by
  rw [Has, lookup_assign]
  split
  · next same => exact iff_of_true rfl (.inl same)
  · next apart => exact (or_iff_right apart).symm

theorem has_addId : Has (addId id sets other) key ↔ key = other ∨ Has sets key := by
  rw [addId]
  split
  · next inside =>
      constructor
      · exact .inr
      · rintro (rfl | there)
        · exact has_of_mem inside
        · exact there
  · exact has_assign _

theorem has_deleteId : Has (deleteId id sets other) key ↔ key = other ∨ Has sets key := has_assign _

theorem has_remove : Has (remove other sets) key ↔ key ≠ other ∧ Has sets key := by
  rw [Has, lookup_remove]
  split
  · next same => exact iff_of_false (by simp) (fun both => both.1 same)
  · next apart => exact (and_iff_right apart).symm

theorem mem_remove : id ∈ botList (remove other sets) key ↔ key ≠ other ∧ id ∈ botList sets key := by
  rw [botList, lookup_remove]
  split
  · next same => exact iff_of_false List.not_mem_nil (fun both => both.1 same)
  · next apart => exact (and_iff_right apart).symm

theorem isEmpty_iff (ids : List JsString) : ids.isEmpty = true ↔ ∀ id, id ∉ ids := by
  rw [List.isEmpty_iff, List.eq_nil_iff_forall_not_mem]

namespace Copied

/-- The sets of a key are the same in both maps. -/
def Same (c : Copied) (key : JsString) : Prop := ∀ id, id ∈ botList c.prev key ↔ id ∈ botList c.next key

theorem same_add (same : Same c key) (shared : key ∈ c.keys) : Same (c.write dimension (addId id)) key := by
  intro member
  rw [write]
  by_cases own : dimension ∈ c.keys
  · rw [if_pos own, mem_addId, mem_addId, same]
  · rw [if_neg own, mem_addId, same, or_iff_right]
    rintro ⟨_, rfl⟩
    exact own shared

theorem same_delete (same : Same c key) (shared : key ∈ c.keys) : Same (c.write dimension (deleteId id)) key := by
  intro member
  rw [write]
  by_cases own : dimension ∈ c.keys
  · rw [if_pos own, mem_deleteId, mem_deleteId, same]
  · rw [if_neg own, mem_deleteId, same, and_iff_left]
    rintro ⟨_, rfl⟩
    exact own shared

theorem prev_write (change : TagMap → JsString → TagMap) (own : dimension ∉ c.keys) :
    (c.write dimension change).prev = c.prev :=
  if_neg own

theorem mem_writeAll (bots : List BotValues.Bot) :
    other ∈ botList (bots.foldl (fun c bot => c.write dimension (addId bot.id)) c).next key ↔
      other ∈ botList c.next key ∨ key = dimension ∧ ∃ bot ∈ bots, bot.id = other := by
  induction bots generalizing c with
  | nil => simp
  | cons bot rest ih =>
    rw [foldl_cons, ih, write, mem_addId]
    simp only [mem_cons, exists_eq_or_imp]
    constructor
    · rintro ((⟨rfl, rfl⟩ | there) | ⟨rfl, later⟩)
      · exact .inr ⟨rfl, .inl rfl⟩
      · exact .inl there
      · exact .inr ⟨rfl, .inr later⟩
    · rintro (there | ⟨rfl, rfl | later⟩)
      · exact .inl (.inr there)
      · exact .inl (.inl ⟨rfl, rfl⟩)
      · exact .inr ⟨rfl, later⟩

theorem keys_writeAll (bots : List BotValues.Bot) :
    (bots.foldl (fun c bot => c.write dimension (addId bot.id)) c).keys = c.keys :=
  @foldl_kept _ _ _ keys (fun c bot => c.write dimension (addId bot.id)) (fun _ _ => rfl) bots c

theorem has_writeAll (bots : List BotValues.Bot) (there : Has c.next key) :
    Has (bots.foldl (fun c bot => c.write dimension (addId bot.id)) c).next key := by
  induction bots generalizing c with
  | nil => exact there
  | cons bot rest ih => exact ih (has_addId.mpr (.inr there))

theorem same_writeAll (bots : List BotValues.Bot) (same : Same c key) (shared : key ∈ c.keys) :
    Same (bots.foldl (fun c bot => c.write dimension (addId bot.id)) c) key := by
  induction bots generalizing c with
  | nil => exact same
  | cons bot rest ih => exact ih (same_add same shared) shared

theorem mem_ensure : id ∈ botList (c.ensure dimension).next key ↔ id ∈ botList c.next key := by
  rw [ensure]
  split
  · exact Iff.rfl
  · next absent =>
      rw [botList, lookup_assign]
      split
      · next same =>
          subst same
          rw [botList_of_not_has absent, Option.getD_some]
      · exact Iff.rfl

theorem has_ensure : Has (c.ensure dimension).next key ↔ key = dimension ∨ Has c.next key := by
  rw [ensure]
  split
  · next there =>
      constructor
      · exact .inr
      · rintro (rfl | other)
        · exact there
        · exact other
  · exact has_assign _

theorem keys_ensure : (c.ensure dimension).keys = c.keys := by
  rw [ensure]
  split <;> rfl

theorem prev_ensure : (c.ensure dimension).prev = c.prev := by
  rw [ensure]
  split <;> rfl

theorem mem_keys_drop : key ∈ (c.drop dimension).keys ↔ key ≠ dimension ∧ key ∈ c.keys := by
  rw [drop, mem_filter, decide_eq_true_eq, and_comm]

end Copied

end Sets

/-! ### What holds in the middle of a batch -/

section Middle

/-- A dimension is shared when its sets are those of the previous state: then its bots lie between two bounds, that
close in on the bots of the end of the batch. The bots of the other dimensions are those of the end from the start. -/
structure Mid (first : Followed) (defines last lower upper : JsString → JsString → Prop) (batch : Batch) : Prop where
  defined : ∀ id dimension, id ∈ botList batch.dimensions.next dimension ↔ defines id dimension
  filled : ∀ dimension, Has batch.dimensions.next dimension → ∃ id, id ∈ botList batch.dimensions.next dimension
  present : ∀ dimension, Has batch.dimensions.next dimension → Has batch.botsInDimensions.next dimension
  absent : ∀ dimension, ¬ Has batch.dimensions.next dimension → ∀ id, id ∉ botList batch.botsInDimensions.next dimension
  shared : ∀ dimension ∈ batch.dimensions.keys, Has batch.dimensions.next dimension ∧
    dimension ∈ batch.botsInDimensions.keys ∧ batch.dimensions.Same dimension ∧ batch.botsInDimensions.Same dimension
  gone : ∀ dimension ∉ batch.dimensions.keys, ∀ id, id ∉ botList batch.dimensions.prev dimension
  fresh : ∀ dimension ∉ batch.dimensions.keys, Has batch.dimensions.next dimension → ∀ id,
    id ∈ botList batch.botsInDimensions.next dimension ↔ last id dimension
  above : ∀ dimension ∈ batch.dimensions.keys, ∀ id, lower id dimension →
    id ∈ botList batch.botsInDimensions.next dimension
  below : ∀ dimension ∈ batch.dimensions.keys, ∀ id, id ∈ botList batch.botsInDimensions.next dimension →
    upper id dimension
  defining : ∀ id dimension, (dimension, id) ∈ (batch.events.foldl follow first).defining ↔
    id ∈ botList batch.dimensions.next dimension
  inside : ∀ id dimension, (dimension, id) ∈ (batch.events.foldl follow first).inside ↔
    id ∈ botList batch.botsInDimensions.next dimension

variable {first : Followed} {defines last lower upper : JsString → JsString → Prop} {batch : Batch}

theorem Mid.exists_defines (mid : Mid first defines last lower upper batch) {dimension : JsString}
    (there : Has batch.dimensions.next dimension) : ∃ id, defines id dimension := by
  obtain ⟨id, inside⟩ := mid.filled dimension there
  exact ⟨id, (mid.defined id dimension).mp inside⟩

variable {lower' upper' : JsString → JsString → Prop}

theorem Mid.weaken {defines' : JsString → JsString → Prop} (mid : Mid first defines last lower upper batch)
    (same : ∀ id dimension, defines id dimension ↔ defines' id dimension)
    (higher : ∀ id dimension, (∃ other, defines other dimension) → lower' id dimension → lower id dimension)
    (deeper : ∀ id dimension, (∃ other, defines other dimension) → upper id dimension → upper' id dimension) :
    Mid first defines' last lower' upper' batch :=
  { mid with
    defined := fun id dimension => (mid.defined id dimension).trans (same id dimension)
    above := fun dimension own id low =>
      mid.above dimension own id (higher id dimension (mid.exists_defines (mid.shared dimension own).1) low)
    below := fun dimension own id inside =>
      deeper id dimension (mid.exists_defines (mid.shared dimension own).1) (mid.below dimension own id inside) }

variable {texts : Texts} {names : JsString → Prop} {index : BotIndex}

/-- The bots that are found for a dimension are those of the end of the batch. -/
def Finds (texts : Texts) (names : JsString → Prop) (index : BotIndex) (last : JsString → JsString → Prop) : Prop :=
  ∀ dimension, names dimension → ∃ existing, botsInDimension texts index dimension = some existing ∧
    ∀ id, (∃ bot ∈ existing, bot.id = id) ↔ last id dimension

theorem mid_add (finds : Finds texts names index last)
    (reaches : ∀ id dimension, last id dimension → upper id dimension)
    (mid : Mid first defines last lower upper batch) (bot : BotValues.Bot) (tag dimension : JsString)
    (named : names dimension) :
    ∃ added, addDimension texts index bot tag batch dimension = some added ∧
      Mid first (fun id key => defines id key ∨ id = bot.id ∧ key = dimension) last lower upper added := by
  obtain ⟨existing, found, isLast⟩ := finds dimension named
  refine ⟨_, by rw [addDimension, found]; rfl, ?_⟩
  have members : ∀ id key, id ∈ botList (existing.foldl (fun bots bot => bots.write dimension (addId bot.id))
      (batch.botsInDimensions.ensure dimension)).next key ↔
        id ∈ botList batch.botsInDimensions.next key ∨ key = dimension ∧ last id dimension := by
    intro id key
    rw [Copied.mem_writeAll, Copied.mem_ensure, isLast]
  have hasNext : ∀ key, Has (batch.dimensions.write dimension (addId bot.id)).next key ↔
      key = dimension ∨ Has batch.dimensions.next key := fun key => has_addId
  have same : ∀ key ∈ batch.botsInDimensions.keys, batch.botsInDimensions.Same key →
      Copied.Same (existing.foldl (fun bots bot => bots.write dimension (addId bot.id))
        (batch.botsInDimensions.ensure dimension)) key := by
    intro key own same
    refine Copied.same_writeAll existing (fun id => ?_) ?_
    · rw [Copied.prev_ensure, Copied.mem_ensure]
      exact same id
    · rw [Copied.keys_ensure]
      exact own
  constructor
  · intro id key
    refine mem_addId key |>.trans ?_
    rw [mid.defined, or_comm]
  · intro key there
    rcases (hasNext key).mp there with rfl | there
    · exact ⟨bot.id, (mem_addId _).mpr (.inl ⟨rfl, rfl⟩)⟩
    · obtain ⟨id, inside⟩ := mid.filled key there
      exact ⟨id, (mem_addId _).mpr (.inr inside)⟩
  · intro key there
    refine Copied.has_writeAll existing (Copied.has_ensure.mpr ?_)
    exact ((hasNext key).mp there).imp_right (mid.present key)
  · intro key absent id inside
    rw [hasNext, not_or] at absent
    rcases (members id key).mp inside with there | ⟨own, _⟩
    · exact mid.absent key absent.2 id there
    · exact absent.1 own
  · intro key own
    obtain ⟨there, shared, sameDims, sameBots⟩ := mid.shared key own
    refine ⟨(hasNext key).mpr (.inr there), ?_, Copied.same_add sameDims own, same key shared sameBots⟩
    rw [Copied.keys_writeAll, Copied.keys_ensure]
    exact shared
  · intro key own id inside
    by_cases apart : dimension ∈ batch.dimensions.keys
    · rw [Copied.write, if_pos apart, mem_addId] at inside
      rcases inside with ⟨_, rfl⟩ | inside
      · exact own apart
      · exact mid.gone key own id inside
    · rw [Copied.prev_write _ apart] at inside
      exact mid.gone key own id inside
  · intro key own there id
    rw [members]
    by_cases old : Has batch.dimensions.next key
    · rw [mid.fresh key own old, or_iff_left_iff_imp]
      rintro ⟨rfl, isLast⟩
      exact isLast
    · obtain rfl := ((hasNext key).mp there).resolve_right old
      rw [or_iff_right (mid.absent key old id), and_iff_right rfl]
  · intro key own id low
    exact (members id key).mpr (.inl (mid.above key own id low))
  · intro key own id inside
    rcases (members id key).mp inside with there | ⟨rfl, isLast⟩
    · exact mid.below key own id there
    · exact reaches id key isLast
  · intro id key
    rw [foldl_append, foldl_cons, foldl_nil, follow, mem_cons, Prod.mk.injEq, mid.defining]
    exact (or_congr_left and_comm).trans (mem_addId key).symm
  · intro id key
    rw [foldl_append, foldl_cons, foldl_nil, follow, List.mem_append, mid.inside, members, ← isLast, List.mem_map]
    simp only [Prod.mk.injEq]
    constructor
    · rintro (⟨bot, member, rfl, rfl⟩ | there)
      · exact .inr ⟨rfl, bot, member, rfl⟩
      · exact .inl there
    · rintro (there | ⟨rfl, bot, member, rfl⟩)
      · exact .inr there
      · exact .inl ⟨bot, member, rfl, rfl⟩

theorem gone_delete (mid : Mid first defines last lower upper batch) (bot : BotValues.Bot) (dimension : JsString) :
    ∀ key ∉ batch.dimensions.keys, ∀ id,
      id ∉ botList (batch.dimensions.write dimension (deleteId bot.id)).prev key := by
  intro key own id inside
  by_cases apart : dimension ∈ batch.dimensions.keys
  · rw [Copied.write, if_pos apart, mem_deleteId] at inside
    exact mid.gone key own id inside.1
  · rw [Copied.prev_write _ apart] at inside
    exact mid.gone key own id inside

theorem mid_remove (mid : Mid first defines last lower upper batch) (bot : BotValues.Bot) (tag dimension : JsString) :
    Mid first (fun id key => defines id key ∧ ¬ (id = bot.id ∧ key = dimension)) last lower upper
      (removeDimension bot tag batch dimension) := by
  have left : ∀ id key, id ∈ botList (batch.dimensions.write dimension (deleteId bot.id)).next key ↔
      id ∈ botList batch.dimensions.next key ∧ ¬ (id = bot.id ∧ key = dimension) := fun id key => mem_deleteId key
  have hasNext : ∀ key, Has (batch.dimensions.write dimension (deleteId bot.id)).next key ↔
      key = dimension ∨ Has batch.dimensions.next key := fun key => has_deleteId
  have defining : ∀ id key,
      (key, id) ∈ (follow (batch.events.foldl follow first) (.dimensionRemoved tag bot dimension)).defining ↔
        id ∈ botList (batch.dimensions.write dimension (deleteId bot.id)).next key := by
    intro id key
    rw [follow, mem_filter, mid.defining, left, decide_eq_true_eq, Ne, Prod.mk.injEq, @and_comm (key = dimension)]
  have kept : ((follow (batch.events.foldl follow first) (.dimensionRemoved tag bot dimension)).defining.any
      fun pair => pair.1 = dimension) = true ↔
        ∃ id, id ∈ botList (batch.dimensions.write dimension (deleteId bot.id)).next dimension := by
    rw [List.any_eq_true]
    constructor
    · rintro ⟨⟨key, id⟩, member, same⟩
      obtain rfl := of_decide_eq_true same
      exact ⟨id, (defining id key).mp member⟩
    · rintro ⟨id, member⟩
      exact ⟨(dimension, id), (defining id dimension).mpr member, decide_eq_true rfl⟩
  rw [removeDimension]
  split
  · next emptied =>
      have vanished : ∀ id, id ∉ botList (batch.dimensions.write dimension (deleteId bot.id)).next dimension :=
        (isEmpty_iff _).mp emptied
      constructor
      · intro id key
        refine mem_remove.trans ?_
        rw [← mid.defined, ← left, and_iff_right_iff_imp]
        rintro inside rfl
        exact vanished id inside
      · intro key there
        obtain ⟨apart, there⟩ := has_remove.mp there
        obtain ⟨id, inside⟩ := mid.filled key (((hasNext key).mp there).resolve_left apart)
        exact ⟨id, mem_remove.mpr ⟨apart, (left id key).mpr ⟨inside, fun own => apart own.2⟩⟩⟩
      · intro key there
        obtain ⟨apart, there⟩ := has_remove.mp there
        exact has_remove.mpr ⟨apart, mid.present key (((hasNext key).mp there).resolve_left apart)⟩
      · intro key absent id inside
        obtain ⟨apart, inside⟩ := mem_remove.mp inside
        refine mid.absent key (fun there => absent ?_) id inside
        exact has_remove.mpr ⟨apart, (hasNext key).mpr (.inr there)⟩
      · intro key own
        obtain ⟨apart, own⟩ := Copied.mem_keys_drop.mp own
        obtain ⟨there, shared, sameDims, sameBots⟩ := mid.shared key own
        refine ⟨has_remove.mpr ⟨apart, (hasNext key).mpr (.inr there)⟩,
          Copied.mem_keys_drop.mpr ⟨apart, shared⟩, ?_, ?_⟩
        · intro id
          refine Iff.trans ?_ (mem_remove.trans (and_iff_right apart)).symm
          exact Copied.same_delete sameDims own id
        · intro id
          exact (sameBots id).trans (mem_remove.trans (and_iff_right apart)).symm
      · intro key own id inside
        by_cases shared : key ∈ batch.dimensions.keys
        · obtain rfl : key = dimension := by
            by_contra apart
            exact own (Copied.mem_keys_drop.mpr ⟨apart, shared⟩)
          have same := (mid.shared key shared).2.2.1
          exact vanished id ((Copied.same_delete same shared id).mp inside)
        · exact gone_delete mid bot dimension key shared id inside
      · intro key own there id
        obtain ⟨apart, there⟩ := has_remove.mp there
        have shared : key ∉ batch.dimensions.keys := fun shared => own (Copied.mem_keys_drop.mpr ⟨apart, shared⟩)
        refine (mem_remove.trans (and_iff_right apart)).trans ?_
        exact mid.fresh key shared (((hasNext key).mp there).resolve_left apart) id
      · intro key own id low
        obtain ⟨apart, own⟩ := Copied.mem_keys_drop.mp own
        exact mem_remove.mpr ⟨apart, mid.above key own id low⟩
      · intro key own id inside
        obtain ⟨apart, own⟩ := Copied.mem_keys_drop.mp own
        exact mid.below key own id (mem_remove.mp inside).2
      · intro id key
        rw [foldl_append, foldl_cons, foldl_nil, defining]
        refine Iff.trans ?_ mem_remove.symm
        rw [iff_and_self]
        rintro inside rfl
        exact vanished id inside
      · intro id key
        rw [foldl_append, foldl_cons, foldl_nil]
        refine Iff.trans ?_ mem_remove.symm
        rw [follow]
        dsimp only
        rw [if_neg (fun any => ?_), mem_filter, decide_eq_true_eq, mid.inside, and_comm]
        obtain ⟨id, inside⟩ := kept.mp any
        exact vanished id inside
  · next others =>
      obtain ⟨other, remains⟩ :
          ∃ id, id ∈ botList (batch.dimensions.write dimension (deleteId bot.id)).next dimension := by
        by_contra vanished
        exact others ((isEmpty_iff _).mpr (not_exists.mp vanished))
      have old : ∀ key, Has (batch.dimensions.write dimension (deleteId bot.id)).next key →
          Has batch.dimensions.next key := by
        intro key there
        rcases (hasNext key).mp there with rfl | there
        · exact has_of_mem ((left other key).mp remains).1
        · exact there
      constructor
      · intro id key
        rw [left, mid.defined]
      · intro key there
        by_cases own : key = dimension
        · exact ⟨other, own ▸ remains⟩
        · obtain ⟨id, inside⟩ := mid.filled key (old key there)
          exact ⟨id, (left id key).mpr ⟨inside, fun both => own both.2⟩⟩
      · intro key there
        exact mid.present key (old key there)
      · intro key absent
        exact mid.absent key fun there => absent ((hasNext key).mpr (.inr there))
      · intro key own
        obtain ⟨there, shared, sameDims, sameBots⟩ := mid.shared key own
        exact ⟨(hasNext key).mpr (.inr there), shared, Copied.same_delete sameDims own, sameBots⟩
      · exact gone_delete mid bot dimension
      · intro key own there
        exact mid.fresh key own (old key there)
      · exact mid.above
      · exact mid.below
      · intro id key
        rw [foldl_append, foldl_cons, foldl_nil, defining]
      · intro id key
        rw [foldl_append, foldl_cons, foldl_nil, ← mid.inside, follow]
        dsimp only
        rw [if_pos]
        exact kept.mpr ⟨other, remains⟩

/-- The set of a shared dimension in which one bot is put where its event says. -/
structure Put (first : Followed) (batch : Batch) (id dimension : JsString) (isIn : Bool) (put : Batch) : Prop where
  dimensions : put.dimensions = batch.dimensions
  keys : put.botsInDimensions.keys = batch.botsInDimensions.keys
  has : ∀ key, Has batch.botsInDimensions.next key → Has put.botsInDimensions.next key
  same : ∀ key ∈ batch.botsInDimensions.keys, batch.botsInDimensions.Same key → put.botsInDimensions.Same key
  members : ∀ other key, other ∈ botList put.botsInDimensions.next key ↔
    if other = id ∧ key = dimension then isIn = true else other ∈ botList batch.botsInDimensions.next key
  defining : (put.events.foldl follow first).defining = (batch.events.foldl follow first).defining
  inside : ∀ other key, (key, other) ∈ (put.events.foldl follow first).inside ↔
    if other = id ∧ key = dimension then isIn = true else (key, other) ∈ (batch.events.foldl follow first).inside

theorem Mid.put {id dimension : JsString} {isIn : Bool} {put : Batch}
    (mid : Mid first defines last lower upper batch) (own : dimension ∈ batch.dimensions.keys)
    (puts : Put first batch id dimension isIn put)
    (higher : ∀ other key, ¬ (other = id ∧ key = dimension) → lower' other key → lower other key)
    (deeper : ∀ other key, ¬ (other = id ∧ key = dimension) → upper other key → upper' other key)
    (high : lower' id dimension → isIn = true) (deep : isIn = true → upper' id dimension) :
    Mid first defines last lower' upper' put := by
  have elsewhere : ∀ key, key ≠ dimension → ∀ other,
      other ∈ botList put.botsInDimensions.next key ↔ other ∈ botList batch.botsInDimensions.next key := by
    intro key apart other
    rw [puts.members, if_neg fun both => apart both.2]
  constructor
  · rw [puts.dimensions]
    exact mid.defined
  · rw [puts.dimensions]
    exact mid.filled
  · rw [puts.dimensions]
    exact fun key there => puts.has key (mid.present key there)
  · rw [puts.dimensions]
    intro key absent other
    have apart : key ≠ dimension := by
      rintro rfl
      exact absent (mid.shared key own).1
    rw [elsewhere key apart]
    exact mid.absent key absent other
  · rw [puts.dimensions, puts.keys]
    intro key shared
    obtain ⟨there, sharedBots, sameDims, sameBots⟩ := mid.shared key shared
    exact ⟨there, sharedBots, sameDims, puts.same key sharedBots sameBots⟩
  · rw [puts.dimensions]
    exact mid.gone
  · rw [puts.dimensions]
    intro key fresh there other
    have apart : key ≠ dimension := fun same => fresh (same ▸ own)
    rw [elsewhere key apart]
    exact mid.fresh key fresh there other
  · rw [puts.dimensions]
    intro key shared other low
    rw [puts.members]
    split
    · next both =>
        obtain ⟨rfl, rfl⟩ := both
        exact high low
    · next apart => exact mid.above key shared other (higher other key apart low)
  · rw [puts.dimensions]
    intro key shared other inside
    rw [puts.members] at inside
    split at inside
    · next both =>
        obtain ⟨rfl, rfl⟩ := both
        exact deep inside
    · next apart => exact deeper other key apart (mid.below key shared other inside)
  · rw [puts.defining, puts.dimensions]
    exact mid.defining
  · intro other key
    rw [puts.inside, puts.members, mid.inside]

/-- The bounds of one bot in one dimension close in on what its event says. -/
theorem mid_addOrRemove (event : BotIndexEvent) (dimension : JsString) (mid : Mid first defines last lower upper batch)
    (higher : ∀ id key, ¬ (id = (eventBot event).id ∧ key = dimension) → lower' id key → lower id key)
    (deeper : ∀ id key, ¬ (id = (eventBot event).id ∧ key = dimension) → upper id key → upper' id key)
    (high : lower' (eventBot event).id dimension → isEventInDimension texts event dimension = true)
    (deep : isEventInDimension texts event dimension = true → upper' (eventBot event).id dimension) :
    Mid first defines last lower' upper' (addOrRemoveFromDimension texts event batch dimension) := by
  rw [addOrRemoveFromDimension]
  split
  · next empty =>
      have apart : ∀ key ∈ batch.dimensions.keys, key ≠ dimension := by
        rintro key own rfl
        obtain ⟨there, _, same, _⟩ := mid.shared key own
        obtain ⟨id, inside⟩ := mid.filled key there
        exact (isEmpty_iff _).mp empty id ((same id).mpr inside)
      exact { mid with
        above := fun key own id low => mid.above key own id (higher id key (fun both => apart key own both.2) low)
        below := fun key own id inside =>
          deeper id key (fun both => apart key own both.2) (mid.below key own id inside) }
  · next other =>
      have own : dimension ∈ batch.dimensions.keys := by
        by_contra own
        exact other ((isEmpty_iff _).mpr (mid.gone dimension own))
      obtain ⟨_, shared, _, same⟩ := mid.shared dimension own
      refine mid.put own ?_ higher deeper high deep
      dsimp only
      split
      · next as =>
          have already : (eventBot event).id ∈ botList batch.botsInDimensions.next dimension ↔
              isEventInDimension texts event dimension = true := by
            rw [← same, ← as, decide_eq_true_eq]
          refine ⟨rfl, rfl, fun _ there => there, fun _ _ same => same, fun id key => ?_, rfl, fun id key => ?_⟩
          · split
            · next both => rw [both.1, both.2, already]
            · exact Iff.rfl
          · split
            · next both => rw [both.1, both.2, mid.inside, already]
            · exact Iff.rfl
      · split
        · next isIn =>
            refine ⟨rfl, rfl, fun _ there => has_addId.mpr (.inr there), fun _ own same => Copied.same_add same own,
              fun id key => ?_, ?_, fun id key => ?_⟩
            · rw [Copied.write, mem_addId, isIn]
              split
              · next both => exact iff_of_true (.inl both) rfl
              · next apart => exact or_iff_right apart
            · rw [foldl_append]
              rfl
            · rw [foldl_append, foldl_cons, foldl_nil, follow, mem_cons, Prod.mk.injEq, isIn]
              split
              · next both => exact iff_of_true (.inl both.symm) rfl
              · next apart => exact or_iff_right fun both => apart both.symm
        · next isOut =>
            refine ⟨rfl, rfl, fun _ there => has_deleteId.mpr (.inr there),
              fun _ own same => Copied.same_delete same own,
              fun id key => ?_, ?_, fun id key => ?_⟩
            · rw [Copied.write, mem_deleteId]
              split
              · next both => exact iff_of_false (fun kept => kept.2 both) isOut
              · next apart => exact and_iff_left apart
            · rw [foldl_append]
              rfl
            · rw [foldl_append, foldl_cons, foldl_nil, follow, mem_filter, decide_eq_true_eq, Ne, Prod.mk.injEq]
              split
              · next both => exact iff_of_false (fun kept => kept.2 both.symm) isOut
              · next apart => exact and_iff_left fun both => apart both.symm

theorem mid_adds (finds : Finds texts names index last)
    (reaches : ∀ id dimension, last id dimension → upper id dimension)
    (bot : BotValues.Bot) (tag : JsString) (dimensions : List JsString)
    (named : ∀ dimension ∈ dimensions, names dimension) (mid : Mid first defines last lower upper batch) :
    ∃ added, dimensions.foldlM (addDimension texts index bot tag) batch = some added ∧
      Mid first (fun id key => defines id key ∨ id = bot.id ∧ key ∈ dimensions) last lower upper added := by
  induction dimensions generalizing defines batch with
  | nil => exact ⟨batch, rfl, mid.weaken (by simp) (fun _ _ _ low => low) (fun _ _ _ high => high)⟩
  | cons dimension rest ih =>
    rw [List.forall_mem_cons] at named
    obtain ⟨next, ran, midNext⟩ := mid_add finds reaches mid bot tag dimension named.1
    obtain ⟨added, later, midLast⟩ := ih named.2 midNext
    refine ⟨added, ?_, midLast.weaken (fun id key => ?_) (fun _ _ _ low => low) (fun _ _ _ high => high)⟩
    · rw [List.foldlM_cons, ran]
      exact later
    · rw [mem_cons]
      tauto

theorem mid_removes (bot : BotValues.Bot) (tag : JsString) (dimensions : List JsString)
    (mid : Mid first defines last lower upper batch) :
    Mid first (fun id key => defines id key ∧ ¬ (id = bot.id ∧ key ∈ dimensions)) last lower upper
      (dimensions.foldl (removeDimension bot tag) batch) := by
  induction dimensions generalizing defines batch with
  | nil => exact mid.weaken (by simp) (fun _ _ _ low => low) (fun _ _ _ high => high)
  | cons dimension rest ih =>
    refine (ih (mid_remove mid bot tag dimension)).weaken (fun id key => ?_) (fun _ _ _ low => low)
      (fun _ _ _ high => high)
    rw [mem_cons]
    tauto

theorem mem_difference (left right : List JsString) (dimension : JsString) :
    dimension ∈ difference left right ↔ dimension ∈ left ∧ dimension ∉ right := by
  rw [difference, mem_filter, decide_eq_true_eq]

end Middle

/-! ### The events of one change -/

/-- A bot of the id before and after a change; an addition does not ask for the older one. -/
structure Turn where
  id : JsString
  before : Option BotValues.Bot
  after : Option BotValues.Bot

section Turns

variable (texts : Texts) (dimensionTags : List JsString) (dimensionBotFilter : JsString → Bool)

/-- An event says how its tag has changed. -/
structure Told (turn : Turn) (event : BotIndexEvent) : Prop where
  id : (eventBot event).id = turn.id
  previous : dimensionBotFilter turn.id = true → eventTag event ∈ dimensionTags →
    previousDimensions texts event = some (dimensionsOf texts turn.before (eventTag event))
  current : currentDimensions texts event = dimensionsOf texts turn.after (eventTag event)
  inside : isEventInDimension texts event (eventTag event) = insideOf texts turn.after (eventTag event)
  portal : eventTag event = gridPortal → ∃ dimensions, portalDimensions texts event = some dimensions ∧
    ∀ dimension ∈ dimensions, isEventInDimension texts event dimension = insideOf texts turn.after dimension

/-- Whether the bot defines the dimension, as its tags are told one after the other. -/
def tracked (turn : Turn) (dimension : JsString) (tags : List JsString) (held : Prop) : Prop :=
  tags.foldl (fun held tag => (held ∨ Loses texts dimensionTags turn.after turn.before tag dimension) ∧
    ¬ Loses texts dimensionTags turn.before turn.after tag dimension) held

def definesAfter (turn : Turn) (tags : List JsString) (defines : JsString → JsString → Prop)
    (id dimension : JsString) : Prop :=
  if id = turn.id ∧ dimensionBotFilter id = true then
    tracked texts dimensionTags turn dimension tags (defines id dimension)
  else defines id dimension

/-- The bots that are in a dimension whatever is told of the other tags. -/
def lowest (id : JsString) (before after : JsString → JsString → Prop) (told : List JsString)
    (other dimension : JsString) :
    Prop :=
  after other dimension ∧ (before other dimension ∨ other = id ∧ dimension ∈ told)

def highest (id : JsString) (before after last : JsString → JsString → Prop) (told : List JsString)
    (other dimension : JsString) : Prop :=
  last other dimension ∨ after other dimension ∨ before other dimension ∧ ¬ (other = id ∧ dimension ∈ told)

variable {texts dimensionTags dimensionBotFilter}
variable {first : Followed} {defines last lower upper before after : JsString → JsString → Prop} {batch : Batch}
  {index : BotIndex} {turn : Turn} {event : BotIndexEvent} {told : List JsString} {names : JsString → Prop}

theorem mid_changeDimensions (finds : Finds texts names index last)
    (reaches : ∀ id dimension, last id dimension → upper id dimension)
    (named : dimensionBotFilter turn.id = true → ∀ dimension, DefinedBy texts dimensionTags turn.after dimension →
      names dimension) (tells : Told texts dimensionTags dimensionBotFilter turn event)
    (mid : Mid first defines last lower upper batch) :
    ∃ changed, changeDimensions texts dimensionTags dimensionBotFilter index event batch = some changed ∧
      Mid first (definesAfter texts dimensionTags dimensionBotFilter turn [eventTag event] defines) last lower upper
        changed := by
  rw [changeDimensions]
  split
  · next applies =>
      have accepted : dimensionBotFilter turn.id = true := tells.id ▸ applies.2
      obtain ⟨added, ran, midAdded⟩ := mid_adds finds reaches (eventBot event) (eventTag event)
        (difference (dimensionsOf texts turn.after (eventTag event)) (dimensionsOf texts turn.before (eventTag event)))
        (fun dimension gained =>
          named accepted dimension ⟨eventTag event, applies.1, ((mem_difference _ _ _).mp gained).1⟩) mid
      have midRemoved := mid_removes (eventBot event) (eventTag event)
        (difference (dimensionsOf texts turn.before (eventTag event)) (dimensionsOf texts turn.after (eventTag event)))
        midAdded
      refine ⟨_, ?_, midRemoved.weaken (fun id key => ?_) (fun _ _ _ low => low) (fun _ _ _ high => high)⟩
      · rw [tells.previous accepted applies.1, tells.current, Option.bind_some, exchangeDimensions, ran,
          Option.map_some]
      · rw [definesAfter, tells.id, mem_difference, mem_difference]
        by_cases own : id = turn.id
        · rw [if_pos ⟨own, own ▸ accepted⟩]
          simp [tracked, Loses, own, applies.1]
        · rw [if_neg fun both => own both.1]
          simp [own]
  · next skipped =>
      refine ⟨batch, rfl, mid.weaken (fun id key => ?_) (fun _ _ _ low => low) (fun _ _ _ high => high)⟩
      rw [definesAfter]
      split
      · next own =>
          have apart : eventTag event ∉ dimensionTags := by
            intro member
            exact skipped ⟨member, by rw [tells.id, ← own.1]; exact own.2⟩
          simp [tracked, Loses, apart]
      · exact Iff.rfl

theorem mid_portal (tells : Told texts dimensionTags dimensionBotFilter turn event)
    (high : ∀ dimension, lower turn.id dimension → insideOf texts turn.after dimension = true)
    (deep : ∀ dimension, insideOf texts turn.after dimension = true → upper turn.id dimension)
    (mid : Mid first defines last lower upper batch) :
    ∃ next, changePortal texts event batch = some next ∧ Mid first defines last lower upper next := by
  rw [changePortal]
  split
  · next isPortal =>
      obtain ⟨dimensions, asked, agrees⟩ := tells.portal isPortal
      rw [asked]
      refine ⟨_, rfl, ?_⟩
      clear asked
      induction dimensions generalizing batch with
      | nil => exact mid
      | cons dimension rest ih =>
        have same := agrees dimension List.mem_cons_self
        refine ih ?_ fun other later => agrees other (List.mem_cons_of_mem dimension later)
        refine mid_addOrRemove event dimension mid (fun _ _ _ low => low) (fun _ _ _ high => high) ?_ ?_
        · rw [same, tells.id]
          exact high dimension
        · rw [same, tells.id]
          exact deep dimension
  · exact ⟨batch, rfl, mid⟩

theorem mid_event (finds : Finds texts names index last)
    (named : dimensionBotFilter turn.id = true → ∀ dimension, DefinedBy texts dimensionTags turn.after dimension →
      names dimension) (tells : Told texts dimensionTags dimensionBotFilter turn event)
    (isAfter : ∀ dimension, after turn.id dimension ↔ insideOf texts turn.after dimension = true)
    (mid : Mid first defines last (lowest turn.id before after told) (highest turn.id before after last told) batch) :
    ∃ next, processEvent texts dimensionTags dimensionBotFilter index batch event = some next ∧
      Mid first (definesAfter texts dimensionTags dimensionBotFilter turn [eventTag event] defines) last
        (lowest turn.id before after (eventTag event :: told))
        (highest turn.id before after last (eventTag event :: told))
        next := by
  have reaches : ∀ id dimension, last id dimension → highest turn.id before after last told id dimension :=
    fun _ _ => .inl
  obtain ⟨changed, ran, midChanged⟩ := mid_changeDimensions finds reaches named tells mid
  have midPut : Mid first (definesAfter texts dimensionTags dimensionBotFilter turn [eventTag event] defines) last
      (lowest turn.id before after (eventTag event :: told))
      (highest turn.id before after last (eventTag event :: told))
      (addOrRemoveFromDimension texts event changed (eventTag event)) := by
    refine mid_addOrRemove event (eventTag event) midChanged ?_ ?_ ?_ ?_
    · rintro id key apart ⟨isIn, old⟩
      refine ⟨isIn, old.imp_right fun own => ⟨own.1, (mem_cons.mp own.2).resolve_left fun same => apart ?_⟩⟩
      exact ⟨own.1.trans tells.id.symm, same⟩
    · rintro id key apart (isLast | isIn | ⟨old, other⟩)
      · exact .inl isLast
      · exact .inr (.inl isIn)
      · refine .inr (.inr ⟨old, fun own => ?_⟩)
        rcases mem_cons.mp own.2 with same | member
        · exact apart ⟨own.1.trans tells.id.symm, same⟩
        · exact other ⟨own.1, member⟩
    · rw [tells.inside, tells.id, ← isAfter]
      exact And.left
    · rw [tells.inside, tells.id, ← isAfter]
      exact fun isIn => .inr (.inl isIn)
  obtain ⟨next, ranNext, midNext⟩ := mid_portal tells (fun dimension low => (isAfter dimension).mp low.1)
    (fun dimension isIn => .inr (.inl ((isAfter dimension).mpr isIn))) midPut
  refine ⟨next, ?_, midNext⟩
  rw [processEvent, ran]
  exact ranNext

theorem mid_events (finds : Finds texts names index last)
    (named : dimensionBotFilter turn.id = true → ∀ dimension, DefinedBy texts dimensionTags turn.after dimension →
      names dimension)
    (isAfter : ∀ dimension, after turn.id dimension ↔ insideOf texts turn.after dimension = true)
    (events : List BotIndexEvent) (tells : ∀ event ∈ events, Told texts dimensionTags dimensionBotFilter turn event)
    (mid : Mid first defines last (lowest turn.id before after told) (highest turn.id before after last told) batch) :
    ∃ next, events.foldlM (processEvent texts dimensionTags dimensionBotFilter index) batch = some next ∧
      Mid first (definesAfter texts dimensionTags dimensionBotFilter turn (events.map eventTag) defines) last
        (lowest turn.id before after ((events.map eventTag).reverse ++ told))
        (highest turn.id before after last ((events.map eventTag).reverse ++ told)) next := by
  induction events generalizing defines told batch with
  | nil =>
    refine ⟨batch, rfl, mid.weaken (fun id key => ?_) (fun _ _ _ low => low) (fun _ _ _ high => high)⟩
    simp [definesAfter, tracked]
  | cons event rest ih =>
    obtain ⟨next, ran, midNext⟩ := mid_event finds named (tells event List.mem_cons_self) isAfter mid
    obtain ⟨end', later, midLast⟩ := ih (fun other member => tells other (List.mem_cons_of_mem event member)) midNext
    refine ⟨end', ?_, ?_⟩
    · rw [List.foldlM_cons, ran]
      exact later
    · rw [List.map_cons, List.reverse_cons, List.append_assoc]
      refine midLast.weaken (fun id key => ?_) (fun _ _ _ low => low) (fun _ _ _ high => high)
      simp only [definesAfter]
      split
      · exact Iff.rfl
      · exact Iff.rfl

/-! ### What a change tells -/

variable {dimension : JsString} {tags : List JsString} {held : Prop}

theorem tracked_unlost (safe : ∀ tag ∈ tags, ¬ Loses texts dimensionTags turn.before turn.after tag dimension) :
    tracked texts dimensionTags turn dimension tags held ↔
      held ∨ ∃ tag ∈ tags, Loses texts dimensionTags turn.after turn.before tag dimension := by
  induction tags generalizing held with
  | nil => simp [tracked]
  | cons tag rest ih =>
    have own := safe tag List.mem_cons_self
    refine (ih fun other later => safe other (List.mem_cons_of_mem tag later)).trans ?_
    rw [List.exists_mem_cons_iff, ← or_assoc]
    exact or_congr_left (and_iff_left own)

theorem tracked_ungained (safe : ∀ tag ∈ tags, ¬ Loses texts dimensionTags turn.after turn.before tag dimension) :
    tracked texts dimensionTags turn dimension tags held ↔
      held ∧ ∀ tag ∈ tags, ¬ Loses texts dimensionTags turn.before turn.after tag dimension := by
  induction tags generalizing held with
  | nil => simp [tracked]
  | cons tag rest ih =>
    have own := safe tag List.mem_cons_self
    refine (ih fun other later => safe other (List.mem_cons_of_mem tag later)).trans ?_
    rw [List.forall_mem_cons, ← and_assoc]
    exact and_congr_left' (and_congr_left' (or_iff_left own))

theorem last_split {holds : JsString → Prop} (any : ∃ tag ∈ tags, holds tag) :
    ∃ before tag after, tags = before ++ tag :: after ∧ holds tag ∧ ∀ other ∈ after, ¬ holds other := by
  induction tags with
  | nil => simp at any
  | cons tag rest ih =>
    by_cases later : ∃ other ∈ rest, holds other
    · obtain ⟨before, last, after, same, isLast, free⟩ := ih later
      exact ⟨tag :: before, last, after, by rw [same, List.cons_append], isLast, free⟩
    · have own := ((List.exists_mem_cons_iff ..).mp any).resolve_right later
      exact ⟨[], tag, rest, rfl, own, fun other member holdsOther => later ⟨other, member, holdsOther⟩⟩

theorem tracked_iff
    (told : ∀ tag ∉ tags, tag ∈ dimensionTags → dimensionsOf texts turn.after tag = dimensionsOf texts turn.before tag)
    (moved : DefinedBy texts dimensionTags turn.after dimension → ∀ before tag after, tags = before ++ tag :: after →
      Loses texts dimensionTags turn.before turn.after tag dimension →
        ∃ other ∈ after, Loses texts dimensionTags turn.after turn.before other dimension)
    (old : held ↔ DefinedBy texts dimensionTags turn.before dimension) :
    tracked texts dimensionTags turn dimension tags held ↔ DefinedBy texts dimensionTags turn.after dimension := by
  by_cases defined : DefinedBy texts dimensionTags turn.after dimension
  · refine iff_of_true ?_ defined
    by_cases lost : ∃ tag ∈ tags, Loses texts dimensionTags turn.before turn.after tag dimension
    · obtain ⟨before, tag, after, same, loses, last⟩ := last_split lost
      have gained := moved defined before tag after same loses
      have cut : tags = (before ++ [tag]) ++ after := by simp [same]
      rw [cut, tracked, foldl_append]
      exact (tracked_unlost last).mpr (.inr gained)
    · have safe : ∀ tag ∈ tags, ¬ Loses texts dimensionTags turn.before turn.after tag dimension :=
        fun tag member loses => lost ⟨tag, member, loses⟩
      rw [tracked_unlost safe, old]
      obtain ⟨tag, isTag, inside⟩ := defined
      by_cases there : dimension ∈ dimensionsOf texts turn.before tag
      · exact .inl ⟨tag, isTag, there⟩
      · refine .inr ⟨tag, ?_, isTag, inside, there⟩
        by_contra untold
        exact there (told tag untold isTag ▸ inside)
  · refine iff_of_false ?_ defined
    have safe : ∀ tag ∈ tags, ¬ Loses texts dimensionTags turn.after turn.before tag dimension :=
      fun tag _ gains => defined ⟨tag, gains.1, gains.2.1⟩
    rw [tracked_ungained safe, old]
    rintro ⟨⟨tag, isTag, inside⟩, kept⟩
    have gone : dimension ∉ dimensionsOf texts turn.after tag := fun there => defined ⟨tag, isTag, there⟩
    by_cases member : tag ∈ tags
    · exact kept tag member ⟨isTag, inside, gone⟩
    · exact gone (told tag member isTag ▸ inside)

/-! #### Bots without values -/

variable {bot : BotValues.Bot} {tag : JsString}

theorem calculateDimensions_unvalued
    (unvalued : ¬ (calculateBotValue texts bot tag).hasValue = true) : calculateDimensions texts bot tag = [] := by
  rw [calculateDimensions]
  revert unvalued
  cases calculateBotValue texts bot tag with
  | undefined => exact fun _ => rfl
  | special kind formatted shown => exact fun unvalued => absurd rfl unvalued
  | json value =>
    cases value with
    | null => exact fun _ => rfl
    | string text =>
      cases text with
      | nil => exact fun _ => rfl
      | cons c rest => exact fun unvalued => absurd rfl unvalued
    | _ => exact fun unvalued => absurd rfl unvalued

theorem isBotInDimension_unvalued
    (unvalued : ¬ (calculateBotValue texts bot tag).hasValue = true) : isBotInDimension texts bot tag = false := by
  rw [isBotInDimension, Bool.and_eq_false_iff]
  right
  revert unvalued
  cases calculateBotValue texts bot tag with
  | undefined => exact fun _ => rfl
  | special kind formatted shown => exact fun _ => rfl
  | json value =>
    cases value with
    | boolean value => exact fun unvalued => absurd rfl unvalued
    | _ => exact fun _ => rfl

theorem portalOf_unvalued
    (unvalued : ¬ (calculateBotValue texts bot gridPortal).hasValue = true) : portalOf texts bot = [] := by
  rw [portalOf]
  revert unvalued
  cases calculateBotValue texts bot gridPortal with
  | undefined => exact fun _ => rfl
  | special kind formatted shown => exact fun _ => rfl
  | json value =>
    cases value with
    | string text =>
      cases text with
      | nil => exact fun _ => rfl
      | cons c rest => exact fun unvalued => absurd rfl unvalued
    | _ => exact fun _ => rfl

theorem valued_of_uses {id : JsString} (uses : Uses texts dimensionTags dimensionBotFilter names id (some bot) tag) :
    (calculateBotValue texts bot tag).hasValue = true := by
  by_contra unvalued
  rcases uses with ⟨_, _, defines⟩ | ⟨_, inside⟩
  · exact defines (calculateDimensions_unvalued unvalued)
  · rw [insideOf, Option.map_some, Option.getD_some, isBotInDimension_unvalued unvalued] at inside
    cases inside

theorem not_uses_none (id tag : JsString) : ¬ Uses texts dimensionTags dimensionBotFilter names id none tag := by
  simp [Uses, dimensionsOf, insideOf]

end Turns

end CasualOS.DimensionTracking
