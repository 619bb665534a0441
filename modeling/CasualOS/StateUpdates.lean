import CasualOS.MergedUpdates

/-! The added, removed and updated bots that `updates` reads off an update, and what `apply` makes of it. -/

namespace CasualOS.StateUpdates

open OrderedMap TagEdit MergedUpdates
open Option (getD_none getD_some some_inj some_ne_none)

structure UpdatedBot where
  bot : Bot
  tags : List JsString
  signatures : Option (List JsString)

/-- Every bot stands with the key that it has in the update. -/
structure BotStateUpdates where
  addedBots : List (JsString × Bot)
  removedBots : List (JsString × Option JsString)
  updatedBots : List (JsString × UpdatedBot)

inductive Change where
  | none
  | added (bot : Bot)
  | removed (id : Option JsString)
  | updated (bot : UpdatedBot)

def isBot (bot : Bot) : Bool := (bot.id.any fun id => !id.isEmpty) && bot.tags.isSome

/-- A tag edit is a value as any other. -/
def setValue (old : Option Json) : Option Json → Option Json
  | none => old
  | some value => present value

/-- A space is made for the first value that is set in it; one that is not there throws when a value is
deleted first. -/
def updatedSpace (old : Option Fields) (tags : Fields) : Option (Option Fields) :=
  match old, tags with
  | none, [] => some none
  | none, (_, .null) :: _ => none
  | old, tags => some (some (combine setValue (old.getD []) tags))

def setUpdatedSpace (old : Option Fields) : Option Fields → Option Fields
  | none => old
  | some tags => (updatedSpace old tags).join

def updatedMasks (old : Option (List (JsString × Fields))) :
    Option (List (JsString × Fields)) → Option (Option (List (JsString × Fields)))
  | none => some old
  | some masks =>
    if masks.all fun space => (updatedSpace (lookup space.1 (old.getD [])) space.2).isSome then
      let made := combine setUpdatedSpace (old.getD []) masks
      some (if old.isSome then some made else dropEmpty (some made))
    else none

def updatedSignatures (old : Option (List (JsString × Option JsString))) :
    Option (List (JsString × Option JsString)) → Option (List (JsString × Option JsString))
  | none => old
  | some signatures => dropEmpty (setAll setSignature old (some signatures))

def names {V : Type} (values : Option (List (JsString × V))) : List JsString :=
  ((values.getD []).map Prod.fst).dedup

def updatedBot (existing part : Bot) : Option Change :=
  (updatedMasks existing.masks part.masks).map fun masks =>
    if (names part.tags).isEmpty && (names part.signatures).isEmpty then .none
    else .updated
      { bot :=
          { existing with
            tags := some (combine setValue (existing.tags.getD []) (part.tags.getD []))
            signatures := updatedSignatures existing.signatures part.signatures
            masks := masks }
        tags := (names part.tags ++ ((part.masks.getD []).flatMap fun space => names (some space.2))).dedup
        signatures := if (names part.signatures).isEmpty then none else some (names part.signatures) }

/-- Nothing when it throws. -/
def change (existing update : Option Bot) : Option Change :=
  match existing, update with
  | none, none => some .none
  | none, some part => some (if isBot part then .added part else .none)
  | some bot, none => some (.removed bot.id)
  | some bot, some part => updatedBot bot part

def ids (update : PartialBotsState) : List JsString := (update.map Prod.fst).dedup

def changes (state : BotsState) (update : PartialBotsState) : Option (List (JsString × Change)) :=
  (ids update).mapM fun id => (change (lookup id state) (lookup id update).join).map (id, ·)

def listed (changes : List (JsString × Change)) : BotStateUpdates where
  addedBots := changes.filterMap fun entry => match entry.2 with
    | .added bot => some (entry.1, bot)
    | _ => none
  removedBots := changes.filterMap fun entry => match entry.2 with
    | .removed id => some (entry.1, id)
    | _ => none
  updatedBots := changes.filterMap fun entry => match entry.2 with
    | .updated bot => some (entry.1, bot)
    | _ => none

def updates (state : BotsState) (update : PartialBotsState) : Option BotStateUpdates :=
  (changes state update).map listed

/-- The listed bots are those that the next state has, or has no more. -/
structure Matches (state next : BotsState) (result : BotStateUpdates) : Prop where
  removed : ∀ id shown, (id, shown) ∈ result.removedBots ↔
    shown = some id ∧ lookup id state ≠ none ∧ lookup id next = none
  added : ∀ id, (∃ bot, (id, bot) ∈ result.addedBots) ↔
    lookup id state = none ∧ ∃ applied ∈ lookup id next, isBot applied = true
  addedBot : ∀ id bot, (id, bot) ∈ result.addedBots → ∃ applied ∈ lookup id next, bot.Same applied
  updatedBot : ∀ id entry, (id, entry) ∈ result.updatedBots → ∃ applied ∈ lookup id next, entry.bot.Same applied

/-! ### Where both read an update alike -/

def Plain (value : Json) : Prop := value ≠ .null ∧ isTagEdit value = false

def PlainTags (tags : Fields) : Prop := ∀ tag value, lookup tag tags = some value → Plain value

def NoEdits (tags : Fields) : Prop := ∀ tag value, lookup tag tags = some value → isTagEdit value = false

/-- A bot in which nothing is deleted, edited or empty. -/
structure Fresh (bot : Bot) : Prop where
  tags : PlainTags (bot.tags.getD [])
  signed : ∀ hash, lookup hash (bot.signatures.getD []) ≠ some none
  signatures : bot.signatures ≠ some []
  masked : bot.masks ≠ some []
  masks : ∀ space tags, lookup space (bot.masks.getD []) = some tags → tags ≠ [] ∧ PlainTags tags

/-- No space is made by deleting a value. -/
def Deletable (existing part : Bot) : Prop :=
  ∀ space ∈ part.masks.getD [], (updatedSpace (lookup space.1 (existing.masks.getD [])) space.2).isSome = true

/-- There are tags, no values are edited, no space or map of spaces or signatures is left empty. -/
structure Kept (existing part : Bot) : Prop where
  tags : existing.tags.isSome = true ∨ part.tags.isSome = true
  edits : NoEdits (part.tags.getD [])
  signatures : part.signatures.isSome = true ∨ existing.signatures ≠ some []
  maskEdits : ∀ space tags, lookup space (part.masks.getD []) = some tags → NoEdits tags
  spaces : ∀ space tags old, lookup space (part.masks.getD []) = some tags →
    lookup space (existing.masks.getD []) = some old → combine setValue old tags ≠ []
  masks : existing.masks = some [] → ∃ space tags, lookup space (part.masks.getD []) = some tags ∧ tags ≠ []

def Alike (id : JsString) : Option Bot → Option Bot → Prop
  | none, none => True
  | none, some part => isBot part = true → Fresh part
  | some bot, none => bot.id = some id
  | some bot, some part => Deletable bot part ∧
      ((names part.tags).isEmpty = true ∧ (names part.signatures).isEmpty = true ∨ Kept bot part)

section Maps

variable {V : Type} {R : V → V → Prop} {set : Option V → Option V → Option V}

theorem agree_new (keeps : ∀ old, set old none = old) (m : List (JsString × V)) :
    Agree R m (combine set [] m) ↔ ∀ key value, lookup key m = some value →
      Option.Rel R (some value) (set none (some value)) := by
  constructor
  · intro agree key value found
    have values := agree key
    rwa [lookup_combine (keeps none), found] at values
  · intro alike key
    rw [lookup_combine (keeps none)]
    cases found : lookup key m with
    | none =>
      rw [lookup, keeps]
      exact .none
    | some value => exact alike key value found

theorem rel_some_dropEmpty (left right : List (JsString × V)) :
    Option.Rel (Agree R) (some left) (dropEmpty (some right)) ↔ left ≠ [] ∧ Agree R left right := by
  cases left with
  | cons entry rest =>
    have shown : dropEmpty (some (entry :: rest)) = some (entry :: rest) := rfl
    rw [← shown, agree_dropEmpty_iff]
    exact (and_iff_right (List.cons_ne_nil entry rest)).symm
  | nil =>
    refine iff_of_false (fun related => ?_) (fun both => both.1 rfl)
    cases right with
    | nil => cases related
    | cons entry rest =>
      cases related with
      | some agree =>
        have first := agree entry.1
        simp only [lookup, if_true] at first
        cases first

theorem rel_new (keeps : ∀ old, set old none = old) (m : List (JsString × V)) :
    Option.Rel (Agree R) (some m) (dropEmpty (some (combine set [] m))) ↔ m ≠ [] ∧
      ∀ key value, lookup key m = some value → Option.Rel R (some value) (set none (some value)) := by
  rw [rel_some_dropEmpty, agree_new keeps]

end Maps

section Values

variable {value : Json} {old : Option Json} {tags : Fields}

theorem edit_ne_text (edit : isTagEdit value = true) (old : Option Json) :
    ¬ Option.Rel Json.Same (some value) (setTag old (some value)) := by
  intro related
  rw [setTag, if_pos edit] at related
  rcases applyTagEdit_text old ((operations value).getD []) with isNull | ⟨text, isText⟩
  · rw [isNull] at related
    cases related
  · rw [isText] at related
    cases related with
    | some same =>
      have plain : isTagEdit (.string text) = false := rfl
      rw [← isTagEdit_of_same same, edit] at plain
      cases plain

theorem present_edit (edit : isTagEdit value = true) : present value = some value := by
  cases value <;> first | rfl | cases edit

theorem value_alike : Option.Rel Json.Same (setValue old (some value)) (setTag old (some value)) ↔
    isTagEdit value = false := by
  cases edit : isTagEdit value with
  | false =>
    rw [setTag_plain old edit]
    exact iff_of_true (rel_refl Json.Same.refl _) rfl
  | true =>
    rw [setValue, present_edit edit]
    exact iff_of_false (edit_ne_text edit old) Bool.noConfusion

theorem plain_alike : Option.Rel Json.Same (some value) (setTag none (some value)) ↔ Plain value := by
  cases edit : isTagEdit value with
  | true => exact iff_of_false (edit_ne_text edit none) fun plain => by cases edit.symm.trans plain.2
  | false =>
    rw [setTag_plain none edit]
    cases value with
    | null => exact iff_of_false (fun related => by cases related) fun plain => plain.1 rfl
    | _ => exact iff_of_true (.some (.refl _)) ⟨Json.noConfusion, edit⟩

theorem tags_alike (old tags : Fields) :
    Agree Json.Same (combine setValue old tags) (combine setTag old tags) ↔ NoEdits tags := by
  constructor
  · intro agree tag value found
    have values := agree tag
    rw [lookup_combine rfl, lookup_combine rfl, found] at values
    exact value_alike.mp values
  · intro noEdits tag
    rw [lookup_combine rfl, lookup_combine rfl]
    cases found : lookup tag tags with
    | none => exact rel_refl Json.Same.refl _
    | some value => exact value_alike.mpr (noEdits tag value found)

theorem noEdits_nil : NoEdits [] := by
  intro tag value found
  cases found

theorem signature_alike (signature : Option JsString) :
    Option.Rel Eq (some signature) (setSignature none (some signature)) ↔ signature ≠ none := by
  cases signature with
  | none => exact iff_of_false (fun related => by cases related) fun some => some rfl
  | some text => exact iff_of_true (.some rfl) (some_ne_none text)

end Values

theorem same_new (part : Bot) : part.Same (applyBot none part) ↔ Fresh part := by
  have tags : Option.Rel (Agree Json.Same) part.tags (setAll setTag none part.tags) ↔
      PlainTags (part.tags.getD []) := by
    cases part.tags with
    | none => exact iff_of_true .none fun tag value found => by cases found
    | some tags =>
      rw [setAll, getD_none, getD_some, PlainTags]
      simp only [← plain_alike]
      rw [← agree_new setTag_none]
      exact ⟨fun related => by cases related; assumption, .some⟩
  have signatures : Option.Rel (Agree Eq) part.signatures (dropEmpty (setAll setSignature none part.signatures)) ↔
      part.signatures ≠ some [] ∧ ∀ hash, lookup hash (part.signatures.getD []) ≠ some none := by
    cases part.signatures with
    | none => exact iff_of_true .none ⟨(some_ne_none _).symm, fun hash => (some_ne_none _).symm⟩
    | some signatures =>
      rw [setAll, getD_none, getD_some, rel_new setSignature_none]
      simp only [signature_alike]
      refine and_congr (not_congr some_inj).symm (forall_congr' fun hash => ?_)
      constructor
      · exact fun some found => some none found rfl
      · rintro present value found rfl
        exact present found
  have masks : Option.Rel (Agree (Agree Json.Same)) part.masks (dropEmpty (setAll setSpace none part.masks)) ↔
      part.masks ≠ some [] ∧ ∀ space tags, lookup space (part.masks.getD []) = some tags →
        tags ≠ [] ∧ PlainTags tags := by
    cases part.masks with
    | none => exact iff_of_true .none ⟨(some_ne_none _).symm, fun space tags found => absurd found.symm (some_ne_none _)⟩
    | some masks =>
      rw [setAll, getD_none, getD_some, rel_new setSpace_none]
      refine and_congr (not_congr some_inj).symm (forall_congr' fun space => forall_congr' fun tags => ?_)
      refine imp_congr_right fun _ => ?_
      rw [setSpace, getD_none, rel_new setTag_none, PlainTags]
      simp only [plain_alike]
  constructor
  · intro same
    have masked := masks.mp same.masks
    have signed := signatures.mp same.signatures
    exact ⟨tags.mp same.tags, signed.2, signed.1, masked.1, masked.2⟩
  · intro fresh
    exact ⟨rfl, rfl, tags.mpr fresh.tags, signatures.mpr ⟨fresh.signatures, fresh.signed⟩,
      masks.mpr ⟨fresh.masked, fresh.masks⟩⟩

section Updated

variable {existing part : Bot} {masks : Option (List (JsString × Fields))}

theorem updated_tags : Option.Rel (Agree Json.Same)
    (some (combine setValue (existing.tags.getD []) (part.tags.getD []))) (setAll setTag existing.tags part.tags) ↔
      (existing.tags.isSome = true ∨ part.tags.isSome = true) ∧ NoEdits (part.tags.getD []) := by
  cases shape : part.tags with
  | some tags =>
    rw [setAll, getD_some, ← tags_alike (existing.tags.getD []) tags]
    refine ⟨fun related => ⟨.inr rfl, ?_⟩, fun both => .some both.2⟩
    cases related
    assumption
  | none =>
    rw [setAll, getD_none]
    cases existing.tags with
    | none => exact iff_of_false (fun related => by cases related) (fun both => by simp at both)
    | some old =>
      refine iff_of_true (.some fun tag => ?_) ⟨.inl rfl, noEdits_nil⟩
      rw [lookup_combine rfl]
      exact rel_refl Json.Same.refl _

theorem rel_dropped {V : Type} {R : V → V → Prop} (refl : ∀ v, R v v) (m : Option (List (JsString × V))) :
    Option.Rel (Agree R) m (dropEmpty m) ↔ m ≠ some [] := by
  cases m with
  | none => exact iff_of_true .none (some_ne_none _).symm
  | some entries =>
    cases entries with
    | nil => exact iff_of_false (fun related => by cases related) (fun some => some rfl)
    | cons entry rest => exact iff_of_true (.some (agree_refl refl _)) (fun empty => by cases empty)

theorem updated_signatures : Option.Rel (Agree Eq) (updatedSignatures existing.signatures part.signatures)
    (dropEmpty (setAll setSignature existing.signatures part.signatures)) ↔
      (part.signatures.isSome = true ∨ existing.signatures ≠ some []) := by
  cases part.signatures with
  | some signatures => exact iff_of_true (rel_refl (agree_refl fun _ => rfl) _) (.inl rfl)
  | none =>
    rw [updatedSignatures, setAll, rel_dropped fun _ => rfl]
    exact (or_iff_right Bool.noConfusion).symm

theorem space_alike {old : Option Fields} {tags : Fields} (made : (updatedSpace old tags).isSome = true) :
    Option.Rel (Agree Json.Same) (setUpdatedSpace old (some tags)) (setSpace old (some tags)) ↔
      NoEdits tags ∧ ∀ before, old = some before → combine setValue before tags ≠ [] := by
  cases old with
  | some before =>
    change Option.Rel (Agree Json.Same) (some (combine setValue before tags))
      (dropEmpty (some (combine setTag before tags))) ↔ _
    rw [rel_some_dropEmpty, tags_alike, and_comm]
    refine and_congr_right fun _ => ⟨fun kept other same => ?_, fun kept => kept before rfl⟩
    cases same
    exact kept
  | none =>
    have absent : ∀ before, none = some before → combine setValue before tags ≠ [] :=
      fun before same => by cases same
    cases tags with
    | nil => exact iff_of_true .none ⟨noEdits_nil, absent⟩
    | cons first rest =>
      obtain ⟨name, value⟩ := first
      have shown : updatedSpace none ((name, value) :: rest) =
          some (some (combine setValue [] ((name, value) :: rest))) := by
        cases value with
        | null => cases made
        | _ => rfl
      have nonempty : combine setValue [] ((name, value) :: rest) ≠ [] := by
        rw [Ne, eq_nil_iff]
        intro all
        have here := all name
        rw [lookup_combine rfl] at here
        simp only [lookup, if_true] at here
        cases value with
        | null => cases made
        | _ => cases here
      rw [setUpdatedSpace, shown, Option.join_some, setSpace, getD_none, rel_some_dropEmpty, tags_alike, and_comm]
      exact and_congr_right fun _ => iff_of_true nonempty absent

theorem made_space {old : Option Fields} {tags : Fields} (made : (updatedSpace old tags).isSome = true)
    (filled : old.isSome = true ∨ tags ≠ []) : setUpdatedSpace old (some tags) ≠ none := by
  cases old with
  | some before => exact some_ne_none _
  | none =>
    cases tags with
    | nil => exact absurd rfl (filled.resolve_left Bool.noConfusion)
    | cons first rest =>
      obtain ⟨name, value⟩ := first
      cases value with
      | null => cases made
      | _ => exact some_ne_none _

theorem masks_alike {old masks : List (JsString × Fields)}
    (made : ∀ space tags, lookup space masks = some tags → (updatedSpace (lookup space old) tags).isSome = true) :
    Agree (Agree Json.Same) (combine setUpdatedSpace old masks) (combine setSpace old masks) ↔
      (∀ space tags, lookup space masks = some tags → NoEdits tags) ∧
      ∀ space tags before, lookup space masks = some tags → lookup space old = some before →
        combine setValue before tags ≠ [] := by
  constructor
  · intro agree
    have each : ∀ space tags, lookup space masks = some tags → NoEdits tags ∧
        ∀ before, lookup space old = some before → combine setValue before tags ≠ [] := by
      intro space tags found
      have values := agree space
      rw [lookup_combine rfl, lookup_combine rfl, found] at values
      exact (space_alike (made space tags found)).mp values
    exact ⟨fun space tags found => (each space tags found).1,
      fun space tags before found => (each space tags found).2 before⟩
  · rintro ⟨noEdits, kept⟩ space
    rw [lookup_combine rfl, lookup_combine rfl]
    cases found : lookup space masks with
    | none => exact rel_refl (agree_refl Json.Same.refl) _
    | some tags =>
      refine (space_alike (made space tags found)).mpr ⟨noEdits space tags found, fun before there => ?_⟩
      exact kept space tags before found there

theorem made_masks {old masks : List (JsString × Fields)}
    (made : ∀ space tags, lookup space masks = some tags → (updatedSpace (lookup space old) tags).isSome = true) :
    combine setUpdatedSpace old masks ≠ [] ↔
      (old = [] → ∃ space tags, lookup space masks = some tags ∧ tags ≠ []) := by
  rw [Ne, eq_nil_iff, not_forall]
  constructor
  · rintro ⟨space, shown⟩ rfl
    rw [lookup_combine rfl] at shown
    cases found : lookup space masks with
    | none =>
      rw [found] at shown
      exact absurd rfl shown
    | some tags =>
      refine ⟨space, tags, found, ?_⟩
      rintro rfl
      rw [found] at shown
      exact shown rfl
  · intro needed
    cases old with
    | nil =>
      obtain ⟨space, tags, found, filled⟩ := needed rfl
      refine ⟨space, ?_⟩
      rw [lookup_combine rfl, found]
      exact made_space (made space tags found) (.inr filled)
    | cons entry rest =>
      refine ⟨entry.1, ?_⟩
      have there : lookup entry.1 (entry :: rest) = some entry.2 := if_pos rfl
      rw [lookup_combine rfl, there]
      cases found : lookup entry.1 masks with
      | none => exact some_ne_none _
      | some tags => exact some_ne_none _

theorem updated_masks (made : updatedMasks existing.masks part.masks = some masks) :
    Option.Rel (Agree (Agree Json.Same)) masks (dropEmpty (setAll setSpace existing.masks part.masks)) ↔
      (∀ space tags, lookup space (part.masks.getD []) = some tags → NoEdits tags) ∧
      (∀ space tags old, lookup space (part.masks.getD []) = some tags →
        lookup space (existing.masks.getD []) = some old → combine setValue old tags ≠ []) ∧
      (existing.masks = some [] → ∃ space tags, lookup space (part.masks.getD []) = some tags ∧ tags ≠ []) := by
  cases shape : part.masks with
  | none =>
    rw [shape] at made
    cases made
    rw [setAll, rel_dropped (agree_refl Json.Same.refl)]
    constructor
    · intro filled
      refine ⟨fun space tags found => ?_, fun space tags old found => ?_, fun empty => absurd empty filled⟩
      · cases found
      · cases found
    · rintro ⟨_, _, needed⟩ empty
      obtain ⟨space, tags, found, _⟩ := needed empty
      cases found
  | some new =>
    rw [shape, updatedMasks] at made
    split at made
    · next all =>
        have each : ∀ space tags, lookup space new = some tags →
            (updatedSpace (lookup space (existing.masks.getD [])) tags).isSome = true :=
          fun space tags found => List.all_eq_true.mp all (space, tags) (mem_of_lookup space tags new found)
        rw [setAll, getD_some, ← and_assoc, ← masks_alike each]
        cases before : existing.masks with
        | none =>
          rw [before] at made
          cases made
          rw [getD_none, if_neg (by simp), agree_dropEmpty_iff]
          exact (and_iff_left (fun empty => by cases empty)).symm
        | some old =>
          rw [before] at made each
          cases made
          have each' : ∀ space tags, lookup space new = some tags →
              (updatedSpace (lookup space old) tags).isSome = true := each
          rw [getD_some, if_pos Option.isSome_some, rel_some_dropEmpty, and_comm, made_masks each', some_inj]
    · cases made

theorem updatedMasks_isSome : (updatedMasks existing.masks part.masks).isSome = true ↔ Deletable existing part := by
  cases shape : part.masks with
  | none =>
    refine iff_of_true rfl fun space inside => ?_
    rw [shape] at inside
    cases inside
  | some masks =>
    rw [updatedMasks, Deletable, shape, getD_some, ← List.all_eq_true]
    split
    · next all => exact iff_of_true rfl all
    · next some => exact iff_of_false Bool.noConfusion some

end Updated

/-! ### The whole update -/

section Whole

variable {id : JsString} {old new applied : Option Bot} {made : Change}

/-- What the listed bots say of one key. -/
structure Judged (id : JsString) (old applied : Option Bot) (made : Change) : Prop where
  removed : ∀ shown, made = .removed shown ↔ shown = some id ∧ old ≠ none ∧ applied = none
  added : (∃ bot, made = .added bot) ↔ old = none ∧ ∃ bot ∈ applied, isBot bot = true
  addedBot : ∀ bot, made = .added bot → ∃ other ∈ applied, bot.Same other
  updatedBot : ∀ entry, made = .updated entry → ∃ other ∈ applied, entry.bot.Same other

theorem isBot_applyBot (part : Bot) : isBot (applyBot none part) = isBot part := by
  have tags : (applyBot none part).tags.isSome = part.tags.isSome := by
    rw [applyBot]
    cases part.tags <;> rfl
  rw [isBot, tags]
  rfl

theorem judged_none (removed : old = none ∨ applied ≠ none)
    (added : old ≠ none ∨ ∀ bot ∈ applied, isBot bot = false) : Judged id old applied .none where
  removed shown := by
    refine iff_of_false Change.noConfusion ?_
    rintro ⟨_, there, gone⟩
    rcases removed with absent | kept
    · exact there absent
    · exact kept gone
  added := by
    refine iff_of_false (fun some => by cases some.choose_spec) ?_
    rintro ⟨absent, bot, isApplied, complete⟩
    rcases added with there | incomplete
    · exact there absent
    · rw [incomplete bot isApplied] at complete
      cases complete
  addedBot bot impossible := by cases impossible
  updatedBot entry impossible := by cases impossible

theorem judged_added (part : Bot) (complete : isBot part = true) :
    Judged id none (some (applyBot none part)) (.added part) ↔ Fresh part := by
  rw [← same_new]
  constructor
  · intro judged
    obtain ⟨other, isOther, same⟩ := judged.addedBot part rfl
    cases isOther
    exact same
  · intro same
    refine ⟨fun shown => ?_, ?_, fun bot isBot => ?_, fun entry impossible => ?_⟩
    · exact iff_of_false Change.noConfusion fun all => all.2.1 rfl
    · exact iff_of_true ⟨part, rfl⟩ ⟨rfl, _, rfl, (isBot_applyBot part).trans complete⟩
    · cases isBot
      exact ⟨_, rfl, same⟩
    · cases impossible

theorem judged_removed (bot : Bot) : Judged id (some bot) none (.removed bot.id) ↔ bot.id = some id := by
  constructor
  · intro judged
    exact ((judged.removed bot.id).mp rfl).1
  · intro same
    refine ⟨fun shown => ?_, ?_, fun bot impossible => ?_, fun entry impossible => ?_⟩
    · constructor
      · intro isShown
        cases isShown
        exact ⟨same, some_ne_none bot, rfl⟩
      · rintro ⟨isId, _⟩
        rw [isId, same]
    · refine iff_of_false (fun some => by cases some.choose_spec) ?_
      rintro ⟨impossible, _⟩
      cases impossible
    · cases impossible
    · cases impossible

theorem judged_updated (bot : Bot) (other : Bot) (entry : UpdatedBot) :
    Judged id (some bot) (some other) (.updated entry) ↔ entry.bot.Same other := by
  constructor
  · intro judged
    obtain ⟨found, isFound, same⟩ := judged.updatedBot entry rfl
    cases isFound
    exact same
  · intro same
    refine ⟨fun shown => ?_, ?_, fun bot impossible => ?_, fun shown isShown => ?_⟩
    · exact iff_of_false Change.noConfusion fun all => by cases all.2.2
    · refine iff_of_false (fun some => by cases some.choose_spec) ?_
      rintro ⟨impossible, _⟩
      cases impossible
    · cases impossible
    · cases isShown
      exact ⟨other, rfl, same⟩

theorem judged_iff (changed : change old new = some made) :
    Judged id old (applyEntry old (some new)) made ↔ Alike id old new := by
  cases old with
  | none =>
    cases new with
    | none =>
      cases changed
      exact iff_of_true (judged_none (.inl rfl) (.inr fun bot impossible => by cases impossible)) trivial
    | some part =>
      rw [change] at changed
      cases complete : isBot part with
      | true =>
        rw [complete, if_pos rfl] at changed
        cases changed
        refine (judged_added part complete).trans ?_
        rw [Alike, complete]
        exact ⟨fun fresh _ => fresh, fun fresh => fresh rfl⟩
      | false =>
        rw [complete, if_neg Bool.noConfusion] at changed
        cases changed
        refine iff_of_true (judged_none (.inl rfl) (.inr fun bot isApplied => ?_)) fun impossible => ?_
        · cases isApplied
          exact (isBot_applyBot part).trans complete
        · cases complete.symm.trans impossible
  | some bot =>
    cases new with
    | none =>
      cases changed
      exact judged_removed bot
    | some part =>
      obtain ⟨masks, isMade, isChange⟩ := Option.map_eq_some_iff.mp changed
      have deletable : Deletable bot part := updatedMasks_isSome.mp (isMade ▸ rfl)
      rw [Alike, and_iff_right deletable]
      by_cases unlisted : (names part.tags).isEmpty = true ∧ (names part.signatures).isEmpty = true
      · rw [if_pos (by simpa using unlisted)] at isChange
        subst isChange
        exact iff_of_true (judged_none (.inr (some_ne_none _)) (.inl (some_ne_none _))) (.inl unlisted)
      · rw [if_neg (by simpa using unlisted)] at isChange
        subst isChange
        refine (judged_updated bot (applyBot (some bot) part) _).trans ?_
        rw [or_iff_right unlisted]
        constructor
        · intro same
          have tags := updated_tags.mp same.tags
          have masked := (updated_masks isMade).mp same.masks
          exact ⟨tags.1, tags.2, updated_signatures.mp same.signatures, masked.1, masked.2.1, masked.2.2⟩
        · intro kept
          exact ⟨rfl, rfl, updated_tags.mpr ⟨kept.tags, kept.edits⟩, updated_signatures.mpr kept.signatures,
            (updated_masks isMade).mpr ⟨kept.maskEdits, kept.spaces, kept.masks⟩⟩

theorem not_alike (threw : change old new = none) : ¬ Alike id old new := by
  cases old with
  | none => cases new <;> cases threw
  | some bot =>
    cases new with
    | none => cases threw
    | some part =>
      rintro ⟨deletable, _⟩
      have some := updatedMasks_isSome.mpr deletable
      rw [Option.map_eq_none_iff.mp threw] at some
      cases some

theorem mem_mapM {A B : Type} {f : A → Option B} {list : List A} {results : List B}
    (ran : list.mapM f = some results) (b : B) : b ∈ results ↔ ∃ a ∈ list, f a = some b := by
  induction list generalizing results with
  | nil =>
    rw [List.mapM_nil] at ran
    cases ran
    simp
  | cons a rest ih =>
    rw [List.mapM_cons] at ran
    obtain ⟨first, isFirst, ran⟩ := Option.bind_eq_some_iff.mp ran
    obtain ⟨later, isLater, ran⟩ := Option.bind_eq_some_iff.mp ran
    cases ran
    rw [List.mem_cons, ih isLater]
    simp [isFirst, eq_comm]

theorem mapM_eq_none {A B : Type} {f : A → Option B} {list : List A} : list.mapM f = none ↔ ∃ a ∈ list, f a = none := by
  induction list with
  | nil => exact iff_of_false (some_ne_none _) (by simp)
  | cons a rest ih =>
    rw [List.mapM_cons]
    cases first : f a with
    | none => exact iff_of_true rfl ⟨a, List.mem_cons_self, first⟩
    | some b =>
      have whole : (∃ other ∈ a :: rest, f other = none) ↔ rest.mapM f = none := by
        rw [ih]
        simp [first]
      rw [whole]
      cases rest.mapM f with
      | none => exact iff_of_true rfl rfl
      | some others => exact iff_of_false (some_ne_none _) (some_ne_none _)

variable {state next : BotsState} {update : PartialBotsState}

variable {all : List (JsString × Change)}

theorem mem_changes (ran : changes state update = some all) (id : JsString) (made : Change) : (id, made) ∈ all ↔
      id ∈ ids update ∧ change (lookup id state) (lookup id update).join = some made := by
  rw [mem_mapM ran]
  constructor
  · rintro ⟨other, inside, isMade⟩
    obtain ⟨one, changed, same⟩ := Option.map_eq_some_iff.mp isMade
    cases same
    exact ⟨inside, changed⟩
  · rintro ⟨inside, changed⟩
    exact ⟨id, inside, by rw [changed]; rfl⟩

theorem mem_addedBots (id : JsString) (bot : Bot) : (id, bot) ∈ (listed all).addedBots ↔ (id, .added bot) ∈ all := by
  rw [listed, List.mem_filterMap]
  constructor
  · rintro ⟨⟨other, made⟩, inside, shown⟩
    cases made <;> cases shown
    exact inside
  · exact fun inside => ⟨_, inside, rfl⟩

theorem mem_removedBots (id : JsString) (shown : Option JsString) :
    (id, shown) ∈ (listed all).removedBots ↔ (id, .removed shown) ∈ all := by
  rw [listed, List.mem_filterMap]
  constructor
  · rintro ⟨⟨other, made⟩, inside, isShown⟩
    cases made <;> cases isShown
    exact inside
  · exact fun inside => ⟨_, inside, rfl⟩

theorem mem_updatedBots (id : JsString) (entry : UpdatedBot) :
    (id, entry) ∈ (listed all).updatedBots ↔ (id, .updated entry) ∈ all := by
  rw [listed, List.mem_filterMap]
  constructor
  · rintro ⟨⟨other, made⟩, inside, isShown⟩
    cases made <;> cases isShown
    exact inside
  · exact fun inside => ⟨_, inside, rfl⟩

theorem lookup_of_ids {id : JsString} (inside : id ∈ ids update) : lookup id update = some (lookup id update).join := by
  cases found : lookup id update with
  | none => exact absurd (List.mem_dedup.mp inside) ((lookup_eq_none_iff id update).mp found)
  | some new => cases new <;> rfl

theorem changed_of_ids (ran : changes state update = some all) {id : JsString}
    (inside : id ∈ ids update) : ∃ made, change (lookup id state) (lookup id update).join = some made := by
  cases changed : change (lookup id state) (lookup id update).join with
  | some made => exact ⟨made, rfl⟩
  | none =>
    have threw : changes state update = none := mapM_eq_none.mpr ⟨id, inside, by rw [changed]; rfl⟩
    cases threw.symm.trans ran

theorem matches_iff (isNext : apply state update = some next)
    (ran : changes state update = some all) : Matches state next (listed all) ↔
      ∀ id made, (id, made) ∈ all → Judged id (lookup id state) (lookup id next) made := by
  have only : ∀ {id made other}, (id, made) ∈ all → ((id, other) ∈ all ↔ made = other) := by
    intro id made other member
    obtain ⟨inside, changed⟩ := (mem_changes ran id made).mp member
    rw [mem_changes ran, and_iff_right inside, changed, some_inj]
  have outside : ∀ {id}, (∀ made, (id, made) ∉ all) → lookup id next = lookup id state := by
    intro id absent
    have missing : id ∉ ids update := fun inside => by
      obtain ⟨made, changed⟩ := changed_of_ids ran inside
      exact absent made ((mem_changes ran id made).mpr ⟨inside, changed⟩)
    have unnamed : lookup id update = none :=
      (lookup_eq_none_iff id update).mpr fun named => missing (List.mem_dedup.mpr named)
    rw [lookup_apply isNext, unnamed, applyEntry_none]
  constructor
  · intro whole id made member
    refine ⟨fun shown => ?_, ?_, fun bot isAdded => ?_, fun entry isUpdated => ?_⟩
    · rw [← only member, ← mem_removedBots, whole.removed]
    · rw [← whole.added]
      exact exists_congr fun bot => by rw [mem_addedBots, only member]
    · exact whole.addedBot id bot ((mem_addedBots id bot).mpr (isAdded ▸ member))
    · exact whole.updatedBot id entry ((mem_updatedBots id entry).mpr (isUpdated ▸ member))
  · intro judged
    refine ⟨fun id shown => ?_, fun id => ?_, fun id bot member => ?_, fun id entry member => ?_⟩
    · rw [mem_removedBots]
      by_cases there : ∃ made, (id, made) ∈ all
      · obtain ⟨made, member⟩ := there
        rw [only member]
        exact (judged id made member).removed shown
      · refine iff_of_false (fun member => there ⟨_, member⟩) ?_
        rintro ⟨_, before, after⟩
        rw [outside fun made member => there ⟨made, member⟩] at after
        exact before after
    · simp only [mem_addedBots]
      by_cases there : ∃ made, (id, made) ∈ all
      · obtain ⟨made, member⟩ := there
        rw [← (judged id made member).added]
        exact exists_congr fun bot => only member
      · refine iff_of_false (fun some => there ⟨_, some.choose_spec⟩) ?_
        rintro ⟨before, bot, isNow, _⟩
        rw [outside fun made member => there ⟨made, member⟩, before] at isNow
        cases isNow
    · exact (judged id _ ((mem_addedBots id bot).mp member)).addedBot bot rfl
    · exact (judged id _ ((mem_updatedBots id entry).mp member)).updatedBot entry rfl

/-- For every state and update that can be applied, what is listed is what is applied exactly when each
entry of the update is read alike by both. -/
theorem updates_match_iff (state next : BotsState) (update : PartialBotsState)
    (isNext : apply state update = some next) :
    (∃ result, updates state update = some result ∧ Matches state next result) ↔
      ∀ id ∈ ids update, Alike id (lookup id state) (lookup id update).join := by
  have applied : ∀ id ∈ ids update, lookup id next =
      applyEntry (lookup id state) (some (lookup id update).join) := by
    intro id inside
    rw [lookup_apply isNext, ← lookup_of_ids inside]
  cases ran : changes state update with
  | none =>
    refine iff_of_false ?_ fun alike => ?_
    · rintro ⟨result, isResult, _⟩
      rw [updates, ran] at isResult
      cases isResult
    · obtain ⟨id, inside, threw⟩ := mapM_eq_none.mp ran
      exact not_alike (Option.map_eq_none_iff.mp threw) (alike id inside)
  | some all =>
    have shown : updates state update = some (listed all) := by rw [updates, ran]; rfl
    have whole := matches_iff isNext ran
    constructor
    · rintro ⟨result, isResult, same⟩ id inside
      cases shown.symm.trans isResult
      obtain ⟨made, changed⟩ := changed_of_ids ran inside
      have judged := whole.mp same id made ((mem_changes ran id made).mpr ⟨inside, changed⟩)
      rw [applied id inside] at judged
      exact (judged_iff changed).mp judged
    · intro alike
      refine ⟨listed all, shown, whole.mpr fun id made member => ?_⟩
      obtain ⟨inside, changed⟩ := (mem_changes ran id made).mp member
      rw [applied id inside]
      exact (judged_iff changed).mpr (alike id inside)

end Whole

section Bots

def first : JsString := [97]

def second : JsString := [98]

def color : JsString := [99]

def tempLocal : JsString := [116]

def bot (id : JsString) : Bot :=
  { id := some id, space := none, tags := some [(color, .string first)], signatures := none, masks := none }

def recolored : Bot :=
  { id := none, space := none, tags := some [(color, .string second)], signatures := none, masks := none }

/-- A tag is set while another bot is removed. -/
theorem recolored_match : ∃ result, updates [(first, bot first), (second, bot second)]
      [(first, some recolored), (second, none)] = some result ∧
    Matches [(first, bot first), (second, bot second)]
      [(first, applyBot (some (bot first)) recolored)] result := by
  refine (updates_match_iff _ _ _ rfl).mpr fun id inside => ?_
  have cases : id = first ∨ id = second := by simpa [ids, first, second] using inside
  rcases cases with isFirst | isSecond
  · subst isFirst
    refine ⟨fun space unmasked => absurd unmasked List.not_mem_nil, .inr ?_⟩
    refine ⟨.inl rfl, fun tag value found => ?_, ?_, ?_, ?_, ?_⟩
    · rcases List.mem_singleton.mp (mem_of_lookup _ _ _ found)
      rfl
    · exact .inr (some_ne_none _).symm
    · exact fun space tags found => by cases found
    · exact fun space tags old found => by cases found
    · exact fun impossible => by cases impossible
  · subst isSecond
    rfl

/-- Deleting a mask of a bot that has none throws, where `apply` leaves the bot as it is. -/
theorem deleted_mask_throws :
    updates [(first, bot first)] [(first, some { recolored with masks := some [(tempLocal, [(color, .null)])] })] = none ∧
      (apply [(first, bot first)]
        [(first, some { recolored with masks := some [(tempLocal, [(color, .null)])] })]).isSome = true :=
  ⟨rfl, rfl⟩

end Bots

end CasualOS.StateUpdates
