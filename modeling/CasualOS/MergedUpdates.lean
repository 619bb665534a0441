import Mathlib.Data.Fintype.EquivFin
import CasualOS.BotsState

/-! The merge of two updates, next to applying one after the other. -/

namespace CasualOS.MergedUpdates

open OrderedMap TagEdit
open Option (some bind_some getD_some isSome_iff_exists ite_none_right_eq_some)

/-- An update that was made of bots, values and tag edits. -/
structure AuxUpdate where
  bots : PartialBotsState
  readable : ReadableUpdate bots

/-- What becomes of a tag that both updates have. -/
def mergeTag (first second : Json) : Json :=
  if isTagEdit first && isTagEdit second then (mergeEdits first second).getD (Json.merge first second)
  else Json.merge first second

def mergeTags : Fields → Fields → Fields := combine (both mergeTag)

def mergeBot (first second : Bot) : Bot where
  id := second.id.or first.id
  space := second.space.or first.space
  tags := both mergeTags first.tags second.tags
  signatures := both (combine (both fun _ signature => signature)) first.signatures second.signatures
  masks := both (combine (both mergeTags)) first.masks second.masks

def mergeEntry : Option Bot → Option Bot → Option Bot
  | some first, some second => some (mergeBot first second)
  | _, second => second

/-- A tag of the merged tags is read from both sides, which throws where a side has no tags. -/
def readsTags : Option Fields → Option Fields → Bool
  | some first, some second =>
    first.all fun (tag, value) => match lookup tag second with
      | some other => !(isTagEdit value && isTagEdit other) || (mergeEdits value other).isSome
      | none => true
  | none, some tags | some tags, none => tags.isEmpty
  | none, none => true

def readsMasks : Option (List (JsString × Fields)) → Option (List (JsString × Fields)) → Bool
  | some first, some second =>
    (first.map Prod.fst ++ second.map Prod.fst).all fun space =>
      readsTags (lookup space first) (lookup space second)
  | none, some masks | some masks, none => masks.isEmpty
  | none, none => true

def readsBots (first second : PartialBotsState) : Bool :=
  (first.map Prod.fst).all fun id => match lookup id first, lookup id second with
    | some (some a), some (some b) => readsTags a.tags b.tags && readsMasks a.masks b.masks
    | _, _ => true

/-- Nothing when it throws. -/
def mergeAuxResults (first second : PartialBotsState) : Option PartialBotsState :=
  if readsBots first second then some (combine (both mergeEntry) first second) else none

/-- The merge does not throw, and applying it is applying one update after the other. -/
def Sequential (state : BotsState) (first second : PartialBotsState) : Prop :=
  ∃ merged, mergeAuxResults first second = some merged ∧
    ∃ whole, apply state merged = some whole ∧
      ∃ middle, apply state first = some middle ∧
        ∃ last, apply middle second = some last ∧ SameState whole last

/-! ### Which updates can be merged -/

/-- An edit follows an edit, and a plain object has all keys of the object that it replaces. -/
def TagMergeable (first second : Json) : Prop :=
  if isTagEdit second then isTagEdit first = true else Json.Covers first second

/-- Both sides have tags or there are none, and each tag of both can be merged. -/
def TagsMergeable (first second : Option Fields) : Prop :=
  (first.isSome = second.isSome ∨ first.getD [] = [] ∧ second.getD [] = []) ∧
    ∀ tag v w, lookup tag (first.getD []) = some v → lookup tag (second.getD []) = some w →
      TagMergeable v w

structure BotMergeable (first second : Bot) : Prop where
  id : second.id = none ∨ second.id = first.id
  space : second.space = none ∨ second.space = first.space
  tags : TagsMergeable first.tags second.tags
  masks : first.masks.isSome = second.masks.isSome ∨ first.masks.getD [] = [] ∧ second.masks.getD [] = []
  spaces : ∀ space, TagsMergeable (lookup space (first.masks.getD [])) (lookup space (second.masks.getD []))

/-- Nothing comes after a removal, and the two updates of a bot can be merged. -/
def Mergeable (first second : PartialBotsState) : Prop :=
  ∀ id, match lookup id first, lookup id second with
    | some none, some (some _) => False
    | some (some a), some (some b) => BotMergeable a b
    | _, _ => True

/-! ### One tag -/

section Tag

variable {v w : Json}

theorem same_string {text : JsString} (same : Json.Same (.string text) w) : w = .string text := by
  cases same
  rfl

theorem isTrue_of_same {x y : Option Json} (same : Option.Rel Json.Same x y) : TagEdit.isTrue x = TagEdit.isTrue y := by
  cases same with
  | none => rfl
  | some same => cases same <;> rfl

theorem isTagEdit_of_same (same : Json.Same v w) : isTagEdit v = isTagEdit w := by
  cases same with
  | refl => rfl
  | array => rfl
  | @object first second keys fields =>
    apply isTrue_of_same
    simp only [Json.field]
    cases left : lookup tagEditName first with
    | none =>
      rw [(keys _).mp left]
      exact .none
    | some x =>
      cases right : lookup tagEditName second with
      | none => simp [(keys _).mpr right] at left
      | some y => exact .some (fields _ x y left right)

theorem eq_of_same_texts {x y : Json} (isText : x = .null ∨ ∃ text, x = .string text)
    (isText' : y = .null ∨ ∃ text, y = .string text)
    (same : Option.Rel Json.Same (present x) (present y)) : x = y := by
  rcases isText with rfl | ⟨text, rfl⟩
  · rcases isText' with rfl | ⟨text', rfl⟩
    · rfl
    · cases same
  · rcases isText' with rfl | ⟨text', rfl⟩
    · cases same
    · cases same with
      | some same => exact (same_string same).symm

theorem setTag_plain (old : Option Json) (plain : isTagEdit v = false) :
    setTag old (some v) = present v := by simp [setTag, plain]

theorem setTag_edit (old : Option Json) (edit : isTagEdit v = true) {lists : List (List TagEditOp)}
    (read : operations v = some lists) : setTag old (some v) = present (applyTagEdit old lists) := by
  simp [setTag, edit, read]

theorem mergeTag_edits (editV : isTagEdit v = true) (editW : isTagEdit w = true)
    {a b : List (List TagEditOp)} (readV : operations v = some a) (readW : operations w = some b) :
    isTagEdit (mergeTag v w) = true ∧ operations (mergeTag v w) = some (a ++ b) := by
  have ⟨merged, made, edit, read⟩ := operations_mergeEdits v w a b readV readW
  simp only [mergeTag, editV, editW, Bool.and_self, if_true, made, getD_some]
  exact ⟨edit, read⟩

theorem mergeTag_other (plain : isTagEdit v = false ∨ isTagEdit w = false) : mergeTag v w = Json.merge v w := by
  rw [mergeTag, if_neg (by simpa [Bool.and_eq_true] using fun editV => by simp_all)]

def ReadableTag (v : Json) : Prop := isTagEdit v = true → (operations v).isSome = true

theorem mergeTag_readable (readV : ReadableTag v) (readW : ReadableTag w) (ok : TagMergeable v w) :
    ReadableTag (mergeTag v w) := by
  intro edit
  by_cases editW : isTagEdit w = true
  · have ⟨b, foundB⟩ := isSome_iff_exists.mp (readW editW)
    have editV : isTagEdit v = true := by simpa [TagMergeable, editW] using ok
    have ⟨a, foundA⟩ := isSome_iff_exists.mp (readV editV)
    rw [(mergeTag_edits editV editW foundA foundB).2]
    rfl
  · have plainW := Bool.eq_false_iff.mpr editW
    have covers : Json.Covers v w := by simpa [TagMergeable, plainW] using ok
    rw [mergeTag_other (.inr plainW), isTagEdit_of_same (Json.merge_same v w covers), plainW] at edit
    cases edit

/-- Two updates of a tag that can be merged do what their merge does. -/
theorem setTag_twice (readV : ReadableTag v) (readW : ReadableTag w) (ok : TagMergeable v w)
    (old : Option Json) : Option.Rel Json.Same (setTag old (some (mergeTag v w)))
      (setTag (setTag old (some v)) (some w)) := by
  by_cases editW : isTagEdit w = true
  · have ⟨b, foundB⟩ := isSome_iff_exists.mp (readW editW)
    have editV : isTagEdit v = true := by simpa [TagMergeable, editW] using ok
    have ⟨a, foundA⟩ := isSome_iff_exists.mp (readV editV)
    have ⟨edit, found⟩ := mergeTag_edits editV editW foundA foundB
    rw [setTag_edit old edit found, setTag_edit old editV foundA, setTag_edit _ editW foundB,
      applyTagEdit_present, applyTagEdit_append]
    exact rel_refl Json.Same.refl _
  · have plainW := Bool.eq_false_iff.mpr editW
    have covers : Json.Covers v w := by simpa [TagMergeable, plainW] using ok
    have same := Json.merge_same v w covers
    have plain : isTagEdit (Json.merge v w) = false := (isTagEdit_of_same same).trans plainW
    rw [mergeTag_other (.inr plainW), setTag_plain old plain, setTag_plain _ plainW]
    rcases Json.plain_or_objects v w with simple | ⟨first, second, rfl, rfl⟩
    · rw [Json.merge_other v w simple]
      exact rel_refl Json.Same.refl _
    · exact .some same

theorem tagMergeable_of_texts (readW : ReadableTag w)
    (texts : ∀ text, Option.Rel Json.Same (setTag (some (.string text)) (some (mergeTag v w)))
      (setTag (setTag (some (.string text)) (some v)) (some w))) : TagMergeable v w := by
  by_cases editW : isTagEdit w = true
  · rw [TagMergeable, if_pos editW]
    by_contra notV
    have plainV := Bool.eq_false_iff.mpr notV
    have ⟨b, foundB⟩ := isSome_iff_exists.mp (readW editW)
    have ⟨edit, found⟩ := merge_edit v editW (readW editW)
    rw [foundB] at found
    have ⟨text, apart⟩ := exists_text_apart b (applyTagEdit (present v) b)
    have same := texts text
    rw [mergeTag_other (.inl plainV), setTag_edit _ edit found, setTag_plain _ plainV,
      setTag_edit _ editW foundB] at same
    exact apart (eq_of_same_texts (applyTagEdit_text _ b) (applyTagEdit_text _ b) same)
  · have plainW := Bool.eq_false_iff.mpr editW
    rw [TagMergeable, if_neg editW]
    rcases Json.plain_or_objects v w with simple | ⟨first, second, rfl, rfl⟩
    · exact .other simple
    · have same := texts []
      rw [mergeTag_other (.inr plainW), setTag_plain _ plainW] at same
      by_cases edit : isTagEdit (Json.merge (.object first) (.object second)) = true
      · simp only [setTag, edit, if_true] at same
        rcases applyTagEdit_text (some (.string []))
            ((operations (Json.merge (.object first) (.object second))).getD []) with none | ⟨text, shown⟩
        · rw [none] at same
          cases same
        · rw [shown] at same
          cases same with
          | some same => cases same
      · rw [setTag_plain _ (Bool.eq_false_iff.mpr edit)] at same
        cases same with
        | some same => exact Json.covers_of_merge _ _ same

end Tag

/-! ### A bot -/

section Bots

variable {a b : Bot}

theorem readableTag_of_lookup {tags : Fields} (readable : ReadableTags tags) {tag : JsString} {v : Json}
    (found : lookup tag tags = some v) : ReadableTag v :=
  readable (tag, v) (mem_of_lookup tag v tags found)

theorem setSpace_twice (v w : Fields) (readV : ReadableTags v) (readW : ReadableTags w)
    (ok : TagsMergeable (some v) (some w)) (old : Option Fields) :
    Option.Rel (Agree Json.Same) (setSpace old (some (mergeTags v w)))
      (setSpace (setSpace old (some v)) (some w)) := by
  simp only [setSpace, getD_dropEmpty]
  apply agree_dropEmpty_iff.mpr
  apply agree_twice Json.Same.refl setTag_none
  intro tag x y before left right
  exact setTag_twice (readableTag_of_lookup readV left) (readableTag_of_lookup readW right)
    (ok.2 tag x y left right) before

theorem readable_space (readable : a.Readable) {space : JsString} {tags : Fields}
    (found : lookup space (a.masks.getD []) = some tags) : ReadableTags tags :=
  readable.2 (space, tags) (mem_of_lookup space tags _ found)

theorem applyBot_twice (readA : a.Readable) (readB : b.Readable) (ok : BotMergeable a b)
    (old : Option Bot) : (applyBot old (mergeBot a b)).Same (applyBot (some (applyBot old a)) b) where
  id := by
    cases old with
    | some bot => rfl
    | none =>
      rcases ok.id with none | same
      · simp [applyBot, mergeBot, none]
      · cases known : b.id <;> simp_all [applyBot, mergeBot]
  space := by
    cases old with
    | some bot => rfl
    | none =>
      rcases ok.space with none | same
      · simp [applyBot, mergeBot, none]
      · cases known : b.space <;> simp_all [applyBot, mergeBot]
  tags := by
    apply setAll_twice Json.Same.refl setTag_none
    intro tag v w before left right
    exact setTag_twice (readableTag_of_lookup readA.1 left) (readableTag_of_lookup readB.1 right)
      (ok.tags.2 tag v w left right) before
  signatures := by
    simp only [applyBot, bind_some, setAll_dropEmpty]
    apply rel_dropEmpty
    apply setAll_twice (fun _ => rfl) setSignature_none
    intro hash v w before _ _
    cases w <;> exact rel_refl (fun _ => rfl) _
  masks := by
    simp only [applyBot, bind_some, setAll_dropEmpty]
    apply rel_dropEmpty
    apply setAll_twice (agree_refl Json.Same.refl) setSpace_none
    intro space v w before left right
    apply setSpace_twice v w (readable_space readA left) (readable_space readB right)
    have spaces := ok.spaces space
    rwa [left, right] at spaces

theorem readableTags_merge {v w : Fields} (readV : ReadableTags v) (readW : ReadableTags w)
    (ok : ∀ tag x y, lookup tag v = some x → lookup tag w = some y → TagMergeable x y) :
    ReadableTags (mergeTags v w) := by
  rintro ⟨tag, value⟩ member
  have made := mem_combine member
  cases left : lookup tag v with
  | none =>
    rw [left] at made
    exact readableTag_of_lookup readW made
  | some x =>
    cases right : lookup tag w with
    | none =>
      rw [left, right] at made
      exact some.inj made ▸ readableTag_of_lookup readV left
    | some y =>
      rw [left, right] at made
      exact some.inj made ▸ mergeTag_readable (readableTag_of_lookup readV left)
        (readableTag_of_lookup readW right) (ok tag x y left right)

theorem readable_mergeBot (readA : a.Readable) (readB : b.Readable) (ok : BotMergeable a b) :
    (mergeBot a b).Readable := by
  constructor
  · have tags := ok.tags.2
    have left := readA.1
    have right := readB.1
    cases shapeA : a.tags with
    | none => simpa [mergeBot, both, shapeA] using right
    | some v =>
      cases shapeB : b.tags with
      | none => simpa [mergeBot, both, shapeA, shapeB] using left
      | some w =>
        simp only [shapeA, shapeB, getD_some] at tags left right
        simp only [mergeBot, both, shapeA, shapeB, getD_some]
        exact readableTags_merge left right tags
  · have spaces := ok.spaces
    have left := readA.2
    have right := readB.2
    cases shapeA : a.masks with
    | none => simpa [mergeBot, both, shapeA] using right
    | some m =>
      cases shapeB : b.masks with
      | none => simpa [mergeBot, both, shapeA, shapeB] using left
      | some m' =>
        simp only [shapeA, shapeB, getD_some] at spaces left right
        simp only [mergeBot, both, shapeA, shapeB, getD_some]
        rintro ⟨space, tags⟩ member
        have made := mem_combine member
        have ok := spaces space
        cases inLeft : lookup space m with
        | none =>
          rw [inLeft] at made
          exact right _ (mem_of_lookup _ _ _ made)
        | some v =>
          cases inRight : lookup space m' with
          | none =>
            rw [inLeft, inRight] at made
            exact some.inj made ▸ left _ (mem_of_lookup _ _ _ inLeft)
          | some w =>
            rw [inLeft, inRight] at made ok
            exact some.inj made ▸ readableTags_merge (left _ (mem_of_lookup _ _ _ inLeft))
              (right _ (mem_of_lookup _ _ _ inRight)) ok.2

theorem readsTags_of_mergeable {v w : Option Fields} (readV : ReadableTags (v.getD []))
    (readW : ReadableTags (w.getD [])) (ok : TagsMergeable v w) : readsTags v w = true := by
  rcases v with _ | first <;> rcases w with _ | second
  · rfl
  · have empty : second = [] := by simpa using ok.1
    rw [empty]
    rfl
  · have empty : first = [] := by simpa using ok.1
    rw [empty]
    rfl
  · simp only [readsTags, List.all_eq_true]
    rintro ⟨tag, value⟩ member
    cases found : lookup tag second with
    | none => rfl
    | some other =>
      by_cases edits : (isTagEdit value && isTagEdit other) = true
      · obtain ⟨editV, editW⟩ := Bool.and_eq_true_iff.mp edits
        obtain ⟨x, foundX⟩ := isSome_iff_exists.mp (readV (tag, value) member editV)
        obtain ⟨y, foundY⟩ := isSome_iff_exists.mp (readableTag_of_lookup readW found editW)
        obtain ⟨merged, made, _⟩ := operations_mergeEdits value other x y foundX foundY
        simp [made]
      · simp [Bool.eq_false_iff.mpr edits]

theorem tags_of_reads {v w : Option Fields} (reads : readsTags v w = true) :
    v.isSome = w.isSome ∨ v.getD [] = [] ∧ w.getD [] = [] := by
  match v, w with
  | none, none | some _, some _ => exact .inl rfl
  | none, some tags | some tags, none =>
    right
    simpa [readsTags] using reads

theorem readsMasks_of_mergeable (readA : a.Readable) (readB : b.Readable) (ok : BotMergeable a b) :
    readsMasks a.masks b.masks = true := by
  have shape := ok.masks
  have spaces := ok.spaces
  have left := readA.2
  have right := readB.2
  match shapeA : a.masks, shapeB : b.masks with
  | none, none => rfl
  | none, some masks =>
    rw [shapeA, shapeB] at shape
    have empty : masks = [] := by simpa using shape
    rw [empty]
    rfl
  | some masks, none =>
    rw [shapeA, shapeB] at shape
    have empty : masks = [] := by simpa using shape
    rw [empty]
    rfl
  | some first, some second =>
    simp only [shapeA, shapeB, getD_some] at spaces left right
    simp only [readsMasks, List.all_eq_true]
    intro space _
    apply readsTags_of_mergeable _ _ (spaces space)
    · cases found : lookup space first with
      | none => exact fun _ member => by cases member
      | some tags => exact left _ (mem_of_lookup _ _ _ found)
    · cases found : lookup space second with
      | none => exact fun _ member => by cases member
      | some tags => exact right _ (mem_of_lookup _ _ _ found)

end Bots

/-! ### Whole updates -/

section Updates

theorem readable_of_lookup {update : PartialBotsState} (readable : ReadableUpdate update) {id : JsString}
    {bot : Bot} (found : lookup id update = some (some bot)) : bot.Readable :=
  readable (id, some bot) (mem_of_lookup id _ update found) bot rfl

theorem botMergeable_of_lookup {first second : PartialBotsState} (ok : Mergeable first second)
    {id : JsString} {a b : Bot} (left : lookup id first = some (some a))
    (right : lookup id second = some (some b)) : BotMergeable a b := by
  have entry := ok id
  rw [left, right] at entry
  exact entry

theorem readsBots_of_mergeable (first second : AuxUpdate) (ok : Mergeable first.bots second.bots) :
    readsBots first.bots second.bots = true := by
  simp only [readsBots, List.all_eq_true]
  intro id _
  rcases left : lookup id first.bots with _ | _ | a
  · rfl
  · rfl
  rcases right : lookup id second.bots with _ | _ | b
  · rfl
  · rfl
  · have readA := readable_of_lookup first.readable left
    have readB := readable_of_lookup second.readable right
    have mergeable := botMergeable_of_lookup ok left right
    simp only [Bool.and_eq_true]
    exact ⟨readsTags_of_mergeable readA.1 readB.1 mergeable.tags, readsMasks_of_mergeable readA readB mergeable⟩

theorem readable_merged (first second : AuxUpdate) (ok : Mergeable first.bots second.bots) :
    ReadableUpdate (combine (both mergeEntry) first.bots second.bots) := by
  rintro ⟨id, entry⟩ member bot inEntry
  have made := mem_combine member
  match left : lookup id first.bots, right : lookup id second.bots with
  | none, _ =>
    rw [left] at made
    exact second.readable _ (mem_of_lookup _ _ _ made) bot inEntry
  | some a, none =>
    rw [left, right] at made
    exact first.readable _ (mem_of_lookup _ _ _ (left.trans made)) bot inEntry
  | some none, some b =>
    rw [left, right] at made
    have same : b = entry := some.inj made
    exact second.readable _ (mem_of_lookup _ _ _ right) bot (same ▸ inEntry)
  | some (some a), some none =>
    rw [left, right] at made
    have same : none = entry := some.inj made
    rw [← same] at inEntry
    cases inEntry
  | some (some a), some (some b) =>
    rw [left, right] at made
    have same : some (mergeBot a b) = entry := some.inj made
    rw [← same] at inEntry
    have isMerged : mergeBot a b = bot := some.inj inEntry
    exact isMerged ▸ readable_mergeBot (readable_of_lookup first.readable left)
      (readable_of_lookup second.readable right) (botMergeable_of_lookup ok left right)

theorem sequential_of_mergeable (first second : AuxUpdate) (ok : Mergeable first.bots second.bots)
    (state : BotsState) : Sequential state first.bots second.bots := by
  refine ⟨_, if_pos (readsBots_of_mergeable first second ok), _, if_pos (readable_merged first second ok),
    _, if_pos first.readable, _, if_pos second.readable, ?_⟩
  apply agree_twice Bot.Same.refl applyEntry_none
  intro id v w before left right
  match v, w with
  | none, none | some _, none => exact .none
  | none, some b =>
    have entry := ok id
    rw [left, right] at entry
    exact entry.elim
  | some a, some b =>
    exact .some (applyBot_twice (readable_of_lookup first.readable left)
      (readable_of_lookup second.readable right) (botMergeable_of_lookup ok left right) before)

theorem entry_of_sequential {first second : PartialBotsState}
    (all : ∀ state, Sequential state first second) {id : JsString} {v w : Option Bot}
    (left : lookup id first = some v) (right : lookup id second = some w) (old : Option Bot) :
    Option.Rel Bot.Same (applyEntry old (some (mergeEntry v w)))
      (applyEntry (applyEntry old (some v)) (some w)) := by
  obtain ⟨state, holds⟩ : ∃ state : BotsState, lookup id state = old := by
    cases old with
    | none => exact ⟨[], rfl⟩
    | some bot => exact ⟨[(id, bot)], by simp [lookup]⟩
  obtain ⟨merged, made, whole, once, middle, before, last, after, same⟩ := all state
  have isMerged := (ite_none_right_eq_some.mp made).2
  have isWhole := (ite_none_right_eq_some.mp once).2
  have isMiddle := (ite_none_right_eq_some.mp before).2
  have isLast := (ite_none_right_eq_some.mp after).2
  simp only [some.injEq] at isMerged isWhole isMiddle isLast
  subst isMerged isWhole isMiddle isLast
  have value := same.twice applyEntry_none left right
  rwa [holds] at value

/-- A value that stands only in the bot that was there before the removal. -/
theorem not_sequential_of_removed {update : Bot} (all : ∀ old : Option Bot,
    Option.Rel Bot.Same (applyEntry old (some (mergeEntry none (some update))))
      (applyEntry (applyEntry old (some none)) (some (some update)))) : False := by
  have ⟨tag, unset⟩ := Infinite.exists_notMem_finset ((update.tags.getD []).map Prod.fst).toFinset
  have missing := (lookup_eq_none_iff tag (update.tags.getD [])).mpr (by simpa using unset)
  have related := all (some
    { id := none, space := none, tags := some [(tag, .boolean true)], signatures := none, masks := none })
  cases related with
  | some same =>
    have tags := same.tags
    simp only [applyBot, bind_some] at tags
    match shape : update.tags, tags with
    | none, tags =>
      cases tags
    | some given, tags =>
      cases tags with
      | some agree =>
        have value := agree tag
        rw [shape, getD_some] at missing
        rw [lookup_combine (setTag_none none), lookup_combine (setTag_none none), missing] at value
        simp [lookup, applyEntry] at value

theorem tagMergeable_of_tags {v w : Fields} (readW : ReadableTags w) (tag : JsString) (x y : Json)
    (left : lookup tag v = some x) (right : lookup tag w = some y)
    (texts : ∀ text, Agree Json.Same (combine setTag [(tag, .string text)] (mergeTags v w))
      (combine setTag (combine setTag [(tag, .string text)] v) w)) : TagMergeable x y := by
  apply tagMergeable_of_texts (readableTag_of_lookup readW right)
  intro text
  have value := (texts text).twice setTag_none left right
  simpa [lookup] using value

theorem botMergeable_of_sequential {a b : Bot} (readB : b.Readable)
    (all : ∀ old : Option Bot, Option.Rel Bot.Same (applyEntry old (some (mergeEntry (some a) (some b))))
      (applyEntry (applyEntry old (some (some a))) (some (some b))))
    (readsT : readsTags a.tags b.tags = true) (readsM : readsMasks a.masks b.masks = true) :
    BotMergeable a b := by
  have known : ∀ bot : Bot, (applyBot (some bot) (mergeBot a b)).Same (applyBot (some (applyBot (some bot) a)) b) := by
    intro bot
    have related := all (some bot)
    cases related with
    | some same => exact same
  have fresh : (applyBot none (mergeBot a b)).Same (applyBot (some (applyBot none a)) b) := by
    have related := all none
    cases related with
    | some same => exact same
  refine ⟨?_, ?_, ⟨tags_of_reads readsT, ?_⟩, ?_, ?_⟩
  · have ids : b.id.or a.id = a.id := fresh.id
    cases given : b.id with
    | none => exact .inl rfl
    | some name => exact .inr (by rw [← ids, given]; rfl)
  · have spaces : b.space.or a.space = a.space := fresh.space
    cases given : b.space with
    | none => exact .inl rfl
    | some name => exact .inr (by rw [← spaces, given]; rfl)
  · intro tag x y left right
    rcases shapeA : a.tags with _ | v
    · simp [shapeA, lookup] at left
    rcases shapeB : b.tags with _ | w
    · simp [shapeB, lookup] at right
    · rw [shapeA, getD_some] at left
      rw [shapeB, getD_some] at right
      have readW : ReadableTags w := by simpa [shapeB] using readB.1
      refine tagMergeable_of_tags readW tag x y left right (fun text => ?_)
      have tags := (known
        { id := none, space := none, tags := some [(tag, .string text)], signatures := none
          masks := none }).tags
      simp only [applyBot, mergeBot, shapeA, shapeB, both, setAll, bind_some, getD_some] at tags
      cases tags with
      | some agree => exact agree
  · rcases shapeA : a.masks with _ | first <;> rcases shapeB : b.masks with _ | second
    · exact .inl rfl
    · have empty : second = [] := by simpa [readsMasks, shapeA, shapeB] using readsM
      exact .inr ⟨rfl, empty⟩
    · have empty : first = [] := by simpa [readsMasks, shapeA, shapeB] using readsM
      exact .inr ⟨empty, rfl⟩
    · exact .inl rfl
  · intro space
    rcases shapeA : a.masks with _ | m <;> rcases shapeB : b.masks with _ | m'
    · exact ⟨.inl rfl, fun tag v w left => by simp [lookup] at left⟩
    · have empty : m' = [] := by simpa [readsMasks, shapeA, shapeB] using readsM
      rw [empty]
      exact ⟨.inl rfl, fun tag v w left => by simp [lookup] at left⟩
    · have empty : m = [] := by simpa [readsMasks, shapeA, shapeB] using readsM
      rw [empty]
      exact ⟨.inl rfl, fun tag v w left => by simp [lookup] at left⟩
    · simp only [getD_some]
      rw [shapeA, shapeB] at readsM
      simp only [readsMasks, List.all_eq_true] at readsM
      have reads : readsTags (lookup space m) (lookup space m') = true := by
        by_cases inside : space ∈ m.map Prod.fst ++ m'.map Prod.fst
        · exact readsM space inside
        · rw [List.mem_append, not_or] at inside
          rw [(lookup_eq_none_iff space m).mpr inside.1, (lookup_eq_none_iff space m').mpr inside.2]
          rfl
      refine ⟨tags_of_reads reads, fun tag x y left right => ?_⟩
      rcases inM : lookup space m with _ | v
      · simp [inM, lookup] at left
      rcases inM' : lookup space m' with _ | w
      · simp [inM', lookup] at right
      · rw [inM, getD_some] at left
        rw [inM', getD_some] at right
        have readW : ReadableTags w := by
          have read := readB.2 (space, w)
          rw [shapeB] at read
          exact read (mem_of_lookup space w m' inM')
        refine tagMergeable_of_tags readW tag x y left right (fun text => ?_)
        have masks := (known
          { id := none, space := none, tags := none, signatures := none
            masks := some [(space, [(tag, .string text)])] }).masks
        simp only [applyBot, mergeBot, shapeA, shapeB, both, bind_some, setAll_dropEmpty] at masks
        simp only [setAll, getD_some] at masks
        have spaces := (agree_dropEmpty_iff.mp masks).twice setSpace_none inM inM'
        simp only [setSpace, getD_dropEmpty, lookup, if_true, getD_some] at spaces
        exact agree_dropEmpty_iff.mp spaces

theorem mergeable_of_sequential (first second : AuxUpdate)
    (all : ∀ state, Sequential state first.bots second.bots) : Mergeable first.bots second.bots := by
  intro id
  match left : lookup id first.bots, right : lookup id second.bots with
  | none, _ | some none, none | some (some _), none | some none, some none
  | some (some _), some none => trivial
  | some none, some (some b) => exact not_sequential_of_removed (entry_of_sequential all left right)
  | some (some a), some (some b) =>
    have ⟨merged, made, _⟩ := all []
    have reads := (ite_none_right_eq_some.mp made).1
    simp only [readsBots, List.all_eq_true] at reads
    have present : id ∈ first.bots.map Prod.fst := by
      by_contra missing
      rw [(lookup_eq_none_iff id first.bots).mpr missing] at left
      cases left
    have both := reads id present
    simp only [left, right, Bool.and_eq_true] at both
    exact botMergeable_of_sequential (readable_of_lookup second.readable right)
      (entry_of_sequential all left right) both.1 both.2

/-- In every state a merge does what the two updates do, exactly when it does for each bot and tag. -/
theorem sequential_iff_mergeable (first second : AuxUpdate) :
    (∀ state, Sequential state first.bots second.bots) ↔ Mergeable first.bots second.bots :=
  ⟨mergeable_of_sequential first second, sequential_of_mergeable first second⟩

/-- An update of masks and an update of tags of one bot cannot be merged at all. -/
theorem masks_then_tags_throws : ∃ first second : AuxUpdate, mergeAuxResults first.bots second.bots = none ∧
    ¬ Sequential [] first.bots second.bots := by
  let name := JsString.lit ['b']
  let masks : Bot :=
    { id := none, space := none, tags := none, signatures := none
      masks := some [(name, [(name, .boolean true)])] }
  let tags : Bot :=
    { id := none, space := none, tags := some [(name, .boolean true)], signatures := none, masks := none }
  refine ⟨⟨[(name, some masks)], by decide +kernel⟩, ⟨[(name, some tags)], by decide +kernel⟩, ?_, ?_⟩
  · rw [mergeAuxResults, if_neg (by decide +kernel)]
  · rintro ⟨merged, made, _⟩
    rw [mergeAuxResults, if_neg (by decide +kernel)] at made
    cases made

end Updates

end CasualOS.MergedUpdates
