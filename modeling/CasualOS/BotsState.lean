import CasualOS.TagEdit

/-! States of bots, and what an update makes of them. -/

namespace CasualOS

open OrderedMap TagEdit

/-- A bot, or a part of one in an update. -/
structure Bot where
  id : Option JsString
  space : Option JsString
  tags : Option Fields
  signatures : Option (List (JsString × Option JsString))
  masks : Option (List (JsString × Fields))

abbrev BotsState := List (JsString × Bot)

/-- A bot that is removed stands with nothing. -/
abbrev PartialBotsState := List (JsString × Option Bot)

/-- Every tag edit has lists of operations. -/
def ReadableTags (tags : Fields) : Prop :=
  ∀ tag ∈ tags, isTagEdit tag.2 = true → (operations tag.2).isSome = true

def Bot.Readable (bot : Bot) : Prop :=
  ReadableTags (bot.tags.getD []) ∧ ∀ space ∈ bot.masks.getD [], ReadableTags space.2

def ReadableUpdate (update : PartialBotsState) : Prop :=
  ∀ entry ∈ update, ∀ bot ∈ entry.2, bot.Readable

instance (tags : Fields) : Decidable (ReadableTags tags) :=
  inferInstanceAs (Decidable (∀ tag ∈ tags, isTagEdit tag.2 = true → (operations tag.2).isSome = true))

instance (bot : Bot) : Decidable bot.Readable :=
  inferInstanceAs (Decidable (ReadableTags (bot.tags.getD []) ∧
    ∀ space ∈ bot.masks.getD [], ReadableTags space.2))

instance (update : PartialBotsState) : Decidable (ReadableUpdate update) :=
  inferInstanceAs (Decidable (∀ entry ∈ update, ∀ bot ∈ entry.2, bot.Readable))

/-- A tag that is `null` is deleted. -/
def present : Json → Option Json
  | .null => none
  | value => some value

def setTag (old : Option Json) : Option Json → Option Json
  | none => old
  | some value =>
    present (if isTagEdit value then applyTagEdit old ((operations value).getD []) else value)

def setSignature (old : Option (Option JsString)) : Option (Option JsString) → Option (Option JsString)
  | none => old
  | some none => none
  | some signature => some signature

def setSpace (old : Option Fields) : Option Fields → Option Fields
  | none => old
  | some tags => dropEmpty (some (combine setTag (old.getD []) tags))

/-- A new bot starts as a copy of the update, in which every edit is made on the empty text and the
other values are set to what they are: the same as setting all of them where nothing is set yet. -/
def applyBot (old : Option Bot) (update : Bot) : Bot where
  id := (old.getD update).id
  space := (old.getD update).space
  tags := setAll setTag (old.bind (·.tags)) update.tags
  signatures := dropEmpty (setAll setSignature (old.bind (·.signatures)) update.signatures)
  masks := dropEmpty (setAll setSpace (old.bind (·.masks)) update.masks)

def applyEntry (old : Option Bot) : Option (Option Bot) → Option Bot
  | none => old
  | some none => none
  | some (some update) => some (applyBot old update)

/-- Nothing when an edit without lists of operations makes it throw. -/
def apply (state : BotsState) (update : PartialBotsState) : Option BotsState :=
  if ReadableUpdate update then some (combine applyEntry state update) else none

/-- Equality of the objects, whatever the order of their keys. -/
structure Bot.Same (first second : Bot) : Prop where
  id : first.id = second.id
  space : first.space = second.space
  tags : Option.Rel (Agree Json.Same) first.tags second.tags
  signatures : Option.Rel (Agree Eq) first.signatures second.signatures
  masks : Option.Rel (Agree (Agree Json.Same)) first.masks second.masks

def SameState (first second : BotsState) : Prop := Agree Bot.Same first second

theorem Bot.Same.refl (bot : Bot) : bot.Same bot where
  id := rfl
  space := rfl
  tags := rel_refl (agree_refl Json.Same.refl) _
  signatures := rel_refl (agree_refl fun _ => rfl) _
  masks := rel_refl (agree_refl (agree_refl Json.Same.refl)) _

@[simp] theorem setTag_none (old : Option Json) : setTag old none = old := rfl

@[simp] theorem setSignature_none (old : Option (Option JsString)) : setSignature old none = old := rfl

@[simp] theorem setSpace_none (old : Option Fields) : setSpace old none = old := rfl

@[simp] theorem applyEntry_none (old : Option Bot) : applyEntry old none = old := rfl

theorem applyTagEdit_present (value : Json) (lists : List (List TagEditOp)) :
    applyTagEdit (present value) lists = applyTagEdit (some value) lists := by
  cases value <;> rfl

theorem lookup_apply {state next : BotsState} {update : PartialBotsState} (made : apply state update = some next)
    (id : JsString) : lookup id next = applyEntry (lookup id state) (lookup id update) := by
  rw [apply] at made
  split at made
  · cases made
    exact lookup_combine rfl id state update
  · cases made

theorem apply_isSome {update : PartialBotsState} (readable : ReadableUpdate update) (state : BotsState) :
    ∃ next, apply state update = some next := ⟨_, if_pos readable⟩

end CasualOS
