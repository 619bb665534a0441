import CasualOS.LocalStoragePartition

/-! Two tabs with one local storage, which follow one another by the storage's events. -/

namespace CasualOS.StorageEvents

open OrderedMap TagEdit Run BotActions LocalStoragePartition
open MemoryPartition (Alike clean cleanAll emptyBot maskOf name sampleBot storedBot tagOf throws)
open Option (bind_some getD_some map_some)
open JsString (lit)

/-- `===` of values that were parsed from two texts; a missing value is nothing. -/
def identical : Option Json → Option Json → Bool
  | none, none => true
  | some .null, some .null => true
  | some (.boolean v), some (.boolean w) => v == w
  | some (.integer v), some (.integer w) => v == w
  | some (.decimal v), some (.decimal w) => v == w
  | some (.string v), some (.string w) => v == w
  | _, _ => false

/-- A tag that the new record lacks is undefined, which an update takes as it takes `null`. -/
def calculateDifferentTags (newTags oldTags : Option Fields) : Fields :=
  combine (fun new old => if identical new old then none else some (new.getD .null)) (newTags.getD [])
    (oldTags.getD [])

def hasId (bot : Option Bot) : Bool := (bot.bind (·.id)).any fun id => !id.isEmpty

section Steps

variable (space : JsString)

def differentMasks (newBot : Bot) (oldBot : Option Bot) : Option Fields :=
  (newBot.masks.bind (lookup space)).map fun masks =>
    calculateDifferentTags (some masks) ((oldBot.bind (·.masks)).bind (lookup space))

def differentTags (newBot : Bot) (oldBot : Option Bot) : Option Fields :=
  match calculateDifferentTags newBot.tags (oldBot.bind (·.tags)) with
  | [] => none
  | tags => some tags

def storedBotUpdated (id : JsString) (newBot oldBot : Option Bot) : Option BotAction :=
  match newBot with
  | none => if hasId oldBot then some (.removeBot id) else none
  | some bot =>
    match oldBot, bot.id with
    | none, some (c :: rest) => some (.addBot (c :: rest) bot)
    | _, _ => some (.updateBot id (differentTags bot oldBot) (differentMasks space bot oldBot))

inductive Tab where
  | first
  | second

structure Tabs where
  first : BotsState
  second : BotsState
  storage : BotsState

def Tabs.own (s : Tabs) : Tab → BotsState
  | .first => s.first
  | .second => s.second

def Tabs.other (s : Tabs) : Tab → BotsState
  | .first => s.second
  | .second => s.first

def Tabs.made (storage own other : BotsState) : Tab → Tabs
  | .first => { first := own, second := other, storage := storage }
  | .second => { first := other, second := own, storage := storage }

/-- A call in one tab; `fired` when the storage has another text than before. -/
structure Call where
  tab : Tab
  event : BotAction
  fired : Bool

def eventId : BotAction → JsString
  | .addBot id _ => id
  | .removeBot id => id
  | .updateBot id _ _ => id

def deliver (event : Option BotAction) (state : BotsState) : Option BotsState :=
  match event with
  | none => some state
  | some event =>
    (applyEvent space false { state := state, storage := [], updatedState := [] } event).map (·.state)

def step (s : Tabs) (call : Call) : Option Tabs :=
  (applyEvents space { state := s.own call.tab, storage := s.storage } [call.event]).bind fun next =>
    let id := eventId call.event
    let event := storedBotUpdated space id (lookup id next.storage) (lookup id s.storage)
    (deliver space (if call.fired then event else none) (s.other call.tab)).map fun other =>
      Tabs.made next.storage next.state other call.tab

end Steps

def start (initial : BotsState) : Tabs := { first := initial, second := initial, storage := initial }

/-! ### The calls that are followed -/

/-- The value stays as it is, or the other tab can be told of it. -/
def Told (new : Json) (old : Option Json) : Prop := identical (some new) old = true ∨ Steady new

/-- The differences between the two records make the new one of the old one. -/
structure Patched (space : JsString) (old new : Bot) : Prop where
  id : old.id = new.id
  place : old.space = new.space
  signatures : Option.Rel (Agree Eq) old.signatures new.signatures
  tags : ∀ tag v, lookup tag (new.tags.getD []) = some v → Told v (lookup tag (old.tags.getD []))
  hasTags : old.tags.isSome = true ∧ new.tags.isSome = true ∨
    old.tags = none ∧ (new.tags = none ∨ ∃ tag, lookup tag (new.tags.getD []) ≠ none)
  spaces : ∀ other, other ≠ space → Option.Rel (Agree Eq) (lookup other (old.masks.getD []))
    (lookup other (new.masks.getD []))
  masks : (∃ values, lookup space (new.masks.getD []) = some values ∧ (∃ tag, lookup tag values ≠ none) ∧
      ∀ tag v, lookup tag values = some v →
        Told v (lookup tag ((lookup space (old.masks.getD [])).getD []))) ∨
    lookup space (old.masks.getD []) = none ∧ lookup space (new.masks.getD []) = none ∧
      old.masks.isSome = new.masks.isSome

/-- A mask remains, or there was none and the record of masks is not lost. -/
def MasksRemain (space : JsString) (old : Option Bot) (masks : Option Fields) : Prop :=
  (∃ tag, setTag (maskOf space old tag) ((lookup tag (masks.getD [])).map clean) ≠ none) ∨
    lookup space ((old.bind (·.masks)).getD []) = none ∧
      (masks.isSome = true → old.isSome = true ∧ old.bind (·.masks) ≠ some [])

/-- No value that an update leaves as it is has the form of an edit. -/
structure UpdateFollowed (space : JsString) (old : Option Bot) (tags masks : Option Fields) : Prop where
  remain : old.isSome = true ∨ masks.isSome = true → MasksRemain space old masks
  keptTags : ∀ tag v, tagOf old tag = some v → lookup tag (tags.getD []) = none → isTagEdit v = false
  keptMasks : ∀ tag v, maskOf space old tag = some v → lookup tag (masks.getD []) = none → isTagEdit v = false
  hasTags : ∀ known ∈ old, known.tags.isSome = true ∨ tags.getD [] = [] ∨
    ∃ tag, setTag none ((lookup tag (tags.getD [])).map clean) ≠ none

def EventFollowed (space : JsString) (old : Option Bot) : BotAction → Prop
  | .addBot id bot => match old with
      | none => id ≠ []
      | some known => Patched space known { bot with id := some id, space := some space }
  | .removeBot _ => old = none ∨ hasId old = true
  | .updateBot _ tags masks => UpdateFollowed space old tags masks

def readableEvent (old : Option Bot) : BotAction → Prop
  | .updateBot _ tags masks => Readable old tags masks
  | _ => True

/-- The storage tells of every change of a text, and the change is one that can be followed. -/
def Followed (space : JsString) (s : Tabs) (call : Call) : Prop :=
  readableEvent (lookup (eventId call.event) (s.own call.tab)) call.event ∧
    if call.fired then EventFollowed space (lookup (eventId call.event) (s.own call.tab)) call.event
    else ∀ next, applyEvents space { state := s.own call.tab, storage := s.storage } [call.event] = some next →
      lookup (eventId call.event) next.storage = lookup (eventId call.event) s.storage

/-! ### One record -/

section Records

theorem eq_of_identical {v w : Option Json} (same : identical v w = true) : v = w := by
  unfold identical at same
  split at same
  · rfl
  · rfl
  · rw [eq_of_beq same]
  · rw [eq_of_beq same]
  · rw [eq_of_beq same]
  · rw [eq_of_beq same]
  · cases same

theorem told_kept {v : Json} (plain : isTagEdit v = false) : Told v (some v) := by
  cases v with
  | null => exact .inl rfl
  | boolean value => exact .inl (beq_self_eq_true value)
  | integer value => exact .inl (beq_self_eq_true value)
  | decimal text => exact .inl (beq_self_eq_true text)
  | string text => exact .inl (beq_self_eq_true text)
  | array items => exact .inr ⟨rfl, rfl, plain⟩
  | object fields => exact .inr ⟨rfl, rfl, plain⟩

theorem lookup_different (new old : Option Fields) (tag : JsString) : lookup tag (calculateDifferentTags new old) =
      if identical (lookup tag (new.getD [])) (lookup tag (old.getD [])) then none
      else some ((lookup tag (new.getD [])).getD .null) := by
  rw [calculateDifferentTags, lookup_combine]
  rfl

theorem set_different {new old : Option Fields} {tag : JsString}
    (told : ∀ v, lookup tag (new.getD []) = some v → Told v (lookup tag (old.getD []))) :
    setTag (lookup tag (old.getD [])) ((lookup tag (calculateDifferentTags new old)).map clean) =
      lookup tag (new.getD []) := by
  rw [lookup_different]
  by_cases same : identical (lookup tag (new.getD [])) (lookup tag (old.getD [])) = true
  · rw [if_pos same]
    exact (eq_of_identical same).symm
  · rw [if_neg same]
    cases found : lookup tag (new.getD []) with
    | none => rfl
    | some v =>
      rw [found] at same
      have steady := (told v found).resolve_left same
      exact set_steady steady _

theorem readable_different {new old : Option Fields}
    (told : ∀ tag v, lookup tag (new.getD []) = some v → Told v (lookup tag (old.getD []))) :
    ReadableTags (calculateDifferentTags new old) := by
  intro entry member edit
  have made : (if identical (lookup entry.1 (new.getD [])) (lookup entry.1 (old.getD [])) then none
      else some ((lookup entry.1 (new.getD [])).getD .null)) = some entry.2 := mem_combine member
  split at made
  · cases made
  · next apart =>
      cases found : lookup entry.1 (new.getD []) with
      | none =>
        rw [found] at made
        have value : Json.null = entry.2 := Option.some.inj made
        rw [← value] at edit
        cases edit
      | some v =>
        rw [found] at made apart
        have value : v = entry.2 := Option.some.inj made
        have steady := (told entry.1 v found).resolve_left apart
        rw [← value, steady.2.2] at edit
        cases edit

theorem differentTags_spec (new : Bot) (old : Option Bot) :
    (differentTags new old = none ∧ calculateDifferentTags new.tags (old.bind (·.tags)) = []) ∨
      differentTags new old = some (calculateDifferentTags new.tags (old.bind (·.tags))) ∧
        calculateDifferentTags new.tags (old.bind (·.tags)) ≠ [] := by
  unfold differentTags
  split
  · next nothing => exact .inl ⟨rfl, nothing⟩
  · next something => exact .inr ⟨rfl, fun empty => something empty⟩

variable (space : JsString)

variable {old new record first second : Bot}

theorem patched_tags (alike : Alike old record) (patched : Patched space old new) :
    Option.Rel (Agree Eq) (changedTags record.tags (differentTags new (some old))) new.tags := by
  have ⟨shape, values⟩ := rel_agree_iff.mp alike.tags
  have given : (differentTags new (some old)).getD [] = calculateDifferentTags new.tags old.tags := by
    rcases differentTags_spec new (some old) with ⟨isNone, nothing⟩ | ⟨isSome, _⟩
    · rw [isNone]
      exact nothing.symm
    · rw [isSome]
      rfl
  apply rel_agree_iff.mpr
  constructor
  · rw [isSome_changedTags, given, ← shape]
    rcases patched.hasTags with ⟨before, after⟩ | ⟨before, after⟩
    · rw [before, after]
      rfl
    · rcases after with none' | ⟨tag, some'⟩
      · rw [before, none']
        rfl
      · obtain ⟨v, found⟩ := Option.ne_none_iff_exists'.mp some'
        have differs : lookup tag (calculateDifferentTags new.tags old.tags) = some v := by
          rw [lookup_different, found, before]
          cases v <;> rfl
        have filled : (calculateDifferentTags new.tags old.tags).isEmpty = false := by
          cases shown : calculateDifferentTags new.tags old.tags with
          | nil =>
            rw [shown] at differs
            cases differs
          | cons entry rest => rfl
        have hasTags : new.tags.isSome = true := by
          cases tags : new.tags with
          | none =>
            rw [tags] at found
            cases found
          | some fields => rfl
        rw [filled, hasTags, before]
        rfl
  · intro tag
    have same : lookup tag (old.tags.getD []) = lookup tag (record.tags.getD []) := eq_of_rel (values tag)
    rw [lookup_changedTags, given, ← same, set_different (patched.tags tag)]
    exact rel_refl (fun _ => rfl) _

theorem agree_of_lookups {left right : Fields} (same : ∀ tag, lookup tag left = lookup tag right) :
    Agree Eq left right := by
  intro tag
  rw [same tag]
  exact rel_refl (fun _ => rfl) _

theorem dropEmpty_some {fields : Fields} {tag : JsString} (filled : lookup tag fields ≠ none) :
    dropEmpty (some fields) = some fields := by
  cases fields with
  | nil => exact absurd rfl filled
  | cons entry rest => rfl

theorem setSpace_different {values : Fields} {old record : Option Fields}
    (same : ∀ tag, lookup tag (old.getD []) = lookup tag (record.getD []))
    (filled : ∃ tag, lookup tag values ≠ none)
    (told : ∀ tag v, lookup tag values = some v → Told v (lookup tag (old.getD []))) :
    Option.Rel (Agree Eq) (setSpace record (some (cleanAll (calculateDifferentTags (some values) old))))
      (some values) := by
  have lookups : ∀ tag, lookup tag (combine setTag (record.getD [])
      (cleanAll (calculateDifferentTags (some values) old))) = lookup tag values := by
    intro tag
    rw [lookup_combine (setTag_none none), MemoryPartition.lookup_cleanAll, ← same]
    exact @set_different (some values) old tag (told tag)
  obtain ⟨tag, some'⟩ := filled
  have kept : lookup tag (combine setTag (record.getD [])
      (cleanAll (calculateDifferentTags (some values) old))) ≠ none := by
    rw [lookups]
    exact some'
  rw [setSpace, dropEmpty_some kept]
  exact .some (agree_of_lookups lookups)

theorem isSome_of_rel {W X : Type} {Rel : W → X → Prop} {entries : Option (List (JsString × W))}
    {key : JsString} {x : X} (related : Option.Rel Rel (lookup key (entries.getD [])) (some x)) :
    entries.isSome = true := by
  cases entries with
  | none => cases related
  | some list => rfl

theorem patched_masks (alike : Alike old record) (patched : Patched space old new) :
    Option.Rel (Agree (Agree Eq)) (changedMasks space record.masks (differentMasks space new (some old)))
      new.masks := by
  obtain ⟨shape, spaces⟩ := rel_agree_iff.mp alike.masks
  have sameSpace : ∀ other, Option.Rel (Agree Eq) (lookup other (record.masks.getD []))
      (lookup other (old.masks.getD [])) := by
    intro other
    exact rel_symm (fun _ _ => agree_symm fun _ _ => Eq.symm) (spaces other)
  have others : ∀ other, other ≠ space → Option.Rel (Agree Eq) (lookup other (record.masks.getD []))
      (lookup other (new.masks.getD [])) := fun other apart =>
    rel_trans (fun _ _ _ => agree_eq_trans) (sameSpace other) (patched.spaces other apart)
  have own : ∀ bot : Bot, bot.masks.bind (lookup space) = lookup space (bot.masks.getD []) := by
    intro bot
    cases bot.masks <;> rfl
  rw [differentMasks, own new, bind_some, own old]
  apply rel_agree_iff.mpr
  rcases patched.masks with ⟨values, found, filled, told⟩ | ⟨noOld, noNew, same⟩
  · rw [found, map_some]
    have before : ∀ tag, lookup tag ((lookup space (old.masks.getD [])).getD []) =
        lookup tag ((lookup space (record.masks.getD [])).getD []) := fun tag =>
      (eq_of_rel (rel_getD (sameSpace space) tag)).symm
    have inSpace : Option.Rel (Agree Eq) (lookup space ((changedMasks space record.masks
        (some (calculateDifferentTags (some values) (lookup space (old.masks.getD []))))).getD []))
          (some values) := by
      rw [spaces_changedMasks, if_pos rfl, map_some]
      exact setSpace_different before filled told
    constructor
    · have given : Option.Rel Eq (lookup space (new.masks.getD [])) (some values) := by
        rw [found]
        exact .some rfl
      rw [isSome_of_rel given, isSome_of_rel inSpace]
    · intro other
      by_cases same : other = space
      · rw [same, found]
        exact inSpace
      · rw [spaces_changedMasks, if_neg same]
        exact others other same
  · rw [noNew]
    constructor
    · exact shape.symm.trans same
    · intro other
      by_cases here : other = space
      · rw [here, noNew]
        have nothing := sameSpace space
        rw [noOld] at nothing
        exact nothing
      · exact others other here

theorem quiet_alone (tags : Option Fields) (bot : Bot) :
    ∀ values ∈ tags, throws (withTags tags bot) none values = false := by
  intro values given
  cases given
  rw [throws, withTags, getD_some]
  cases empty : values.isEmpty <;> simp

theorem readable_told (patched : Patched space old new) :
    Readable (some record) (differentTags new (some old)) (differentMasks space new (some old)) := by
  constructor
  · intro _
    have readable : ReadableTags (calculateDifferentTags new.tags old.tags) :=
      readable_different patched.tags
    rcases differentTags_spec new (some old) with ⟨isNone, _⟩ | ⟨isSome, _⟩
    · rw [isNone]
      exact fun _ member => absurd member List.not_mem_nil
    · rw [isSome]
      exact readable
  · have own : ∀ bot : Bot, bot.masks.bind (lookup space) = lookup space (bot.masks.getD []) := by
      intro bot
      cases bot.masks <;> rfl
    rw [differentMasks, own new, bind_some, own old]
    rcases patched.masks with ⟨values, found, _, told⟩ | ⟨_, noNew, _⟩
    · rw [found]
      exact @readable_different (some values) _ told
    · rw [noNew]
      exact fun _ member => absurd member List.not_mem_nil

theorem patched_alike (alike : Alike old record) (patched : Patched space old new) : Alike { record with
      tags := changedTags record.tags (differentTags new (some old))
      masks := changedMasks space record.masks (differentMasks space new (some old)) } new where
  id := alike.id.symm.trans patched.id
  space := alike.space.symm.trans patched.place
  tags := patched_tags space alike patched
  signatures := rel_trans (fun _ _ _ => agree_eq_trans) alike.symm.signatures patched.signatures
  masks := patched_masks space alike patched

theorem dropEmpty_none {V : Type} {entries : List (JsString × V)} (empty : ∀ key, lookup key entries = none) :
    dropEmpty (some entries) = none := by
  rw [(eq_nil_iff entries).mpr empty]
  rfl

theorem masks_without {masks : Option Fields} (noOld : lookup space (old.masks.getD []) = none)
    (nothing : ∀ tag, setTag none ((lookup tag (masks.getD [])).map clean) = none)
    (keeps : masks.isSome = true → old.masks ≠ some []) :
    lookup space ((changedMasks space old.masks masks).getD []) = none ∧
      old.masks.isSome = (changedMasks space old.masks masks).isSome := by
  cases masks with
  | none => exact ⟨noOld, rfl⟩
  | some values =>
    have noNew : lookup space ((changedMasks space old.masks (some values)).getD []) = none := by
      rw [spaces_changedMasks, if_pos rfl, noOld, map_some, setSpace]
      apply dropEmpty_none
      intro tag
      rw [lookup_combine (setTag_none none), MemoryPartition.lookup_cleanAll]
      exact nothing tag
    refine ⟨noNew, ?_⟩
    cases before : old.masks with
    | none =>
      rw [before] at noNew
      have gone : changedMasks space none (some values) = none := by
        apply dropEmpty_none
        intro other
        have made := spaces_changedMasks space none (some values) other
        rw [changedMasks, getD_dropEmpty] at made
        by_cases own : other = space
        · rw [changedMasks, getD_dropEmpty] at noNew
          rw [own]
          exact noNew
        · rw [if_neg own] at made
          exact made
      rw [gone]
    | some entries =>
      cases entries with
      | nil => exact absurd before (keeps rfl)
      | cons entry rest =>
        rw [before] at noOld
        have found : lookup entry.1 (entry :: rest) = some entry.2 := if_pos rfl
        have apart : entry.1 ≠ space := by
          intro same
          rw [getD_some, ← same, found] at noOld
          cases noOld
        have kept : Option.Rel Eq (lookup entry.1
            ((changedMasks space (some (entry :: rest)) (some values)).getD [])) (some entry.2) := by
          rw [spaces_changedMasks, if_neg apart, getD_some, found]
          exact .some rfl
        rw [isSome_of_rel kept]
        rfl

theorem update_patched {tags masks : Option Fields} (followed : UpdateFollowed space (some old) tags masks) :
    Patched space old { old with
      tags := changedTags old.tags tags, masks := changedMasks space old.masks masks } where
  id := rfl
  place := rfl
  signatures := rel_refl (agree_refl fun _ => rfl) _
  tags tag v found := by
    have value := found
    rw [lookup_changedTags] at value
    cases given : lookup tag (tags.getD []) with
    | none =>
      rw [given] at value
      have kept : lookup tag (old.tags.getD []) = some v := value
      rw [kept]
      exact told_kept (followed.keptTags tag v kept given)
    | some w =>
      rw [given] at value
      exact .inr (steady_of_setTag value)
  hasTags := by
    cases before : old.tags with
    | some fields =>
      refine .inl ⟨rfl, ?_⟩
      rw [isSome_changedTags]
      rfl
    | none =>
      refine .inr ⟨rfl, ?_⟩
      rcases followed.hasTags old rfl with isSome | nothing | ⟨tag, some'⟩
      · rw [before] at isSome
        cases isSome
      · left
        have shape := isSome_changedTags none tags
        rw [nothing] at shape
        exact Option.not_isSome_iff_eq_none.mp (by rw [shape]; exact Bool.false_ne_true)
      · right
        refine ⟨tag, ?_⟩
        rw [lookup_changedTags]
        exact some'
  spaces other apart := by
    change Option.Rel (Agree Eq) _ (lookup other ((changedMasks space old.masks masks).getD []))
    rw [spaces_changedMasks, if_neg apart]
    exact rel_refl (agree_refl fun _ => rfl) _
  masks := by
    have lookups : ∀ tag, lookup tag ((lookup space ((changedMasks space old.masks masks).getD [])).getD []) =
        setTag (maskOf space (some old) tag) ((lookup tag (masks.getD [])).map clean) := by
      intro tag
      rw [lookup_changedMasks, if_pos rfl]
      rfl
    by_cases remains : ∃ tag, setTag (maskOf space (some old) tag) ((lookup tag (masks.getD [])).map clean) ≠ none
    · left
      obtain ⟨tag, some'⟩ := remains
      rw [← lookups] at some'
      cases shown : lookup space ((changedMasks space old.masks masks).getD []) with
      | none =>
        rw [shown] at some'
        exact absurd rfl some'
      | some values =>
        rw [shown] at some' lookups
        refine ⟨values, rfl, ⟨tag, some'⟩, fun other v found => ?_⟩
        have value := (lookups other).symm.trans found
        cases given : lookup other (masks.getD []) with
        | none =>
          rw [given] at value
          have kept : maskOf space (some old) other = some v := value
          have before : lookup other ((lookup space (old.masks.getD [])).getD []) = some v := kept
          rw [before]
          exact told_kept (followed.keptMasks other v kept given)
        | some w =>
          rw [given] at value
          exact .inr (steady_of_setTag value)
    · right
      obtain ⟨noOld, keeps⟩ := (followed.remain (.inl rfl)).resolve_left remains
      have nothing : ∀ tag, setTag none ((lookup tag (masks.getD [])).map clean) = none := by
        intro tag
        by_contra some'
        apply remains
        refine ⟨tag, ?_⟩
        have before : maskOf space (some old) tag = none := by
          rw [maskOf, noOld]
          rfl
        rw [before]
        exact some'
      have after := masks_without space noOld nothing (fun isSome => (keeps isSome).2)
      exact ⟨noOld, after⟩

theorem tag_alike (alike : Alike first second) (tag : JsString) :
    lookup tag (first.tags.getD []) = lookup tag (second.tags.getD []) := eq_of_rel (rel_getD alike.tags tag)

theorem mask_alike (alike : Alike first second) (other tag : JsString) :
    lookup tag ((lookup other (first.masks.getD [])).getD []) =
      lookup tag ((lookup other (second.masks.getD [])).getD []) :=
  eq_of_rel (rel_getD (rel_getD alike.masks other) tag)

theorem none_alike (alike : Alike first second) {other : JsString}
    (missing : lookup other (first.masks.getD []) = none) : lookup other (second.masks.getD []) = none := by
  have related := rel_getD alike.masks other
  rw [missing] at related
  cases shown : lookup other (second.masks.getD []) with
  | none => rfl
  | some fields =>
    rw [shown] at related
    cases related

theorem Patched.congr {old' new' : Bot} (patched : Patched space old new) (before : Alike old' old)
    (after : Alike new new') : Patched space old' new' where
  id := before.id.trans (patched.id.trans after.id)
  place := before.space.trans (patched.place.trans after.space)
  signatures := by
    apply rel_trans (fun _ _ _ => agree_eq_trans) before.signatures
    exact rel_trans (fun _ _ _ => agree_eq_trans) patched.signatures after.signatures
  tags tag v found := by
    rw [tag_alike before]
    apply patched.tags
    rw [tag_alike after, found]
  hasTags := by
    have shape := (rel_agree_iff.mp before.tags).1
    have newShape := (rel_agree_iff.mp after.tags).1
    rcases patched.hasTags with ⟨isOld, isNew⟩ | ⟨noOld, rest⟩
    · exact .inl ⟨shape.trans isOld, newShape.symm.trans isNew⟩
    · right
      constructor
      · rw [noOld] at shape
        exact Option.not_isSome_iff_eq_none.mp (by rw [shape]; exact Bool.false_ne_true)
      · rcases rest with noNew | ⟨tag, some'⟩
        · left
          rw [noNew] at newShape
          exact Option.not_isSome_iff_eq_none.mp (by rw [← newShape]; exact Bool.false_ne_true)
        · right
          exact ⟨tag, by rw [← tag_alike after]; exact some'⟩
  spaces other apart := by
    apply rel_trans (fun _ _ _ => agree_eq_trans) (rel_getD before.masks other)
    exact rel_trans (fun _ _ _ => agree_eq_trans) (patched.spaces other apart) (rel_getD after.masks other)
  masks := by
    rcases patched.masks with ⟨values, found, ⟨tag, some'⟩, told⟩ | ⟨noOld, noNew, same⟩
    · left
      have related := rel_getD after.masks space
      rw [found] at related
      cases shown : lookup space (new'.masks.getD []) with
      | none =>
        rw [shown] at related
        cases related
      | some fields =>
        have values' : ∀ key, lookup key values = lookup key fields := by
          intro key
          have same := mask_alike after space key
          rw [found, shown] at same
          exact same
        refine ⟨fields, rfl, ⟨tag, by rw [← values']; exact some'⟩, fun key v present => ?_⟩
        rw [mask_alike before]
        exact told key v (by rw [values', present])
    · right
      refine ⟨none_alike before.symm noOld, none_alike after noNew, ?_⟩
      exact (rel_agree_iff.mp before.masks).1.trans (same.trans (rel_agree_iff.mp after.masks).1)

end Records

/-! ### Calls -/

section Calls

variable (space : JsString)

def recordAfter (old : Option Bot) : BotAction → Option Bot
  | .addBot id bot => some { bot with id := some id, space := some space }
  | .removeBot _ => none
  | .updateBot _ tags masks => changed space old tags masks

variable {id : JsString} {state storage : BotsState} {tags : Option Fields} {event : BotAction}
  {old : Option Bot}

theorem lookup_updatedBots {updatedState : PartialBotsState}
    (member : id ∈ updatedBots updatedState) : lookup id updatedState ≠ none := by
  obtain ⟨entry, inside, found⟩ := List.mem_filterMap.mp member
  obtain ⟨bot, _, named⟩ := Option.bind_eq_some_iff.mp found
  intro missing
  apply (lookup_eq_none_iff id updatedState).mp missing
  split at named
  · cases named
  · rw [← Option.some.inj named]
    exact List.mem_map_of_mem inside

/-- What a call does to the state and to the storage. -/
structure Applied (state storage : BotsState) (event : BotAction) (next : State) : Prop where
  states : ∀ other, lookup other next.state =
    if other = eventId event then recordAfter space (lookup (eventId event) state) event
    else lookup other state
  others : ∀ other, other ≠ eventId event → lookup other next.storage = lookup other storage
  storage : lookup (eventId event) next.storage = lookup (eventId event) next.state ∨
    lookup (eventId event) next.storage = lookup (eventId event) storage ∧
      lookup (eventId event) next.state = lookup (eventId event) state

theorem applyEvents_update {masks : Option Fields} (readable : Readable (lookup id state) tags masks) :
    ∃ next, applyEvents space { state := state, storage := storage } [.updateBot id tags masks] = some next ∧
      Applied space state storage (.updateBot id tags masks) next := by
  obtain ⟨batch, made, stored, states, others, idle, busy⟩ := applyEvent_update space true
    { state := state, storage := storage, updatedState := [] } id readable
    (fun known _ => quiet_alone tags known)
  refine ⟨{ state := batch.state
            storage := storeUpdated batch.state batch.storage (updatedBots batch.updatedState) }, ?_, ?_⟩
  · rw [applyEvents, runAll_cons, made]
    rfl
  · refine ⟨states, fun other apart => ?_, ?_⟩
    · rw [lookup_storeUpdated, if_neg, stored]
      intro member
      apply lookup_updatedBots member
      rw [others other apart]
      rfl
    · change lookup id (storeUpdated batch.state batch.storage (updatedBots batch.updatedState)) =
        lookup id batch.state ∨ _
      rw [lookup_storeUpdated]
      by_cases quietly : Idle (lookup id state) tags masks
      · right
        have here := states id
        rw [if_pos rfl, changed_idle space quietly] at here
        refine ⟨?_, here⟩
        rw [lookup_storeUpdated, if_neg, stored]
        intro member
        exact lookup_updatedBots member (idle quietly)
      · left
        obtain ⟨u, shown, same⟩ := busy quietly
        rw [if_pos]
        apply mem_updatedBots
        refine ⟨u, shown, ?_⟩
        rw [same]
        exact fun impossible => by cases impossible

theorem applyEvents_spec (readable : readableEvent (lookup (eventId event) state) event) :
    ∃ next, applyEvents space { state := state, storage := storage } [event] = some next ∧
      Applied space state storage event next := by
  cases event with
  | updateBot id tags masks => exact applyEvents_update space readable
  | addBot id bot =>
    have stored : updatedBots [(id, some { bot with id := some id, space := some space })] = [] := by
      simp [updatedBots]
    refine ⟨_, rfl, fun other => ?_, fun other apart => ?_, .inl ?_⟩
    · rw [lookup_assign]
      rfl
    · change lookup other (storeUpdated _ _ (updatedBots [(id, some _)])) = _
      rw [stored]
      exact (lookup_assign id other _ storage).trans (if_neg apart)
    · change lookup id (storeUpdated _ _ (updatedBots [(id, some _)])) = _
      rw [stored]
      exact (lookup_assign id id _ storage).trans
        ((if_pos rfl).trans ((lookup_assign id id _ state).trans (if_pos rfl)).symm)
  | removeBot id =>
    refine ⟨_, rfl, fun other => ?_, fun other apart => ?_, .inl ?_⟩
    · rw [lookup_remove]
      rfl
    · exact (lookup_remove id other storage).trans (if_neg apart)
    · exact (lookup_remove id id storage).trans
        ((if_pos rfl).trans ((lookup_remove id id state).trans (if_pos rfl)).symm)

theorem deliver_update {masks : Option Fields} (readable : Readable (lookup id state) tags masks) :
    ∃ other, deliver space (some (.updateBot id tags masks)) state = some other ∧ ∀ key,
      lookup key other = if key = id then changed space (lookup id state) tags masks else lookup key state := by
  obtain ⟨batch, made, _, states, _⟩ := applyEvent_update space false
    { state := state, storage := [], updatedState := [] } id readable (fun known _ => quiet_alone tags known)
  refine ⟨batch.state, ?_, states⟩
  rw [deliver, made]
  rfl

/-- A record that comes to be where there was none. -/
def New (id : JsString) (new : Bot) : Prop :=
  (new.id = some id ∧ id ≠ [] ∧ new.space = some space) ∨
    (new.id = none ∧ new.tags = none ∧ Patched space emptyBot new ∧
      (lookup space (new.masks.getD [])).isSome = true)

/-- The other tab makes the new record of the old one. -/
inductive Tellable (id : JsString) : Option Bot → Option Bot → Prop where
  | nothing : Tellable id none none
  | gone {old : Bot} (named : hasId (some old) = true) : Tellable id (some old) none
  | new {new : Bot} (isNew : New space id new) : Tellable id none (some new)
  | patched {old new : Bot} (patched : Patched space old new) : Tellable id (some old) (some new)

theorem deliver_new {new : Bot} (isNew : New space id new) (missing : lookup id state = none) :
    ∃ other, deliver space (storedBotUpdated space id (some new) none) state = some other ∧
      Option.Rel Alike (some new) (lookup id other) ∧
        ∀ key, key ≠ id → lookup key other = lookup key state := by
  rcases isNew with ⟨named, filled, placed⟩ | ⟨unnamed, noTags, patched, masks⟩
  · obtain ⟨c, rest, isId⟩ := List.exists_cons_of_ne_nil filled
    have event : storedBotUpdated space id (some new) none = some (.addBot id new) := by
      rw [isId] at named
      simp only [storedBotUpdated, named, isId]
    rw [event]
    refine ⟨_, rfl, ?_, fun key apart => ?_⟩
    · rw [lookup_assign, if_pos rfl]
      have same : { new with id := some id, space := some space } = new := by rw [← named, ← placed]
      rw [same]
      exact .some (.refl new)
    · rw [lookup_assign, if_neg apart]
  · have event : storedBotUpdated space id (some new) none =
        some (.updateBot id none (differentMasks space new (some emptyBot))) := by
      simp only [storedBotUpdated, unnamed, differentTags, noTags]
      rfl
    have noDifference : differentTags new (some emptyBot) = none := by
      simp only [differentTags, noTags]
      rfl
    have readable : Readable (some emptyBot) (differentTags new (some emptyBot))
        (differentMasks space new (some emptyBot)) := readable_told space patched
    have fits : Readable (lookup id state) none (differentMasks space new (some emptyBot)) :=
      ⟨fun _ => fun _ member => absurd member List.not_mem_nil, readable.2⟩
    obtain ⟨other, made, states⟩ := deliver_update space fits
    rw [event]
    refine ⟨other, made, ?_, fun key apart => by rw [states, if_neg apart]⟩
    have alike := patched_alike space (.refl emptyBot) patched
    rw [noDifference] at alike
    obtain ⟨own, inSpace⟩ := Option.isSome_iff_exists.mp masks
    have given : ∃ values, differentMasks space new (some emptyBot) = some values := by
      cases before : new.masks with
      | none =>
        rw [before] at inSpace
        cases inSpace
      | some entries =>
        rw [before] at inSpace
        rw [differentMasks, before, bind_some]
        exact ⟨_, congrArg (Option.map _) inSpace⟩
    obtain ⟨values, isGiven⟩ := given
    rw [isGiven] at alike
    rw [states, if_pos rfl, missing, isGiven]
    exact .some alike.symm

theorem storedBotUpdated_update (id : JsString) (new old : Bot) : storedBotUpdated space id (some new) (some old) =
      some (.updateBot id (differentTags new (some old)) (differentMasks space new (some old))) := by
  unfold storedBotUpdated
  rfl

theorem deliver_told {new : Option Bot} (tellable : Tellable space id old new)
    (alike : Option.Rel Alike old (lookup id state)) :
    ∃ other, deliver space (storedBotUpdated space id new old) state = some other ∧
      Option.Rel Alike new (lookup id other) ∧ ∀ key, key ≠ id → lookup key other = lookup key state := by
  cases tellable with
  | nothing => exact ⟨state, rfl, alike, fun _ _ => rfl⟩
  | gone named =>
    refine ⟨remove id state, ?_, ?_, fun key apart => ?_⟩
    · rw [storedBotUpdated, if_pos named]
      rfl
    · rw [lookup_remove, if_pos rfl]
      exact .none
    · rw [lookup_remove, if_neg apart]
  | new isNew =>
    apply deliver_new space isNew
    cases missing : lookup id state with
    | none => rfl
    | some record =>
      rw [missing] at alike
      cases alike
  | @patched old new patched =>
    cases known : lookup id state with
    | none =>
      rw [known] at alike
      cases alike
    | some record =>
      rw [known] at alike
      cases alike with
      | some alike =>
        have readable : Readable (lookup id state) (differentTags new (some old))
            (differentMasks space new (some old)) := by
          rw [known]
          exact readable_told space patched
        obtain ⟨other, made, states⟩ := deliver_update space readable
        rw [storedBotUpdated_update]
        refine ⟨other, made, ?_, fun key apart => by rw [states, if_neg apart]⟩
        rw [states, if_pos rfl, known]
        exact .some (patched_alike space alike patched).symm

theorem isSome_rel {W X : Type} {Rel : W → X → Prop} {left : Option W} {right : Option X}
    (related : Option.Rel Rel left right) : left.isSome = right.isSome := by
  cases related <;> rfl

theorem Tellable.congr {old' new new' : Option Bot} (tellable : Tellable space id old new)
    (before : Option.Rel Alike old' old) (after : Option.Rel Alike new new') :
    Tellable space id old' new' := by
  cases tellable with
  | nothing =>
    cases before
    cases after
    exact .nothing
  | gone named =>
    cases after
    cases before with
    | some alike =>
      have sameId := alike.id
      apply Tellable.gone
      rw [hasId, bind_some] at named ⊢
      rw [sameId]
      exact named
  | new isNew =>
    cases before
    cases after with
    | some alike =>
      apply Tellable.new
      rcases isNew with ⟨named, filled, placed⟩ | ⟨unnamed, noTags, patched, masks⟩
      · exact .inl ⟨alike.id.symm.trans named, filled, alike.space.symm.trans placed⟩
      · have shape := (rel_agree_iff.mp alike.tags).1
        rw [noTags] at shape
        refine .inr ⟨alike.id.symm.trans unnamed, ?_, patched.congr space (.refl _) alike, ?_⟩
        · exact Option.not_isSome_iff_eq_none.mp (by rw [← shape]; exact Bool.false_ne_true)
        · exact (isSome_rel (rel_getD alike.masks space)).symm.trans masks
  | patched patched =>
    cases before with
    | some before =>
      cases after with
      | some after => exact .patched (patched.congr space before after)

theorem followed_none {values : Fields} (followed : UpdateFollowed space none tags (some values)) :
    UpdateFollowed space (some emptyBot) none (some values) where
  remain _ := (followed.remain (.inr rfl)).elim .inl fun lost => by cases (lost.2 rfl).1
  keptTags _ _ found := by cases found
  keptMasks _ _ found := by cases found
  hasTags _ _ := .inr (.inl rfl)

theorem tellable_of_followed (followed : EventFollowed space old event) :
    Tellable space (eventId event) old (recordAfter space old event) := by
  cases event with
  | addBot id bot =>
    cases old with
    | none => exact .new (.inl ⟨rfl, followed, rfl⟩)
    | some known => exact .patched followed
  | removeBot id =>
    cases old with
    | none => exact .nothing
    | some known =>
      rcases followed with missing | named
      · cases missing
      · exact .gone named
  | updateBot id tags masks =>
    have ok : UpdateFollowed space old tags masks := followed
    cases old with
    | some known => exact .patched (update_patched space ok)
    | none =>
      cases masks with
      | none => exact .nothing
      | some values =>
        have patched := update_patched space (followed_none space ok)
        refine .new (.inr ⟨rfl, rfl, patched, ?_⟩)
        rcases patched.masks with ⟨own, found, _⟩ | ⟨_, noNew, _⟩
        · change (lookup space ((changedMasks space none (some values)).getD [])).isSome = true
          have shown : lookup space ((changedMasks space none (some values)).getD []) = some own := found
          rw [shown]
          rfl
        · obtain ⟨tag, some'⟩ := (ok.remain (.inr rfl)).resolve_right
            fun lost => by cases (lost.2 rfl).1
          exfalso
          apply some'
          have lookups := lookup_changedMasks space none (some values) space tag
          have missing : lookup space ((changedMasks space none (some values)).getD []) = none := noNew
          rw [missing, if_pos rfl] at lookups
          exact lookups.symm

/-- Both tabs have what the storage has. -/
def InStep (s : Tabs) : Prop := ∀ id, Option.Rel Alike (lookup id s.storage) (lookup id s.first) ∧
  Option.Rel Alike (lookup id s.storage) (lookup id s.second)

theorem InStep.own {s : Tabs} (inStep : InStep s) (tab : Tab) (id : JsString) :
    Option.Rel Alike (lookup id s.storage) (lookup id (s.own tab)) := by
  cases tab with
  | first => exact (inStep id).1
  | second => exact (inStep id).2

theorem InStep.other {s : Tabs} (inStep : InStep s) (tab : Tab) (id : JsString) :
    Option.Rel Alike (lookup id s.storage) (lookup id (s.other tab)) := by
  cases tab with
  | first => exact (inStep id).2
  | second => exact (inStep id).1

theorem inStep_made {own other : BotsState} (tab : Tab)
    (left : ∀ id, Option.Rel Alike (lookup id storage) (lookup id own))
    (right : ∀ id, Option.Rel Alike (lookup id storage) (lookup id other)) :
    InStep (Tabs.made storage own other tab) := by
  cases tab with
  | first => exact fun id => ⟨left id, right id⟩
  | second => exact fun id => ⟨right id, left id⟩

theorem applied_own {next : State} (inStep : ∀ id, Option.Rel Alike (lookup id storage) (lookup id state))
    (applied : Applied space state storage event next) (id : JsString) :
    Option.Rel Alike (lookup id next.storage) (lookup id next.state) := by
  by_cases same : id = eventId event
  · subst same
    rcases applied.storage with stored | ⟨unstored, unchanged⟩
    · rw [stored]
      exact rel_refl Alike.refl _
    · rw [unstored, unchanged]
      exact inStep _
  · rw [applied.others id same, applied.states, if_neg same]
    exact inStep id

theorem step_inStep (s : Tabs) (call : Call) (inStep : InStep s) (followed : Followed space s call) :
    ∃ next, step space s call = some next ∧ InStep next := by
  obtain ⟨readable, told⟩ := followed
  obtain ⟨next, made, applied⟩ := @applyEvents_spec space _ s.storage _ readable
  have own := applied_own space (inStep.own call.tab) applied
  have delivered : ∃ other, deliver space (if call.fired then storedBotUpdated space (eventId call.event)
      (lookup (eventId call.event) next.storage) (lookup (eventId call.event) s.storage) else none)
        (s.other call.tab) = some other ∧
          ∀ id, Option.Rel Alike (lookup id next.storage) (lookup id other) := by
    by_cases fired : call.fired = true
    · rw [if_pos fired] at told ⊢
      have after : Option.Rel Alike (recordAfter space (lookup (eventId call.event) (s.own call.tab))
          call.event) (lookup (eventId call.event) next.storage) := by
        have related := rel_symm (fun _ _ => Alike.symm) (own (eventId call.event))
        rw [applied.states, if_pos rfl] at related
        exact related
      have tellable := (tellable_of_followed space told).congr space (inStep.own call.tab (eventId call.event)) after
      obtain ⟨other, ran, here, others⟩ :=
        deliver_told space tellable (inStep.other call.tab (eventId call.event))
      refine ⟨other, ran, fun id => ?_⟩
      by_cases same : id = eventId call.event
      · rw [same]
        exact here
      · rw [applied.others id same, others id same]
        exact inStep.other call.tab id
    · rw [if_neg fired] at told ⊢
      refine ⟨s.other call.tab, rfl, fun id => ?_⟩
      have unchanged : lookup id next.storage = lookup id s.storage := by
        by_cases same : id = eventId call.event
        · rw [same]
          exact told next made
        · exact applied.others id same
      rw [unchanged]
      exact inStep.other call.tab id
  obtain ⟨other, ran, theirs⟩ := delivered
  refine ⟨Tabs.made next.storage next.state other call.tab, ?_, inStep_made call.tab own theirs⟩
  simp only [step, made, bind_some, ran, map_some]

/-- After every call both tabs have the same state, and no delivery throws. -/
theorem tabs_follow (initial : BotsState) {s : Tabs}
    (reached : Reaches (step space) (Followed space) (start initial) s) :
    SameState s.first s.second ∧ ∀ call, Followed space s call → (step space s call).isSome = true := by
  have inStep : InStep s := by
    apply reached.invariant InStep
    · exact fun id => ⟨rel_refl Alike.refl _, rel_refl Alike.refl _⟩
    · intro state call next holds allowed ran
      obtain ⟨other, made, after⟩ := step_inStep space state call holds allowed
      have same := Option.some.inj (made.symm.trans ran)
      exact same ▸ after
  constructor
  · intro id
    have left := rel_symm (fun _ _ => Alike.symm) (inStep id).1
    have both : Option.Rel Alike (lookup id s.first) (lookup id s.second) := by
      apply rel_trans _ left (inStep id).2
      intro _ _ _ same next
      exact same.trans next
    exact rel_mono (fun _ _ => Alike.same) both
  · intro call allowed
    obtain ⟨next, made, _⟩ := step_inStep space s call inStep allowed
    rw [made]
    rfl

end Calls

/-! ### The last mask of a bot -/

section Sample

def added : Call := { tab := .first, event := adding, fired := true }

def masking (tab : Tab) (value : Json) : Call :=
  { tab := tab, event := .updateBot name none (some [(name, value)]), fired := true }

def masked (text : JsString) : BotsState :=
  [(name, { storedBot (lit ['x']) with masks := some [(name, [(name, .string text)])] })]

/-- A mask that the second tab sets comes to the first one. -/
theorem mask_follows :
    ∃ s, runAll (step name) (start []) [added, masking .second (.string (lit ['y']))] = some s ∧
      maskOf name (lookup name s.first) name = some (.string (lit ['y'])) ∧
        SameState s.first s.second := by
  let bots := storedAs (lit ['x'])
  let both : Tabs := { first := bots, second := bots, storage := bots }
  let last : Tabs :=
    { first := masked (lit ['y'])
      second := masked (lit ['y'])
      storage := masked (lit ['y']) }
  let mask := masking .second (.string (lit ['y']))
  have first : step name (start []) added = some both := by rfl
  have second : step name both mask = some last := by rfl
  have addFollowed : Followed name (start []) added :=
    ⟨trivial, show name ≠ [] by simp [name, lit]⟩
  have maskFollowed : Followed name both mask := by
    refine ⟨⟨fun _ => by decide +kernel, by decide +kernel⟩, ⟨fun _ => .inl ⟨name, ?_⟩, ?_, ?_, ?_⟩⟩
    · exact fun impossible => by cases impossible
    · intro tag v found _
      have member : (tag, v) = (name, .string (lit ['x'])) :=
        List.mem_singleton.mp (mem_of_lookup tag v _ found)
      cases member
      rfl
    · intro tag v found _
      cases found
    · exact fun known _ => .inr (.inl rfl)
  have reached : Reaches (step name) (Followed name) (start []) last :=
    .step mask (.step added .start addFollowed first) maskFollowed second
  refine ⟨last, ?_, rfl, (tabs_follow name [] reached).1⟩
  rw [runAll_cons, first, bind_some, runAll_cons, second]
  rfl

/-- When it is removed it stays in the other tab. -/
theorem last_mask_stays :
    ∃ s, runAll (step name) (start [])
        [added, masking .first (.string (lit ['y'])), masking .first .null] = some s ∧
      maskOf name (lookup name s.first) name = none ∧
        maskOf name (lookup name s.second) name = some (.string (lit ['y'])) ∧
          ¬ SameState s.first s.second := by
  let s : Tabs :=
    { first := storedAs (lit ['x'])
      second := masked (lit ['y'])
      storage := storedAs (lit ['x']) }
  refine ⟨s, by rfl, rfl, rfl, fun same => ?_⟩
  have bots := same name
  cases bots with
  | some alike => cases alike.masks

end Sample

end CasualOS.StorageEvents
