import CasualOS.TagIndex

/-! The dimensions that bots define, and the bots that are in them, kept up with the events of the index. -/

namespace CasualOS.DimensionTracking

open OrderedMap AuxRuntime BotValues TagIndex Run

def gridPortal : JsString := JsString.lit ['g', 'r', 'i', 'd', 'P', 'o', 'r', 't', 'a', 'l']

/-! ### What bots say of dimensions -/

def booleanValue : TagValue → Bool
  | .json (.boolean value) => value
  | _ => false

def stringValue : TagValue → Option JsString
  | .json (.string text) => some text
  | _ => none

def parseBotConfigDimensions : TagValue → List JsString
  | .json (.string []) => []
  | .json (.string text) => [text]
  | .json (.integer value) => [JsString.ofInt value]
  | .json (.decimal text) => [text]
  | .json (.boolean value) => [if value then trueText else falseText]
  | .json (.array items) => items.filterMap fun item => stringValue (.json item)
  | _ => []

section Bots

variable (texts : Texts)

def calculateDimensions (bot : BotValues.Bot) (tag : JsString) : List JsString :=
  parseBotConfigDimensions (calculateBotValue texts bot tag)

def isBotInDimension (bot : BotValues.Bot) (dimension : JsString) : Bool :=
  !dimension.isEmpty && booleanValue (calculateBotValue texts bot dimension)

def portalOf (bot : BotValues.Bot) : List JsString :=
  match stringValue (calculateBotValue texts bot gridPortal) with
  | some (c :: rest) => [c :: rest]
  | _ => []

end Bots

/-! ### States of two batches -/

/-- A map of sets and a copy of it that is changed: `keys` are those whose sets are one object in both. -/
structure Copied where
  prev : TagMap
  next : TagMap
  keys : List JsString

namespace Copied

def copy (sets : TagMap) : Copied := { prev := sets, next := sets, keys := sets.map Prod.fst }

def write (c : Copied) (key : JsString) (change : TagMap → JsString → TagMap) : Copied :=
  { c with
    prev := if key ∈ c.keys then change c.prev key else c.prev
    next := change c.next key }

/-- The set of a key is made where it is missing. -/
def ensure (c : Copied) (key : JsString) : Copied :=
  if (lookup key c.next).isSome then c else { c with next := assign key [] c.next }

def drop (c : Copied) (key : JsString) : Copied :=
  { c with next := remove key c.next, keys := c.keys.filter fun other => other ≠ key }

end Copied

structure BotDimensionsState where
  dimensions : TagMap
  botsInDimensions : TagMap

inductive DimensionEvent where
  | dimensionAdded (tag : JsString) (bot : BotValues.Bot) (dimension : JsString) (existing : List BotValues.Bot)
  | dimensionRemoved (tag : JsString) (bot : BotValues.Bot) (dimension : JsString)
  | botAdded (bot : BotValues.Bot) (dimension : JsString)
  | botRemoved (bot : BotValues.Bot) (dimension : JsString)

/-- `prevState` and `newState`, and the events so far. -/
structure Batch where
  dimensions : Copied
  botsInDimensions : Copied
  events : List DimensionEvent

/-! ### The events of the index -/

section Processing

variable (texts : Texts)

def eventBot : BotIndexEvent → BotValues.Bot
  | .tagAdded bot _ => bot
  | .tagRemoved bot _ _ => bot
  | .tagUpdated bot _ _ => bot

def eventTag : BotIndexEvent → JsString
  | .tagAdded _ tag => tag
  | .tagRemoved _ _ tag => tag
  | .tagUpdated _ _ tag => tag

def previousDimensions : BotIndexEvent → Option (List JsString)
  | .tagAdded _ _ => some []
  | .tagRemoved bot oldBot tag => some (calculateDimensions texts (oldBot.getD bot) tag)
  | .tagUpdated _ oldBot tag => oldBot.map fun old => calculateDimensions texts old tag

def currentDimensions : BotIndexEvent → List JsString
  | .tagAdded bot tag => calculateDimensions texts bot tag
  | .tagRemoved _ _ _ => []
  | .tagUpdated bot _ tag => calculateDimensions texts bot tag

def portalDimensions : BotIndexEvent → Option (List JsString)
  | .tagAdded bot _ => some (portalOf texts bot)
  | .tagRemoved bot _ _ => some (portalOf texts bot)
  | .tagUpdated bot oldBot _ => oldBot.map fun old => portalOf texts old ++ portalOf texts bot

def isEventInDimension (event : BotIndexEvent) (dimension : JsString) : Bool :=
  match event with
  | .tagRemoved _ _ _ => false
  | _ => isBotInDimension texts (eventBot event) dimension

def difference (left right : List JsString) : List JsString := left.filter fun item => item ∉ right

def botsInDimension (index : BotIndex) (dimension : JsString) : Option (List BotValues.Bot) :=
  let allBots := ((botList index.tagMap gridPortal ++ botList index.tagMap dimension).eraseDups).map fun id =>
    lookup id index.botMap
  if !dimension.isEmpty && allBots.any Option.isNone then none
  else some ((allBots.filterMap id).filter fun bot => isBotInDimension texts bot dimension)

def addDimension (index : BotIndex) (bot : BotValues.Bot) (tag : JsString) (batch : Batch) (dimension : JsString) :
    Option Batch :=
  (botsInDimension texts index dimension).map fun existing =>
    { dimensions := batch.dimensions.write dimension (addId bot.id)
      botsInDimensions := existing.foldl (fun bots bot => bots.write dimension (addId bot.id))
        (batch.botsInDimensions.ensure dimension)
      events := batch.events ++ [.dimensionAdded tag bot dimension existing] }

def removeDimension (bot : BotValues.Bot) (tag : JsString) (batch : Batch) (dimension : JsString) : Batch :=
  let dimensions := batch.dimensions.write dimension (deleteId bot.id)
  let events := batch.events ++ [.dimensionRemoved tag bot dimension]
  if (botList dimensions.next dimension).isEmpty then
    { dimensions := dimensions.drop dimension
      botsInDimensions := batch.botsInDimensions.drop dimension
      events := events }
  else { batch with dimensions := dimensions, events := events }

def exchangeDimensions (index : BotIndex) (event : BotIndexEvent) (previous current : List JsString) (batch : Batch) :
    Option Batch :=
  ((difference current previous).foldlM (addDimension texts index (eventBot event) (eventTag event)) batch).map
    fun added =>
    (difference previous current).foldl (removeDimension (eventBot event) (eventTag event)) added

/-- The bot of an event is put into a dimension of the previous state, or taken out of it. -/
def addOrRemoveFromDimension (event : BotIndexEvent) (batch : Batch) (dimension : JsString) : Batch :=
  if (botList batch.dimensions.prev dimension).isEmpty then batch
  else
    let isIn := isEventInDimension texts event dimension
    if decide ((eventBot event).id ∈ botList batch.botsInDimensions.prev dimension) = isIn then batch
    else if isIn then
      { batch with
        botsInDimensions := batch.botsInDimensions.write dimension (addId (eventBot event).id)
        events := batch.events ++ [.botAdded (eventBot event) dimension] }
    else
      { batch with
        botsInDimensions := batch.botsInDimensions.write dimension (deleteId (eventBot event).id)
        events := batch.events ++ [.botRemoved (eventBot event) dimension] }

variable (dimensionTags : List JsString) (dimensionBotFilter : JsString → Bool)

/-- New and removed dimensions. -/
def changeDimensions (index : BotIndex) (event : BotIndexEvent) (batch : Batch) : Option Batch :=
  if eventTag event ∈ dimensionTags ∧ dimensionBotFilter (eventBot event).id = true then
    (previousDimensions texts event).bind fun previous =>
      exchangeDimensions texts index event previous (currentDimensions texts event) batch
  else some batch

def changePortal (event : BotIndexEvent) (batch : Batch) : Option Batch :=
  if eventTag event = gridPortal then
    (portalDimensions texts event).map fun dimensions => dimensions.foldl (addOrRemoveFromDimension texts event) batch
  else some batch

def processEvent (index : BotIndex) (batch : Batch) (event : BotIndexEvent) : Option Batch :=
  (changeDimensions texts dimensionTags dimensionBotFilter index event batch).bind fun changed =>
    changePortal texts event (addOrRemoveFromDimension texts event changed (eventTag event))

/-- Nothing when an event throws. -/
def processIndexEvents (prevState : BotDimensionsState) (events : List BotIndexEvent) (index : BotIndex) :
    Option (List DimensionEvent × BotDimensionsState) :=
  (events.foldlM (processEvent texts dimensionTags dimensionBotFilter index)
    { dimensions := .copy prevState.dimensions
      botsInDimensions := .copy prevState.botsInDimensions
      events := [] }).map
    fun batch => (batch.events,
      { dimensions := batch.dimensions.next, botsInDimensions := batch.botsInDimensions.next })

end Processing

/-! ### Runs -/

/-- What a listener makes of the events: which bots define a dimension, and which are in it. -/
structure Followed where
  defining : List (JsString × JsString)
  inside : List (JsString × JsString)

def follow (f : Followed) : DimensionEvent → Followed
  | .dimensionAdded _ bot dimension existing =>
    { defining := (dimension, bot.id) :: f.defining
      inside := (existing.map fun bot => (dimension, bot.id)) ++ f.inside }
  | .dimensionRemoved _ bot dimension =>
    let defining := f.defining.filter fun pair => pair ≠ (dimension, bot.id)
    { defining := defining
      inside := if defining.any fun pair => pair.1 = dimension then f.inside
        else f.inside.filter fun pair => pair.1 ≠ dimension }
  | .botAdded bot dimension => { f with inside := (dimension, bot.id) :: f.inside }
  | .botRemoved bot dimension => { f with inside := f.inside.filter fun pair => pair ≠ (dimension, bot.id) }

/-- The index with its bots, the state of the dimensions, and what its events add up to. -/
structure World where
  session : Session
  dims : BotDimensionsState
  followed : Followed

def World.start : World :=
  { session := .start
    dims := { dimensions := [], botsInDimensions := [] }
    followed := { defining := [], inside := [] } }

section Runs

variable (texts : Texts) (dimensionTags : List JsString) (dimensionBotFilter : JsString → Bool)

def World.step (w : World) (calls : List TagIndex.Call) : Option World :=
  let (index, events) := each (applyCall texts) w.session.index calls
  let session : Session :=
    { index := index
      pairs := events.foldl TagIndex.follow w.session.pairs
      current := (calls.flatMap TagIndex.Call.changes).foldl currentAfter w.session.current }
  if events.isEmpty then some { w with session := session }
  else (processIndexEvents texts dimensionTags dimensionBotFilter w.dims events index).map fun result =>
    { session := session, dims := result.2, followed := result.1.foldl follow w.followed }

section Old

variable (bot : Option BotValues.Bot)

def dimensionsOf (tag : JsString) : List JsString := (bot.map fun bot => calculateDimensions texts bot tag).getD []

def insideOf (dimension : JsString) : Bool := (bot.map fun bot => isBotInDimension texts bot dimension).getD false

def tagsOf : List JsString := (bot.map BotValues.tagsOnBot).getD []

def DefinedBy (dimension : JsString) : Prop := ∃ tag ∈ dimensionTags, dimension ∈ dimensionsOf texts bot tag

end Old

def Defines (current : List (JsString × BotValues.Bot)) (id dimension : JsString) : Prop :=
  dimensionBotFilter id = true ∧ DefinedBy texts dimensionTags (lookup id current) dimension

def InDimension (current : List (JsString × BotValues.Bot)) (id dimension : JsString) : Prop :=
  insideOf texts (lookup id current) dimension = true

structure Exact (w : World) : Prop where
  defined : ∀ dimension id, id ∈ botList w.dims.dimensions dimension ↔
    Defines texts dimensionTags dimensionBotFilter w.session.current id dimension
  filled : ∀ dimension ids, lookup dimension w.dims.dimensions = some ids → ids ≠ []
  inside : ∀ dimension, (lookup dimension w.dims.dimensions).isSome = true → ∀ id,
    id ∈ botList w.dims.botsInDimensions dimension ↔ InDimension texts w.session.current id dimension
  defining : ∀ dimension id, (dimension, id) ∈ w.followed.defining ↔ id ∈ botList w.dims.dimensions dimension
  followed : ∀ dimension, (lookup dimension w.dims.dimensions).isSome = true → ∀ id,
    (dimension, id) ∈ w.followed.inside ↔ id ∈ botList w.dims.botsInDimensions dimension

/-! ### When the dimensions are kept -/

-- The names of the dimensions that there are.
variable (names : JsString → Prop)

/-- An accepted bot defines a dimension with the tag, or a bot is in the dimension of that name. -/
def Uses (id : JsString) (bot : Option BotValues.Bot) (tag : JsString) : Prop :=
  dimensionBotFilter id = true ∧ tag ∈ dimensionTags ∧ dimensionsOf texts bot tag ≠ [] ∨
    names tag ∧ insideOf texts bot tag = true

def Counts (tag : JsString) : Prop := tag ∈ dimensionTags ∨ names tag ∨ tag = gridPortal

/-- The bot has the tags of an older bot of its id, and defines the dimensions of it. -/
structure AddAllowed (old : Option BotValues.Bot) (new : BotValues.Bot) : Prop where
  used : ∀ tag, Uses texts dimensionTags dimensionBotFilter names new.id (some new) tag → tag ∈ BotValues.tagsOnBot new
  kept : ∀ tag ∈ tagsOf old, Counts dimensionTags names tag → tag ∈ BotValues.tagsOnBot new
  defining : dimensionBotFilter new.id = true → ∀ dimension,
    DefinedBy texts dimensionTags old dimension → DefinedBy texts dimensionTags (some new) dimension
  named : dimensionBotFilter new.id = true → ∀ dimension, DefinedBy texts dimensionTags (some new) dimension →
    names dimension

def Loses (old new : Option BotValues.Bot) (tag dimension : JsString) : Prop :=
  tag ∈ dimensionTags ∧ dimension ∈ dimensionsOf texts old tag ∧ dimension ∉ dimensionsOf texts new tag

/-- The tags of an update are all that count for dimensions, values stand under their own tags, and a dimension that
the bot loses with one tag but still defines is gained with a later one. -/
structure UpdateAllowed (old : Option BotValues.Bot) (new : BotValues.Bot) (tags : List JsString) : Prop where
  valued : ∀ tag ∈ tags, Counts dimensionTags names tag → (calculateBotValue texts new tag).hasValue = true →
    tag ∈ BotValues.tagsOnBot new
  kept : ∀ tag ∉ tags, Counts dimensionTags names tag → tag ∈ tagsOf old → tag ∈ BotValues.tagsOnBot new
  dimensions : dimensionBotFilter new.id = true → ∀ tag ∉ tags, tag ∈ dimensionTags →
    dimensionsOf texts (some new) tag = dimensionsOf texts old tag
  inside : ∀ tag ∉ tags, names tag → insideOf texts (some new) tag = insideOf texts old tag
  moved : dimensionBotFilter new.id = true → ∀ before tag after, tags = before ++ tag :: after →
    ∀ dimension, Loses texts dimensionTags old (some new) tag dimension →
      DefinedBy texts dimensionTags (some new) dimension →
        ∃ other ∈ after, Loses texts dimensionTags (some new) old other dimension
  once : old = none → tags.Nodup
  named : dimensionBotFilter new.id = true → ∀ dimension, DefinedBy texts dimensionTags (some new) dimension →
    names dimension

def AllowedChange (s : Session) : TagIndex.Change → Prop
  | .addBot bot => AddAllowed texts dimensionTags dimensionBotFilter names (lookup bot.id s.current) bot
  | .updateBot update => UpdateAllowed texts dimensionTags dimensionBotFilter names (lookup update.bot.id s.current)
      update.bot update.tags
  | .removeBot _ => True

def Allowed (w : World) (calls : List TagIndex.Call) : Prop :=
  AllAllowed (fun s change => some (Session.change texts s change))
    (AllowedChange texts dimensionTags dimensionBotFilter names) w.session (calls.flatMap TagIndex.Call.changes)

end Runs

end CasualOS.DimensionTracking
