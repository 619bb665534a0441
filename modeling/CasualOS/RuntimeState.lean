import CasualOS.CompiledBots
import CasualOS.Lib.Run
import CasualOS.Lib.SortedLists

/-! The compiled bots of the runtime and the index of their listeners: state updates, and what scripts do. -/

namespace CasualOS.AuxRuntime

open OrderedMap SortedLists

/-! ### The listener index -/

abbrev ListenerMap := List (JsString × List JsString)

def getBotIdsWithListener (map : ListenerMap) (tag : JsString) : List JsString := (lookup tag map).getD []

section Index

variable (sortedIndex : List JsString → JsString → Nat)

/-- `sortedIndexOf` finds an id at its sorted index or nowhere. -/
def recordListenerPresense (map : ListenerMap) (id tag : JsString) (hasListener : Bool) : ListenerMap :=
  match lookup tag map, hasListener with
  | none, false => map
  | list, true => assign tag (insertSorted sortedIndex (fun other => other) id (list.getD [])) map
  | some list, false =>
    let left := (deleteSorted sortedIndex (fun other => other) id list).getD list
    if left.isEmpty then remove tag map else assign tag left map

def recordAll (id : JsString) (presence : List (JsString × Bool)) (map : ListenerMap) : ListenerMap :=
  presence.foldl (fun map call => recordListenerPresense sortedIndex map id call.1 call.2) map

end Index

/-! ### Replaced bots -/

/-- A change of the old script's tags goes into the new bot as it is. -/
def copyChange (bot : CompiledBot) (change : JsString × TagValue) : CompiledBot :=
  { bot with
    tags := assign change.1 change.2 bot.tags
    values := assign change.1 change.2 bot.values
    changes := assign change.1 change.2 bot.changes }

/-- No value is set: the tag is in `maskTags` by the time that it is looked for there. -/
def copyMask (space : BotSpace) (bot : CompiledBot) (mask : JsString × TagValue) : CompiledBot :=
  { bot with
    masks := setMask space mask.1 mask.2 bot.masks
    maskChanges := setMask space mask.1 mask.2 bot.maskChanges }

def copyMasks (bot : CompiledBot) (space : BotSpace) : Option Tags → CompiledBot
  | none => bot
  | some masks =>
    masks.foldl (copyMask space)
      { bot with maskChanges := assign space (maskTags space bot.maskChanges) bot.maskChanges }

def replaceBot (existing newBot : CompiledBot) : CompiledBot :=
  tagMaskSpacePriorities.foldl (fun bot space => copyMasks bot space (lookup space existing.maskChanges))
    (existing.changes.foldl copyChange newBot)

def inPlaceOf : Option CompiledBot → CompiledBot → CompiledBot
  | none, newBot => newBot
  | some existing, newBot => replaceBot existing newBot

/-! ### State updates -/

/-- What a state update says of one bot. -/
structure PartialBot where
  tags : Tags
  masks : TagMasks
  signatures : List (JsString × Option JsString)

/-- Plain objects are merged, else the second value stands. -/
def mergeValue : TagValue → TagValue → TagValue
  | .json first, .json second => .json (Json.merge first second)
  | first, .undefined => first
  | _, second => second

/-- Masks that come before their bot are merged into those that came earlier. -/
def bufferMasks (existing masks : TagMasks) : TagMasks :=
  combine (both (combine (both mergeValue))) existing masks

def isUpdate (value : TagValue) : Bool := value.hasValue || value.isNull

/-- An edit is applied to the value from before the script's own edits. -/
def updateStateTag (bot : CompiledBot) (update : JsString × TagValue) : CompiledBot :=
  if isUpdate update.2 then { bot with
    tags := assign update.1 (match update.2.edit with
      | some edit => ((lookup update.1 bot.originalTagEditValues).getD (tagValue update.1 bot.tags)).applyTagEdit edit
      | none => update.2) bot.tags
    originalTagEditValues := remove update.1 bot.originalTagEditValues }
  else bot

def updateStateMask (space : BotSpace) (bot : CompiledBot) (update : JsString × TagValue) : CompiledBot :=
  if isUpdate update.2 then { bot with
    masks :=
      if update.2.isNull then removeMask space update.1 bot.masks
      else setMask space update.1 (match update.2.edit with
        | some edit => ((lookup update.1 (maskTags space bot.originalTagMaskEditValues)).getD
            (maskValue space update.1 bot.masks)).applyTagEdit edit
        | none => update.2) bot.masks
    originalTagMaskEditValues := removeMask space update.1 bot.originalTagMaskEditValues }
  else bot

def updatedTags (update : PartialBot) : List JsString :=
  ((update.tags ++ update.masks.flatMap Prod.snd).filterMap fun change =>
    if isUpdate change.2 then some change.1 else none).eraseDups

def truthy : Option JsString → Option JsString
  | some [] => none
  | value => value

section Runtime

variable (readers : Readers)

/-- A tag without a value is compiled as `null`. -/
def compileUpdated (c : Compiling) (tag : JsString) : Compiling :=
  compileTagValue readers c tag (if hasVisible c.bot tag then visible c.bot tag else .json .null)

def updateSignature (isNew : Bool) (c : Compiling) (update : JsString × Option JsString) : Compiling :=
  let val := truthy update.2
  let current := truthy (lookup update.1 c.bot.signatures).join
  let stored : Compiling := { c with bot := { c.bot with signatures := assign update.1 val c.bot.signatures } }
  match val, current with
  | none, some tag => compileTag readers isNew stored tag (tagValue tag c.bot.tags)
  | some tag, none => compileTag readers isNew stored tag (tagValue tag c.bot.tags)
  | _, _ => stored

def updateState (isNew : Bool) (bot : CompiledBot) (update : PartialBot) : Compiling :=
  let stored := update.tags.foldl updateStateTag bot
  let stored := update.masks.foldl (fun bot entry => entry.2.foldl (updateStateMask entry.1) bot) stored
  let compiled := (updatedTags update).foldl (compileUpdated readers) { bot := stored, presence := [] }
  update.signatures.foldl (updateSignature readers isNew) compiled

/-- The ids in the context are those of the compiled bots: what adds or deletes one does it to both. A bot
that scripts still hold when the runtime has dropped it is `gone`; a replaced bot forwards to the bot that
took its place. -/
structure Runtime where
  compiledState : List (JsString × CompiledBot)
  gone : List CompiledBot
  listenerMap : ListenerMap
  existingMasks : List (JsString × TagMasks)
  newBots : List JsString

def Runtime.empty : Runtime :=
  { compiledState := [], gone := [], listenerMap := [], existingMasks := [], newBots := [] }

/-- A bot that a script holds. -/
inductive BotRef where
  | inState (id : JsString)
  | gone (index : Nat)

inductive Change where
  | add (bot : Bot)
  | remove (id : JsString)
  | update (id : JsString) (partialBot : PartialBot)
  | updateTag (ref : BotRef) (tag : JsString) (value : TagValue)
  | updateTagMask (ref : BotRef) (tag : JsString) (spaces : List BotSpace) (value : TagValue)
  | createBot (bot : Bot)
  | destroyBot (ref : BotRef)
  | clearChanges (ref : BotRef)
  | clearNewBots

namespace Runtime

variable (r : Runtime)

def bot (id : JsString) : Option CompiledBot := lookup id r.compiledState

def deref : BotRef → Option CompiledBot
  | .inState id => r.bot id
  | .gone index => r.gone[index]?

def withBot (ref : BotRef) (act : CompiledBot → Runtime) : Runtime :=
  match r.deref ref with
  | none => r
  | some bot => act bot

/-- Writes on a bot go on to the bot that the reference leads to. -/
def store (made : CompiledBot) : BotRef → Runtime
  | .inState id => { r with compiledState := assign id made r.compiledState }
  | .gone index => { r with gone := r.gone.set index made }

def drop (id : JsString) : Runtime :=
  { r with
    compiledState := OrderedMap.remove id r.compiledState
    gone := r.gone ++ (r.bot id).toList }

variable (sortedIndex : List JsString → JsString → Nat) (editMode : BotSpace → RealtimeEditMode)

def record (id : JsString) (presence : List (JsString × Bool)) : Runtime :=
  { r with listenerMap := recordAll sortedIndex id presence r.listenerMap }

def write (ref : BotRef) (id : JsString) (c : Compiling) : Runtime :=
  (r.store c.bot ref).record sortedIndex id c.presence

/-- One bot of `_addBotsToState`. -/
def add (bot : Bot) : Runtime :=
  let made := createCompiledBot readers ((lookup bot.id r.existingMasks).getD []) bot
  { (r.record sortedIndex bot.id made.presence) with
    compiledState := assign bot.id (inPlaceOf (r.bot bot.id) made.bot) r.compiledState
    existingMasks := OrderedMap.remove bot.id r.existingMasks }

/-- One bot of `_updateBotsWithState`. -/
def update (id : JsString) (partialBot : PartialBot) : Runtime :=
  match r.bot id with
  | none =>
    if partialBot.masks.isEmpty then r
    else { r with
      existingMasks := assign id (bufferMasks ((lookup id r.existingMasks).getD []) partialBot.masks) r.existingMasks }
  | some bot => r.write sortedIndex (.inState id) id (updateState readers (r.newBots.contains id) bot partialBot)

/-- A bot with a present id is compiled and takes the place in the compiled state before the context
throws; the bot that was there stays with the scripts that hold it. -/
def createBot (bot : Bot) : Runtime :=
  if editMode (getBotSpace bot.space) = .immediate then
    let made := createCompiledBot readers [] bot
    let listening := if (r.bot bot.id).isSome then [] else made.bot.listeners.map fun entry => (entry.1, true)
    { ((r.drop bot.id).record sortedIndex bot.id (made.presence ++ listening)) with
      compiledState := assign bot.id made.bot r.compiledState
      newBots := bot.id :: r.newBots }
  else r

def destroyBot (bot : CompiledBot) : Runtime :=
  if (r.bot bot.id).isSome && editMode (getBotSpace bot.space) = .immediate then
    (r.drop bot.id).record sortedIndex bot.id (bot.listeners.map fun entry => (entry.1, false))
  else r

def apply : Change → Runtime
  | .add bot => r.add readers sortedIndex bot
  | .remove id => r.drop id
  | .update id partialBot => r.update readers sortedIndex id partialBot
  | .updateTag ref tag value => r.withBot ref fun bot =>
    r.write sortedIndex ref bot.id
      (AuxRuntime.updateTag readers editMode (r.newBots.contains bot.id) bot tag value)
  | .updateTagMask ref tag spaces value => r.withBot ref fun bot =>
    r.write sortedIndex ref bot.id (AuxRuntime.updateTagMask readers editMode bot tag spaces value)
  | .createBot bot => r.createBot readers sortedIndex editMode bot
  | .destroyBot ref => r.withBot ref fun bot => r.destroyBot sortedIndex editMode bot
  | .clearChanges ref => r.withBot ref fun bot => r.store { bot with changes := [], maskChanges := [] } ref
  | .clearNewBots => { r with newBots := [] }

end Runtime

end Runtime

/-! ### Calls -/

structure StateUpdate where
  addedBots : List Bot
  removedBots : List JsString
  updatedBots : List (JsString × PartialBot)

/-- A state update, or a call of a script or of the batch that sends the changes. -/
inductive Call where
  | stateUpdated (update : StateUpdate)
  | script (change : Change)

def Call.changes : Call → List Change
  | .stateUpdated update =>
    update.addedBots.map .add ++ update.removedBots.map .remove ++
      update.updatedBots.map fun entry => .update entry.1 entry.2
  | .script change => [change]

section Steps

variable (readers : Readers) (sortedIndex : List JsString → JsString → Nat) (editMode : BotSpace → RealtimeEditMode)

def changeStep (r : Runtime) (change : Change) : Option Runtime := some (r.apply readers sortedIndex editMode change)

def callStep (r : Runtime) (call : Call) : Option Runtime :=
  Run.runAll (changeStep readers sortedIndex editMode) r call.changes

end Steps

end CasualOS.AuxRuntime
