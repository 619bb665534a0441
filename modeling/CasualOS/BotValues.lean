import CasualOS.CompiledBots

/-! The bots of a calculation context, and the values and tags that they have. -/

namespace CasualOS.BotValues

open OrderedMap AuxRuntime
open JsString (lit)

def idTag : JsString := lit ['i', 'd']

def spaceTag : JsString := lit ['s', 'p', 'a', 'c', 'e']

def sharedSpace : JsString := lit ['s', 'h', 'a', 'r', 'e', 'd']

def auxPrefix : JsString := lit ['a', 'u', 'x']

def trueText : JsString := lit ['t', 'r', 'u', 'e']

def falseText : JsString := lit ['f', 'a', 'l', 's', 'e']

def undefinedText : JsString := lit ['u', 'n', 'd', 'e', 'f', 'i', 'n', 'e', 'd']

def infinityNumber : TagValue := .json (.decimal (lit ['I', 'n', 'f', 'i', 'n', 'i', 't', 'y']))

def minusInfinityNumber : TagValue := .json (.decimal (lit ['-', 'I', 'n', 'f', 'i', 'n', 'i', 't', 'y']))

/-- A bot is stored as it is, has its values calculated, or comes from the runtime, where reading a tag gives
its value. -/
inductive Form where
  | stored
  | precalculated (values : Tags)
  | runtime

structure Bot where
  id : JsString
  space : Option JsString
  tags : Tags
  masks : List (JsString × Tags)
  form : Form

/-- What the language has for texts: the number that `parseFloat` reads, the lower case of one code unit, and
what `toString` gives for an instance of a class. -/
structure Texts where
  parseFloat : JsString → TagValue
  toLowerCase : CodeUnit → JsString
  instanceText : InstanceKind → JsString → JsString

def asciiTexts : Texts where
  parseFloat _ := notANumber
  toLowerCase c := if 65 ≤ c ∧ c ≤ 90 then [c + 32] else [c]
  instanceText _ formatted := formatted

def getBotSpace (bot : Bot) : JsString :=
  match bot.space with
  | none => sharedSpace
  | some [] => sharedSpace
  | some space => space

def tagsOnBot (bot : Bot) : List JsString :=
  (bot.tags.map Prod.fst ++ bot.masks.flatMap fun entry => entry.2.map Prod.fst).eraseDups

section Values

variable (texts : Texts)

def parseNumber (value : JsString) : TagValue :=
  let text := parseTagged numberTagPrefix value
  if isNumber text then
    if toLowerCase text = infinity then infinityNumber
    else if toLowerCase text = 45 :: infinity then minusInfinityNumber
    else texts.parseFloat text
  else notANumber

def calculateValue : TagValue → TagValue
  | .json (.string formula) =>
    if isNumber formula then parseNumber texts formula
    else if formula = trueText then .json (.boolean true)
    else if formula = falseText then .json (.boolean false)
    else .json (.string formula)
  | formula => formula

def calculateBotTagValue (bot : Bot) (tag : JsString) : TagValue :=
  if tag = idTag then .json (.string bot.id)
  else if tag = spaceTag then .json (.string (getBotSpace bot))
  else
    match bot.form with
    | .precalculated values => tagValue tag values
    | .runtime => tagValue tag bot.tags
    | .stored => calculateValue texts (tagValue tag bot.tags)

/-- The name that a tag of the older form stands for. -/
def unprefixed (tag : JsString) : Option JsString :=
  if auxPrefix.isPrefixOf tag then
    match tag.drop 3 with
    | first :: rest => some (texts.toLowerCase first ++ rest)
    | [] => none
  else none

def calculateBotValue (bot : Bot) (tag : JsString) : TagValue :=
  match calculateBotTagValue texts bot tag with
  | .undefined =>
    match unprefixed texts tag with
    | some newTag => calculateBotTagValue texts bot newTag
    | none => .undefined
  | value => value

end Values

end CasualOS.BotValues
