import CasualOS.TagEdit

/-! The values of tags in the runtime, and what `_compileValue` makes of them. -/

namespace CasualOS.AuxRuntime

open OrderedMap

inductive BotSpace where
  | shared
  | localSpace
  | tempLocal
  | history
  | admin
  | tempShared
  | remoteTempShared
  | certified
  deriving DecidableEq

inductive InstanceKind where
  | dateTime
  | vector
  | rotation
  | error
  deriving DecidableEq

/-- An instance of a class stands with the text that its tag is saved as, and with its JSON text. -/
inductive TagValue where
  | undefined
  | json (value : Json)
  | special (kind : InstanceKind) (formatted shown : JsString)

namespace TagValue

def hasValue : TagValue → Bool
  | .undefined => false
  | .json .null => false
  | .json (.string []) => false
  | _ => true

def isNull : TagValue → Bool
  | .json .null => true
  | _ => false

def edit : TagValue → Option Json
  | .json value => if isTagEdit value then some value else none
  | _ => none

def isPlain : TagValue → Bool
  | .undefined => true
  | .json (.array _) => false
  | .json (.object _) => false
  | .json _ => true
  | .special _ _ _ => false

/-- Dates, vectors and rotations are saved as texts. -/
def copiable : TagValue → TagValue
  | .special .error formatted shown => .special .error formatted shown
  | .special _ formatted _ => .json (.string formatted)
  | value => value

def edited : TagValue → Option Json
  | .undefined => none
  | .json value => some value
  | .special _ _ shown => some (.string shown)

def applyTagEdit (value : TagValue) (edit : Json) : TagValue :=
  .json (CasualOS.applyTagEdit value.edited ((TagEdit.operations edit).getD []))

def mergeEdits (first second : Json) : TagValue :=
  .json ((CasualOS.mergeEdits first second).getD second)

end TagValue

/-! ### The texts that stand for other values -/

def dnaTagPrefix : JsString := [0xD83E, 0xDDEC]

def scriptPrefix : JsString := [64]

def stringTagPrefix : JsString := [0xD83D, 0xDCDD]

def numberTagPrefix : JsString := [0xD83D, 0xDD22]

def dateTagPrefix : JsString := [0xD83D, 0xDCC5]

def vectorTagPrefix : JsString := [0x27A1, 0xFE0F]

def rotationTagPrefix : JsString := [0xD83D, 0xDD01]

def parseTagged (tagPrefix text : JsString) : JsString :=
  if tagPrefix.isPrefixOf text then text.drop tagPrefix.length else text

def isDigit (c : CodeUnit) : Bool := 48 ≤ c && c ≤ 57

def dropMinus : JsString → JsString
  | c :: rest => if c = 45 then rest else c :: rest
  | [] => []

def digits (text : JsString) : Bool := !text.isEmpty && text.all isDigit

/-- `(?:[eE]-?\d+)?$` -/
def isExponent : JsString → Bool
  | [] => true
  | c :: rest => (c = 101 || c = 69) && digits (dropMinus rest)

/-- `/^-?\d*(?:\.?\d+)?(?:[eE]-?\d+)?$/` -/
def isDecimal (text : JsString) : Bool :=
  match (dropMinus text).dropWhile isDigit with
  | [] => true
  | c :: rest =>
    if c = 46 then !(rest.takeWhile isDigit).isEmpty && isExponent (rest.dropWhile isDigit)
    else isExponent (c :: rest)

def toLowerCase (text : JsString) : JsString :=
  text.map fun c => if 65 ≤ c ∧ c ≤ 90 then c + 32 else c

def infinity : JsString := JsString.lit ['i', 'n', 'f', 'i', 'n', 'i', 't', 'y']

def isNumber (value : JsString) : Bool :=
  let text := parseTagged numberTagPrefix value
  !text.isEmpty && (isDecimal text && text ≠ [45] || toLowerCase text = infinity || toLowerCase text = 45 :: infinity)

/-- Numbers that are no integers stand with their texts, as `NaN` and the infinities do. -/
def notANumber : TagValue := .json (.decimal (JsString.lit ['N', 'a', 'N']))

/-- What the runtime reads texts with: `JSON.parse` after the macros, the number that `parseFloat` reads, the
readers of dates, vectors and rotations, and the compiler, which gives the error that it throws. -/
structure Readers where
  parseFormula : JsString → TagValue
  parseNumber : JsString → TagValue
  parseBotDate : JsString → Option TagValue
  parseBotVector : JsString → Option TagValue
  parseBotRotation : JsString → Option TagValue
  compile : JsString → JsString → JsString → Option TagValue
  forceSignedScripts : Bool
  exemptSpaces : List BotSpace
  tagValueHash : JsString → JsString → JsString → JsString
  unsigned : TagValue

def plainReaders : Readers where
  parseFormula _ := .special .error [] []
  parseNumber text := .json (.integer (text.foldl (fun n c => 10 * n + (c.val - 48)) 0))
  parseBotDate _ := none
  parseBotVector _ := none
  parseBotRotation _ := none
  compile _ _ _ := none
  forceSignedScripts := false
  exemptSpaces := []
  tagValueHash _ _ script := script
  unsigned := .special .error [] []

end CasualOS.AuxRuntime
