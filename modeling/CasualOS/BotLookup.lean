import CasualOS.BotValues
import CasualOS.Lib.Delimited
import CasualOS.Lib.Run

/-! The lookup tables of a calculation context, and the scans that they stand for. -/

namespace CasualOS.BotLookup

open OrderedMap AuxRuntime BotValues

/-! ### Keys -/

def objectText : JsString :=
  JsString.lit ['[', 'o', 'b', 'j', 'e', 'c', 't', ' ', 'O', 'b', 'j', 'e', 'c', 't', ']']

mutual

/-- What `join` makes of a value: nothing of null. -/
def jsonText : Json → JsString
  | .null => []
  | .boolean value => if value then trueText else falseText
  | .integer value => JsString.ofInt value
  | .decimal text => text
  | .string text => text
  | .array items => Delimited.join 44 (jsonTexts items)
  | .object _ => objectText

def jsonTexts : List Json → List JsString
  | [] => []
  | item :: rest => jsonText item :: jsonTexts rest

end

def valueText (texts : Texts) : TagValue → JsString
  | .undefined => []
  | .json value => jsonText value
  | .special kind formatted _ => texts.instanceText kind formatted

def joinKey (parts : List JsString) : JsString := Delimited.join 58 parts

def valuesToKey (texts : Texts) (values : List TagValue) : JsString := joinKey (values.map (valueText texts))

/-- `zip(tags, defaults)`: what is missing in the shorter list is undefined. -/
def zipDefaults : List JsString → List TagValue → List (Option JsString × TagValue)
  | [], defaults => defaults.map fun default => (none, default)
  | tag :: tags, defaults => (some tag, defaults.headD .undefined) :: zipDefaults tags defaults.tail

section Tables

variable (texts : Texts)

/-- The tag `undefined` names a property, though not one that has an older form. -/
def tagOrDefault (bot : BotValues.Bot) : Option JsString × TagValue → TagValue
  | (tag, default) =>
    match tag.elim (calculateBotTagValue texts bot undefinedText) (calculateBotValue texts bot) with
    | .undefined => default
    | value => value

def isUndefined : TagValue → Bool
  | .undefined => true
  | _ => false

def calculateTagValueKey (bot : BotValues.Bot) (tags : List JsString) (defaults : Option (List TagValue)) :
    Option JsString :=
  let values := (zipDefaults tags (defaults.getD [])).map (tagOrDefault texts bot)
  if values.any isUndefined then none else some (valuesToKey texts values)

abbrev BotLookupTable := List (JsString × List BotValues.Bot)

def saveBot (table : BotLookupTable) (key : JsString) (bot : BotValues.Bot) : BotLookupTable :=
  assign key ((lookup key table).getD [] ++ [bot]) table

def buildLookupTable (objects : List BotValues.Bot) (tags : List JsString) (defaults : Option (List TagValue)) :
    BotLookupTable :=
  objects.foldl (fun table bot =>
    match calculateTagValueKey texts bot tags defaults with
    | some key => saveBot table key bot
    | none => table) []

def BotLookupTable.query (table : BotLookupTable) (values : List TagValue) : List BotValues.Bot :=
  (lookup (valuesToKey texts values) table).getD []

end Tables

/-! ### Queries -/

inductive Scalar where
  | string (text : JsString)
  | integer (value : Int)
  | decimal (text : JsString)
  | boolean (value : Bool)

def Scalar.value : Scalar → TagValue
  | .string text => .json (.string text)
  | .integer value => .json (.integer value)
  | .decimal text => .json (.decimal text)
  | .boolean value => .json (.boolean value)

/-- `===` with a value that is no object; `NaN` equals nothing. -/
def Scalar.equals : Scalar → TagValue → Bool
  | .string text, .json (.string other) => text = other
  | .integer value, .json (.integer other) => value = other
  | .decimal text, .json (.decimal other) => text = other && text ≠ JsString.lit ['N', 'a', 'N']
  | .boolean value, .json (.boolean other) => value = other
  | _, _ => false

/-- The arguments of a call: each tag with the value that it is to have, and the defaults in the order of the
tags. -/
structure Query where
  tests : List (JsString × Scalar)
  distinct : (tests.map Prod.fst).Nodup
  defaults : Option (List TagValue)

namespace Query

def sorted (query : Query) : List (JsString × Scalar) := Delimited.sortByKey Prod.fst query.tests

def sortedTags (query : Query) : List JsString := query.sorted.map Prod.fst

def sortedValues (query : Query) : List TagValue := query.sorted.map fun test => test.2.value

def tagKey (query : Query) : JsString := joinKey query.sortedTags

end Query

section Queries

variable (texts : Texts) (objects : List BotValues.Bot)

abbrev Tables := List (JsString × BotLookupTable)

def tableOf (query : Query) : BotLookupTable := buildLookupTable texts objects query.sortedTags query.defaults

def query (tables : Tables) (call : Query) : List BotValues.Bot × Tables :=
  match lookup call.tagKey tables with
  | some table => (table.query texts call.sortedValues, tables)
  | none =>
    let table := tableOf texts objects call
    (table.query texts call.sortedValues, assign call.tagKey table tables)

def queryAll : Tables → List Query → List (List BotValues.Bot)
  | _, [] => []
  | tables, call :: rest =>
    let (answer, next) := query texts objects tables call
    answer :: queryAll next rest

/-! ### Scans -/

def defaultOf (call : Query) (tag : JsString) : TagValue :=
  tagValue tag ((call.tests.map Prod.fst).zip (call.defaults.getD []))

def valueOrDefault (call : Query) (bot : BotValues.Bot) (tag : JsString) : TagValue :=
  match calculateBotValue texts bot tag with
  | .undefined => defaultOf call tag
  | value => value

def isMatch (call : Query) (bot : BotValues.Bot) : Bool :=
  call.tests.all fun test => test.2.equals (valueOrDefault texts call bot test.1)

def scan (call : Query) : List BotValues.Bot := objects.filter (isMatch texts call)

/-- The call among those before it whose table answers it, or itself. -/
def opener (before : List Query) (call : Query) : Query :=
  (before.find? fun earlier => earlier.tagKey = call.tagKey).getD call

def rowOf (first : Query) (bot : BotValues.Bot) : Option JsString :=
  calculateTagValueKey texts bot first.sortedTags first.defaults

def valueKey (call : Query) : JsString := valuesToKey texts call.sortedValues

/-- The rows of one call's table part the bots as another call asks for. -/
structure Parts (first call : Query) : Prop where
  finds : ∀ bot ∈ objects, isMatch texts call bot = true → rowOf texts first bot = some (valueKey texts call)
  excludes : ∀ bot ∈ objects, isMatch texts call bot = false → rowOf texts first bot ≠ some (valueKey texts call)

end Queries

/-! ### Tables as filters -/

section Answers

variable {texts : Texts} {objects : List BotValues.Bot}

theorem saveBot_rows (table : BotLookupTable) (key other : JsString) (bot : BotValues.Bot) :
    (lookup other (saveBot table key bot)).getD [] =
      (lookup other table).getD [] ++ if key = other then [bot] else [] := by
  rw [saveBot, lookup_assign]
  by_cases same : other = key
  · simp [same]
  · simp [same, Ne.symm same]

theorem buildLookupTable_rows (tags : List JsString) (defaults : Option (List TagValue)) (key : JsString) :
    (lookup key (buildLookupTable texts objects tags defaults)).getD [] =
      objects.filter fun bot => calculateTagValueKey texts bot tags defaults = some key := by
  have rows : ∀ start : BotLookupTable, (lookup key (objects.foldl (fun table bot =>
        match calculateTagValueKey texts bot tags defaults with
        | some key => saveBot table key bot
        | none => table) start)).getD [] =
      (lookup key start).getD [] ++
        objects.filter fun bot => calculateTagValueKey texts bot tags defaults = some key := by
    induction objects with
    | nil => simp
    | cons bot rest ih =>
      intro start
      rw [List.foldl_cons, ih]
      cases row : calculateTagValueKey texts bot tags defaults with
      | none => simp [row]
      | some own =>
        simp only [saveBot_rows, List.append_assoc]
        by_cases same : own = key
        · simp [row, same]
        · simp [row, same]
  exact (rows []).trans (by simp [lookup])

theorem answer_of_table (first call : Query) : (tableOf texts objects first).query texts call.sortedValues =
      objects.filter fun bot => rowOf texts first bot = some (valueKey texts call) :=
  buildLookupTable_rows first.sortedTags first.defaults (valueKey texts call)

theorem answer_eq_scan_iff (first call : Query) :
    (tableOf texts objects first).query texts call.sortedValues = scan texts objects call ↔
      Parts texts objects first call := by
  rw [answer_of_table, scan]
  constructor
  · intro same
    have agree : ∀ bot ∈ objects,
        (rowOf texts first bot = some (valueKey texts call) ↔ isMatch texts call bot = true) := by
      intro bot member
      have both : bot ∈ objects.filter (fun bot => decide (rowOf texts first bot = some (valueKey texts call))) ↔
          bot ∈ objects.filter (isMatch texts call) := by rw [same]
      simpa [member] using both
    refine ⟨fun bot member found => (agree bot member).mpr found, fun bot member missed row => ?_⟩
    rw [(agree bot member).mp row] at missed
    cases missed
  · intro parts
    apply List.filter_congr
    intro bot member
    cases found : isMatch texts call bot with
    | true => simpa using parts.finds bot member found
    | false => simpa using parts.excludes bot member found

/-! ### Rows of plain texts -/

/-! ### Calls one after the other -/

/-- Each table is that of the first call of its tags. -/
def Built (texts : Texts) (objects : List BotValues.Bot) (before : List Query) (tables : Tables) : Prop :=
  ∀ key, lookup key tables =
    (before.find? fun earlier => earlier.tagKey = key).map (tableOf texts objects)

theorem query_spec {before : List Query} {tables : Tables} (built : Built texts objects before tables) (call : Query) :
    (query texts objects tables call).1 = (tableOf texts objects (opener before call)).query texts call.sortedValues ∧
      Built texts objects (before ++ [call]) (query texts objects tables call).2 := by
  have own := built call.tagKey
  cases earlier : before.find? (fun earlier => earlier.tagKey = call.tagKey) with
  | some first =>
    rw [earlier, Option.map_some] at own
    rw [query, own, opener, earlier]
    refine ⟨rfl, fun key => ?_⟩
    rw [built key, List.find?_append]
    by_cases same : call.tagKey = key
    · rw [← same, earlier, Option.some_or]
    · simp [same]
  | none =>
    rw [earlier, Option.map_none] at own
    rw [query, own, opener, earlier]
    refine ⟨rfl, fun key => ?_⟩
    rw [lookup_assign, built key, List.find?_append]
    by_cases same : call.tagKey = key
    · rw [← same, earlier]
      simp
    · simp [same, Ne.symm same]

def bare : BotValues.Bot := { id := [98], space := none, tags := [], masks := [], form := .stored }

def swapped : Query where
  tests := [([98], .string [120]), ([97], .string [121])]
  distinct := by decide
  defaults := some [.json (.string [120]), .json (.string [121])]

end Answers

end CasualOS.BotLookup
