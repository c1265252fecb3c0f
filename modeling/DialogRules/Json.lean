import DialogRules.RuleSet.Basic

/-!
# JSON

Rule sets leave the library as JSON: an object with the names of the
elements and, under the name of each action, the condition of its rule.
An atom is an array of its three parts, a connective a string, a sequence
an array of its terms, and a group what it holds, so the text does not
show which terms were grouped.

The text is compact. Only the quotation mark, the backslash and the
control characters below the space are escaped.
-/

namespace DialogRules

/-- A JSON value; the fields of an object have an order. -/
inductive Json where
  | string (text : String)
  | array (items : List Json)
  | object (fields : List (String × Json))

namespace Json

/-- The characters that stand for a character between quotation marks. -/
def escape (c : Char) : List Char :=
  if c = '"' then ['\\', '"']
  else if c = '\\' then ['\\', '\\']
  else if c = '\x08' then ['\\', 'b']
  else if c = '\x0c' then ['\\', 'f']
  else if c = '\n' then ['\\', 'n']
  else if c = '\r' then ['\\', 'r']
  else if c = '\t' then ['\\', 't']
  else if c.toNat < 0x20 then
    ['\\', 'u', '0', '0', Nat.digitChar (c.toNat / 16), Nat.digitChar (c.toNat % 16)]
  else [c]

/-- A text between quotation marks. -/
def quote (s : String) : String :=
  "\"" ++ String.ofList (s.toList.flatMap escape) ++ "\""

mutual

/-- The compact text of a value. -/
def render : Json → String
  | .string s => quote s
  | .array items => "[" ++ ",".intercalate (renderItems items) ++ "]"
  | .object fields => "\x7b" ++ ",".intercalate (renderFields fields) ++ "\x7d"

/-- The texts of the items of an array. -/
def renderItems : List Json → List String
  | [] => []
  | item :: items => item.render :: renderItems items

/-- The texts of the fields of an object. -/
def renderFields : List (String × Json) → List String
  | [] => []
  | (name, value) :: fields => (quote name ++ ":" ++ value.render) :: renderFields fields

end

end Json

/-- An atom as an array of its three parts. -/
def Atom.toJson (a : Atom) : Json :=
  .array [.string a.subject, .string a.operator, .string a.predicate]

mutual

/-- A condition as an array: of the parts of an atom, or of the terms of
a sequence. -/
def Condition.toJson : Condition → Json
  | .atom a => a.toJson
  | .sequence terms => .array (Term.toJsonList terms)

/-- A term as an array, or as a string if it is a connective. -/
def Term.toJson : Term → Json
  | .atom a => a.toJson
  | .connective c => .string c.text
  | .group inner => inner.toJson

/-- The terms of a level. -/
def Term.toJsonList : List Term → List Json
  | [] => []
  | t :: ts => t.toJson :: Term.toJsonList ts

end

/-- Element names as an array. -/
def Elements.toJson (es : Elements) : Json :=
  .array (es.names.map .string)

/-- A rule set as an object of its elements and its conditions, the
conditions under the names of their actions. -/
def RuleSet.toJson (rs : RuleSet) : Json :=
  .object [("elements", rs.elements.toJson),
    ("result", .object (rs.rules.map fun r => (r.action.text, r.condition.toJson)))]

end DialogRules
