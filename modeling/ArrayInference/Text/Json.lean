import ArrayInference.Text.Quoted

/-!
# Indented JSON

The part of JSON that reports are written in, printed with two spaces for each level. Members keep
the order in which they are given.
-/

namespace ArrayInference.Text

/-- A document of numbers, texts, lists and objects. -/
inductive Json where
  | number (value : Nat)
  | string (value : String)
  | array (items : List Json)
  | object (members : List (String × Json))

namespace Json

/-- How one character is written in a JSON string: controls are escaped, all else stands for
itself. -/
def stringChar (c : Char) : String :=
  if c = '"' then "\\\""
  else if c = '\\' then "\\\\"
  else if c = '\x08' then "\\b"
  else if c = '\x0c' then "\\f"
  else if c = '\n' then "\\n"
  else if c = '\r' then "\\r"
  else if c = '\t' then "\\t"
  else if c.toNat < 0x10 then "\\u000" ++ hexDigits c.toNat
  else if c.toNat < 0x20 then "\\u00" ++ hexDigits c.toNat
  else String.singleton c

/-- A JSON string with its quotes. -/
def stringText (text : String) : String :=
  "\"" ++ String.join (text.toList.map stringChar) ++ "\""

/-- A line break and the indentation of the given level. -/
def newline (level : Nat) : String :=
  "\n" ++ String.ofList (List.replicate (2 * level) ' ')

mutual

/-- The document, its first line unindented and the others at the given level. -/
def indented (level : Nat) : Json → String
  | number value => toString value
  | string value => stringText value
  | array [] => "[]"
  | array (item :: items) =>
      "[" ++ newline (level + 1) ++ indented (level + 1) item ++ itemsTail (level + 1) items
        ++ newline level ++ "]"
  | object [] => "\x7b\x7d"
  | object ((name, value) :: members) =>
      "\x7b" ++ newline (level + 1) ++ stringText name ++ ": " ++ indented (level + 1) value
        ++ membersTail (level + 1) members ++ newline level ++ "\x7d"

/-- The items after the first one of a list, each after a comma. -/
def itemsTail (level : Nat) : List Json → String
  | [] => ""
  | item :: items => "," ++ newline level ++ indented level item ++ itemsTail level items

/-- The members after the first one of an object, each after a comma. -/
def membersTail (level : Nat) : List (String × Json) → String
  | [] => ""
  | (name, value) :: members =>
      "," ++ newline level ++ stringText name ++ ": " ++ indented level value
        ++ membersTail level members

end

/-- The document as indented text. -/
def pretty (document : Json) : String :=
  indented 0 document

end Json

end ArrayInference.Text
