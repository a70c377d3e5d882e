import PartTree.Json.Value
import PartTree.Json.Numeral
import PartTree.Json.Quoted

/-!
The two texts of a document: on one line without blanks, and indented by two blanks a level.
-/

namespace PartTree.Value

def quote (s : String) : String := String.ofList (Quoted.encode s)

mutual

def compact : Value → String
  | .null => "null"
  | .bool b => if b then "true" else "false"
  | .number n => n.text
  | .string s => quote s
  | .array items => "[" ++ compactItems items ++ "]"
  | .object fields => "\x7b" ++ compactFields fields ++ "\x7d"

def compactItems : List Value → String
  | [] => ""
  | [item] => item.compact
  | item :: items => item.compact ++ "," ++ compactItems items

def compactFields {bound : Option String} : KeyMap Value bound → String
  | .nil => ""
  | .cons key _ value .nil => quote key ++ ":" ++ value.compact
  | .cons key _ value rest => quote key ++ ":" ++ value.compact ++ "," ++ compactFields rest

end

def newline (level : Nat) : String := String.ofList ('\n' :: List.replicate (2 * level) ' ')

mutual

/-- The indented text of a value whose first line already stands at a level. -/
def prettyAt (level : Nat) : Value → String
  | .null => "null"
  | .bool b => if b then "true" else "false"
  | .number n => n.text
  | .string s => quote s
  | .array [] => "[]"
  | .array (item :: items) =>
    "[" ++ prettyItems (level + 1) (item :: items) ++ newline level ++ "]"
  | .object .nil => "\x7b\x7d"
  | .object (.cons key above value rest) =>
    "\x7b" ++ prettyFields (level + 1) (.cons key above value rest) ++ newline level ++ "\x7d"

def prettyItems (level : Nat) : List Value → String
  | [] => ""
  | [item] => newline level ++ item.prettyAt level
  | item :: items => newline level ++ item.prettyAt level ++ "," ++ prettyItems level items

def prettyFields (level : Nat) {bound : Option String} : KeyMap Value bound → String
  | .nil => ""
  | .cons key _ value .nil => newline level ++ quote key ++ ": " ++ value.prettyAt level
  | .cons key _ value rest =>
    newline level ++ quote key ++ ": " ++ value.prettyAt level ++ "," ++ prettyFields level rest

end

def pretty (v : Value) : String := v.prettyAt 0

end PartTree.Value
