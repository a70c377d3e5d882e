import PartTree.Json.Value
import PartTree.Json.Numeral
import PartTree.Json.Quoted

/-!
Reading the text of a document.

A reader takes a value from the start of a text and gives the rest back. Arrays and objects may nest
127 deep; that depth is what the recursion runs on. A numeral is read as the number nearest to it.
-/

namespace PartTree.Value

abbrev Reader (α : Type) := List Char → Option (α × List Char)

def isBlank (c : Char) : Bool := c == ' ' || c == '\n' || c == '\t' || c == '\r'

def skipBlank (text : List Char) : List Char := text.dropWhile isBlank

/-- Items with commas between them and a closing mark after the last. Each item takes at least one
character, so the length of the text bounds their number. -/
def readItems {α : Type} (close : Char) (item : Reader α) : Nat → Reader (List α)
  | 0, _ => none
  | limit + 1, text => do
    let (head, rest) ← item (skipBlank text)
    match skipBlank rest with
    | [] => none
    | mark :: rest =>
      if mark = close then some ([head], rest)
      else if mark = ',' then do
        let (tail, rest) ← readItems close item limit rest
        some (head :: tail, rest)
      else none

def readSequence {α : Type} (close : Char) (item : Reader α) : Reader (List α) := fun text =>
  match skipBlank text with
  | [] => none
  | mark :: rest =>
    if mark = close then some ([], rest) else readItems close item (rest.length + 1) (mark :: rest)

def readField (value : Reader Value) : Reader (String × Value)
  | '"' :: text => do
    let (key, rest) ← Quoted.decode text
    match skipBlank rest with
    | ':' :: rest => do
      let (value, rest) ← value (skipBlank rest)
      some ((String.ofList key, value), rest)
    | _ => none
  | _ => none

def readWord (word : String) (value : Value) : Reader Value := fun text =>
  (word.toList.isPrefixOf? text).map fun rest => (value, rest)

def readScalar : Reader Value
  | [] => none
  | '"' :: text =>
    (Quoted.decode text).map fun (chars, rest) => (.string (String.ofList chars), rest)
  | 'n' :: text => readWord "ull" .null text
  | 't' :: text => readWord "rue" (.bool true) text
  | 'f' :: text => readWord "alse" (.bool false) text
  | text => (Number.read? text).map fun (n, rest) => (.number n, rest)

/-- A value that starts at the first character and nests at most so deep. -/
def readAt : Nat → Reader Value
  | 0 => readScalar
  | depth + 1 => fun text =>
    match text with
    | '[' :: rest =>
      (readSequence ']' (readAt depth) rest).map fun (items, rest) => (.array items, rest)
    | '\x7b' :: rest =>
      (readSequence '\x7d' (readField (readAt depth)) rest).map fun (fields, rest) =>
        (.object (KeyMap.ofList fields), rest)
    | text => readScalar text

def readFirst? (text : String) : Option (Value × List Char) := readAt 127 (skipBlank text.toList)

/-- The value that a text holds, with nothing but blanks around it. -/
def parse? (text : String) : Option Value := do
  let (value, rest) ← readFirst? text
  if skipBlank rest = [] then some value else none

end PartTree.Value
