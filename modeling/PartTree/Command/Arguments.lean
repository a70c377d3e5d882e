/-!
The words of a command line: flags, options with a value, and positional arguments.

A flag or an option is given at most once. A value does not start with a dash, unless it is a dash
alone or stands behind an equals sign; after `--` every word is positional.
-/

namespace PartTree

inductive Word
  | long (name : String) (attached : Option String)
  | short (letters : List Char)
  | plain (text : String)
  deriving DecidableEq

def Word.ofString (word : String) : Word :=
  match word.toList with
  | '-' :: '-' :: name =>
    let attached := name.dropWhile (· ≠ '=')
    .long (String.ofList (name.takeWhile (· ≠ '=')))
      (if attached.isEmpty then none else some (String.ofList (attached.drop 1)))
  | '-' :: letter :: letters => .short (letter :: letters)
  | _ => .plain word

/-- What a command takes. -/
structure Grammar where
  flags : List String
  options : List String
  positionals : Nat

structure Arguments where
  flags : List String := []
  options : List (String × String) := []
  positionals : List String := []
  deriving DecidableEq

namespace Arguments

def addFlag (a : Arguments) (name : String) : Option Arguments :=
  if name ∈ a.flags then none else some { a with flags := a.flags ++ [name] }

def addOption (a : Arguments) (name value : String) : Option Arguments :=
  if (a.options.lookup name).isSome then none
  else some { a with options := a.options ++ [(name, value)] }

def addPositional (g : Grammar) (a : Arguments) (value : String) : Option Arguments :=
  if a.positionals.length < g.positionals then
    some { a with positionals := a.positionals ++ [value] }
  else none

/-- The one flag that has a letter, and goes with every command. -/
def addLetter (a : Arguments) (letter : Char) : Option Arguments :=
  if letter = 'v' then a.addFlag "verbose" else none

def collect (g : Grammar) (a : Arguments) : List String → Option Arguments
  | [] => some a
  | "--" :: rest => rest.foldlM (addPositional g) a
  | word :: rest =>
    match Word.ofString word with
    | .plain value => (a.addPositional g value).bind (collect g · rest)
    | .short letters => (letters.foldlM addLetter a).bind (collect g · rest)
    | .long name attached =>
      if name ∈ g.options then
        match attached, rest with
        | some value, rest => (a.addOption name value).bind (collect g · rest)
        | none, value :: rest =>
          if Word.ofString value = .plain value then
            (a.addOption name value).bind (collect g · rest)
          else none
        | none, [] => none
      else if (name ∈ g.flags ∨ name = "verbose") ∧ attached = none then
        (a.addFlag name).bind (collect g · rest)
      else none

def has (a : Arguments) (flag : String) : Bool := flag ∈ a.flags

def option? (a : Arguments) (name : String) : Option String := a.options.lookup name

end Arguments

end PartTree
