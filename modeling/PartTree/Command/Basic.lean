import PartTree.Command.Arguments

/-!
The commands, and the command line that asks for one.
-/

namespace PartTree

inductive Command
  | templates (typeName : Option String) (json : Bool)
  | catalog (path : String) (json : Bool)
  | resolve (name path : String)
  | sanitize (document : String)
  | compile (document : String) (catalog : Option String) (sanitize : Bool)
  deriving DecidableEq

inductive Request
  | run (verbose : Bool) (command : Command)
  | version
  | usage
  deriving DecidableEq

namespace Command

def grammar? : String → Option Grammar
  | "templates" => some ⟨["json"], ["type"], 0⟩
  | "catalog" => some ⟨["json"], ["catalog"], 0⟩
  | "resolve" => some ⟨[], ["catalog"], 1⟩
  | "sanitize" => some ⟨[], [], 1⟩
  | "compile" => some ⟨["sanitize"], ["catalog"], 1⟩
  | _ => none

def ofArguments? (name : String) (a : Arguments) : Option Command :=
  match name, a.positionals with
  | "templates", [] => some (.templates (a.option? "type") (a.has "json"))
  | "catalog", [] => (a.option? "catalog").map (.catalog · (a.has "json"))
  | "resolve", [name] => (a.option? "catalog").map (.resolve name ·)
  | "sanitize", [document] => some (.sanitize document)
  | "compile", [document] => some (.compile document (a.option? "catalog") (a.has "sanitize"))
  | _, _ => none

def paths : Command → List String
  | templates .. => []
  | catalog path _ | resolve _ path => [path]
  | sanitize document => [document]
  | compile document catalogPath _ => document :: catalogPath.toList

end Command

namespace Request

/-- The command of a name with its words. The verbose flag may stand on either side of the name. -/
def ofCommand (verbose : Bool) (name : String) (words : List String) : Request :=
  let request? : Option Request := do
    let arguments ← Arguments.collect (← Command.grammar? name) {} words
    let command ← Command.ofArguments? name arguments
    pure (.run (verbose || arguments.has "verbose") command)
  request?.getD .usage

/-- Letters before the command: whether they ask to be verbose, or else what they come to. -/
def ofLetters (verbose : Bool) : List Char → Except Request Bool
  | [] => .ok verbose
  | 'V' :: _ => .error .version
  | 'v' :: letters => if verbose then .error .usage else ofLetters true letters
  | _ => .error .usage

def ofWords (verbose : Bool) : List String → Request
  | [] => .usage
  | word :: words =>
    match Word.ofString word with
    | .long "verbose" none => if verbose then .usage else ofWords true words
    | .long "version" none => .version
    | .long .. => .usage
    | .short letters =>
      match ofLetters verbose letters with
      | .ok verbose => ofWords verbose words
      | .error request => request
    | .plain name => ofCommand verbose name words

def parse (words : List String) : Request := ofWords false words

end Request

end PartTree
