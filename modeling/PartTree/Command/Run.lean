import PartTree.Command.Basic
import PartTree.Command.Effects
import PartTree.Json.Codec

/-!
Running a command: what it reads, what it prints, and how it fails.

A run is a function of the files it reads, and of the codec it reads and prints documents by.
-/

namespace PartTree

abbrev Files := String → Except ReadFault String

namespace Command

variable (json : Codec) (files : Files)

def readDocument (role : Role) (path : String) : Run Value :=
  match files path with
  | .error fault => .fail (.unreadable role path fault)
  | .ok text =>
    match json.parse? text with
    | none => .fail (.notJson role path)
    | some value => pure value

/-- The catalog of a file, or an empty one without a path. -/
def loadCatalog : Option String → Run Catalog
  | none => pure .nil
  | some path => do
    let value ← readDocument json files .catalog path
    .ofLogged ((Catalog.read value).mapError (.invalidCatalog path))

def printJson (label : String) (value : Value) : Run Unit :=
  match json.pretty value with
  | .ok text => .printLine text
  | .error cause => .fail (.unrendered label cause)

def record (fields : List (String × Value)) : Value := .object (KeyMap.ofList fields)

def compileDocument (catalog : Catalog) (sanitizeFirst : Bool) (document : Value) :
    Logged Failure Definition :=
  if sanitizeFirst then (prepareLogged .builtin catalog document).mapError .compile
  else (catalog.compileLogged document).mapError fun cause => .compile (.compile cause)

def runWith : Command → Run Unit
  | templates none asJson =>
    let names := Registry.builtin.keys
    if asJson then printJson json "template names" (record [("templates", .ofStrings names)])
    else .printLines ("l3d templates" :: names.map ("  " ++ ·))
  | templates (some typeName) asJson =>
    match Registry.builtin.template? typeName with
    | none => .fail (.noTemplate (.unregistered typeName))
    | some t =>
      if asJson then printJson json "template" t.toValue
      else .printLines (("l3d template " ++ t.typeName) :: t.fields.toList.map
        fun (field, default) => "  " ++ field ++ ": " ++ json.compact default)
  | catalog path asJson => do
    let names := (← loadCatalog json files (some path)).keys
    if asJson then
      printJson json "catalog names"
        (record [("catalogPath", .string path), ("names", .ofStrings names)])
    else
      .printLines ("l3d catalog" :: ("  Path: " ++ path) ::
        ("  Entries: " ++ toString names.length) :: names.map ("  - " ++ ·))
  | resolve name path => do
    match (← loadCatalog json files (some path)).find? name with
    | none => .fail (.unresolved name)
    | some d => printJson json "catalog entry" d.toValue
  | sanitize path => do
    let document ← readDocument json files .definition path
    let sanitized ← .ofLogged ((Registry.builtin.sanitizeLogged document).mapError .sanitize)
    printJson json "sanitized definition" sanitized
  | compile path catalogPath sanitizeFirst => do
    let document ← readDocument json files .definition path
    let catalog ← loadCatalog json files catalogPath
    let d ← .ofLogged (compileDocument catalog sanitizeFirst document)
    .report (.compiled path d.typeName)
    printJson json "compiled definition" d.toValue

/-- A command over the codec of the program. -/
def run (files : Files) (command : Command) : Run Unit := command.runWith .nearest files

end Command

structure Output where
  exit : Nat
  stdout : String
  stderr : String

namespace Output

def lines (texts : List String) : String := String.join (texts.map (· ++ "\n"))

def levelName : Level → String
  | .warn => "WARN "
  | .debug => "DEBUG"

/-- The line of an event in the log; the further lines of a message are indented. -/
def logLine (event : Event) : String :=
  let message := event.message.toList.flatMap fun c =>
    if c = '\n' then ['\n', ' ', ' ', ' ', ' '] else [c]
  "[" ++ levelName event.level ++ " " ++ event.origin ++ "] " ++ String.ofList message

/-- Warnings are always logged, the rest on demand. -/
def log (verbose : Bool) (events : List Event) : String :=
  lines ((events.filter fun event => verbose || event.level = .warn).map logLine)

def ofRun (verbose : Bool) (run : Run Unit) : Output :=
  let logged := log verbose run.events
  match run.result with
  | .ok () => ⟨0, run.printed, logged⟩
  | .error failure =>
    ⟨failure.exit, run.printed, logged ++ lines ["error: " ++ failure.message]⟩

def usageText : String := lines [
  "Usage: l3d [-v|--verbose] <command>",
  "  templates [--type T] [--json]",
  "  catalog --catalog P [--json]",
  "  resolve NAME --catalog P",
  "  sanitize DOC",
  "  compile DOC [--catalog P] [--sanitize]"]

end Output

namespace Request

def outputWith (json : Codec) (files : Files) : Request → Output
  | run verbose command => .ofRun verbose (command.runWith json files)
  | version => ⟨0, Output.lines ["l3d 0.1.0"], ""⟩
  | usage => ⟨2, "", Output.usageText⟩

/-- The output of the program, over its codec. -/
def output (files : Files) (request : Request) : Output := request.outputWith .nearest files

end Request

end PartTree
