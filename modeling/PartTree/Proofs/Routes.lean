import PartTree.Proofs.FixedPoint
import PartTree.Proofs.Printing
import PartTree.Proofs.Texts

/-!
Two routes to a compiled tree: to sanitize a document and to compile what is printed, and to compile
the document with the sanitizing asked for. They end alike over every codec that reads a printed
document back.
-/

namespace PartTree

namespace Run

variable {α β : Type}

/-- Whether two runs print and end alike, whatever they log. -/
structure Alike (first second : Run α) : Prop where
  printed : first.printed = second.printed
  result : first.result = second.result

theorem Alike.refl (run : Run α) : run.Alike run := ⟨rfl, rfl⟩

theorem Alike.bind {one two : Run α} {left right : α → Run β} (first : one.Alike two)
    (rest : ∀ value, (left value).Alike (right value)) : (one >>= left).Alike (two >>= right) := by
  cases result : two.result with
  | error failure =>
      have failed := first.result.trans result
      constructor
      · rw [printed_bind_error failed, printed_bind_error result, first.printed]
      · rw [result_bind, result_bind, failed, result]
        rfl
  | ok value =>
      have ok := first.result.trans result
      constructor
      · rw [printed_bind_ok ok, printed_bind_ok result, first.printed, (rest value).printed]
      · rw [result_bind, result_bind, ok, result]
        exact (rest value).result

theorem alike_ofLogged_bind_ok {x : Logged Failure α} {value : α} (ok : x.result = .ok value)
    (next : α → Run β) : (ofLogged x >>= next).Alike (next value) := by
  constructor
  · rw [printed_bind_ok ok, silent_ofLogged x, String.empty_append]
  · rw [result_bind, result_ofLogged, ok]
    rfl

theorem alike_ofLogged_bind_error {x : Logged Failure α} {failure : Failure}
    (failed : x.result = .error failure) (next : α → Run β) :
    (ofLogged x >>= next).Alike (fail failure) := by
  constructor
  · exact (printed_bind_error failed next).trans (silent_ofLogged x)
  · rw [result_bind, result_ofLogged, failed]
    rfl

end Run

namespace Output

/-- Whether two runs end alike, whatever they log. -/
structure Alike (first second : Output) : Prop where
  exit : first.exit = second.exit
  stdout : first.stdout = second.stdout

theorem alike_ofRun (one two : Bool) {first second : Run Unit} (same : first.Alike second) :
    (ofRun one first).Alike (ofRun two second) := by
  refine ⟨?_, (stdout_ofRun one first).trans (same.printed.trans (stdout_ofRun two second).symm)⟩
  cases result : second.result with
  | ok => rw [exit_ofRun_ok one (same.result.trans result), exit_ofRun_ok two result]
  | error failure =>
      rw [exit_ofRun_error one (same.result.trans result), exit_ofRun_error two result]

end Output

namespace Command

variable {json : Codec} {files held : Files} {document path : String}
  {catalogPath : Option String} {value sanitized : Value}

theorem readDocument_of_parse {source : String} (role : Role) (holds : files path = .ok source)
    (parsed : json.parse? source = some value) :
    readDocument json files role path = pure value := by
  rw [readDocument, holds]
  simp only [parsed]

theorem readDocument_cases (json : Codec) (files : Files) (role : Role) (path : String) :
    (∃ source value, files path = .ok source ∧ json.parse? source = some value) ∨
      ∃ failure, failure.exit = 1 ∧ readDocument json files role path = Run.fail failure := by
  rw [readDocument]
  cases holds : files path with
  | error fault => exact .inr ⟨_, rfl, rfl⟩
  | ok source =>
      cases parsed : json.parse? source with
      | none => exact .inr ⟨.notJson role path, rfl, by simp only [parsed]⟩
      | some value => exact .inl ⟨source, value, rfl, parsed⟩

theorem loadCatalog_congr (json : Codec) (same : ∀ p ∈ catalogPath, held p = files p) :
    loadCatalog json held catalogPath = loadCatalog json files catalogPath := by
  cases catalogPath with
  | none => rfl
  | some path => rw [loadCatalog, loadCatalog, readDocument, readDocument, same path rfl]

theorem exit_of_loadCatalog {failure : Failure}
    (failed : (loadCatalog json files catalogPath).result = .error failure) : failure.exit = 1 := by
  cases catalogPath with
  | none => cases failed
  | some path =>
      rw [loadCatalog] at failed
      rcases readDocument_cases json files .catalog path with read | unread
      · rcases read with ⟨source, value, holds, parsed⟩
        rw [readDocument_of_parse .catalog holds parsed, Run.pure_bind] at failed
        obtain ⟨_, _, rfl⟩ := mapError_eq_error.mp failed
        rfl
      · rcases unread with ⟨_, one, unread⟩
        rw [unread, Run.fail_bind] at failed
        cases failed
        exact one

/-- What is left to do for a document that has been read. -/
def compileRead (json : Codec) (files : Files) (catalogPath : Option String) (asked : Bool)
    (document : String) (value : Value) : Run Unit := do
  let catalog ← loadCatalog json files catalogPath
  let d ← .ofLogged (compileDocument catalog asked value)
  .report (.compiled document d.typeName)
  printJson json "compiled definition" d.toValue

theorem runWith_compile (asked : Bool) :
    runWith json files (.compile document catalogPath asked) =
      readDocument json files .definition document >>=
        compileRead json files catalogPath asked document := rfl

theorem result_compileDocument_of_sanitize (catalog : Catalog)
    (ok : Registry.builtin.sanitize value = .ok sanitized) :
    (compileDocument catalog false sanitized).result =
      (compileDocument catalog true value).result := by
  have alone : (compileDocument catalog false sanitized).result =
      (catalog.compile sanitized).mapError fun cause => .compile (.compile cause) := rfl
  have prepared : (compileDocument catalog true value).result =
      (prepare .builtin catalog value).mapError .compile := rfl
  rw [alone, prepared, prepare_of_sanitize catalog ok]
  cases catalog.compile sanitized <;> rfl

theorem alike_compileRead_of_sanitize (ok : Registry.builtin.sanitize value = .ok sanitized)
    (same : ∀ p ∈ catalogPath, held p = files p) :
    (compileRead json held catalogPath false path sanitized).Alike
      (compileRead json files catalogPath true document value) := by
  rw [compileRead, loadCatalog_congr json same]
  refine (Run.Alike.refl _).bind fun catalog => ?_
  have compiled : (Run.ofLogged (compileDocument catalog false sanitized)).Alike
      (Run.ofLogged (compileDocument catalog true value)) :=
    ⟨rfl, result_compileDocument_of_sanitize catalog ok⟩
  refine compiled.bind fun d => ?_
  -- The two runs log the paths of two documents.
  have logged : (Run.report (.compiled path d.typeName)).Alike
      (Run.report (.compiled document d.typeName)) := ⟨rfl, rfl⟩
  exact logged.bind fun _ => Run.Alike.refl _

theorem compileRead_of_sanitize_error {cause : SanitizeError} (catalogPath : Option String)
    (failed : Registry.builtin.sanitize value = .error cause) :
    ∃ failure, failure.exit = 1 ∧
      (compileRead json files catalogPath true document value).result = .error failure := by
  rw [compileRead, Run.result_bind]
  cases loaded : (loadCatalog json files catalogPath).result with
  | error failure => exact ⟨failure, exit_of_loadCatalog loaded, rfl⟩
  | ok catalog =>
      have unprepared : (compileDocument catalog true value).result =
          (prepare .builtin catalog value).mapError .compile := rfl
      rw [prepare_of_sanitize_error catalog failed] at unprepared
      exact ⟨_, rfl, (Run.alike_ofLogged_bind_error unprepared _).result⟩

/-- The document that a file holds comes out of the sanitizing as a value. -/
def SanitizesTo (json : Codec) (files : Files) (document : String) (sanitized : Value) : Prop :=
  ∃ source value, files document = .ok source ∧ json.parse? source = some value ∧
    Registry.builtin.sanitize value = .ok sanitized

theorem SanitizesTo.unique {first second : Value} (one : SanitizesTo json files document first)
    (two : SanitizesTo json files document second) : first = second := by
  rcases one with ⟨source, value, holds, parsed, ok⟩
  rcases two with ⟨_, _, holds_too, parsed_too, ok_too⟩
  cases holds.symm.trans holds_too
  cases parsed.symm.trans parsed_too
  exact Except.ok.inj (ok.symm.trans ok_too)

theorem alike_runWith_sanitize (sanitizes : SanitizesTo json files document sanitized) :
    (runWith json files (.sanitize document)).Alike
      (printJson json "sanitized definition" sanitized) := by
  rcases sanitizes with ⟨source, value, holds, parsed, ok⟩
  rw [runWith, readDocument_of_parse .definition holds parsed, Run.pure_bind]
  exact Run.alike_ofLogged_bind_ok (mapError_eq_ok.mpr ok) _

/-- Whether a document can be sanitized; one that cannot be, cannot be compiled either with the
sanitizing asked for. -/
theorem sanitize_cases (json : Codec) (files : Files) (document : String) :
    (∃ sanitized, SanitizesTo json files document sanitized) ∨
      (∃ failure, (runWith json files (.sanitize document)).result = .error failure) ∧
        ∀ catalogPath, ∃ failure, failure.exit = 1 ∧
          (runWith json files (.compile document catalogPath true)).result = .error failure := by
  rcases readDocument_cases json files .definition document with read | unread
  · rcases read with ⟨source, value, holds, parsed⟩
    have read := readDocument_of_parse .definition holds parsed
    cases ok : Registry.builtin.sanitize value with
    | ok sanitized => exact .inl ⟨sanitized, source, value, holds, parsed, ok⟩
    | error cause =>
        refine .inr ⟨⟨.sanitize cause, ?_⟩, fun catalogPath => ?_⟩
        · rw [runWith, read, Run.pure_bind]
          exact (Run.alike_ofLogged_bind_error (mapError_eq_error.mpr ⟨cause, ok, rfl⟩) _).result
        · rw [runWith_compile, read, Run.pure_bind]
          exact compileRead_of_sanitize_error catalogPath ok
  · rcases unread with ⟨failure, one, unread⟩
    refine .inr ⟨⟨failure, ?_⟩, fun catalogPath => ⟨failure, one, ?_⟩⟩
    · rw [runWith, unread, Run.fail_bind]
      rfl
    · rw [runWith_compile, unread, Run.fail_bind]
      rfl

/-- To compile a file that is read as the sanitized document comes to the same as to compile the
document, with the sanitizing asked for. -/
theorem alike_runWith_compile {source : String}
    (sanitizes : SanitizesTo json files document sanitized)
    (holds : held path = .ok source) (parsed : json.parse? source = some sanitized)
    (same : ∀ p ∈ catalogPath, held p = files p) :
    (runWith json held (.compile path catalogPath false)).Alike
      (runWith json files (.compile document catalogPath true)) := by
  rcases sanitizes with ⟨_, value, holds_document, parsed_document, ok⟩
  rw [runWith_compile, runWith_compile, readDocument_of_parse .definition holds parsed,
    readDocument_of_parse .definition holds_document parsed_document, Run.pure_bind, Run.pure_bind]
  exact alike_compileRead_of_sanitize ok same

end Command

namespace Request

open Command Output

variable {json : Codec} {files : Files} {document : String} {verbose : Bool} {printed : Output}

theorem ofRun_printJson_cases (json : Codec) (verbose : Bool) (label : String) (value : Value) :
    (∃ text, json.pretty value = .ok text ∧
      (ofRun verbose (printJson json label value)).exit = 0 ∧
      (ofRun verbose (printJson json label value)).stdout = text ++ "\n") ∨
    (ofRun verbose (printJson json label value)).exit = 2 := by
  rw [printJson]
  cases json.pretty value with
  | ok text => exact .inl ⟨text, rfl, rfl, rfl⟩
  | error cause => exact .inr rfl

/-- The ends of a run that sanitizes: the document is printed, or cannot be rendered, or cannot be
sanitized, and then not compiled either with the sanitizing asked for. -/
theorem outputWith_sanitize_cases
    (asked : outputWith json files (.run verbose (.sanitize document)) = printed) :
    (∃ sanitized text, SanitizesTo json files document sanitized ∧
      json.pretty sanitized = .ok text ∧ printed.exit = 0 ∧ printed.stdout = text ++ "\n") ∨
    printed.exit = 2 ∨
    printed.exit ≠ 0 ∧ ∀ one catalogPath,
      (outputWith json files (.run one (.compile document catalogPath true))).exit = 1 := by
  subst asked
  rcases sanitize_cases json files document with ⟨sanitized, sanitizes⟩ | ⟨failed, uncompiled⟩
  · have same := alike_ofRun verbose verbose (alike_runWith_sanitize sanitizes)
    rcases ofRun_printJson_cases json verbose "sanitized definition" sanitized with
      ⟨text, shown, exit, line⟩ | exit
    · exact .inl ⟨sanitized, text, sanitizes, shown, same.exit.trans exit, same.stdout.trans line⟩
    · exact .inr (.inl (same.exit.trans exit))
  · refine .inr (.inr ⟨?_, fun one catalogPath => ?_⟩)
    · rcases failed with ⟨failure, failed⟩
      exact exit_ofRun_error verbose failed ▸ failure.exit_ne_zero
    · rcases uncompiled catalogPath with ⟨failure, status, failed⟩
      exact (exit_ofRun_error one failed).trans status

/-- To sanitize a document and to compile what is printed, nesting no deeper than a text may, comes
to the same as to compile the document with the sanitizing asked for; where the first fails, so does
the second; and nothing is printed by a run that fails. -/
theorem routes_agree (json : Codec) (roundTrips : json.RoundTrips)
    (ignoresLineEnd : json.IgnoresLineEnd) (files : Files) (document : String)
    (catalogPath : Option String) :
    (∀ verbose printed, outputWith json files (.run verbose (.sanitize document)) = printed →
      printed.exit = 0 →
      ∃ sanitized text, SanitizesTo json files document sanitized ∧
        json.pretty sanitized = .ok text ∧ printed.stdout = text ++ "\n" ∧
        (sanitized.depth ≤ 127 → ∀ (held : Files) path,
          (held path = .ok text ∨ held path = .ok printed.stdout) →
          (∀ p ∈ catalogPath, held p = files p) →
          ∀ one two, (outputWith json held (.run one (.compile path catalogPath false))).Alike
            (outputWith json files (.run two (.compile document catalogPath true))))) ∧
    (∀ one two, (outputWith json files (.run one (.sanitize document))).exit = 1 →
      (outputWith json files (.run two (.compile document catalogPath true))).exit = 1) ∧
    ∀ request, (outputWith json files request).exit = 1 →
      (outputWith json files request).stdout = "" := by
  refine ⟨?_, ?_, ?_⟩
  · intro verbose printed asked exit
    rcases outputWith_sanitize_cases asked with shown | unrendered | unsanitized
    · rcases shown with ⟨sanitized, text, sanitizes, shown, -, line⟩
      refine ⟨sanitized, text, sanitizes, shown, line, ?_⟩
      intro shallow held path holds same one two
      have read := roundTrips sanitized text shallow shown
      apply alike_ofRun
      rcases holds with holds | holds
      · exact alike_runWith_compile sanitizes holds read same
      · rw [line] at holds
        have ended := ignoresLineEnd sanitized text shallow shown
        exact alike_runWith_compile sanitizes holds (ended.trans read) same
    · cases exit.symm.trans unrendered
    · exact absurd exit unsanitized.1
  · intro one two exit
    rcases outputWith_sanitize_cases rfl with shown | unrendered | unsanitized
    · rcases shown with ⟨_, _, -, -, ok, -⟩
      cases exit.symm.trans ok
    · cases exit.symm.trans unrendered
    · exact unsanitized.2 two catalogPath
  · intro request exit
    apply stdout_of_exit_ne_zero
    rw [exit]
    decide

def crateText : String :=
  "\x7b\"type\": \"composite\", \"parts\": [\x7b\"type\": \"ref\", \"width\": 0.5\x7d]\x7d"

def crateFiles : Files
  | "crate.json" => .ok crateText
  | "plates.json" => .ok "\x7b\"plate\": \x7b\"type\": \"box\"\x7d\x7d"
  | _ => .error .missing

/-- One half, a binade below the ranks of one. -/
def half : Number := .float ⟨false, 1022 * binade, by decide⟩

def crateDocument : Value := .object (KeyMap.ofList [
  ("type", .string "composite"),
  ("parts", .array [.object (KeyMap.ofList [
    ("type", .string "ref"),
    ("width", .number half)])])])

/-- A reference without a name is to a plate. -/
def crateSanitized : Value := .object ((KeyMap.ofList [
  ("type", .string "composite"),
  ("parts", .array [.object ((KeyMap.ofList [
    ("type", .string "ref"),
    ("name", .string "plate"),
    ("_dustbin", .object (KeyMap.ofList [("width", .number half)]))]).layOver
      Template.master)])]).layOver (Template.master.erase "_dustbin"))

def crateHeld : Files := fun path =>
  if path = "sanitized.json" then .ok (crateSanitized.pretty ++ "\n") else crateFiles path

theorem routes_agree_crate :
    (outputWith .nearest crateFiles (.run false (.sanitize "crate.json"))).exit = 0 ∧
    (outputWith .nearest crateHeld
      (.run false (.compile "sanitized.json" (some "plates.json") false))).Alike
        (outputWith .nearest crateFiles
          (.run true (.compile "crate.json" (some "plates.json") true))) ∧
    (outputWith .nearest crateFiles
      (.run true (.compile "crate.json" (some "plates.json") true))).exit = 0 ∧
    (outputWith .nearest crateFiles (.run false (.compile "lost.json" none true))).exit = 1 ∧
    (outputWith .nearest crateFiles (.run false (.compile "lost.json" none true))).stdout = "" := by
  have chars : crateText.toList = _ := String.toList_ofList
  have parsed : Value.parse? crateText = some crateDocument := by
    rw [Value.parse?, Value.readFirst?, chars]
    decide +kernel
  have ok : Registry.builtin.sanitize crateDocument = .ok crateSanitized := by
    decide +kernel
  have sanitizes : SanitizesTo .nearest crateFiles "crate.json" crateSanitized :=
    ⟨crateText, crateDocument, rfl, parsed, ok⟩
  have exit : (outputWith .nearest crateFiles (.run false (.sanitize "crate.json"))).exit = 0 :=
    (alike_ofRun false false (alike_runWith_sanitize sanitizes)).exit
  have compiles : (outputWith .nearest crateFiles
      (.run true (.compile "crate.json" (some "plates.json") true))).exit = 0 := by
    decide +kernel
  have shallow : crateSanitized.depth ≤ 127 := by decide +kernel
  have held : ∀ p ∈ some "plates.json", crateHeld p = crateFiles p := by
    intro p member
    cases member
    rfl
  have lost : (outputWith .nearest crateFiles (.run false (.sanitize "lost.json"))).exit = 1 := rfl
  obtain ⟨sanitized, text, again, shown, line, alike⟩ :=
    (routes_agree .nearest Codec.roundTrips_nearest Codec.ignoresLineEnd_nearest crateFiles
      "crate.json" (some "plates.json")).1 false _ rfl exit
  obtain rfl := again.unique sanitizes
  cases shown
  obtain ⟨-, fails, silent⟩ :=
    routes_agree .nearest Codec.roundTrips_nearest Codec.ignoresLineEnd_nearest crateFiles
      "lost.json" none
  exact ⟨exit, alike shallow crateHeld "sanitized.json" (.inr (congrArg Except.ok line.symm)) held
    false true, compiles, fails false false lost, silent _ (fails false false lost)⟩

end Request

end PartTree
