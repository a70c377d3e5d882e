import PartTree.Command.Run

/-!
A run that fails has printed nothing: in every command, what may fail comes before what prints.
-/

namespace PartTree

namespace Run

variable {α β : Type} {run first : Run α} {next : α → Run β}

def Silent (run : Run α) : Prop := run.printed = ""

def Succeeds (run : Run α) : Prop := ∀ failure, run.result ≠ .error failure

def FailsSilently (run : Run α) : Prop :=
  ∀ failure, run.result = .error failure → run.printed = ""

theorem Silent.failsSilently (silent : run.Silent) : run.FailsSilently := by
  intro _ _
  exact silent

theorem Succeeds.failsSilently (succeeds : run.Succeeds) : run.FailsSilently := by
  intro failure failed
  exact absurd failed (succeeds failure)

theorem Silent.bind (silent : first.Silent) (rest : ∀ value, (next value).Silent) :
    (first >>= next).Silent := by
  rw [Silent] at silent ⊢
  cases result : first.result with
  | error _ => rw [printed_bind_error result, silent]
  | ok value => rw [printed_bind_ok result, silent, rest value, String.append_empty]

theorem Succeeds.bind (succeeds : first.Succeeds) (rest : ∀ value, (next value).Succeeds) :
    (first >>= next).Succeeds := by
  intro failure failed
  rw [result_bind] at failed
  cases result : first.result with
  | error cause => exact succeeds cause result
  | ok value =>
      rw [result] at failed
      exact rest value failure failed

/-- A failure comes out of the first part, which prints nothing at all, or out of the second. -/
theorem Silent.bind_failsSilently (silent : first.Silent)
    (rest : ∀ value, (next value).FailsSilently) : (first >>= next).FailsSilently := by
  intro failure failed
  rw [result_bind] at failed
  cases result : first.result with
  | error _ => rw [printed_bind_error result, silent]
  | ok value =>
      rw [result] at failed
      rw [printed_bind_ok result, silent, rest value failure failed, String.append_empty]

theorem silent_pure (value : α) : (pure value : Run α).Silent := rfl

theorem silent_fail (failure : Failure) : (fail failure : Run α).Silent := rfl

theorem silent_ofLogged (x : Logged Failure α) : (ofLogged x).Silent := rfl

theorem silent_report (event : Event) : (report event).Silent := rfl

theorem succeeds_printLine (line : String) : (printLine line).Succeeds := by
  intro _ failed
  cases failed

theorem succeeds_printLines (texts : List String) : (printLines texts).Succeeds := by
  induction texts with
  | nil =>
      intro _ failed
      cases failed
  | cons line _ ih => exact (succeeds_printLine line).bind fun _ => ih

end Run

namespace Command

open Run

variable (json : Codec) (files : Files)

theorem silent_readDocument (role : Role) (path : String) :
    (readDocument json files role path).Silent := by
  rw [readDocument]
  split
  · exact silent_fail _
  · split
    · exact silent_fail _
    · exact silent_pure _

theorem silent_loadCatalog (path? : Option String) : (loadCatalog json files path?).Silent := by
  cases path? with
  | none => exact silent_pure _
  | some path => exact (silent_readDocument ..).bind fun _ => silent_ofLogged _

theorem failsSilently_printJson (label : String) (value : Value) :
    (printJson json label value).FailsSilently := by
  rw [printJson]
  split
  · exact (succeeds_printLine _).failsSilently
  · exact (silent_fail _).failsSilently

theorem failsSilently_either (asJson : Bool) (label : String) (value : Value)
    (texts : List String) :
    (if asJson then printJson json label value else printLines texts).FailsSilently := by
  cases asJson with
  | true => exact failsSilently_printJson json label value
  | false => exact (succeeds_printLines texts).failsSilently

/-- Each command reads and works first, and prints last. -/
theorem failsSilently_runWith (command : Command) :
    (command.runWith json files).FailsSilently := by
  cases command with
  | templates typeName? asJson =>
      cases typeName? with
      | none => exact failsSilently_either json asJson _ _ _
      | some typeName =>
          rw [runWith]
          split
          · exact (silent_fail _).failsSilently
          · exact failsSilently_either json asJson _ _ _
  | catalog path asJson =>
      refine (silent_loadCatalog ..).bind_failsSilently fun loaded => ?_
      exact failsSilently_either json asJson _ _ _
  | resolve name path =>
      refine (silent_loadCatalog ..).bind_failsSilently fun loaded => ?_
      split
      · exact (silent_fail _).failsSilently
      · exact failsSilently_printJson json _ _
  | sanitize path =>
      refine (silent_readDocument ..).bind_failsSilently fun document => ?_
      exact (silent_ofLogged _).bind_failsSilently fun _ => failsSilently_printJson json _ _
  | compile path catalogPath sanitizeFirst =>
      refine (silent_readDocument ..).bind_failsSilently fun document => ?_
      refine (silent_loadCatalog ..).bind_failsSilently fun loaded => ?_
      refine (silent_ofLogged _).bind_failsSilently fun d => ?_
      exact (silent_report _).bind_failsSilently fun _ => failsSilently_printJson json _ _

end Command

namespace Output

variable {run : Run Unit}

theorem stdout_ofRun (verbose : Bool) (run : Run Unit) :
    (ofRun verbose run).stdout = run.printed := by
  obtain ⟨events, printed, result⟩ := run
  cases result <;> rfl

theorem exit_ofRun_ok (verbose : Bool) (ok : run.result = .ok ()) :
    (ofRun verbose run).exit = 0 := by
  rw [ofRun, ok]

theorem exit_ofRun_error (verbose : Bool) {failure : Failure}
    (failed : run.result = .error failure) : (ofRun verbose run).exit = failure.exit := by
  rw [ofRun, failed]

end Output

namespace Request

theorem stdout_of_exit_ne_zero (json : Codec) (files : Files) (request : Request)
    (fails : (request.outputWith json files).exit ≠ 0) :
    (request.outputWith json files).stdout = "" := by
  cases request with
  | version => exact absurd rfl fails
  | usage => rfl
  | run verbose command =>
      rw [outputWith, Output.stdout_ofRun]
      cases result : (command.runWith json files).result with
      | ok => exact absurd (Output.exit_ofRun_ok verbose result) fails
      | error failure => exact Command.failsSilently_runWith json files command failure result

end Request

end PartTree
