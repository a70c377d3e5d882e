import PartTree.Prepare

/-!
What a command does while it runs: it logs, it prints, and it fails or not. What was printed before
a failure stays printed.
-/

namespace PartTree

/-- Why a file cannot be read. -/
inductive ReadFault
  | missing
  | denied
  | notDirectory
  | directory
  | nameTooLong
  | other (description : String)
  deriving DecidableEq

def ReadFault.message : ReadFault → String
  | missing => "No such file or directory (os error 2)"
  | denied => "Permission denied (os error 13)"
  | notDirectory => "Not a directory (os error 20)"
  | directory => "Is a directory (os error 21)"
  | nameTooLong => "File name too long (os error 36)"
  | other description => description

/-- What a file is read for. -/
inductive Role
  | definition
  | catalog
  deriving DecidableEq

def Role.label : Role → String
  | definition => "definition"
  | catalog => "catalog"

inductive Failure
  | unreadable (role : Role) (path : String) (fault : ReadFault)
  | notJson (role : Role) (path : String)
  | invalidCatalog (path : String) (cause : CatalogError)
  | noTemplate (cause : UnknownType)
  | unresolved (name : String)
  | sanitize (cause : SanitizeError)
  | compile (cause : PrepareError)
  | unrendered (label cause : String)
  deriving DecidableEq

namespace Failure

def message : Failure → String
  | unreadable role path fault =>
    "failed to read " ++ role.label ++ " at " ++ path ++ ": " ++ fault.message
  | notJson role path => "failed to parse " ++ role.label ++ " JSON at " ++ path
  | invalidCatalog path cause => "invalid catalog at " ++ path ++ ": " ++ cause.message
  | noTemplate cause => "template lookup failed: " ++ cause.message
  | unresolved name => "resolve failed: " ++ unresolvedMessage name
  | sanitize cause => "sanitize failed: " ++ cause.message
  | compile cause => "compile failed: " ++ cause.message
  | unrendered label cause => "failed to render " ++ label ++ ": " ++ cause

/-- The exit status of the program. -/
def exit : Failure → Nat
  | unrendered .. => 2
  | _ => 1

theorem exit_ne_zero (failure : Failure) : failure.exit ≠ 0 := by
  cases failure <;> simp [exit]

end Failure

structure Run (α : Type) where
  events : List Event
  printed : String
  result : Except Failure α

namespace Run

variable {α β : Type}

instance : Monad Run where
  pure value := ⟨[], "", .ok value⟩
  bind first next :=
    match first.result with
    | .ok value =>
      let rest := next value
      ⟨first.events ++ rest.events, first.printed ++ rest.printed, rest.result⟩
    | .error failure => ⟨first.events, first.printed, .error failure⟩

def ofLogged (x : Logged Failure α) : Run α := ⟨x.events, "", x.result⟩

def fail (failure : Failure) : Run α := ⟨[], "", .error failure⟩

def report (event : Event) : Run Unit := ⟨[event], "", .ok ()⟩

def printLine (line : String) : Run Unit := ⟨[], line ++ "\n", .ok ()⟩

def printLines : List String → Run Unit
  | [] => pure ()
  | line :: rest => do
    printLine line
    printLines rest

theorem pure_bind (value : α) (next : α → Run β) : (pure value >>= next) = next value := by
  change Run.mk ([] ++ (next value).events) ("" ++ (next value).printed) (next value).result = _
  rw [List.nil_append, String.empty_append]

theorem fail_bind (failure : Failure) (next : α → Run β) :
    (fail failure >>= next) = fail failure := rfl

theorem result_ofLogged (x : Logged Failure α) : (ofLogged x).result = x.result := rfl

theorem result_bind (first : Run α) (next : α → Run β) :
    (first >>= next).result = first.result >>= fun value => (next value).result := by
  obtain ⟨events, printed, result⟩ := first
  cases result <;> rfl

theorem printed_bind_ok {first : Run α} {value : α} (ok : first.result = .ok value)
    (next : α → Run β) : (first >>= next).printed = first.printed ++ (next value).printed := by
  obtain ⟨events, printed, result⟩ := first
  cases ok
  rfl

theorem printed_bind_error {first : Run α} {failure : Failure}
    (failed : first.result = .error failure) (next : α → Run β) :
    (first >>= next).printed = first.printed := by
  obtain ⟨events, printed, result⟩ := first
  cases failed
  rfl

end Run

end PartTree
