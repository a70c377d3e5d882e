import PartTree.Compile
import PartTree.Sanitize

/-!
Sanitizing a document and compiling what comes out.
-/

namespace PartTree

inductive PrepareError
  | sanitize (cause : SanitizeError)
  | compile (cause : CompileError)
  deriving DecidableEq

def PrepareError.message : PrepareError → String
  | sanitize cause => cause.message
  | compile cause => cause.message

def prepareLogged (registry : Registry) (catalog : Catalog) (document : Value) :
    Logged PrepareError Definition := do
  let sanitized ← (registry.sanitizeLogged document).mapError .sanitize
  (catalog.compileLogged sanitized).mapError .compile

def prepare (registry : Registry) (catalog : Catalog) (document : Value) :
    Except PrepareError Definition :=
  (prepareLogged registry catalog document).result

end PartTree
