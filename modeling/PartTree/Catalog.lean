import PartTree.Definition.Reader

/-!
Catalogs: the named definitions that references stand for.
-/

namespace PartTree

abbrev Catalog := KeyMap Definition none

inductive CatalogError
  | notAnObject (found : Value)
  | entry (name : String) (cause : FormatError)
  deriving DecidableEq

def CatalogError.message : CatalogError → String
  | notAnObject found => notARecordMessage found
  | entry name cause => malformedField ("catalog." ++ name) cause.message

namespace Catalog

/-- A catalog read from an object of documents, entry by entry in the order of the names. -/
def read : Value → Logged CatalogError Catalog
  | .object documents =>
    documents.traverse fun name document => (Definition.read document).mapError (.entry name)
  | found => .fail (.notAnObject found)

def ofValue (value : Value) : Except CatalogError Catalog := (read value).result

end Catalog

end PartTree
