import DeclScan.Extractor

/-!
# DeclScan.Registry

Which extractor is for which extension. Extensions are compared in lower case. A later registration
takes an extension over; the extension keeps its place in the order of the registry.
-/

namespace DeclScan

/-- Extractors by extension, in the order in which the extensions were first registered. -/
structure Registry where
  table : Table Extractor

namespace Registry

def empty : Registry := ⟨[]⟩

def register (r : Registry) (e : Extractor) : Registry :=
  ⟨e.extensions.foldl (fun table extension => Table.put (Path.lower extension) e table) r.table⟩

def standard : Registry := Extractor.builtin.foldl register empty

def get? (r : Registry) (extension : String) : Option Extractor :=
  Table.get? (Path.lower extension) r.table

def forFile? (r : Registry) (path : String) : Option Extractor := r.get? (Path.suffix path)

def extensions (r : Registry) : List String := r.table.keys

def isSupported (r : Registry) (path : String) : Bool := (r.forFile? path).isSome

end Registry
end DeclScan
