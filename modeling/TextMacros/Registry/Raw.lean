import TextMacros.Macro.Signature
import TextMacros.Misuse
import TextMacros.Registry.Basic

/-!
# Raw definitions

Pairs of a written signature and a written body. A signature written again
keeps its place among the pairs and takes the later body.
-/

set_option autoImplicit false

namespace TextMacros

abbrev RawDefinitions := List (Text × Text)

namespace RawDefinitions

def put (signature body : Text) : RawDefinitions → RawDefinitions
  | [] => [(signature, body)]
  | (s, b) :: rest =>
    if s = signature then (s, body) :: rest else (s, b) :: put signature body rest

def ofList (pairs : List (Text × Text)) : RawDefinitions :=
  pairs.foldl (fun ds (signature, body) => put signature body ds) []

end RawDefinitions

namespace Registry

def defineRaw (location : Location) (r : Registry) (signature body : Text) :
    Except Error Registry := do
  let s ← Signature.parse location signature
  let (r, _) ← r.defineBody s.name s.parameters (.text location.source body) location
  return r

def ofRaw (location : Location) (ds : RawDefinitions) : Except Error Registry :=
  ds.foldlM (fun r (signature, body) => r.defineRaw location signature body) empty

/-- Definitions inside a text are written as directives, never raw. -/
def ofRawAt (location : Location) (ds : RawDefinitions) :
    Except Misuse (Except Error Registry) :=
  if location.source = .text then .error .textLocation else .ok (ofRaw location ds)

end Registry

end TextMacros
