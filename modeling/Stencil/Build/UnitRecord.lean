import Stencil.Build.Manifest
import Stencil.Compile.Resolver
import Stencil.Compile.Template
import Stencil.Program.Stored

/-!
# Records of compiled templates

What is kept of a compiled template between builds: its program, the texts for other loaders, and
the digests of the templates that were included. A record may be used again as long as each of these
templates still has its digest.
-/
namespace Stencil

/-- A compiled template as it is kept. -/
structure UnitRecord where
  /-- The stored text of the program. -/
  program : Bytes := []
  channels : Assoc Bytes Bytes := []
  /-- The digest of each included template. -/
  deps : Assoc Bytes Bytes := []
  deriving DecidableEq, Repr

namespace UnitRecord

/-- The member of a table of texts, left out when the table is empty. -/
def tableMember (name : Bytes) (table : Assoc Bytes Bytes) : List (Bytes × Json) :=
  if table = [] then []
  else [(name, .object ((Assoc.sorted table).map fun e => (e.1, Json.string e.2)))]

/-- The kept text of a compiled template. -/
def encode (p : Program) (t : Compile.Template) : Bytes :=
  (Json.object (Json.member "program" p.stored.toJson :: tableMember "channels" t.channels
    ++ tableMember "deps" t.deps)).compact

def setField (r : UnitRecord) (name : Bytes) (j : Json) : Option UnitRecord :=
  if Json.sameField name "channels" then
    (Json.readTable (Json.readText []) r.channels j).map fun channels => { r with channels }
  else if Json.sameField name "deps" then
    (Json.readTable (Json.readText []) r.deps j).map fun deps => { r with deps }
  else some r

/-- The text of the program as it stands in a kept text. -/
def programText (data : Bytes) : Bytes :=
  (((Json.rawMembers data).filter fun m => Json.sameField m.1 "program").getLast?.map (·.2)).getD []

/-- Reads a kept text. -/
def decode (data : Bytes) : Option UnitRecord := do
  let j ← Json.parse data
  let r ← Json.readRecord setField {} j
  return { r with program := programText data }

/-- Every included template still has the digest that it had. -/
def isFresh (r : UnitRecord) (resolver : Option Compile.Resolver) (canceled : Bool) : Bool :=
  r.deps.all fun dep =>
    match resolver with
    | none => false
    | some resolver =>
      match Compile.Resolver.find resolver canceled dep.1 with
      | .ok src => Text.Digest.sha256 src == dep.2
      | .error _ => false

end UnitRecord

end Stencil
