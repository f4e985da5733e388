import Stencil.Failure
import Stencil.Json.Fields

/-!
# Manifests

Which artifacts were made of each template: the program, and the assets beside it.
-/
namespace Stencil

/-- The artifacts of one template. A stored listing may leave the assets out. -/
structure Listing where
  entry : Bytes := []
  assets : Option (List Bytes) := none
  deriving DecidableEq, Repr

/-- The artifacts of each template. -/
abbrev Manifest := Assoc Bytes Listing

def Listing.toJson (l : Listing) : Json :=
  .object [("entry", .string l.entry),
    ("assets", match l.assets with
      | some assets => .array (assets.map Json.string)
      | none => .null)]

/-- The bindings of a table in the order of their names. -/
def Assoc.sorted {β : Type} (m : Assoc Bytes β) : Assoc Bytes β :=
  m.mergeSort fun a b => Bytes.le a.1 b.1

namespace Manifest

/-- A manifest as a tree, templates in order; a stored manifest may be absent. -/
def toJson : Option Manifest → Json
  | some m => .object ((Assoc.sorted m).map fun e => (e.1, e.2.toJson))
  | none => .null

/-- The text of a manifest. -/
def text (m : Option Manifest) : Bytes := (toJson m).indented 0 ++ "\n"

/-- A listing that is being read. -/
structure Draft where
  entry : Bytes := []
  assets : Option (Json.Slots Bytes) := none

def setField (d : Draft) (name : Bytes) (j : Json) : Option Draft :=
  if Json.sameField name "entry" then (Json.readText d.entry j).map fun entry => { d with entry }
  else if Json.sameField name "assets" then
    (Json.readTexts d.assets j).map fun assets => { d with assets }
  else some d

def readListing (j : Json) : Option Listing :=
  (Json.readRecord setField {} j).map fun d => ⟨d.entry, d.assets.map (·.items)⟩

def ofJson : Json → Option (Option Manifest)
  | .null => some none
  | j => (Json.readTable readListing [] j).map some

/-- Reads a manifest from a file. -/
def load (files : FileTree) (path : Bytes) : Except Failure (Option Manifest) :=
  match files.read path with
  | .error e => .error (.within "failed to read manifest" (.file e))
  | .ok content =>
    match (Json.parse content).bind ofJson with
    | some m => .ok m
    | none => .error (.within "failed to unmarshal manifest" (.malformed "json"))

end Manifest

end Stencil
