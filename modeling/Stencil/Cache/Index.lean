import Stencil.Build.Manifest
import Stencil.Instant

/-!
# The index of a unit cache

The index says of each kept unit which file holds it, its size, when it was made and last used, and
which templates it was compiled from. An index of another version, or one that cannot be read, does
not count.
-/
namespace Stencil

/-- One unit of a cache. -/
structure CacheEntry where
  key : Bytes := []
  /-- The file that holds the unit, below the directory of the cache. -/
  file : Bytes := []
  size : Int := 0
  created : Instant := .zero
  lastAccess : Instant := .zero
  /-- The templates that the unit was compiled from. -/
  deps : List Bytes := []
  deriving DecidableEq, Repr

/-- The units of a cache by their keys, and when the last of them came or went. -/
structure CacheIndex where
  entries : Assoc Bytes CacheEntry := []
  updated : Instant := .zero
  deriving DecidableEq, Repr

namespace CacheIndex

def version : Bytes := "sigil-units-1"

/-- An entry as a tree; a time without a stored text spoils it. -/
def entryJson (e : CacheEntry) : Option Json := do
  let created ← e.created.text?
  let lastAccess ← e.lastAccess.text?
  return .object ([Json.member "key" (.string e.key), Json.member "file" (.string e.file),
      Json.member "size" (.ofInt e.size), Json.member "created" (.string created),
      Json.member "last_access" (.string lastAccess)]
    ++ if e.deps = [] then []
      else [Json.member "dependencies" (.array (e.deps.map Json.string))])

/-- The stored text of an index, if all its times have one. -/
def encode? (i : CacheIndex) : Option Bytes := do
  let entries ← (Assoc.sorted i.entries).mapM fun e => (entryJson e.2).map (e.1, ·)
  let updated ← i.updated.text?
  return (Json.object [("version", .string version), ("entries", .object entries),
    ("updated", .string updated)]).indented 0

/-- An instant, or what the field held before. -/
def readInstant (old : Instant) : Json → Option Instant
  | .string s => Instant.parse? s
  | .null => some old
  | _ => none

/-- An entry that is being read, with its templates apart. -/
structure Draft where
  entry : CacheEntry := {}
  deps : Option (Json.Slots Bytes) := none

def setField (d : Draft) (name : Bytes) (j : Json) : Option Draft :=
  let e := d.entry
  if Json.sameField name "key" then
    (Json.readText e.key j).map fun key => { d with entry := { e with key } }
  else if Json.sameField name "file" then
    (Json.readText e.file j).map fun file => { d with entry := { e with file } }
  else if Json.sameField name "size" then
    (Json.readInt e.size j).map fun size => { d with entry := { e with size } }
  else if Json.sameField name "created" then
    (readInstant e.created j).map fun created => { d with entry := { e with created } }
  else if Json.sameField name "last_access" then
    (readInstant e.lastAccess j).map fun lastAccess => { d with entry := { e with lastAccess } }
  else if Json.sameField name "dependencies" then
    (Json.readTexts d.deps j).map fun deps => { d with deps }
  else some d

/-- An entry; it cannot be absent. -/
def readEntry : Json → Option CacheEntry
  | .null => none
  | j => (Json.readRecord setField {} j).map fun d =>
    { d.entry with deps := (d.deps.map (·.items)).getD [] }

/-- What is stored: a version and the index. -/
def setStored (stored : Bytes × CacheIndex) (name : Bytes) (j : Json) :
    Option (Bytes × CacheIndex) :=
  let (version, i) := stored
  if Json.sameField name "version" then (Json.readText version j).map (·, i)
  else if Json.sameField name "entries" then
    (Json.readTable readEntry i.entries j).map fun entries => (version, { i with entries })
  else if Json.sameField name "updated" then
    (readInstant i.updated j).map fun updated => (version, { i with updated })
  else some stored

/-- Reads a stored index of this version. -/
def decode (data : Bytes) : Option CacheIndex := do
  let j ← Json.parse data
  let (v, i) ← Json.readRecord setStored ([], {}) j
  if v = version then some i else none

end CacheIndex

end Stencil
