import Stencil.Build.Builder
import Stencil.Cache.Index
import Stencil.Wrap

/-!
# The unit cache

Compiled templates on disk, bounded in size: each unit is a file, and an index says which. When a new
unit needs room, the units that were used least recently go first. Units beyond a certain age, and
those whose file cannot be read, are dropped when they are asked for. The index is saved whenever a
unit comes or is taken away on purpose; a use alone is not saved.

The counters are kept beside the index. The total size is a number of 64 bits.
-/
namespace Stencil

/-- How a cache fares. -/
structure CacheStats where
  hits : Nat := 0
  misses : Nat := 0
  evictions : Nat := 0
  totalSize : Int := 0
  entryCount : Nat := 0
  deriving DecidableEq, Repr

/-- An open cache, with the files among which it lives. -/
structure UnitCache where
  dir : Bytes
  /-- The most bytes that units may take together; no bound when it is not positive. -/
  maxSize : Int := 0
  /-- The greatest age of a unit in nanoseconds; no bound when it is not positive. -/
  maxAge : Int := 0
  index : CacheIndex := {}
  stats : CacheStats := {}
  files : FileTree := {}

namespace UnitCache

/-- The units of a cache by their keys. -/
abbrev entries (c : UnitCache) : Assoc Bytes CacheEntry := c.index.entries

def unitsPath (dir : Bytes) : Bytes := Path.join [dir, "units"]

def indexPath (dir : Bytes) : Bytes := Path.join [dir, "index.json"]

/-- The sizes of the units of an index together. -/
def sizeSum (i : CacheIndex) : Int := i.entries.foldl (fun total e => wrap (total + e.2.size)) 0

/-- Opens the cache of a directory, making the directory if there is none. The index that was saved
there counts if it can be read; the counters of uses start anew. -/
def openAt (dir : Bytes) (maxSize maxAge : Int) (now : Instant) (files : FileTree) :
    Except Failure UnitCache :=
  match files.makeDirectory (unitsPath dir) with
  | .error e => .error (.within "failed to create cache directory" (.file e))
  | .ok files =>
    let saved := (files.read (indexPath dir)).toOption.bind CacheIndex.decode
    let index := saved.getD { updated := now }
    .ok { dir, maxSize, maxAge, index, files
          stats := { totalSize := sizeSum index, entryCount := index.entries.length } }

/-- Characters of a key that go into the name of a file as they are. -/
def isNameByte (c : UInt8) : Bool := isAsciiLetter c || isDigit c || c == ascii '-' || c == ascii '.'

/-- The file for the unit of a key, below the directory of the cache. Long keys are cut, and bytes
that may be awkward in the name of a file become `_`. -/
def unitFile (key : Bytes) : Bytes :=
  "units/" ++ (key.take 100).map (fun c => if isNameByte c then c else ascii '_') ++ ".json"

/-- The path of a file of the cache. -/
def pathOf (c : UnitCache) (file : Bytes) : Bytes := Path.join [c.dir, file]

/-- Writes the index. -/
def saveIndex (c : UnitCache) : Except Failure Unit × UnitCache :=
  match c.index.encode? with
  | none => (.error (.malformed "json"), c)
  | some text =>
    match c.files.write (indexPath c.dir) text with
    | .error e => (.error (.file e), c)
    | .ok files => (.ok (), { c with files })

/-- Takes the unit of a key away, if there is one, and its file. -/
def drop (now : Instant) (c : UnitCache) (key : Bytes) : UnitCache :=
  match Assoc.get? key c.entries with
  | none => c
  | some e =>
    let entries := Assoc.erase key c.entries
    { c with
      index := { entries, updated := now }
      files := c.files.remove (c.pathOf e.file)
      stats := { c.stats with
        totalSize := wrap (c.stats.totalSize - e.size)
        entryCount := entries.length } }

def countHit (c : UnitCache) : UnitCache :=
  { c with stats := { c.stats with hits := c.stats.hits + 1 } }

def countMiss (c : UnitCache) : UnitCache :=
  { c with stats := { c.stats with misses := c.stats.misses + 1 } }

/-- A unit that is older than the cache allows. -/
def isExpired (c : UnitCache) (now : Instant) (e : CacheEntry) : Bool :=
  decide (0 < c.maxAge) && decide (c.maxAge < Instant.since e.created now)

/-- The unit of a key. -/
def get (c : UnitCache) (now : Instant) (key : Bytes) : Option Bytes × UnitCache :=
  match Assoc.get? key c.entries with
  | none => (none, c.countMiss)
  | some e =>
    if c.isExpired now e then (none, (c.drop now key).countMiss)
    else match c.files.read (c.pathOf e.file) with
      | .error _ => (none, (c.drop now key).countMiss)
      | .ok data =>
        let entries := Assoc.insert key { e with lastAccess := now } c.entries
        (some data, { c with index := { c.index with entries } }.countHit)

/-- The earlier used of the unit found so far and another one; as long as the key is empty none was
found. -/
def earlier (found : Bytes × Instant) (e : Bytes × CacheEntry) : Bytes × Instant :=
  if found.1 = [] ∨ e.2.lastAccess.nanos < found.2.nanos then (e.1, e.2.lastAccess) else found

/-- The key of the unit that was used least recently. -/
def oldest (entries : Assoc Bytes CacheEntry) : Bytes := (entries.foldl earlier ([], .zero)).1

/-- Nothing more has to go for `needed` more bytes: they fit, or there is no unit. -/
def IsRoomy (c : UnitCache) (needed : Int) : Prop :=
  wrap (c.stats.totalSize + needed) ≤ c.maxSize ∨ c.entries = []

instance (c : UnitCache) (needed : Int) : Decidable (c.IsRoomy needed) :=
  inferInstanceAs (Decidable (_ ∨ _))

/-- Takes the unit of a key away to make room. -/
def evictUnit (now : Instant) (c : UnitCache) (key : Bytes) : UnitCache :=
  let dropped := c.drop now key
  { dropped with stats := { dropped.stats with evictions := dropped.stats.evictions + 1 } }

/-- Takes the least recently used unit away, up to `n` times, until `needed` more bytes fit. -/
def evict (now : Instant) (needed : Int) : (n : Nat) → UnitCache → UnitCache
  | 0, c => c
  | n + 1, c =>
    if c.IsRoomy needed then c else evict now needed n (c.evictUnit now (oldest c.entries))

/-- Takes units away, the least recently used first, until `needed` more bytes fit. -/
def makeRoom (c : UnitCache) (now : Instant) (needed : Int) : UnitCache :=
  if c.maxSize ≤ 0 then c else evict now needed c.entries.length c

/-- Keeps a unit under a key, in place of an earlier one. -/
def put (c : UnitCache) (now : Instant) (key data : Bytes) (deps : List Bytes) :
    Except Failure Unit × UnitCache :=
  let size : Int := data.length
  if 0 < c.maxSize ∧ c.maxSize < size then
    (.error (.refused ("unit of " ++ Bytes.ofInt size ++ " bytes exceeds cache size "
      ++ Bytes.ofInt c.maxSize)), c)
  else
    let c := (c.drop now key).makeRoom now size
    let file := unitFile key
    match c.files.write (c.pathOf file) data with
    | .error e => (.error (.within "failed to write cache file" (.file e)), c)
    | .ok files =>
      let entries := Assoc.insert key
        { key, file, size, created := now, lastAccess := now, deps } c.entries
      saveIndex { c with
        index := { entries, updated := now }
        files
        stats := { c.stats with
          totalSize := wrap (c.stats.totalSize + size)
          entryCount := entries.length } }

/-- Takes the unit of a key away on purpose. -/
def delete (c : UnitCache) (now : Instant) (key : Bytes) : Except Failure Unit × UnitCache :=
  if Assoc.has key c.entries then (c.drop now key).saveIndex else (.ok (), c)

/-- Takes away every unit that was compiled from a template, and says how many. -/
def invalidate (c : UnitCache) (now : Instant) (path : Bytes) : Nat × UnitCache :=
  let stale := (c.entries.filter fun e => e.2.deps.contains path).map (·.1)
  let dropped := stale.foldl (drop now) c
  (stale.length, if stale = [] then c else dropped.saveIndex.2)

/-- Takes every unit away and starts counting anew. -/
def clear (c : UnitCache) (now : Instant) : Except Failure Unit × UnitCache :=
  match c.files.removeAll (unitsPath c.dir) with
  | .error e => (.error (.within "failed to clear units" (.file e)), c)
  | .ok files =>
    match files.makeDirectory (unitsPath c.dir) with
    | .error e => (.error (.within "failed to create cache directory" (.file e)), { c with files })
    | .ok files => saveIndex { c with files, index := { updated := now }, stats := {} }

/-- Saves the index for the next time. -/
def close (c : UnitCache) : Except Failure Unit × UnitCache := c.saveIndex

/-- The names of what stands among the files of units. -/
def unitNames (c : UnitCache) : List Bytes :=
  match c.files.locate (unitsPath c.dir) with
  | .ok place => c.files.children place
  | .error _ => []

end UnitCache

/-- A cache with the clock that its operations read. -/
structure TimedCache where
  cache : UnitCache
  now : Instant

/-- Units of builds in a cache; the clock moves on with each operation. -/
def UnitStore.cached : UnitStore TimedCache where
  get key t :=
    let (found, cache) := t.cache.get t.now key
    (found, { cache, now := t.now.later 1 })
  put key data deps t :=
    let (r, cache) := t.cache.put t.now key data deps
    (r, { cache, now := t.now.later 1 })

end Stencil
