import Stencil.Value.Display
import Stencil.Yaml.Node.Compose
import Stencil.Yaml.Scalar

/-!
# YAML values

The values of trees. A mapping whose keys are all texts is a record, any other a table. The entry
with the key `<<` lays other mappings under the one that it stands in.

Aliases may make a short text stand for a huge value, so the nodes that are visited are counted, and
a value of which nearly all comes from aliases is refused.
-/
namespace Stencil.Yaml

/-! ### The count of visited nodes -/

/-- How many nodes were visited, and how many of them through aliases. -/
structure Effort where
  visited : Nat := 0
  viaAlias : Nat := 0
  /-- How many aliases the current node stands inside of. -/
  depth : Nat := 0

/-- Too many of the visited nodes came through aliases. The allowed share falls from 99 to 10 percent
between two sizes. -/
def Effort.isExcessive (e : Effort) : Bool :=
  let low := 400000
  let span := 3600000
  -- the allowed share is `0.99 - 0.89 · (visited - low) / span` between the bounds
  let beyond := min (e.visited - low) span
  decide (100 < e.viaAlias ∧ 1000 < e.visited
    ∧ e.visited * (99 * span - 89 * beyond) < e.viaAlias * 100 * span)

/-- A reading that counts the nodes it visits and may fail. -/
abbrev Visiting (α : Type) := StateT Effort Option α

/-- Counts a node. -/
def visit : Visiting Unit := fun e =>
  let e := { e with
    visited := e.visited + 1
    viaAlias := if e.depth = 0 then e.viaAlias else e.viaAlias + 1 }
  if e.isExcessive then none else some ((), e)

/-- Reads what an alias stands for. -/
def throughAlias {α : Type} (inner : Visiting α) : Visiting α := fun e =>
  (inner { e with depth := e.depth + 1 }).map fun r => (r.1, { r.2 with depth := e.depth })

def refuse {α : Type} : Visiting α := fun _ => none

/-- Goes on with what is there. -/
def expect {α : Type} (a : Option α) : Visiting α := fun e => a.map (·, e)

/-! ### Keys -/

/-- How a mapping is read: with keys of any kind, or with texts alone, where every scalar counts as
the text that is written. -/
inductive KeyMode where
  | any
  | texts
  deriving DecidableEq

/-- A scalar as a key. With texts alone an absent one is no key. -/
def KeyMode.scalar (mode : KeyMode) (tag : Option Bytes) (s : Bytes) : Option (Option Value) :=
  match mode, readScalar tag s with
  | _, none => none
  | .any, some (_, v) => some (some v)
  | .texts, some (_, .null) => some none
  | .texts, some (t, v) => some (some (if t = binaryTag then v else .text s))

/-- A key; a collection cannot be one. -/
def KeyMode.key (mode : KeyMode) : Node → Visiting (Option Value)
  | .scalar tag s => do
    visit
    expect (mode.scalar tag s)
  | .alias _ target => do
    visit
    throughAlias (mode.key target)
  | _ => refuse

/-- Two keys are one. -/
def sameKey : Value → Value → Bool
  | .float a, .float b => a == b
  | .time a, .time b => a == b && a.offset == 0
  | a, b => a.typeName == b.typeName && a.display == b.display

/-- The key that lays other mappings under the one that it stands in. -/
def isMerge : Node → Bool
  | .scalar none s => s == ("<<" : Bytes)
  | .scalar (some t) s => s == ("<<" : Bytes) && t == mergeTag
  | _ => false

/-- The tag of a key. -/
def Node.keyTag : Node → Bytes
  | .scalar tag s => scalarTag tag s
  | .alias _ target => target.keyTag
  | _ => []

/-- Every key is a text. -/
def textKeys (entries : List (Node × Node)) : Bool :=
  entries.all fun e => e.1.keyTag == textTag || e.1.keyTag == mergeTag

/-! ### Entries -/

/-- The entries of a mapping that count, in the order in which they are set, and the keys that
mappings under it cannot set any more. -/
structure Layers where
  entries : List (Value × Node) := []
  taken : List Value := []

/-- The entries that are written in a mapping itself. With `under`, keys that are taken already are
passed over. -/
def ownEntries (mode : KeyMode) (under : Bool) : Layers → List (Node × Node) → Visiting Layers
  | l, [] => pure l
  | l, (k, v) :: rest => do
    if isMerge k then ownEntries mode under l rest
    else
      match ← mode.key k with
      | none => ownEntries mode under l rest
      | some key =>
        if under && l.taken.any (sameKey key) then ownEntries mode under l rest
        else
          ownEntries mode under
            { entries := l.entries ++ [(key, v)]
              taken := if under then l.taken ++ [key] else l.taken } rest

/-- The keys of a mapping that others are laid under. -/
def takenKeys : List (Node × Node) → Visiting (List Value)
  | [] => pure []
  | (k, _) :: rest => do
    let key ← KeyMode.any.key k
    let more ← takenKeys rest
    return key.toList ++ more

mutual

/-- Lays a mapping, or the mappings of a list, under what is there. -/
def layUnder (mode : KeyMode) (l : Layers) : Node → Visiting Layers
  | .mapping entries => layMapping mode l entries
  | .alias _ (.mapping entries) => do
    visit
    throughAlias (layMapping mode l entries)
  | .sequence items => layItems mode l items
  | _ => refuse

/-- Lays a mapping with what is under it. -/
def layMapping (mode : KeyMode) (l : Layers) : List (Node × Node) → Visiting Layers
  | entries => do
    visit
    if !distinctKeys entries then refuse
    else
      let l ← ownEntries mode true l entries
      layMerges mode l entries

/-- Lays what the merge keys of a mapping name. -/
def layMerges (mode : KeyMode) (l : Layers) : List (Node × Node) → Visiting Layers
  | [] => pure l
  | (k, v) :: rest => if isMerge k then layUnder mode l v else layMerges mode l rest

/-- Lays the mappings of a list, one under the other. -/
def layItems (mode : KeyMode) (l : Layers) : List Node → Visiting Layers
  | [] => pure l
  | .mapping entries :: rest => do layItems mode (← layMapping mode l entries) rest
  | .alias _ (.mapping entries) :: rest => do
    visit
    layItems mode (← throughAlias (layMapping mode l entries)) rest
  | _ => refuse

end

/-- The entries of a mapping that count, each key with its node. -/
def members (mode : KeyMode) (entries : List (Node × Node)) : Visiting (List (Value × Node)) := do
  if !distinctKeys entries then refuse
  else
    let own ← ownEntries mode false {} entries
    match entries.find? fun e => isMerge e.1 with
    | none => return own.entries
    | some (_, source) =>
      let taken ← takenKeys entries
      let l ← layUnder mode { own with taken } source
      return l.entries

/-! ### Values -/

/-- Binds a key; of two spellings of one key the last counts. -/
def insertEntry (entries : List (Value × Value)) (e : Value × Value) : List (Value × Value) :=
  if entries.any fun old => sameKey old.1 e.1 then
    entries.map fun old => if sameKey old.1 e.1 then e else old
  else entries ++ [e]

/-- The fields of a record, from entries whose keys are texts. -/
def fieldsOf (entries : List (Value × Value)) : Bindings :=
  entries.filterMap fun e => match e.1 with | .text s => some (s, e.2) | _ => none

/-- The value of a node, of which no part is deeper than `depth`. -/
def Node.valueWithin : (depth : Nat) → Node → Visiting Value
  | 0, _ => refuse
  | _ + 1, .scalar tag s => do
    visit
    let (_, v) ← expect (readScalar tag s)
    return v
  | depth + 1, .alias _ target => do
    visit
    throughAlias (target.valueWithin depth)
  | _ + 1, .knot _ => refuse
  | depth + 1, .sequence items => do
    visit
    return .items (← items.mapM fun n => n.valueWithin depth)
  | depth + 1, .mapping entries => do
    visit
    let mode := if textKeys entries then KeyMode.texts else .any
    let found ← members mode entries
    let values ← found.mapM fun e => do return (e.1, ← e.2.valueWithin depth)
    let bound := values.foldl insertEntry []
    return if mode = .texts then .record (fieldsOf bound) else .table .any bound

/-- The bindings of a mapping with texts for keys; an absent node binds nothing. -/
def Node.bindingsWithin (depth : Nat) : Node → Visiting Bindings
  | .mapping entries => do
    visit
    let found ← members .texts entries
    let values ← found.mapM fun e => do return (e.1, ← e.2.valueWithin depth)
    return fieldsOf (values.foldl insertEntry [])
  | .scalar tag s => do
    visit
    match ← expect (readScalar tag s) with
    | (_, .null) => return []
    | _ => refuse
  | _ => refuse

/-- How deep the value of a text can be: no node stands twice on a way down. -/
def depthOf (text : Bytes) : Nat := 2 * text.length + 4

/-- The value of a YAML text; an empty text is an absent value. -/
def decode (text : Bytes) : Option Value :=
  match parse text with
  | none => none
  | some none => some .null
  | some (some node) => ((node.valueWithin (depthOf text)).run { visited := 1 }).map (·.1)

/-- The bindings of a YAML text; an empty text binds nothing. -/
def decodeBindings (text : Bytes) : Option Bindings :=
  match parse text with
  | none => none
  | some none => some []
  | some (some node) => ((node.bindingsWithin (depthOf text)).run { visited := 1 }).map (·.1)

end Stencil.Yaml
