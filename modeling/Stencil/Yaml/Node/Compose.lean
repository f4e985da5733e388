import Stencil.Assoc
import Stencil.Yaml.Node
import Stencil.Yaml.Token.Scan

/-!
# YAML documents

The tree that the tokens of a text make. Only the first document counts, and of what follows it
only that it starts with a token.
-/
namespace Stencil.Yaml

/-- What tags stand for at their front, by their handles. -/
abbrev TagHandles := Assoc Bytes Bytes

/-- The front of the tags of the language itself, and what is written for it. -/
def tagFront : Bytes := "tag:yaml.org,2002:"

def standardHandles : TagHandles := [("!", "!"), ("!!", tagFront)]

/-- A tag in its short form. -/
def shortTag (tag : Bytes) : Bytes :=
  if Bytes.startsWith tagFront tag then "!!" ++ tag.drop tagFront.length else tag

/-- A tag as it is written out; `none` when its handle stands for nothing. -/
def expandTag (handles : TagHandles) (handle suffix : Bytes) : Option Bytes :=
  if handle = [] then some suffix
  else match Assoc.get? handle handles with
    | some lead => some (lead ++ suffix)
    | none => none

/-- Tokens still to be read, and the nodes of the anchors so far; an anchor has none while its node
is being read. -/
structure Reading where
  tokens : List Token
  anchors : Assoc Bytes (Option Node) := []

/-- What may stand before a node. -/
structure Properties where
  anchor : Option Bytes := none
  tag : Option (Bytes × Bytes) := none

/-- The anchor and the tag of a node, in either order. -/
def properties : List Token → Properties × List Token
  | .anchor a :: .tag h s :: ts => (⟨some a, some (h, s)⟩, ts)
  | .anchor a :: ts => (⟨some a, none⟩, ts)
  | .tag h s :: .anchor a :: ts => (⟨some a, some (h, s)⟩, ts)
  | .tag h s :: ts => (⟨none, some (h, s)⟩, ts)
  | ts => ({}, ts)

/-- The node of a scalar. The tag that says nothing is as good as none. -/
def scalarNode (tag : Option Bytes) (plain : Bool) (text : Bytes) : Node :=
  match tag with
  | some t =>
    if t = "!" then .scalar (if plain then none else some textTag) text
    else .scalar (some (shortTag t)) text
  | none => .scalar (if plain then none else some textTag) text

/-- Notes that the node of an anchor starts here. -/
def Reading.openAnchor (r : Reading) : Option Bytes → Reading
  | some a => { r with anchors := Assoc.insert a none r.anchors }
  | none => r

/-- Notes the node of an anchor, unless the anchor was used again inside it. -/
def Reading.closeAnchor (r : Reading) (node : Node) : Option Bytes → Reading
  | some a =>
    match Assoc.get? a r.anchors with
    | some none => { r with anchors := Assoc.insert a (some node) r.anchors }
    | _ => r
  | none => r

/-- Where a node stands. -/
structure NodeSite where
  /-- Block collections may stand here. -/
  block : Bool
  /-- A sequence may stand here without being indented. -/
  flat : Bool

def NodeSite.item : NodeSite := ⟨true, false⟩

def NodeSite.member : NodeSite := ⟨true, true⟩

def NodeSite.flow : NodeSite := ⟨false, false⟩

mutual

/-- A node with what stands before it. -/
def nodeAt (handles : TagHandles) : (fuel : Nat) → NodeSite → Reading → Option (Node × Reading)
  | 0, _, _ => none
  | fuel + 1, site, r =>
    match r.tokens with
    | .alias name :: ts =>
      match Assoc.get? name r.anchors with
      | some (some target) => some (.alias name target, { r with tokens := ts })
      | some none => some (.knot name, { r with tokens := ts })
      | none => none
    | ts =>
      let (p, ts) := properties ts
      match p.tag with
      | none => do
        let (node, r) ← contentAt handles fuel site none p.anchor.isSome
          ({ r with tokens := ts }.openAnchor p.anchor)
        return (node, r.closeAnchor node p.anchor)
      | some (handle, suffix) => do
        let tag ← expandTag handles handle suffix
        let (node, r) ← contentAt handles fuel site (some tag) true
          ({ r with tokens := ts }.openAnchor p.anchor)
        return (node, r.closeAnchor node p.anchor)

/-- A node after its properties. Where nothing is written the node is absent, if it has
properties. -/
def contentAt (handles : TagHandles) :
    (fuel : Nat) → NodeSite → (tag : Option Bytes) → (propertied : Bool) → Reading →
      Option (Node × Reading)
  | 0, _, _, _, _ => none
  | fuel + 1, site, tag, propertied, r =>
    let nothing : Option (Node × Reading) :=
      if propertied then some (scalarNode tag true [], r) else none
    match r.tokens with
    | [] => none
    | .scalar plain text :: ts => some (scalarNode tag plain text, { r with tokens := ts })
    | .flowSequenceStart :: ts => flowItems handles fuel true [] { r with tokens := ts }
    | .flowMappingStart :: ts => flowEntries handles fuel true [] { r with tokens := ts }
    | .blockSequenceStart :: ts =>
      if site.block then blockItems handles fuel [] { r with tokens := ts } else nothing
    | .blockMappingStart :: ts =>
      if site.block then blockEntries handles fuel [] { r with tokens := ts } else nothing
    | .blockEntry :: _ => if site.flat then flatItems handles fuel [] r else nothing
    | _ => nothing

/-- The items of an indented sequence; `done` are those already read, the last first. -/
def blockItems (handles : TagHandles) :
    (fuel : Nat) → (done : List Node) → Reading → Option (Node × Reading)
  | 0, _, _ => none
  | fuel + 1, done, r =>
    match r.tokens with
    | .blockEnd :: ts => some (.sequence done.reverse, { r with tokens := ts })
    | .blockEntry :: ts =>
      match ts with
      | .blockEntry :: _ => blockItems handles fuel (.absent :: done) { r with tokens := ts }
      | .blockEnd :: _ => blockItems handles fuel (.absent :: done) { r with tokens := ts }
      | _ => do
        let (item, r) ← nodeAt handles fuel .item { r with tokens := ts }
        blockItems handles fuel (item :: done) r
    | _ => none

/-- The items of a sequence that is as far in as the mapping around it. -/
def flatItems (handles : TagHandles) :
    (fuel : Nat) → (done : List Node) → Reading → Option (Node × Reading)
  | 0, _, _ => none
  | fuel + 1, done, r =>
    match r.tokens with
    | [] => none
    | .blockEntry :: ts =>
      match ts with
      | .blockEntry :: _ => flatItems handles fuel (.absent :: done) { r with tokens := ts }
      | .key :: _ => flatItems handles fuel (.absent :: done) { r with tokens := ts }
      | .value :: _ => flatItems handles fuel (.absent :: done) { r with tokens := ts }
      | .blockEnd :: _ => flatItems handles fuel (.absent :: done) { r with tokens := ts }
      | _ => do
        let (item, r) ← nodeAt handles fuel .item { r with tokens := ts }
        flatItems handles fuel (item :: done) r
    | _ => some (.sequence done.reverse, r)

/-- What follows a key or a colon in a block mapping, absent when the next key or the end is
there. -/
def blockSide (handles : TagHandles) : (fuel : Nat) → Reading → Option (Node × Reading)
  | 0, _ => none
  | fuel + 1, r =>
    match r.tokens with
    | .key :: _ => some (.absent, r)
    | .value :: _ => some (.absent, r)
    | .blockEnd :: _ => some (.absent, r)
    | _ => nodeAt handles fuel .member r

/-- The entries of a block mapping. -/
def blockEntries (handles : TagHandles) :
    (fuel : Nat) → (done : List (Node × Node)) → Reading → Option (Node × Reading)
  | 0, _, _ => none
  | fuel + 1, done, r =>
    match r.tokens with
    | .blockEnd :: ts => some (.mapping done.reverse, { r with tokens := ts })
    | .key :: ts => do
      let (key, r) ← blockSide handles fuel { r with tokens := ts }
      match r.tokens with
      | [] => none
      | .value :: ts =>
        let (value, r) ← blockSide handles fuel { r with tokens := ts }
        blockEntries handles fuel ((key, value) :: done) r
      | _ => blockEntries handles fuel ((key, .absent) :: done) r
    | _ => none

/-- The items of a bracketed sequence. An item may be a mapping of one entry without braces; when
the key of such a one is missing, the token in its place is passed over. -/
def flowItems (handles : TagHandles) :
    (fuel : Nat) → (first : Bool) → (done : List Node) → Reading → Option (Node × Reading)
  | 0, _, _, _ => none
  | fuel + 1, first, done, r =>
    match r.tokens with
    | .flowSequenceEnd :: ts => some (.sequence done.reverse, { r with tokens := ts })
    | t :: ts =>
      if !first && t != .flowEntry then none
      else
        let ts := if first then t :: ts else ts
        match ts with
        | .flowSequenceEnd :: ts => some (.sequence done.reverse, { r with tokens := ts })
        | .key :: ts => do
          let (key, r) ←
            match ts with
            | [] => none
            | t :: more =>
              if t = .value ∨ t = .flowEntry ∨ t = .flowSequenceEnd then
                some (Node.absent, { r with tokens := more })
              else nodeAt handles fuel .flow { r with tokens := ts }
          let (value, r) ← flowValue handles fuel .flowSequenceEnd r
          flowItems handles fuel false (.mapping [(key, value)] :: done) r
        | _ => do
          let (item, r) ← nodeAt handles fuel .flow { r with tokens := ts }
          flowItems handles fuel false (item :: done) r
    | [] => none

/-- The value after a key in a flow collection that `last` closes. -/
def flowValue (handles : TagHandles) :
    (fuel : Nat) → (last : Token) → Reading → Option (Node × Reading)
  | 0, _, _ => none
  | fuel + 1, last, r =>
    match r.tokens with
    | [] => none
    | .value :: ts =>
      match ts with
      | [] => none
      | t :: _ =>
        if t = .flowEntry ∨ t = last then some (.absent, { r with tokens := ts })
        else nodeAt handles fuel .flow { r with tokens := ts }
    | _ => some (.absent, r)

/-- The entries of a braced mapping. A node without the mark of a key has no value. -/
def flowEntries (handles : TagHandles) :
    (fuel : Nat) → (first : Bool) → (done : List (Node × Node)) → Reading → Option (Node × Reading)
  | 0, _, _, _ => none
  | fuel + 1, first, done, r =>
    match r.tokens with
    | .flowMappingEnd :: ts => some (.mapping done.reverse, { r with tokens := ts })
    | t :: ts =>
      if !first && t != .flowEntry then none
      else
        let ts := if first then t :: ts else ts
        match ts with
        | .flowMappingEnd :: ts => some (.mapping done.reverse, { r with tokens := ts })
        | .key :: ts => do
          let (key, r) ←
            match ts with
            | [] => none
            | t :: _ =>
              if t = .value ∨ t = .flowEntry ∨ t = .flowMappingEnd then
                some (Node.absent, { r with tokens := ts })
              else nodeAt handles fuel .flow { r with tokens := ts }
          let (value, r) ← flowValue handles fuel .flowMappingEnd r
          flowEntries handles fuel false ((key, value) :: done) r
        | _ => do
          let (key, r) ← nodeAt handles fuel .flow { r with tokens := ts }
          -- what follows must be there, though it is looked at later
          if r.tokens = [] then none
          else flowEntries handles fuel false ((key, .absent) :: done) r
    | [] => none

end

/-- The directives before a document: one version, which must be known, and handles of tags, none
twice. -/
def directives : (versioned : Bool) → TagHandles → List Token → Option (TagHandles × List Token)
  | versioned, handles, .version major minor :: ts =>
    if versioned ∨ major ≠ 1 ∨ minor ≠ 1 then none else directives true handles ts
  | versioned, handles, .tagHandle handle lead :: ts =>
    if Assoc.has handle handles then none else directives versioned (handles ++ [(handle, lead)]) ts
  | _, handles, ts => some (handles, ts)

/-- The content of a document after its mark. -/
def documentContent (handles : TagHandles) (fuel : Nat) (ts : List Token) :
    Option (Node × Reading) :=
  match ts with
  | .version _ _ :: _ => some (.absent, { tokens := ts })
  | .tagHandle _ _ :: _ => some (.absent, { tokens := ts })
  | .documentStart :: _ => some (.absent, { tokens := ts })
  | .documentEnd :: _ => some (.absent, { tokens := ts })
  | .streamEnd :: _ => some (.absent, { tokens := ts })
  | _ => nodeAt handles fuel .item { tokens := ts }

/-- The first document of some tokens, if there is one. -/
def Node.ofTokens (ts : List Token) : Option (Option Node) :=
  let fuel := 3 * ts.length + 4
  let whole (r : Node × Reading) : Option (Option Node) :=
    if r.2.tokens = [] then none else some (some r.1)
  match directives false [] ts with
  | none => none
  | some (handles, rest) =>
    let handles := handles ++ standardHandles
    match rest with
    | .documentStart :: content => (documentContent handles fuel content).bind whole
    | .streamEnd :: _ => if rest.length = ts.length then some none else none
    | _ =>
      if rest.length = ts.length then (nodeAt handles fuel .item { tokens := ts }).bind whole else none

/-- The first document of a text; `none` when the text is malformed, and nothing when it is
empty. -/
def parse (text : Bytes) : Option (Option Node) :=
  match characters text with
  | none => none
  | some cs => Node.ofTokens (Token.scan cs)

end Stencil.Yaml
