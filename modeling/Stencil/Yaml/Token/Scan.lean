import Stencil.Yaml.Token.Property
import Stencil.Yaml.Token.Scalar

/-!
# Scanning of YAML

How a text is cut into tokens. That something is a key shows only at the colon after it, so a
scanner remembers where a key may have started and puts the token for it there later. Tokens are
handed out in order; each is held back as long as it may turn out to start a key, and two more
tokens are always looked at ahead of it.

A key that is written without a mark ends in the line where it starts, within 1024 characters.
-/
namespace Stencil.Yaml

/-- Where a key may have started. -/
structure KeyPlace where
  possible : Bool := false
  /-- Nothing but a key can stand there. -/
  required : Bool := false
  /-- The number of the token there, counted from the start of the text. -/
  number : Nat := 0
  line : Nat := 0
  column : Nat := 0
  deriving DecidableEq

/-- The greatest distance from the start of a key to its colon. -/
def maxKeyLength : Nat := 1024

/-- How deep collections may be nested. -/
def maxNesting : Nat := 10000

/-- A key that started at the place cannot end here any more. -/
def KeyPlace.isStale (k : KeyPlace) (here : Cursor) : Bool :=
  decide (k.line < here.line) || decide (k.column + maxKeyLength < here.column)

/-- A text that is being scanned. -/
structure Scanner where
  here : Cursor
  /-- Tokens that were not handed out yet. -/
  queue : List Token := []
  /-- How many tokens were handed out. -/
  taken : Nat := 0
  /-- One place for each open flow collection and one for the block around them, innermost
  first. -/
  places : List KeyPlace := [{}]
  /-- The numbers of the tokens that are held back. -/
  held : List Nat := []
  /-- The column of the innermost block collection. -/
  indent : Int := -1
  /-- The columns of the block collections around it. -/
  outer : List Int := []
  keyAllowed : Bool := true

namespace Scanner

/-- How many flow collections are open. -/
def flowLevel (s : Scanner) : Nat := s.places.length - 1

def inFlow (s : Scanner) : Bool := decide (0 < s.flowLevel)

/-- The number of the next token. -/
def nextNumber (s : Scanner) : Nat := s.taken + s.queue.length

def push (t : Token) (s : Scanner) : Scanner := { s with queue := s.queue ++ [t] }

/-- Puts a token before the one with a number; after all when that was handed out already. -/
def insert (number : Nat) (t : Token) (s : Scanner) : Scanner :=
  if number < s.taken then s.push t
  else
    let i := number - s.taken
    { s with queue := s.queue.take i ++ t :: s.queue.drop i }

/-- Puts a token where the scanner stands and goes on after `n` characters. -/
def take (n : Nat) (t : Token) (s : Scanner) : Scanner :=
  { s with here := s.here.advance n }.push t

/-! ### Keys -/

/-- The place of the innermost collection. -/
def place (s : Scanner) : KeyPlace := s.places.headD {}

def setPlace (k : KeyPlace) (s : Scanner) : Scanner := { s with places := k :: s.places.drop 1 }

/-- There will be no key at the innermost place. -/
def forgetKey (s : Scanner) : Scanner :=
  { s.setPlace { s.place with possible := false } with held := s.held.erase s.place.number }

/-- Gives up the innermost place, unless a key is required there. -/
def dropKey (s : Scanner) : Option Scanner :=
  if !s.place.possible then some s
  else if s.place.required then none
  else some s.forgetKey

/-- Notes that a key may start here. -/
def saveKey (s : Scanner) : Option Scanner :=
  if s.keyAllowed then
    s.dropKey.map fun t =>
      { t.setPlace
          { possible := true
            required := !s.inFlow && decide (s.indent = s.here.column)
            number := s.nextNumber
            line := s.here.line
            column := s.here.column } with
        held := s.nextNumber :: t.held }
  else some s

/-! ### Indentation -/

/-- Opens a block collection at a column, if it is further in. -/
def roll (column : Nat) (number? : Option Nat) (t : Token) (s : Scanner) : Option Scanner :=
  if s.inFlow ∨ (column : Int) ≤ s.indent then some s
  else if maxNesting < s.outer.length + 1 then none
  else
    let s := { s with indent := column, outer := s.indent :: s.outer }
    some (match number? with
      | some number => s.insert number t
      | none => s.push t)

/-- The innermost column at most `column`, the ones around it, and how many were left. -/
def leave (column : Int) : (indent : Int) → (outer : List Int) → Int × List Int × Nat
  | indent, [] => (indent, [], 0)
  | indent, next :: outer =>
    if column < indent then
      let (i, o, n) := leave column next outer
      (i, o, n + 1)
    else (indent, next :: outer, 0)

/-- Closes the block collections that are further in than a column. -/
def unroll (column : Int) (s : Scanner) : Scanner :=
  if s.inFlow then s
  else
    let (indent, outer, n) := leave column s.indent s.outer
    { s with indent, outer, queue := s.queue ++ List.replicate n .blockEnd }

/-! ### Between tokens -/

/-- A comment follows blanks and line breaks. -/
def commentFollows (s : List Char) : Bool :=
  (s.dropWhile fun c => isBlank c || c == '\n').head? == some '#'

/-- Passes blanks, comments and line breaks. A tab counts as a blank where no key is allowed, in
flow collections, and, when `loose`, before the next of several comments. After a line break a key
is allowed in a block. -/
def skipFrom (inFlow : Bool) : (comment loose keyAllowed : Bool) → (line column : Nat) → List Char →
    Bool × Cursor
  | _, _, keyAllowed, line, column, [] => (keyAllowed, ⟨[], line, column⟩)
  | comment, loose, keyAllowed, line, column, c :: cs =>
    if isBreak c then
      skipFrom inFlow false (if comment then c == '\n' && commentFollows cs else loose)
        (keyAllowed || !inFlow) (line + 1) 0 cs
    else if comment then skipFrom inFlow true false keyAllowed line (column + 1) cs
    else if c = ' ' ∨ (c = '\t' ∧ (inFlow ∨ !keyAllowed ∨ loose)) then
      skipFrom inFlow false loose keyAllowed line (column + 1) cs
    else if c = '#' then skipFrom inFlow true false keyAllowed line (column + 1) cs
    else (keyAllowed, ⟨c :: cs, line, column⟩)

/-- Goes on to the next token. -/
def skip (s : Scanner) : Scanner :=
  let (keyAllowed, here) :=
    skipFrom s.inFlow false false s.keyAllowed s.here.line s.here.column s.here.rest
  { s with keyAllowed, here }

/-! ### Tokens -/

/-- Closes all block collections; no key can be open across a bound of documents. -/
def bound (s : Scanner) : Option Scanner :=
  ((s.unroll (-1)).dropKey).map fun s => { s with keyAllowed := false }

def fetchEnd (s : Scanner) : Option Scanner :=
  let here := if s.here.column = 0 then s.here else { s.here with line := s.here.line + 1, column := 0 }
  ({ s with here }.bound).map (push .streamEnd)

def fetchDirective (s : Scanner) : Option Scanner := do
  let s ← s.bound
  let (token, here) ← directive (s.here.advance 1)
  return { s with here }.push token

def fetchMark (t : Token) (s : Scanner) : Option Scanner := s.bound.map (take 3 t)

def openFlow (t : Token) (s : Scanner) : Option Scanner := do
  let number := s.nextNumber
  let s ← s.saveKey
  if maxNesting < s.flowLevel + 1 then none
  let opened := { s with
    places := { number, line := s.here.line, column := s.here.column } :: s.places
    keyAllowed := true }
  return opened.take 1 t

def closeFlow (t : Token) (s : Scanner) : Option Scanner := do
  let s ← s.dropKey
  let s :=
    if s.inFlow then { s with places := s.places.drop 1, held := s.held.erase s.place.number } else s
  return { s with keyAllowed := false }.take 1 t

def fetchFlowEntry (s : Scanner) : Option Scanner :=
  s.dropKey.map fun s => { s with keyAllowed := true }.take 1 .flowEntry

def fetchBlockEntry (s : Scanner) : Option Scanner := do
  if !s.inFlow && !s.keyAllowed then none
  let s ← s.roll s.here.column none .blockSequenceStart
  let s ← s.dropKey
  return { s with keyAllowed := true }.take 1 .blockEntry

def fetchKey (s : Scanner) : Option Scanner := do
  if !s.inFlow && !s.keyAllowed then none
  let s ← s.roll s.here.column none .blockMappingStart
  let s ← s.dropKey
  return { s with keyAllowed := !s.inFlow }.take 1 .key

/-- A colon: it makes a key of what may be one, or follows a key that was marked. -/
def fetchValue (s : Scanner) : Option Scanner := do
  let k := s.place
  if k.possible ∧ !k.isStale s.here then
    let s ← (s.insert k.number .key).roll k.column (some k.number) .blockMappingStart
    return { s.forgetKey with keyAllowed := false }.take 1 .value
  else
    let s ← if k.possible then s.dropKey else some s
    if !s.inFlow && !s.keyAllowed then none
    let s ← s.roll s.here.column none .blockMappingStart
    return { s with keyAllowed := !s.inFlow }.take 1 .value

/-- An anchor or an alias after its sign. -/
def fetchAnchor (make : Bytes → Token) (s : Scanner) : Option Scanner := do
  let s ← s.saveKey
  let start := s.here.advance 1
  let (name, rest) ← anchorName start.rest
  return { s with keyAllowed := false, here := start.moveTo rest }.push (make name)

def fetchTag (s : Scanner) : Option Scanner := do
  let s ← s.saveKey
  let (token, rest) ← tagToken s.here.rest
  return { s with keyAllowed := false, here := s.here.moveTo rest }.push token

def fetchBlockScalar (literal : Bool) (s : Scanner) : Option Scanner := do
  let s ← s.dropKey
  let l ← blockScalar literal s.indent (s.here.advance 1)
  return { s with keyAllowed := true, here := l.after }.push (.scalar false l.text)

/-- A quoted scalar, which `read` reads after its first quote. -/
def fetchQuoted (read : Cursor → Option Lexeme) (s : Scanner) : Option Scanner := do
  let s ← s.saveKey
  let l ← read (s.here.advance 1)
  return { s with keyAllowed := false, here := l.after }.push (.scalar false l.text)

/-- A plain scalar, and whether line breaks were passed after it. -/
def fetchPlain (s : Scanner) : Option (Scanner × Bool) := do
  let s ← s.saveKey
  let l ← plainFrom s.inFlow (s.indent + 1) s.here.line s.here.column [] .none s.here.rest
  return ({ s with keyAllowed := l.crossed, here := l.after }.push (.scalar true l.text), l.crossed)

/-- Passes a comment that follows a token in its line. -/
def skipComment (s : Scanner) : Scanner := { s with here := s.here.skipComment }

def openBraceChar : Char := Char.ofNat 0x7B

def closeBraceChar : Char := Char.ofNat 0x7D

/-- The token that starts with the character `c`. -/
def fetchAt (c : Char) (cs : List Char) (s : Scanner) : Option Scanner :=
  let marked := s.inFlow || atBlank cs
  if c = '[' then (s.openFlow .flowSequenceStart).map skipComment
  else if c = openBraceChar then (s.openFlow .flowMappingStart).map skipComment
  else if c = ']' then (s.closeFlow .flowSequenceEnd).map skipComment
  else if c = closeBraceChar then (s.closeFlow .flowMappingEnd).map skipComment
  else if c = ',' then s.fetchFlowEntry.map skipComment
  else if c = '-' ∧ atBlank cs then s.fetchBlockEntry
  else if c = '?' ∧ marked then s.fetchKey.map skipComment
  else if c = ':' ∧ marked then s.fetchValue.map skipComment
  else if c = '*' then (s.fetchAnchor .alias).map skipComment
  else if c = '&' then (s.fetchAnchor .anchor).map skipComment
  else if c = '!' then s.fetchTag.map skipComment
  else if c = '|' ∧ !s.inFlow then s.fetchBlockScalar true
  else if c = '>' ∧ !s.inFlow then s.fetchBlockScalar false
  else if c = '\'' then
    (s.fetchQuoted fun p => singleFrom p.line p.column [] .none p.rest).map skipComment
  else if c = '"' then
    (s.fetchQuoted fun p => doubleFrom p.line p.column [] .none .none p.rest).map skipComment
  else if startsPlain s.inFlow c cs then
    s.fetchPlain.map fun r => if r.2 then r.1 else r.1.skipComment
  else none

/-- Scans the next token, with those that come before it because of where it stands. -/
def fetch (s : Scanner) : Option Scanner :=
  let s := s.skip
  let s := s.unroll s.here.column
  match s.here.rest with
  | [] => s.fetchEnd
  | c :: cs =>
    if s.here.column = 0 ∧ c = '%' then s.fetchDirective
    else if s.here.column = 0 ∧ atMark '-' (c :: cs) then s.fetchMark .documentStart
    else if s.here.column = 0 ∧ atMark '.' (c :: cs) then s.fetchMark .documentEnd
    else s.fetchAt c cs

/-- Whether the first token of the queue may be handed out; `none` when a key is missing. -/
def ready (s : Scanner) : Option (Bool × Scanner) :=
  if s.queue.length < 3 then some (false, s)
  else if !s.held.contains s.taken then some (true, s)
  else
    let isHolder (k : KeyPlace) : Bool := k.possible && k.number == s.taken
    match s.places.find? isHolder with
    | none => some (true, s)
    | some k =>
      if !k.isStale s.here then some (false, s)
      else if k.required then none
      else some (true, { s with
        places := s.places.map fun k => if isHolder k then { k with possible := false } else k
        held := s.held.erase s.taken })

/-- The tokens from here on, up to the end of the text or to where it is malformed. -/
def tokens : (fuel : Nat) → Scanner → List Token
  | 0, _ => []
  | fuel + 1, s =>
    match s.ready with
    | none => []
    | some (false, s) =>
      match s.fetch with
      | none => []
      | some s => tokens fuel s
    | some (true, s) =>
      match s.queue with
      | [] => []
      | .streamEnd :: _ => [.streamEnd]
      | t :: queue => t :: tokens fuel { s with queue, taken := s.taken + 1 }

end Scanner

/-- The tokens of a text. The last one is the end of the text if all of it is well formed; otherwise
they stop where it is not. A byte order mark at the front is passed over. -/
def Token.scan (cs : List Char) : List Token :=
  let start : Cursor := if cs.head? = some orderMark then ⟨cs.drop 1, 0, 1⟩ else ⟨cs, 0, 0⟩
  Scanner.tokens (8 * cs.length + 32) { here := start }

end Stencil.Yaml
