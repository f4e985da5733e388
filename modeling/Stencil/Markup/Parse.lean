import Stencil.Markup.Outline

/-!
# Reading of templates

A template is read from left to right in pieces: runs of text, interpolations and directive heads.
Each piece starts with the byte at hand and takes a number of the bytes after it. Only an
interpolation without an end and a malformed directive head are errors; unknown or misplaced
directives are recorded on their nodes, and blocks left open end with the template.
-/
namespace Stencil.Markup

open Stencil.Directive

/-- How a template is read. -/
structure ParseOptions where
  /-- Directives without a definition stay literal text. -/
  unknownAsText : Bool := false

/-- A text for the options that change what is read. -/
def ParseOptions.fingerprint (o : ParseOptions) : Bytes :=
  "unknown-as-text=" ++ Bytes.ofBool o.unknownAsText

/-- A piece of a template. -/
inductive Piece where
  | text (value : Bytes)
  | interpolation (expr : Bytes) (escaped : Bool)
  /-- A directive head: its name and the argument text inside its brackets. -/
  | head (name : Bytes) (args : Option Bytes)
  deriving DecidableEq, Repr

def isNameStart (c : UInt8) : Bool := c == ascii '_' || isAsciiLetter c

def isWordByte (c : UInt8) : Bool := isNameStart c || isDigit c

def isNameByte (c : UInt8) : Bool := isWordByte c || c == ascii '-'

/-- The directive name at the front: name bytes without trailing dashes, but one byte at least. -/
def takeName (s : Bytes) : Bytes :=
  let run := s.takeWhile isNameByte
  let body := (run.reverse.dropWhile (· == ascii '-')).reverse
  if body = [] then run.take 1 else body

/-- Bytes that may start something other than text. -/
def isSpecial (c : UInt8) : Bool := c == ascii '@' || c == openBrace

/-- Whether an at sign, with the byte before it and the text after it, starts a directive. One that
is glued to a word does so only when the name is known, so that addresses stay text. -/
def startsDirective (r : Registry) (before : Option UInt8) (rest : Bytes) : Bool :=
  match rest with
  | [] => false
  | c :: _ =>
    isNameStart c &&
      (!(before.any isWordByte) ||
        let name := takeName rest
        name == terminator || r.isPart name || (r.lookup name).isSome)

/-- An error that ends the reading. -/
def syntaxError (path : Bytes) (place : Position) (message : Bytes) : Diagnostic :=
  { kind := .syntaxError, message, path, at? := some place }

/-- The interpolation whose content starts here, and the number of bytes up to its end. -/
def interpolation (close : Bytes) (escaped : Bool) (s : Bytes) : Option (Piece × Nat) :=
  (Bytes.cut close s).map fun r =>
    (.interpolation (Text.trim r.1) escaped, r.1.length + close.length)

/-- The piece at the front of `c :: cs`, and how many bytes of `cs` it takes. `offset` is where it
starts; `before` is the byte before it. The error is a message. -/
def piece (r : Registry) (verbatim : Bool) (offset : Nat) (before : Option UInt8) (c : UInt8)
    (cs : Bytes) : Except Bytes (Piece × Nat) :=
  if c = openBrace ∧ Bytes.startsWith [openBrace] cs then
    match interpolation [closeBrace, closeBrace] true (cs.drop 1) with
    | some (p, n) => .ok (p, 1 + n)
    | none => .error ("unterminated interpolation: missing " ++ Text.quoted [closeBrace, closeBrace])
  else if c = openBrace ∧ Bytes.startsWith "!!" cs then
    match interpolation ("!!" ++ [closeBrace]) false (cs.drop 2) with
    | some (p, n) => .ok (p, 2 + n)
    | none =>
      .error ("unterminated interpolation: missing " ++ Text.quoted ("!!" ++ [closeBrace]))
  else if c = ascii '@' ∧ Bytes.startsWith "@" cs then .ok (.text [c], 1)
  else if verbatim ∧ isSpecial c ∧ ¬ (c = ascii '@' ∧ takeName cs = terminator) then
    .ok (.text [c], 0)
  else if c = ascii '@' ∧ startsDirective r before cs then
    let name := takeName cs
    match cs.drop name.length with
    | d :: ds =>
      if d = ascii '(' then
        let inside := offset + 1 + name.length + 1
        match Argument.closingFrom (ascii ')') [] .plain inside ds with
        | .ok stop =>
          let args := ds.take (stop - inside)
          .ok (.head name (some (Text.trim args)), name.length + 1 + args.length + 1)
        | .error e => .error ("malformed directive head @" ++ name ++ ": " ++ e.message)
      else .ok (.head name none, name.length)
    | [] => .ok (.head name none, name.length)
  else if isSpecial c then .ok (.text [c], 0)
  else
    let run := cs.takeWhile fun d => !isSpecial d
    .ok (.text (c :: run), run.length)

/-- Puts a directive head in its place. `raw` is the head as written. -/
def Outline.addHead (o : Outline) (r : Registry) (options : ParseOptions) (tag : Tag) (raw : Bytes) :
    Outline :=
  if tag.name = terminator then
    match o.blocks with
    | [] => o.push (.directive { tag with problem := .strayTerminator } [])
    | _ :: _ => o.closeTop tag.span.stop false
  else
    match o.blocks.head?.bind fun b => (b.partFor tag.name).map (b, ·) with
    | some (b, inner, d) => { o with blocks := b.addPart inner tag d :: o.blocks.drop 1 }
    | none =>
      match r.lookup tag.name with
      | some d =>
        if d.block then { o with blocks := ⟨Link.ofTag tag d [], []⟩ :: o.blocks }
        else o.push (.directive tag [])
      | none =>
        if options.unknownAsText then o.pushText raw tag.span
        else
          let problem := if r.isPart tag.name then .misplaced else .unknown
          o.push (.directive { tag with problem } [])

/-- Puts a piece in its place. -/
def Outline.add (o : Outline) (r : Registry) (options : ParseOptions) (lines : LineTable)
    (start : Nat) (raw : Bytes) : Piece → Outline
  | .text value => o.pushText value (lines.span start (start + value.length))
  | .interpolation expr escaped =>
    o.push (.interpolation expr escaped (lines.span start (start + raw.length)))
  | .head name args =>
    o.addHead r options { name, args, span := lines.span start (start + raw.length) } raw

/-- Reads the rest of a template from `offset` on. -/
def parseFrom (r : Registry) (options : ParseOptions) (path : Bytes) (lines : LineTable)
    (o : Outline) (offset : Nat) (before : Option UInt8) :
    (rest : Bytes) → Except Diagnostic Outline
  | [] => .ok o
  | c :: cs =>
    match piece r o.verbatim offset before c cs with
    | .error message => .error (syntaxError path (lines.position offset) message)
    | .ok (p, n) =>
      let raw := c :: cs.take n
      parseFrom r options path lines (o.add r options lines offset raw p) (offset + raw.length)
        raw.getLast? (cs.drop n)
termination_by rest => rest.length

/-- Reads a template; `path` is its name in errors. -/
def parse (r : Registry) (options : ParseOptions) (path src : Bytes) :
    Except Diagnostic (List Node) :=
  let lines := LineTable.ofText src
  match parseFrom r options path lines {} 0 none src with
  | .ok o => .ok (o.nodes (lines.position src.length))
  | .error d => .error d

end Stencil.Markup
