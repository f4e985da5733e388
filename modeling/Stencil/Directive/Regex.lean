import Stencil.Assoc
import Stencil.Text.Utf8

/-!
# Regular expressions

A regular expression over characters, the steps it is turned into, and the search for its
preferred match. Of the ways in which an expression matches at one place the first counts: the
left side of an alternative before the right, more repetitions before fewer. The search tries the
ways in this order and never takes a step twice at one place, so a repetition of nothing ends.
-/
namespace Stencil.Directive

open Stencil.Text

/-- How often a part may occur. -/
inductive Repetition where
  | star
  | plus
  | quest
  deriving DecidableEq, Repr

/-- A condition on a place in a text. -/
inductive Anchor where
  | start
  | stop
  /-- A place between a word character and another one, or (when not `inside`) any other place. -/
  | boundary (inside : Bool)
  deriving DecidableEq, Repr

/-- A regular expression. -/
inductive Regex where
  /-- The empty text. -/
  | empty
  /-- One character inside (or, when `negated`, outside) the ranges. -/
  | set (negated : Bool) (ranges : List (Nat × Nat))
  | anchor (a : Anchor)
  | seq (a b : Regex)
  | alt (a b : Regex)
  /-- Repeated, preferring more (or, when not `greedy`, fewer) times. -/
  | repeated (kind : Repetition) (greedy : Bool) (r : Regex)
  /-- A numbered group, whose text is remembered. -/
  | group (index : Nat) (r : Regex)
  deriving Repr, Inhabited

namespace Regex

/-- Any character but a line feed. -/
def dot : Regex := .set true [(10, 10)]

def literal (n : Nat) : Regex := .set false [(n, n)]

/-- One after the other, as often as given. -/
def copies (r : Regex) : Nat → Regex → Regex
  | 0, last => last
  | n + 1, last => .seq r (copies r n last)

/-- At most `n` times, each time within the one before. -/
def atMost (greedy : Bool) (r : Regex) : Nat → Regex
  | 0 => .empty
  | 1 => .repeated .quest greedy r
  | n + 1 => .repeated .quest greedy (.seq r (atMost greedy r n))

/-- Between `least` and `most` times; without `most` there is no bound. -/
def counted (greedy : Bool) (r : Regex) (least : Nat) (most : Option Nat) : Regex :=
  match most with
  | some most => copies r least (atMost greedy r (most - least))
  | none =>
    if least = 0 then .repeated .star greedy r
    else copies r (least - 1) (.repeated .plus greedy r)

/-- Whether the empty text may match. -/
def nullable : Regex → Bool
  | .empty => true
  | .set _ _ => false
  | .anchor _ => true
  | .seq a b => a.nullable && b.nullable
  | .alt a b => a.nullable || b.nullable
  | .repeated kind _ r => kind != .plus || r.nullable
  | .group _ r => r.nullable

/-- The number of groups. -/
def groupCount : Regex → Nat
  | .seq a b => max a.groupCount b.groupCount
  | .alt a b => max a.groupCount b.groupCount
  | .repeated _ _ r => r.groupCount
  | .group i r => max i r.groupCount
  | _ => 0

end Regex

/-! ### Steps -/

/-- One step of a search. A step that goes on names the place of the next one. -/
inductive RegexStep where
  /-- Reads one character inside (or outside) the ranges. -/
  | set (negated : Bool) (ranges : List (Nat × Nat)) (next : Nat)
  | anchor (a : Anchor) (next : Nat)
  /-- Goes on at one of two places, preferring the first. -/
  | split (first second : Nat)
  /-- Remembers where a group starts or stops. -/
  | note (slot : Nat) (next : Nat)
  | pass (next : Nat)
  | done
  deriving Repr, Inhabited

namespace Regex

/-- A step that prefers going on at `inner`, or (when not `greedy`) at `next`. -/
def choose (greedy : Bool) (inner next : Nat) : RegexStep :=
  if greedy then .split inner next else .split next inner

/-- How many steps an expression is turned into. -/
def size : Regex → Nat
  | .empty => 1
  | .set _ _ => 1
  | .anchor _ => 1
  | .seq a b => a.size + b.size
  | .alt a b => a.size + b.size + 1
  | .repeated .star _ r => if r.nullable then r.size + 2 else r.size + 1
  | .repeated _ _ r => r.size + 1
  | .group _ r => r.size + 2

/-- The steps of an expression. They stand from `base` on, the first one is taken first, and all
ways that match lead to `next`. A part that may be empty and occur any number of times counts as
one that occurs once or more, or not at all. -/
def steps : Regex → (base next : Nat) → List RegexStep
  | .empty, _, next => [.pass next]
  | .set negated ranges, _, next => [.set negated ranges next]
  | .anchor a, _, next => [.anchor a next]
  | .seq a b, base, next => a.steps base (base + a.size) ++ b.steps (base + a.size) next
  | .alt a b, base, next =>
    .split (base + 1) (base + 1 + a.size)
      :: (a.steps (base + 1) next ++ b.steps (base + 1 + a.size) next)
  | .repeated .star greedy r, base, next =>
    if r.nullable then
      choose greedy (base + 1) next
        :: (r.steps (base + 1) (base + 1 + r.size) ++ [choose greedy (base + 1) next])
    else choose greedy (base + 1) next :: r.steps (base + 1) base
  | .repeated .plus greedy r, base, next =>
    r.steps base (base + r.size) ++ [choose greedy base next]
  | .repeated .quest greedy r, base, next => choose greedy (base + 1) next :: r.steps (base + 1) next
  | .group i r, base, next =>
    .note (2 * i) (base + 1)
      :: (r.steps (base + 1) (base + 1 + r.size) ++ [.note (2 * i + 1) next])

/-- An expression takes as many steps as its size says. -/
theorem length_steps (r : Regex) (base next : Nat) : (r.steps base next).length = r.size := by
  induction r generalizing base next with
  | empty => rfl
  | set => rfl
  | anchor => rfl
  | seq a b iha ihb => simp [steps, size, iha, ihb]
  | alt a b iha ihb => simp [steps, size, iha, ihb]
  | repeated kind greedy r ih =>
    cases kind
    · by_cases h : r.nullable = true <;> simp [steps, size, h, ih]
    · simp [steps, size, ih]
    · simp [steps, size, ih]
  | group i r ih => simp [steps, size, ih]

/-- The steps of an expression, with the end behind them. -/
def program (r : Regex) : Array RegexStep := (r.steps 0 r.size ++ [RegexStep.done]).toArray

end Regex

/-! ### Search -/

/-- A way that is being tried: the step that comes next, the place in the text, and where groups
start and stop. -/
structure RegexThread where
  step : Nat
  place : Nat
  slots : Assoc Nat Nat
  deriving Repr

namespace Regex

def holds (negated : Bool) (ranges : List (Nat × Nat)) (n : Nat) : Bool :=
  (ranges.any fun r => r.1 ≤ n && n ≤ r.2) != negated

/-- A letter, a digit or an underscore. -/
def isWordChar (c : Char) : Bool := c.isAlphanum || c == '_'

/-- Whether an anchor holds at a place. -/
def Anchor.holdsAt (text : Array Char) (place : Nat) : Anchor → Bool
  | .start => place == 0
  | .stop => place == text.size
  | .boundary inside =>
    let before := place != 0 && text[place - 1]?.any isWordChar
    let after := text[place]?.any isWordChar
    (before != after) == inside

/-- The ways in which a step goes on, the preferred one first; `none` at the end. -/
def advance (text : Array Char) (t : RegexThread) : RegexStep → Option (List RegexThread)
  | .set negated ranges next =>
    match text[t.place]? with
    | some c =>
      some (if holds negated ranges c.toNat then [{ t with step := next, place := t.place + 1 }]
        else [])
    | none => some []
  | .anchor a next => some (if Anchor.holdsAt text t.place a then [{ t with step := next }] else [])
  | .split first second => some [{ t with step := first }, { t with step := second }]
  | .note slot next =>
    some [{ t with step := next, slots := Assoc.insert slot t.place t.slots }]
  | .pass next => some [{ t with step := next }]
  | .done => none

/-- Tries ways in turn, the preferred one first. A step already taken at a place is not taken there
again. -/
def search (code : Array RegexStep) (text : Array Char) :
    (fuel : Nat) → (taken : Array Bool) → List RegexThread → Option RegexThread
  | 0, _, _ => none
  | _ + 1, _, [] => none
  | fuel + 1, taken, t :: waiting =>
    let mark := t.step * (text.size + 1) + t.place
    if taken.getD mark true then search code text fuel taken waiting
    else
      match advance text t (code.getD t.step .done) with
      | some ways => search code text fuel (taken.setIfInBounds mark true) (ways ++ waiting)
      | none => some t

/-- The preferred way in which an expression matches at the start of a text. Each step is taken at
most once at a place and goes on in at most two ways, so the search is long enough. -/
def findAtStart (r : Regex) (text : Array Char) : Option RegexThread :=
  let code := r.program
  let marks := code.size * (text.size + 1)
  search code text (2 * marks + 2) (Array.replicate marks false) [⟨0, 0, []⟩]

end Regex

end Stencil.Directive
