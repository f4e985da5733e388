import Stencil.Text.Bytes

/-!
# Slash-separated paths

A path is a text whose elements stand between slashes. Cleaning gives the shortest path to the same
place by looking at the elements alone: an empty element and `.` stay where they are, and `..` takes
the element before it away. Nothing is above the root, so a cleaned path that starts at the root has
neither empty elements nor `.` nor `..`.
-/
namespace Stencil.Path

/-- The separator of elements. -/
def slash : UInt8 := ascii '/'

/-- The element that stays where it is. -/
def here : Bytes := "."

/-- The element that goes one up. -/
def above : Bytes := ".."

/-- What stands between the slashes, empty elements included. -/
def elements (p : Bytes) : List Bytes := Bytes.splitOn slash p

/-- Goes one element further from a place, which is given by its elements, the last one first. -/
def push (rooted : Bool) (place : List Bytes) (e : Bytes) : List Bytes :=
  if e = [] ∨ e = here then place
  else if e = above then
    match place with
    | [] => if rooted then [] else [above]
    | last :: rest => if last = above then above :: last :: rest else rest
  else e :: place

/-- The elements of the shortest way to the same place. -/
def normal (rooted : Bool) (es : List Bytes) : List Bytes := (es.foldl (push rooted) []).reverse

def isRooted (p : Bytes) : Bool := Bytes.startsWith [slash] p

/-- The shortest path to the same place; `.` for the place itself. -/
def clean (p : Bytes) : Bytes :=
  if isRooted p then slash :: Bytes.join [slash] (normal true (elements p))
  else
    match normal false (elements p) with
    | [] => here
    | es => Bytes.join [slash] es

/-- A path below another one. Empty parts do not count. -/
def join (parts : List Bytes) : Bytes :=
  match parts.filter (· ≠ []) with
  | [] => []
  | parts => clean (Bytes.join [slash] parts)

/-- The path cleaned as if it started at the root, and without the root. -/
def belowRoot (p : Bytes) : Bytes := Bytes.join [slash] (normal true (elements p))

/-- The last element from its last dot on; nothing if it has no dot. -/
def extension (p : Bytes) : Bytes :=
  let name := ((elements p).getLastD []).reverse
  match name.dropWhile (· ≠ ascii '.') with
  | [] => []
  | dot :: _ => dot :: (name.takeWhile (· ≠ ascii '.')).reverse

/-- The last element that is not empty. -/
def base (p : Bytes) : Bytes :=
  if p = [] then here else ((elements p).filter (· ≠ [])).getLastD [slash]

/-- The path without its last element. -/
def parent (p : Bytes) : Bytes :=
  let up := (elements p).dropLast
  if up = [[]] then [slash] else clean (Bytes.join [slash] up)

end Stencil.Path
