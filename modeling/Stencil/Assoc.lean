/-!
# Maps as lists of bindings

A finite map is the list of its bindings. The first binding of a key counts; `insert` keeps a
bound key in its place, so a map built by `insert` alone binds each key once and remembers the
order in which the keys came.
-/
namespace Stencil

/-- A finite map. -/
abbrev Assoc (α β : Type) := List (α × β)

namespace Assoc

variable {α β : Type} [DecidableEq α]

def get? (key : α) : Assoc α β → Option β
  | [] => none
  | (k, v) :: rest => if k = key then some v else get? key rest

/-- Rebinds a key in place, or binds it at the end. -/
def insert (key : α) (value : β) : Assoc α β → Assoc α β
  | [] => [(key, value)]
  | (k, v) :: rest => if k = key then (key, value) :: rest else (k, v) :: insert key value rest

def erase (key : α) (m : Assoc α β) : Assoc α β := m.filter fun e => e.1 ≠ key

def has (key : α) (m : Assoc α β) : Bool := (get? key m).isSome

def keys (m : Assoc α β) : List α := m.map (·.1)

/-- The bindings of `m`, then those of `extra` laid over them. -/
def insertAll (m extra : Assoc α β) : Assoc α β := extra.foldl (fun m e => insert e.1 e.2 m) m

@[simp] theorem get?_insert_self (key : α) (value : β) (m : Assoc α β) :
    get? key (insert key value m) = some value := by
  induction m with
  | nil => simp [insert, get?]
  | cons e rest ih =>
    obtain ⟨k, v⟩ := e
    by_cases h : k = key <;> simp [insert, get?, h, ih]

theorem get?_insert_ne {key other : α} (h : other ≠ key) (value : β) (m : Assoc α β) :
    get? other (insert key value m) = get? other m := by
  induction m with
  | nil => simp [insert, get?, h.symm]
  | cons e rest ih =>
    obtain ⟨k, v⟩ := e
    by_cases hk : k = key
    · subst hk; simp [insert, get?, h.symm]
    · simp only [insert, hk, if_false, get?, ih]

end Assoc

end Stencil
