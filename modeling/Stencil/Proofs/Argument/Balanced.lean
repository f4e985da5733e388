import Stencil.Argument.Scan

/-! # Balanced argument text

Argument text whose brackets match and whose string literals have an end, as a grammar. The scanner
reads over it as over nothing (`Balanced.closingFrom_append`), and stops at a closing bracket only. -/

namespace Stencil.Argument

/-- The inside of a string literal. -/
inductive Quoted (quote : UInt8) : Bytes → Prop
  | nil : Quoted quote []
  | byte {c : UInt8} {s : Bytes} (hc : c ≠ quote) (hescape : c = ascii '\\' → quote = backquote)
      (rest : Quoted quote s) : Quoted quote (c :: s)
  | escaped {c : UInt8} {s : Bytes} (hquote : quote ≠ backquote) (rest : Quoted quote s) :
      Quoted quote (ascii '\\' :: c :: s)

/-- Plain bytes, string literals, and balanced text in brackets. -/
inductive Balanced : Bytes → Prop
  | nil : Balanced []
  | byte {c : UInt8} {s : Bytes} (hquote : isQuote c = false) (hopen : closer? c = none) (hclose : isCloser c = false)
      (rest : Balanced s) : Balanced (c :: s)
  | string {c : UInt8} {inside s : Bytes} (hquote : isQuote c = true) (hinside : Quoted c inside) (rest : Balanced s) :
      Balanced (c :: (inside ++ c :: s))
  | group {c close : UInt8} {inside s : Bytes} (hopen : closer? c = some close) (hinside : Balanced inside)
      (rest : Balanced s) : Balanced (c :: (inside ++ close :: s))

/-! ### Brackets -/

theorem isCloser_of_closer? {c close : UInt8} (h : closer? c = some close) :
    isQuote c = false ∧ isQuote close = false ∧ closer? close = none ∧ isCloser close = true := by
  unfold closer? at h
  split at h
  · rename_i hc
    cases h
    rw [hc]
    decide
  split at h
  · rename_i hc
    cases h
    rw [hc]
    decide
  split at h
  · rename_i hc
    cases h
    rw [hc]
    decide
  · cases h

/-! ### Reading -/

section
variable {top : UInt8} {below : List UInt8}

theorem closingFrom_plain (top : UInt8) (below : List UInt8) (i : Nat) (c : UInt8) (cs : Bytes) :
    closingFrom top below .plain i (c :: cs) =
      if isQuote c then closingFrom top below (.string c) (i + 1) cs
      else match closer? c with
        | some close => closingFrom close (top :: below) .plain (i + 1) cs
        | none =>
          if isCloser c then
            if c = top then
              match below with
              | [] => .ok i
              | next :: outer => closingFrom next outer .plain (i + 1) cs
            else .error (.unexpected c i)
          else closingFrom top below .plain (i + 1) cs := by
  cases below <;> rfl

theorem Mode.inString_self {quote : UInt8} (hquote : isQuote quote = true) : Mode.inString quote quote = .plain := by
  unfold Mode.inString
  split
  · rename_i hescape
    rw [hescape.1] at hquote
    cases hquote
  · exact if_pos rfl

theorem Mode.inString_byte {quote c : UInt8} (hc : c ≠ quote) (hescape : c = ascii '\\' → quote = backquote) :
    Mode.inString quote c = .string quote := by
  unfold Mode.inString
  rw [if_neg (fun h => h.2 (hescape h.1)), if_neg hc]

theorem Mode.inString_backslash {quote : UInt8} (hquote : quote ≠ backquote) :
    Mode.inString quote (ascii '\\') = .escape quote := by
  unfold Mode.inString
  rw [if_pos ⟨rfl, hquote⟩]

theorem Quoted.closingFrom_append {quote : UInt8} {s : Bytes} (h : Quoted quote s) (hquote : isQuote quote = true)
    (i : Nat) (rest : Bytes) :
    closingFrom top below (.string quote) i (s ++ quote :: rest) =
      closingFrom top below .plain (i + s.length + 1) rest := by
  induction h generalizing i with
  | nil =>
    rw [List.nil_append, closingFrom, Mode.inString_self hquote]
    rfl
  | @byte c s hc hescape _ ih =>
    rw [List.cons_append, closingFrom, Mode.inString_byte hc hescape, ih, List.length_cons]
    congr 1
    omega
  | @escaped c s hquote _ ih =>
    rw [List.cons_append, List.cons_append, closingFrom, Mode.inString_backslash hquote, closingFrom, ih,
      List.length_cons, List.length_cons]
    congr 1
    omega

/-- Reading goes over balanced text. -/
theorem Balanced.closingFrom_append {s : Bytes} (h : Balanced s) (top : UInt8) (below : List UInt8) (i : Nat)
    (rest : Bytes) :
    closingFrom top below .plain i (s ++ rest) = closingFrom top below .plain (i + s.length) rest := by
  induction h generalizing top below i rest with
  | nil => rfl
  | @byte c s hquote hopen hclose _ ih =>
    rw [List.cons_append, closingFrom_plain]
    simp only [hquote, hopen, hclose, Bool.false_eq_true, if_false]
    rw [ih, List.length_cons]
    congr 1
    omega
  | @string c inside s hquote hinside _ ih =>
    rw [List.cons_append, closingFrom_plain, if_pos hquote, List.append_assoc, List.cons_append,
      hinside.closingFrom_append hquote, ih]
    congr 1
    simp only [List.length_cons, List.length_append]
    omega
  | @group c close inside s hopen _ _ ihInside ih =>
    obtain ⟨hquote, hquote', hopen', hclose⟩ := isCloser_of_closer? hopen
    rw [List.cons_append, closingFrom_plain]
    simp only [hquote, hopen, Bool.false_eq_true, if_false]
    rw [List.append_assoc, List.cons_append, ihInside, closingFrom_plain]
    simp only [hquote', hopen', hclose, Bool.false_eq_true, if_false, if_true]
    rw [ih]
    congr 1
    simp only [List.length_cons, List.length_append]
    omega

/-- Balanced text ends at the bracket after it. -/
theorem Balanced.closingFrom_eq {s : Bytes} (h : Balanced s) (i : Nat) (rest : Bytes) :
    closingFrom (ascii ')') [] .plain i (s ++ ascii ')' :: rest) = .ok (i + s.length) := by
  rw [h.closingFrom_append, closingFrom_plain, if_neg (by decide)]
  rfl

/-- Reading ends at the last of the brackets that were wanted. -/
theorem exists_of_closingFrom {mode : Mode} {i k : Nat} {s : Bytes} (h : closingFrom top below mode i s = .ok k) :
    ∃ a b, s = a ++ (top :: below).getLast (List.cons_ne_nil _ _) :: b ∧ k = i + a.length := by
  -- a byte that is read over stands in front of what comes after it
  have hstep : ∀ {top below i k c} {s : Bytes},
      (∃ a b, s = a ++ (top :: below).getLast (List.cons_ne_nil top below) :: b ∧ k = i + 1 + a.length) →
      ∃ a b, c :: s = a ++ (top :: below).getLast (List.cons_ne_nil top below) :: b ∧ k = i + a.length := by
    rintro top below i k c s ⟨a, b, rfl, rfl⟩
    exact ⟨c :: a, b, rfl, by rw [List.length_cons]; omega⟩
  induction s generalizing top below mode i with
  | nil => cases mode <;> cases h
  | cons c s ih =>
    cases mode with
    | string q => exact hstep (ih h)
    | escape q => exact hstep (ih h)
    | plain =>
      rw [closingFrom_plain] at h
      split at h
      · exact hstep (ih h)
      split at h
      · rename_i close hopen
        exact hstep (by simpa using ih h)
      split at h
      · split at h
        · rename_i hc
          cases below with
          | nil =>
            cases h
            exact ⟨[], s, by rw [hc]; rfl, rfl⟩
          | cons next outer => exact hstep (by simpa using ih h)
        · cases h
      · exact hstep (ih h)

end

end Stencil.Argument
