import Stencil.Argument.Read
import Stencil.Proofs.Argument.Splitting

/-! # String literals as they are written

A text between quotes, with a backslash before each backslash and each such quote, is one string literal with that
text as its content (`unquote?_quoted`), and nothing in it means anything to the scanners. -/

namespace Stencil.Argument

/-- What stands between two quotes for a text. -/
def escaped (quote : UInt8) : Bytes → Bytes
  | [] => []
  | c :: s => if c = ascii '\\' ∨ c = quote then ascii '\\' :: c :: escaped quote s else c :: escaped quote s

/-- The string literal of a text. -/
def quoted (quote : UInt8) (s : Bytes) : Bytes := quote :: (escaped quote s ++ [quote])

section
variable {quote : UInt8}

theorem quoted_escaped (hquote : quote ≠ backquote) (s : Bytes) : Quoted quote (escaped quote s) := by
  induction s with
  | nil => exact .nil
  | cons c s ih =>
    rw [escaped]
    split
    · exact .escaped hquote ih
    · rename_i hc
      exact .byte (fun h => hc (.inr h)) (fun h => absurd (.inl h) hc) ih

theorem Quoted.afterLiteral_append {s : Bytes} (h : Quoted quote s) (hquote : isQuote quote = true) (rest : Bytes) :
    afterLiteral quote false (s ++ quote :: rest) = some rest := by
  induction h with
  | nil => rw [List.nil_append, afterLiteral, Mode.inString_self hquote]
  | byte hc hescape _ ih => rw [List.cons_append, afterLiteral, Mode.inString_byte hc hescape, ih]
  | escaped hbackquote _ ih =>
    rw [List.cons_append, List.cons_append, afterLiteral, Mode.inString_backslash hbackquote, afterLiteral, ih]

theorem unescape_cons {c : UInt8} (hc : c ≠ ascii '\\') (s : Bytes) : unescape (c :: s) = c :: unescape s := by
  cases s with
  | nil => rfl
  | cons d s => rw [unescape, if_neg hc]

theorem unescape_escaped (hquote : isQuote quote = true) (s : Bytes) : unescape (escaped quote s) = s := by
  induction s with
  | nil => rfl
  | cons c s ih =>
    rw [escaped]
    split
    · rename_i hc
      have hliteral : c ≠ ascii 'n' ∧ c ≠ ascii 't' ∧ c ≠ ascii 'r' := by
        rcases hc with rfl | rfl
        · decide
        · refine ⟨?_, ?_, ?_⟩ <;> rintro rfl <;> cases hquote
      obtain ⟨hn, ht, hr⟩ := hliteral
      rw [unescape, if_pos rfl, if_neg hn, if_neg ht, if_neg hr, ih]
    · rename_i hc
      rw [unescape_cons (fun h => hc (.inl h)), ih]

theorem unquote?_quoted (hquote : isQuote quote = true) (hbackquote : quote ≠ backquote) (s : Bytes) :
    unquote? (quoted quote s) = some s := by
  have hliteral : isLiteral (quoted quote s) = true := by
    rw [quoted, isLiteral, (quoted_escaped hbackquote s).afterLiteral_append hquote, hquote]
    rfl
  rw [quoted] at hliteral ⊢
  rw [unquote?, if_pos hliteral, if_neg hbackquote, List.dropLast_concat, unescape_escaped hquote]

theorem separate_quoted (hquote : isQuote quote = true) (hbackquote : quote ≠ backquote) (s : Bytes) :
    Separate (quoted quote s) :=
  .string hquote (quoted_escaped hbackquote s) .nil

end

/-! ### Arguments -/

/-- A text as an argument: the quotes that it is written in, and the blanks around them. -/
structure StringArgument where
  text : Bytes
  quote : UInt8
  isQuote : quote = ascii '\'' ∨ quote = ascii '"'
  before : Bytes := []
  isBlankBefore : Text.isBlank before = true := by rfl
  after : Bytes := []
  isBlankAfter : Text.isBlank after = true := by rfl

namespace StringArgument

def literal (a : StringArgument) : Bytes := quoted a.quote a.text

def written (a : StringArgument) : Bytes := a.before ++ a.literal ++ a.after

/-- The argument list of some texts. -/
def list (args : List StringArgument) : Bytes := Bytes.join [ascii ','] (args.map written)

variable (a : StringArgument)

theorem of_quote {P : UInt8 → Prop} (hsingle : P (ascii '\'')) (hdouble : P (ascii '"')) : P a.quote := by
  rcases a.isQuote with h | h
  · rwa [h]
  · rwa [h]

theorem isQuote_quote : Argument.isQuote a.quote = true :=
  a.of_quote (P := fun c => Argument.isQuote c = true) rfl rfl

theorem quote_ne_backquote : a.quote ≠ backquote := a.of_quote (P := (· ≠ backquote)) (by decide) (by decide)

theorem unquote?_literal : unquote? a.literal = some a.text :=
  unquote?_quoted a.isQuote_quote a.quote_ne_backquote a.text

theorem separate_written : Separate a.written :=
  ((Separate.of_blank a.isBlankBefore).append (separate_quoted a.isQuote_quote a.quote_ne_backquote a.text)).append
    (.of_blank a.isBlankAfter)

theorem trim_written : Text.trim a.written = a.literal := by
  have hends : Text.trim a.literal = a.literal := by
    obtain ⟨hascii, hvisible⟩ :=
      a.of_quote (P := fun c => c < 0x80 ∧ Text.isAsciiBlank c = false) (by decide) (by decide)
    refine Text.trim_of_ends hascii hvisible rfl ?_
    rw [literal, quoted, ← List.cons_append, List.getLast?_concat]
  rw [written, Text.trim_surrounded a.isBlankBefore a.isBlankAfter, hends]

theorem separate_of_mem (args : List StringArgument) : ∀ p ∈ args.map written, Separate p := by
  intro p hp
  obtain ⟨a, -, rfl⟩ := List.mem_map.mp hp
  exact a.separate_written

theorem balanced_list (args : List StringArgument) : Balanced (list args) := balanced_join (separate_of_mem args)

theorem split_list {args : List StringArgument} (hargs : args ≠ []) : split (list args) = .ok (args.map literal) := by
  cases args with
  | nil => exact absurd rfl hargs
  | cons a args =>
    have hblank : Text.isBlank (list (a :: args)) = false := by
      have hmem : a.quote ∈ list (a :: args) := by
        cases args <;> simp [list, Bytes.join, written, literal, quoted]
      rw [Bool.eq_false_iff]
      intro hblank
      exact Bool.false_ne_true ((isInert_of_blank hblank hmem).quote.symm.trans a.isQuote_quote)
    have hseparate : ∀ p ∈ a.written :: args.map written, Separate p := separate_of_mem (a :: args)
    rw [split, if_neg (by simp [hblank]), list, List.map_cons, splitFrom_join hseparate, ← List.map_cons, List.map_map]
    congr 1
    exact List.map_congr_left fun a _ => a.trim_written

end StringArgument

/-! ### Binding -/

theorem firstMissing_eq_none {schema : Schema} {args : List Bytes} (hgiven : ∀ arg ∈ args, arg ≠ [])
    (hrest : ∀ p ∈ schema.drop args.length, p.required = false) : firstMissing schema args = none := by
  induction schema generalizing args with
  | nil => rfl
  | cons p ps ih =>
    cases args with
    | nil =>
      obtain ⟨hp, hps⟩ := List.forall_mem_cons.mp hrest
      rw [firstMissing, if_neg (by simp [hp])]
      exact ih nofun hps
    | cons arg args =>
      obtain ⟨harg, hgiven⟩ := List.forall_mem_cons.mp hgiven
      rw [firstMissing, if_neg (fun h => harg h.2)]
      exact ih hgiven hrest

theorem exists_of_firstMissing {schema : Schema} {args : List Bytes} {p : Param}
    (h : firstMissing schema args = some p) :
    ∃ i : Nat, schema[i]? = some p ∧ p.required = true ∧ args[i]?.getD [] = [] := by
  induction schema generalizing args with
  | nil => cases h
  | cons q qs ih =>
    rw [firstMissing] at h
    split at h
    · rename_i hq
      cases h
      refine ⟨0, rfl, hq.1, ?_⟩
      rw [← hq.2]
      cases args <;> rfl
    · obtain ⟨i, hp, hrequired, hi⟩ := ih h
      refine ⟨i + 1, hp, hrequired, ?_⟩
      rwa [List.getElem?_drop, Nat.add_comm] at hi

/-- An argument list that can be split is refused for its number of arguments or for an argument that it lacks. -/
theorem read_error_cases {raw : Bytes} {args : List Bytes} (hsplit : split raw = .ok args) {schema : Schema}
    {e : ReadError} (h : read raw schema = .error e) :
    (schema.length < args.length ∧ e = .tooMany args.length schema.length) ∨
      ∃ (i : Nat) (p : Param), schema[i]? = some p ∧ p.required = true ∧ args[i]?.getD [] = [] ∧ e = .missing p.name := by
  simp only [Argument.read, hsplit, Except.mapError, bind, Except.bind] at h
  split at h
  · split at h
    · rename_i hmany
      cases h
      exact .inl ⟨hmany, rfl⟩
    split at h
    · rename_i p hp
      cases h
      obtain ⟨i, hi, hrequired, harg⟩ := exists_of_firstMissing hp
      exact .inr ⟨i, p, hi, hrequired, harg, rfl⟩
    · cases h
  · cases h

/-- A parameter has the first place among those with its name. -/
theorem findIdx?_name {schema : Schema} {n i : Nat} (hdistinct : ((schema.take n).map (·.name)).Nodup) (hi : i < n)
    (hlen : i < schema.length) : schema.findIdx? (fun p => p.name == schema[i].name) = some i := by
  rw [List.findIdx?_eq_some_iff_getElem]
  refine ⟨hlen, beq_self_eq_true _, ?_⟩
  intro j hj heq
  have hne := List.pairwise_iff_getElem.mp hdistinct j i (by simp; omega) (by simp; omega) hj
  simp only [List.getElem_map, List.getElem_take] at hne
  exact hne (beq_iff_eq.mp heq)

/-- The texts of an argument list are bound to the parameters in order. -/
theorem read_list {args : List StringArgument} (hargs : args ≠ []) {schema : Schema}
    (hlen : args.length ≤ schema.length)
    (hdistinct : ((schema.take args.length).map (·.name)).Nodup)
    (hrest : ∀ p ∈ schema.drop args.length, p.required = false) :
    ∃ a, read (Text.trim (StringArgument.list args)) schema = .ok a ∧
      ∀ i (hi : i < args.length), a.string schema[i].name = .ok args[i].text := by
  have hsplit : (split (Text.trim (StringArgument.list args))).mapError ReadError.scan =
      .ok (args.map StringArgument.literal) := by
    rw [split_trim (StringArgument.split_list hargs)]
    rfl
  have hgiven : ∀ arg ∈ args.map StringArgument.literal, arg ≠ [] := by
    intro arg harg
    obtain ⟨a, -, rfl⟩ := List.mem_map.mp harg
    exact List.cons_ne_nil _ _
  have hmissing : firstMissing schema (args.map StringArgument.literal) = none :=
    firstMissing_eq_none hgiven (by rwa [List.length_map])
  refine ⟨⟨Text.trim (Text.trim (StringArgument.list args)), args.map StringArgument.literal, schema⟩, ?_, ?_⟩
  · simp only [read, hsplit, bind, Except.bind, List.length_map, hmissing, if_neg (Nat.not_lt.mpr hlen)]
    split <;> rfl
  · intro i hi
    have hi' : i < schema.length := by omega
    have hindex := findIdx?_name hdistinct hi hi'
    have hsome : (schema.find? (fun p => p.name == schema[i].name)).isSome = true :=
      List.find?_isSome.mpr ⟨schema[i], List.getElem_mem hi', beq_self_eq_true schema[i].name⟩
    obtain ⟨p, hp⟩ := Option.isSome_iff_exists.mp hsome
    have hraw : (args.map StringArgument.literal)[i]?.getD [] = args[i].literal := by simp [hi]
    have hne : args[i].literal ≠ [] := List.cons_ne_nil _ _
    simp only [Arguments.string, Arguments.param, hp, Arguments.raw?, Arguments.indexOf?, hindex, Arguments.arg, hraw,
      if_neg hne, bind, Except.bind, StringArgument.unquote?_literal, Option.getD_some]
    rfl

end Stencil.Argument
