import Stencil.Proofs.Argument.Groups
import Stencil.Proofs.Text.Pieces

/-! # Splitting of argument lists

The splitter goes over balanced text as the search for a closing bracket does, and takes no other text
(`closingFrom_of_splitFrom`). A list of pieces that hide their commas is split into these pieces (`splitFrom_join`),
balanced text is such a list (`Balanced.exists_pieces`), and blanks around a whole list make no difference
(`split_trim`). So splitting undoes joining with commas, and the other way round up to blanks (`split_join`). -/

namespace Stencil.Argument

/-- Balanced text in which every comma stands in a string literal or in brackets. -/
inductive Separate : Bytes → Prop
  | nil : Separate []
  | byte {c : UInt8} {s : Bytes} (hquote : isQuote c = false) (hopen : closer? c = none) (hclose : isCloser c = false)
      (hcomma : c ≠ ascii ',') (rest : Separate s) : Separate (c :: s)
  | string {c : UInt8} {inside s : Bytes} (hquote : isQuote c = true) (hinside : Quoted c inside) (rest : Separate s) :
      Separate (c :: (inside ++ c :: s))
  | group {c close : UInt8} {inside s : Bytes} (hopen : closer? c = some close) (hinside : Balanced inside)
      (rest : Separate s) : Separate (c :: (inside ++ close :: s))

theorem Balanced.append {s t : Bytes} (hs : Balanced s) (ht : Balanced t) : Balanced (s ++ t) := by
  induction hs with
  | nil => exact ht
  | byte hquote hopen hclose _ ih => exact .byte hquote hopen hclose ih
  | string hquote hinside _ ih =>
    rw [List.cons_append, List.append_assoc, List.cons_append]
    exact .string hquote hinside ih
  | group hopen hinside _ _ ih =>
    rw [List.cons_append, List.append_assoc, List.cons_append]
    exact .group hopen hinside ih

theorem Separate.append {s t : Bytes} (hs : Separate s) (ht : Separate t) : Separate (s ++ t) := by
  induction hs with
  | nil => exact ht
  | byte hquote hopen hclose hcomma _ ih => exact .byte hquote hopen hclose hcomma ih
  | string hquote hinside _ ih =>
    rw [List.cons_append, List.append_assoc, List.cons_append]
    exact .string hquote hinside ih
  | group hopen hinside _ ih =>
    rw [List.cons_append, List.append_assoc, List.cons_append]
    exact .group hopen hinside ih

theorem Separate.balanced {s : Bytes} (h : Separate s) : Balanced s := by
  induction h with
  | nil => exact .nil
  | byte hquote hopen hclose _ _ ih => exact .byte hquote hopen hclose ih
  | string hquote hinside _ ih => exact .string hquote hinside ih
  | group hopen hinside _ ih => exact .group hopen hinside ih

theorem balanced_join {ps : List Bytes} (h : ∀ p ∈ ps, Separate p) : Balanced (Bytes.join [ascii ','] ps) := by
  induction ps with
  | nil => exact .nil
  | cons p ps ih =>
    obtain ⟨hp, hps⟩ := List.forall_mem_cons.mp h
    cases ps with
    | nil => simpa [Bytes.join] using hp.balanced
    | cons p' ps =>
      have hcomma : Balanced (ascii ',' :: Bytes.join [ascii ','] (p' :: ps)) :=
        .byte (by decide) (by decide) (by decide) (ih hps)
      simpa [Bytes.join] using hp.balanced.append hcomma

/-! ### Blanks -/

/-- A byte that means nothing in argument text. -/
structure IsInert (c : UInt8) : Prop where
  quote : isQuote c = false
  opener : closer? c = none
  closer : isCloser c = false
  comma : c ≠ ascii ','
  escape : c ≠ ascii '\\'

theorem isInert_of_blank {b : Bytes} (hb : Text.isBlank b = true) {c : UInt8} (hc : c ∈ b) : IsInert c := by
  have hnot {d : UInt8} (hd : d < 0x80) (hd' : Text.isAsciiBlank d = false) : c ≠ d := by
    rintro rfl
    exact Text.notMem_of_blank hd hd' hb hc
  have hquote : c ≠ ascii '\'' ∧ c ≠ ascii '"' ∧ c ≠ backquote :=
    ⟨hnot (by decide) rfl, hnot (by decide) rfl, hnot (by decide) rfl⟩
  have hopen : c ≠ ascii '(' ∧ c ≠ ascii '[' ∧ c ≠ openBrace :=
    ⟨hnot (by decide) rfl, hnot (by decide) rfl, hnot (by decide) rfl⟩
  have hclose : c ≠ ascii ')' ∧ c ≠ ascii ']' ∧ c ≠ closeBrace :=
    ⟨hnot (by decide) rfl, hnot (by decide) rfl, hnot (by decide) rfl⟩
  exact ⟨by simp [isQuote, hquote], by simp [closer?, hopen], by simp [isCloser, hclose], hnot (by decide) rfl,
    hnot (by decide) rfl⟩

theorem Separate.of_inert {b : Bytes} (h : ∀ c ∈ b, IsInert c) : Separate b := by
  induction b with
  | nil => exact .nil
  | cons c b ih =>
    obtain ⟨hc, hb⟩ := List.forall_mem_cons.mp h
    exact .byte hc.quote hc.opener hc.closer hc.comma (ih hb)

theorem Separate.of_blank {b : Bytes} (hb : Text.isBlank b = true) : Separate b :=
  .of_inert fun _ hc => isInert_of_blank hb hc

/-! ### Splitting -/

theorem splitFrom_plain (wanted : List UInt8) (i : Nat) (piece : Bytes) (c : UInt8) (cs : Bytes) :
    splitFrom wanted .plain i piece (c :: cs) =
      if isQuote c then splitFrom wanted (.string c) (i + 1) (c :: piece) cs
      else match closer? c with
        | some close => splitFrom (close :: wanted) .plain (i + 1) (c :: piece) cs
        | none =>
          if isCloser c then
            match wanted with
            | [] => .error (.unexpected c i)
            | top :: outer =>
              if c = top then splitFrom outer .plain (i + 1) (c :: piece) cs
              else .error (.unexpected c i)
          else if c = ascii ',' ∧ wanted = [] then
            (splitFrom [] .plain (i + 1) [] cs).map (Text.trim piece.reverse :: ·)
          else splitFrom wanted .plain (i + 1) (c :: piece) cs := by
  cases wanted <;> rfl

section
variable {wanted : List UInt8} {s : Bytes}

theorem splitFrom_string (quote : UInt8) (i : Nat) (piece : Bytes) (c : UInt8) (cs : Bytes) :
    splitFrom wanted (.string quote) i piece (c :: cs) =
      splitFrom wanted (Mode.inString quote c) (i + 1) (c :: piece) cs := by
  cases wanted <;> rfl

theorem splitFrom_escape (quote : UInt8) (i : Nat) (piece : Bytes) (c : UInt8) (cs : Bytes) :
    splitFrom wanted (.escape quote) i piece (c :: cs) = splitFrom wanted (.string quote) (i + 1) (c :: piece) cs := by
  cases wanted <;> rfl

/-- A comma outside of everything ends a piece. -/
theorem splitFrom_comma (i : Nat) (piece cs : Bytes) :
    splitFrom [] .plain i piece (ascii ',' :: cs) =
      (splitFrom [] .plain (i + 1) [] cs).map (Text.trim piece.reverse :: ·) := rfl

/-- A byte goes to the piece that is read: the closing brackets that are wanted, and the mode, before it and after it. -/
inductive Reads (c : UInt8) : List UInt8 → Mode → List UInt8 → Mode → Prop
  | inString {wanted : List UInt8} {quote : UInt8} : Reads c wanted (.string quote) wanted (Mode.inString quote c)
  | escaped {wanted : List UInt8} {quote : UInt8} : Reads c wanted (.escape quote) wanted (.string quote)
  | quote {wanted : List UInt8} (hquote : isQuote c = true) : Reads c wanted .plain wanted (.string c)
  | opener {wanted : List UInt8} {close : UInt8} (hopen : closer? c = some close) :
      Reads c wanted .plain (close :: wanted) .plain
  | closer {wanted : List UInt8} (hquote : isQuote c = false) (hopen : closer? c = none) (hclose : isCloser c = true) :
      Reads c (c :: wanted) .plain wanted .plain
  | byte {wanted : List UInt8} (hquote : isQuote c = false) (hopen : closer? c = none) (hclose : isCloser c = false)
      (hcomma : ¬(c = ascii ',' ∧ wanted = [])) : Reads c wanted .plain wanted .plain

theorem Reads.splitFrom_cons {c : UInt8} {mode mode' : Mode} {wanted' : List UInt8} (h : Reads c wanted mode wanted' mode')
    (i : Nat) (piece cs : Bytes) :
    splitFrom wanted mode i piece (c :: cs) = splitFrom wanted' mode' (i + 1) (c :: piece) cs := by
  cases h with
  | inString => exact splitFrom_string ..
  | escaped => exact splitFrom_escape ..
  | quote hquote => rw [splitFrom_plain, if_pos hquote]
  | opener hopen => simp [splitFrom_plain, hopen, (isCloser_of_closer? hopen).1]
  | closer hquote hopen hclose => simp [splitFrom_plain, hquote, hopen, hclose]
  | byte hquote hopen hclose hcomma =>
    rw [splitFrom_plain]
    simp only [hquote, hopen, hclose, hcomma, Bool.false_eq_true, if_false]

/-- The first byte of a text that can be split goes to a piece or is a comma that ends one. -/
theorem reads_of_splitFrom_cons {c : UInt8} {mode : Mode} {i : Nat} {piece cs : Bytes} {args : List Bytes}
    (h : splitFrom wanted mode i piece (c :: cs) = .ok args) :
    (∃ wanted' mode', Reads c wanted mode wanted' mode' ∧ splitFrom wanted' mode' (i + 1) (c :: piece) cs = .ok args) ∨
      ∃ rest, c = ascii ',' ∧ wanted = [] ∧ mode = .plain ∧ splitFrom [] .plain (i + 1) [] cs = .ok rest ∧
        Text.trim piece.reverse :: rest = args := by
  cases mode with
  | string quote => exact .inl ⟨_, _, .inString, splitFrom_string quote i piece c cs ▸ h⟩
  | escape quote => exact .inl ⟨_, _, .escaped, splitFrom_escape quote i piece c cs ▸ h⟩
  | plain =>
    rw [splitFrom_plain] at h
    split at h
    · rename_i hquote
      exact .inl ⟨_, _, .quote hquote, h⟩
    rename_i hquote
    rw [Bool.not_eq_true] at hquote
    split at h
    · rename_i hopen
      exact .inl ⟨_, _, .opener hopen, h⟩
    rename_i hopen
    split at h
    · rename_i hclose
      split at h
      · cases h
      split at h
      · rename_i htop
        exact .inl ⟨_, _, htop ▸ .closer hquote hopen hclose, h⟩
      · cases h
    rename_i hclose
    rw [Bool.not_eq_true] at hclose
    split at h
    · rename_i hcomma
      cases hrest : splitFrom [] .plain (i + 1) [] cs with
      | error e =>
        rw [hrest] at h
        cases h
      | ok rest =>
        rw [hrest] at h
        exact .inr ⟨rest, hcomma.1, hcomma.2, rfl, rfl, Except.ok.inj h⟩
    · rename_i hcomma
      exact .inl ⟨_, _, .byte hquote hopen hclose hcomma, h⟩

theorem Quoted.splitFrom_append {quote : UInt8} (h : Quoted quote s) (hquote : isQuote quote = true)
    (i : Nat) (piece rest : Bytes) :
    splitFrom wanted (.string quote) i piece (s ++ quote :: rest) =
      splitFrom wanted .plain (i + s.length + 1) (quote :: (s.reverse ++ piece)) rest := by
  induction h generalizing i piece with
  | nil => rw [List.nil_append, splitFrom_string, Mode.inString_self hquote]; rfl
  | @byte c s hc hescape _ ih =>
    rw [List.cons_append, splitFrom_string, Mode.inString_byte hc hescape, ih]
    simp [Nat.add_right_comm, Nat.add_assoc]
  | @escaped c s hquote _ ih =>
    rw [List.cons_append, List.cons_append, splitFrom_string, Mode.inString_backslash hquote, splitFrom_escape, ih]
    simp [Nat.add_right_comm, Nat.add_assoc]

/-- The splitter goes over a text without ending a piece. -/
def GoesOver (wanted : List UInt8) (s : Bytes) : Prop :=
  ∀ (i : Nat) (piece rest : Bytes), splitFrom wanted .plain i piece (s ++ rest) =
    splitFrom wanted .plain (i + s.length) (s.reverse ++ piece) rest

theorem GoesOver.nil : GoesOver wanted [] := fun _ _ _ => rfl

theorem GoesOver.byte {c : UInt8} (hquote : isQuote c = false) (hopen : closer? c = none) (hclose : isCloser c = false)
    (hcomma : ¬(c = ascii ',' ∧ wanted = [])) (h : GoesOver wanted s) : GoesOver wanted (c :: s) := by
  intro i piece rest
  rw [List.cons_append, (Reads.byte hquote hopen hclose hcomma).splitFrom_cons, h]
  simp [Nat.add_right_comm, Nat.add_assoc]

theorem GoesOver.string {c : UInt8} {inside : Bytes} (hquote : isQuote c = true) (hinside : Quoted c inside)
    (h : GoesOver wanted s) : GoesOver wanted (c :: (inside ++ c :: s)) := by
  intro i piece rest
  rw [List.cons_append, (Reads.quote hquote).splitFrom_cons, List.append_assoc, List.cons_append,
    hinside.splitFrom_append hquote, h]
  simp [Nat.add_comm, Nat.add_left_comm]

theorem GoesOver.group {c close : UInt8} {inside : Bytes} (hopen : closer? c = some close)
    (hinside : GoesOver (close :: wanted) inside) (h : GoesOver wanted s) :
    GoesOver wanted (c :: (inside ++ close :: s)) := by
  obtain ⟨-, hquote, hopen', hclose⟩ := isCloser_of_closer? hopen
  intro i piece rest
  rw [List.cons_append, (Reads.opener hopen).splitFrom_cons, List.append_assoc, List.cons_append, hinside,
    (Reads.closer hquote hopen' hclose).splitFrom_cons, h]
  simp [Nat.add_comm, Nat.add_left_comm]

/-- Nothing in brackets ends a piece. -/
theorem Balanced.goesOver (h : Balanced s) (hwanted : wanted ≠ []) : GoesOver wanted s := by
  induction h generalizing wanted with
  | nil => exact .nil
  | byte hquote hopen hclose _ ih => exact .byte hquote hopen hclose (fun h => hwanted h.2) (ih hwanted)
  | string hquote hinside _ ih => exact .string hquote hinside (ih hwanted)
  | group hopen _ _ ihInside ih => exact .group hopen (ihInside (List.cons_ne_nil _ _)) (ih hwanted)

theorem Separate.goesOver (h : Separate s) : GoesOver wanted s := by
  induction h with
  | nil => exact .nil
  | byte hquote hopen hclose hcomma _ ih => exact .byte hquote hopen hclose (fun h => hcomma h.1) ih
  | string hquote hinside _ ih => exact .string hquote hinside ih
  | group hopen hinside _ ih => exact .group hopen (hinside.goesOver (List.cons_ne_nil _ _)) ih

end

/-- A list of pieces is split at the commas between them. -/
theorem splitFrom_join {p : Bytes} {ps : List Bytes} (h : ∀ p' ∈ p :: ps, Separate p') (i : Nat) :
    splitFrom [] .plain i [] (Bytes.join [ascii ','] (p :: ps)) = .ok ((p :: ps).map Text.trim) := by
  induction ps generalizing p i with
  | nil =>
    have hp : splitFrom [] .plain i [] (p ++ []) = _ := (h p List.mem_cons_self).goesOver i [] []
    rw [List.append_nil, List.append_nil] at hp
    rw [show Bytes.join [ascii ','] [p] = p by simp [Bytes.join], hp, splitFrom, List.reverse_reverse]
    rfl
  | cons p' ps ih =>
    obtain ⟨hp, hps⟩ := List.forall_mem_cons.mp h
    have hjoin : Bytes.join [ascii ','] (p :: p' :: ps) = p ++ ascii ',' :: Bytes.join [ascii ','] (p' :: ps) := by
      simp [Bytes.join]
    rw [hjoin, hp.goesOver, splitFrom_comma, ih hps, List.append_nil, List.reverse_reverse]
    rfl

/-! ### Blanks around a list -/

/-- A mode in which a literal is open knows its quote. -/
def Mode.Wellformed : Mode → Prop
  | .plain => True
  | .string q => isQuote q = true
  | .escape q => isQuote q = true

theorem Mode.wellformed_plain : Mode.plain.Wellformed := trivial

theorem Mode.wellformed_string {q : UInt8} (hq : isQuote q = true) : (Mode.string q).Wellformed := hq

theorem Mode.wellformed_inString {q : UInt8} (hq : isQuote q = true) (c : UInt8) : (Mode.inString q c).Wellformed := by
  unfold Mode.inString
  split
  · exact hq
  split
  · trivial
  · exact hq

theorem Reads.wellformed {c : UInt8} {wanted wanted' : List UInt8} {mode mode' : Mode}
    (h : Reads c wanted mode wanted' mode') (hmode : mode.Wellformed) : mode'.Wellformed := by
  cases h with
  | inString => exact Mode.wellformed_inString hmode c
  | escaped => exact Mode.wellformed_string hmode
  | quote hquote => exact Mode.wellformed_string hquote
  | opener | closer | byte => exact Mode.wellformed_plain

theorem splitFrom_string_inert {b : Bytes} (hb : ∀ c ∈ b, IsInert c) {q : UInt8} (hq : isQuote q = true)
    (wanted : List UInt8) (i : Nat) (piece : Bytes) :
    splitFrom wanted (.string q) i piece b = .error .unterminatedString := by
  induction b generalizing i piece with
  | nil => cases wanted <;> rfl
  | cons c b ih =>
    obtain ⟨hc, hb⟩ := List.forall_mem_cons.mp hb
    have hcq : c ≠ q := by
      rintro rfl
      exact Bool.false_ne_true (hc.quote.symm.trans hq)
    rw [splitFrom_string, Mode.inString_byte hcq (fun h => absurd h hc.escape), ih hb]

/-- A list that can be split with blanks around it is split the same way without them. -/
theorem splitFrom_unpadded {a b : Bytes} (ha : Text.isBlank a = true) (hb : Text.isBlank b = true) {s : Bytes}
    {wanted : List UInt8} {mode : Mode} (hmode : mode.Wellformed) {i j : Nat} {piece : Bytes} {args : List Bytes}
    (h : splitFrom wanted mode i (piece ++ a.reverse) (s ++ b) = .ok args) :
    splitFrom wanted mode j piece s = .ok args := by
  have hinert : ∀ c ∈ b, IsInert c := fun c hc => isInert_of_blank hb hc
  -- the blanks in front stand at the bottom of the first piece, and are gone once a comma ends it
  induction s generalizing wanted mode i j piece a args with
  | nil =>
    rw [List.nil_append] at h
    cases mode with
    | plain =>
      rw [← List.append_nil b, (Separate.of_blank hb).goesOver] at h
      cases wanted with
      | nil =>
        rw [splitFrom] at h ⊢
        cases h
        rw [List.reverse_append, List.reverse_append, List.reverse_reverse, List.reverse_reverse,
          Text.trim_surrounded ha hb]
      | cons top outer => cases h
    | string q =>
      rw [splitFrom_string_inert hinert hmode] at h
      cases h
    | escape q =>
      exfalso
      cases b with
      | nil => cases wanted <;> cases h
      | cons c b =>
        rw [splitFrom_escape, splitFrom_string_inert (fun d hd => hinert d (List.mem_cons_of_mem c hd)) hmode] at h
        cases h
  | cons c s ih =>
    obtain ⟨wanted', mode', hreads, hrest⟩ | ⟨rest, rfl, rfl, rfl, hrest, rfl⟩ := reads_of_splitFrom_cons h
    · rw [hreads.splitFrom_cons]
      exact ih ha (hreads.wellformed hmode) hrest
    · have hfront : Text.trim (piece ++ a.reverse).reverse = Text.trim piece.reverse := by
        have hnone := Text.trim_surrounded ha (b := []) rfl piece.reverse
        rw [List.append_nil] at hnone
        rw [List.reverse_append, List.reverse_reverse, hnone]
      rw [splitFrom_comma, ih (a := []) (j := j + 1) rfl Mode.wellformed_plain hrest, hfront]
      rfl

/-- Blanks around a list make no difference. -/
theorem split_trim {raw : Bytes} {args : List Bytes} (h : split raw = .ok args) : split (Text.trim raw) = .ok args := by
  unfold split at h ⊢
  rw [Text.isBlank_trim]
  split at h
  · rename_i hblank
    rw [if_pos hblank]
    exact h
  · rename_i hblank
    rw [if_neg hblank]
    obtain ⟨a, b, ha, hb, hraw⟩ := Text.exists_trim raw
    have hfront : splitFrom [] .plain 0 [] (a ++ (Text.trim raw ++ b)) = _ :=
      (Separate.of_blank ha).goesOver 0 [] _
    rw [← List.append_assoc, ← hraw, h, List.append_nil, ← List.nil_append a.reverse] at hfront
    exact splitFrom_unpadded ha hb Mode.wellformed_plain hfront.symm

/-! ### Pieces between commas -/

/-- Balanced text is pieces that hide their commas, with commas between them. -/
theorem Balanced.exists_pieces {s : Bytes} (h : Balanced s) :
    ∃ p ps, s = Bytes.join [ascii ','] (p :: ps) ∧ ∀ p' ∈ p :: ps, Separate p' := by
  -- what is read without a comma goes to the front of the first piece
  have hfront {x s : Bytes} (hx : Separate x)
      (hs : ∃ p ps, s = Bytes.join [ascii ','] (p :: ps) ∧ ∀ p' ∈ p :: ps, Separate p') :
      ∃ p ps, x ++ s = Bytes.join [ascii ','] (p :: ps) ∧ ∀ p' ∈ p :: ps, Separate p' := by
    obtain ⟨p, ps, rfl, hps⟩ := hs
    obtain ⟨hp, hps⟩ := List.forall_mem_cons.mp hps
    refine ⟨x ++ p, ps, ?_, List.forall_mem_cons.mpr ⟨hx.append hp, hps⟩⟩
    cases ps <;> simp [Bytes.join]
  induction h with
  | nil => exact ⟨[], [], rfl, List.forall_mem_cons.mpr ⟨.nil, nofun⟩⟩
  | @byte c s hquote hopen hclose _ ih =>
    by_cases hcomma : c = ascii ','
    · obtain ⟨p, ps, rfl, hps⟩ := ih
      exact ⟨[], p :: ps, by simp [Bytes.join, hcomma], List.forall_mem_cons.mpr ⟨.nil, hps⟩⟩
    · exact hfront (.byte hquote hopen hclose hcomma .nil) ih
  | string hquote hinside _ ih => simpa using hfront (.string hquote hinside .nil) ih
  | group hopen hinside _ _ ih => simpa using hfront (.group hopen hinside .nil) ih

/-! ### What the splitter takes -/

/-- The search for a closing bracket goes over what goes to a piece. -/
theorem Reads.closingFrom_cons {c : UInt8} {wanted wanted' : List UInt8} {mode mode' : Mode}
    (h : Reads c wanted mode wanted' mode') {top : UInt8} {below : List UInt8} (hwanted : top :: below = wanted ++ [ascii ')'])
    (i : Nat) (cs : Bytes) :
    ∃ top' below', top' :: below' = wanted' ++ [ascii ')'] ∧
      closingFrom top below mode i (c :: cs) = closingFrom top' below' mode' (i + 1) cs := by
  cases h with
  | inString | escaped => exact ⟨top, below, hwanted, rfl⟩
  | quote hquote => exact ⟨top, below, hwanted, by rw [closingFrom_plain, if_pos hquote]⟩
  | @opener _ close hopen =>
    exact ⟨close, top :: below, congrArg (close :: ·) hwanted, by
      simp [closingFrom_plain, hopen, (isCloser_of_closer? hopen).1]⟩
  | closer hquote hopen hclose =>
    obtain ⟨rfl, hbelow⟩ := List.cons_eq_cons.mp hwanted
    -- the bracket that ends the whole text is wanted still
    cases below with
    | nil => simp at hbelow
    | cons next outer => exact ⟨next, outer, hbelow, by simp [closingFrom_plain, hquote, hopen, hclose]⟩
  | byte hquote hopen hclose _ =>
    exact ⟨top, below, hwanted, by simp [closingFrom_plain, hquote, hopen, hclose]⟩

/-- The search for a closing bracket goes over whatever the splitter takes. -/
theorem closingFrom_of_splitFrom {wanted : List UInt8} {mode : Mode} {i : Nat} {piece s : Bytes} {args : List Bytes}
    (h : splitFrom wanted mode i piece s = .ok args) {top : UInt8} {below : List UInt8}
    (hwanted : top :: below = wanted ++ [ascii ')']) :
    closingFrom top below mode i (s ++ [ascii ')']) = .ok (i + s.length) := by
  induction s generalizing wanted mode i piece args top below with
  | nil =>
    cases mode with
    | plain =>
      cases wanted with
      | nil =>
        cases hwanted
        rfl
      | cons w ws => cases h
    | string q => cases wanted <;> cases h
    | escape q => cases wanted <;> cases h
  | cons c s ih =>
    rw [List.cons_append, List.length_cons, Nat.add_comm s.length 1, ← Nat.add_assoc]
    obtain ⟨wanted', mode', hreads, hrest⟩ | ⟨rest, rfl, rfl, rfl, hrest, -⟩ := reads_of_splitFrom_cons h
    · obtain ⟨top', below', hwanted', hstep⟩ := hreads.closingFrom_cons hwanted i (s ++ [ascii ')'])
      rw [hstep]
      exact ih hrest hwanted'
    · rw [closingFrom_plain]
      exact ih hrest hwanted

theorem balanced_of_splitFrom {i : Nat} {s : Bytes} {args : List Bytes} (h : splitFrom [] .plain i [] s = .ok args) :
    Balanced s := by
  obtain ⟨inside, rest, hs, hinside, hend⟩ := exists_balanced_of_closingFrom (closingFrom_of_splitFrom h rfl)
  have hlength : inside.length = s.length := Nat.add_left_cancel hend.symm
  rwa [(List.append_inj hs hlength.symm).1]

theorem exists_pieces_of_splitFrom {i : Nat} {s : Bytes} {args : List Bytes}
    (h : splitFrom [] .plain i [] s = .ok args) : ∃ p ps, s = Bytes.join [ascii ','] (p :: ps) ∧
      args = (p :: ps).map Text.trim ∧ ∀ p' ∈ p :: ps, Separate p' := by
  obtain ⟨p, ps, rfl, hps⟩ := (balanced_of_splitFrom h).exists_pieces
  rw [splitFrom_join hps] at h
  exact ⟨p, ps, rfl, (Except.ok.inj h).symm, hps⟩

/-- A text that is split into one piece hides its commas. -/
theorem separate_of_splitFrom {i : Nat} {s a : Bytes} (h : splitFrom [] .plain i [] s = .ok [a]) : Separate s := by
  obtain ⟨p, ps, rfl, hargs, hps⟩ := exists_pieces_of_splitFrom h
  cases ps with
  | nil => simpa [Bytes.join] using hps p List.mem_cons_self
  | cons p' ps => cases hargs

/-- Without the blanks around it a piece still hides its commas. -/
theorem Separate.trim {p : Bytes} (h : Separate p) : Separate (Text.trim p) := by
  obtain ⟨a, b, ha, hb, hp⟩ := Text.exists_trim p
  have hsplit : splitFrom [] .plain 0 [] (a ++ (Text.trim p ++ b)) = .ok [Text.trim p] := by
    have hsingle : ∀ p' ∈ [p], Separate p' := List.forall_mem_cons.mpr ⟨h, nofun⟩
    have hone := splitFrom_join hsingle 0
    rw [← List.append_assoc, ← hp]
    simpa [Bytes.join] using hone
  rw [(Separate.of_blank ha).goesOver, List.append_nil, ← List.nil_append a.reverse] at hsplit
  exact separate_of_splitFrom (i := 0) (splitFrom_unpadded ha hb Mode.wellformed_plain hsplit)

/-! ### Lists -/

/-- Only one empty piece is nothing but blanks when it is joined. -/
theorem not_isBlank_join {p : Bytes} {ps : List Bytes} (h : (p :: ps).map Text.trim ≠ [[]]) :
    ¬Text.isBlank (Bytes.join [ascii ','] (p :: ps)) = true := by
  intro hblank
  cases ps with
  | nil =>
    have hp : Text.isBlank p = true := by simpa [Bytes.join] using hblank
    have hnil : Text.trim p = [] := by
      rw [Text.trim, show Text.trimLeft p = [] from beq_iff_eq.mp hp]
      rfl
    exact h (by rw [List.map_singleton, hnil])
  | cons p' ps => exact Text.notMem_of_blank (c := ascii ',') (by decide) rfl hblank (by simp [Bytes.join])

/-- Pieces that hide their commas are split as they were joined, unless there is nothing but blanks. -/
theorem split_join_pieces {p : Bytes} {ps : List Bytes} (hseparate : ∀ p' ∈ p :: ps, Separate p')
    (hne : (p :: ps).map Text.trim ≠ [[]]) :
    split (Bytes.join [ascii ','] (p :: ps)) = .ok ((p :: ps).map Text.trim) := by
  rw [split, if_neg (not_isBlank_join hne), splitFrom_join hseparate]

/-- Balanced text is an argument list. -/
theorem Balanced.exists_split {s : Bytes} (h : Balanced s) : ∃ args, split s = .ok args := by
  unfold split
  split
  · exact ⟨[], rfl⟩
  · obtain ⟨p, ps, rfl, hps⟩ := h.exists_pieces
    exact ⟨_, splitFrom_join hps 0⟩

/-- What can be an argument: it has no blanks around it, its brackets match, its string literals have an end, and it
hides its commas. -/
structure IsArgument (a : Bytes) : Prop where
  trimmed : Text.trim a = a
  separate : Separate a

/-- An argument as it stands in a list, with blanks around it. -/
structure Padded where
  before : Bytes
  arg : Bytes
  after : Bytes
  isBlank_before : Text.isBlank before = true
  isBlank_after : Text.isBlank after = true

def Padded.text (p : Padded) : Bytes := p.before ++ p.arg ++ p.after

theorem Padded.separate {p : Padded} (h : IsArgument p.arg) : Separate p.text :=
  ((Separate.of_blank p.isBlank_before).append h.separate).append (.of_blank p.isBlank_after)

theorem Padded.trim_text {p : Padded} (h : IsArgument p.arg) : Text.trim p.text = p.arg :=
  (Text.trim_surrounded p.isBlank_before p.isBlank_after p.arg).trans h.trimmed

theorem isArgument_trim {p : Bytes} (h : Separate p) : IsArgument (Text.trim p) := by
  obtain ⟨a, b, ha, hb, hp⟩ := Text.exists_trim p
  refine ⟨?_, h.trim⟩
  conv_rhs => rw [hp]
  exact (Text.trim_surrounded ha hb (Text.trim p)).symm

theorem map_trim_of_isArgument {args : List Bytes} (h : ∀ a ∈ args, IsArgument a) : args.map Text.trim = args :=
  (List.map_congr_left fun a ha => (h a ha).trimmed).trans (List.map_id args)

/-- Splitting undoes joining with commas, whatever blanks stand around the arguments. Only the list of one empty
argument is lost. The other way round, what a list is split into are arguments, and they are what they are split into
once they are joined. -/
theorem split_join :
    (∀ ps : List Padded, (∀ p ∈ ps, IsArgument p.arg) → ps.map Padded.arg ≠ [[]] →
      split (Bytes.join [ascii ','] (ps.map Padded.text)) = .ok (ps.map Padded.arg)) ∧
      ∀ raw args, split raw = .ok args → args ≠ [] →
        (∀ a ∈ args, IsArgument a) ∧ args ≠ [[]] ∧ split (Bytes.join [ascii ','] args) = .ok args := by
  constructor
  · intro ps hargs hne
    have htrim : (ps.map Padded.text).map Text.trim = ps.map Padded.arg := by
      rw [List.map_map]
      exact List.map_congr_left fun p hp => Padded.trim_text (hargs p hp)
    have hseparate : ∀ s ∈ ps.map Padded.text, Separate s := by
      intro s hs
      obtain ⟨p, hp, rfl⟩ := List.mem_map.mp hs
      exact Padded.separate (hargs p hp)
    rw [← htrim] at hne ⊢
    cases ps with
    | nil => rfl
    | cons p ps => exact split_join_pieces hseparate hne
  · intro raw args h hne
    unfold split at h
    split at h
    · exact absurd (Except.ok.inj h).symm hne
    rename_i hblank
    obtain ⟨p, ps, rfl, rfl, hps⟩ := exists_pieces_of_splitFrom h
    have hargs : ∀ a ∈ (p :: ps).map Text.trim, IsArgument a := by
      intro a ha
      obtain ⟨q, hq, rfl⟩ := List.mem_map.mp ha
      exact isArgument_trim (hps q hq)
    have hnotEmpty : (p :: ps).map Text.trim ≠ [[]] := by
      intro hempty
      obtain ⟨hp, hnone⟩ := List.cons_eq_cons.mp hempty
      obtain rfl := List.map_eq_nil_iff.mp hnone
      refine hblank ?_
      rw [← Text.isBlank_trim, show Bytes.join [ascii ','] [p] = p by simp [Bytes.join], hp]
      rfl
    refine ⟨hargs, hnotEmpty, ?_⟩
    have hagain : ((p :: ps).map Text.trim).map Text.trim = (p :: ps).map Text.trim := map_trim_of_isArgument hargs
    have hseparate : ∀ a ∈ Text.trim p :: ps.map Text.trim, Separate a := fun a ha => (hargs a ha).separate
    have hjoin := split_join_pieces hseparate (by rwa [← List.map_cons, hagain])
    rwa [← List.map_cons, hagain] at hjoin

/-- A comma in a literal, an empty argument, and a list in brackets. -/
theorem split_join_padded : split " 'a,b' ,,[1, 2]" = .ok ["'a,b'", "", "[1, 2]"] ∧
    split (Bytes.join [ascii ','] ["'a,b'", "", "[1, 2]"]) = .ok ["'a,b'", "", "[1, 2]"] ∧
    split "'a,b'\t, , [1, 2] " = .ok ["'a,b'", "", "[1, 2]"] := by
  have h : split " 'a,b' ,,[1, 2]" = .ok ["'a,b'", "", "[1, 2]"] := by decide
  obtain ⟨hargs, hne, hjoin⟩ := split_join.2 _ _ h nofun
  let ps : List Padded := [⟨"", "'a,b'", "\t", rfl, rfl⟩, ⟨"", "", " ", rfl, rfl⟩, ⟨" ", "[1, 2]", " ", rfl, rfl⟩]
  refine ⟨h, hjoin, split_join.1 ps (fun p hp => hargs p.arg ?_) hne⟩
  exact List.mem_map_of_mem (f := Padded.arg) hp

end Stencil.Argument
