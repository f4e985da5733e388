import Stencil.Proofs.Markup.Printing

/-! # Reading of printed pieces

Text, interpolations and directive heads, as they are printed, are read as one piece after another:
`Reader.Passes` is a stretch of reading. Text takes several pieces, which join to one node. -/

namespace Stencil.Markup

open Stencil.Directive

/-! ### Single pieces -/

section
variable {r : Registry} {verbatim : Bool} {offset : Nat} {before : Option UInt8}

theorem piece_pair (cs : Bytes) : piece r verbatim offset before (ascii '@') (ascii '@' :: cs) = .ok (.text [ascii '@'], 1) := by
  have hbrace : ascii '@' ≠ openBrace := by decide
  unfold piece
  rw [if_neg (fun h => hbrace h.1), if_neg (fun h => hbrace h.1), if_pos ⟨rfl, rfl⟩]

theorem piece_brace {cs : Bytes} (hescaped : Bytes.startsWith [openBrace] cs = false)
    (hraw : Bytes.startsWith "!!" cs = false) : piece r verbatim offset before openBrace cs = .ok (.text [openBrace], 0) := by
  have hat : openBrace ≠ ascii '@' := by decide
  unfold piece
  rw [if_neg (by simp [hescaped]), if_neg (by simp [hraw]), if_neg (fun h => hat h.1)]
  split
  · rfl
  · rw [if_neg (fun h => hat h.1)]
    rfl

theorem piece_run {c : UInt8} {cs : Bytes} (hc : isSpecial c = false) :
    piece r verbatim offset before c cs =
      .ok (.text (c :: cs.takeWhile fun d => !isSpecial d), (cs.takeWhile fun d => !isSpecial d).length) := by
  have hat : c ≠ ascii '@' := by
    rintro rfl
    cases hc
  have hbrace : c ≠ openBrace := by
    rintro rfl
    cases hc
  unfold piece
  rw [if_neg (fun h => hbrace h.1), if_neg (fun h => hbrace h.1), if_neg (fun h => hat h.1), if_neg (by simp [hc]),
    if_neg (fun h => hat h.1), if_neg (by simp [hc])]

theorem takeName_printed {name : Bytes} (hname : IsName name) (rest : Bytes) :
    takeName (name ++ ascii '(' :: rest) = name := by
  have hrun : (name ++ ascii '(' :: rest).takeWhile isNameByte = name := by
    rw [List.takeWhile_append_of_pos (List.all_eq_true.mp hname.bytes), List.takeWhile_cons_of_neg (by decide), List.append_nil]
  have hdashes : (name.reverse.dropWhile (· == ascii '-')).reverse = name := by
    have hlast := hname.last
    rw [← List.head?_reverse] at hlast
    cases hrev : name.reverse with
    | nil => rw [List.reverse_eq_nil_iff.mp hrev]; rfl
    | cons c cs =>
      rw [hrev] at hlast
      rw [List.dropWhile_cons_of_neg (by simpa using hlast), ← hrev, List.reverse_reverse]
  have hne : name ≠ [] := by
    rintro rfl
    cases hname.start
  unfold takeName
  simp only [hrun, hdashes]
  rw [if_neg hne]

/-- A name right after an at sign starts a directive, unless it is unknown and glued to a word. -/
theorem startsDirective_printed {name : Bytes} (hname : IsName name) (rest : Bytes)
    (hknown : before.any isWordByte = true →
      name = terminator ∨ r.isPart name = true ∨ (r.lookup name).isSome = true) :
    startsDirective r before (name ++ ascii '(' :: rest) = true := by
  have htake := takeName_printed hname rest
  cases name with
  | nil => cases hname.start
  | cons c cs =>
    have hstart : isNameStart c = true := hname.start
    simp only [List.cons_append, startsDirective, hstart, Bool.true_and, Bool.or_eq_true, Bool.not_eq_true']
    rw [← List.cons_append, htake]
    cases hglued : before.any isWordByte with
    | false => exact Or.inl rfl
    | true =>
      refine Or.inr ?_
      rcases hknown hglued with h | h | h
      · simp [h]
      · simp [h]
      · simp [h]

theorem piece_head {name expr : Bytes} (hname : IsName name) (hbalanced : Argument.Balanced expr)
    (hverbatim : verbatim = true → name = terminator) (more : Bytes)
    (hknown : before.any isWordByte = true →
      name = terminator ∨ r.isPart name = true ∨ (r.lookup name).isSome = true) :
    piece r verbatim offset before (ascii '@') ((name ++ ascii '(' :: (expr ++ [ascii ')'])) ++ more) =
      .ok (.head name (some (Text.trim expr)), (name ++ ascii '(' :: (expr ++ [ascii ')'])).length) := by
  have happend : (name ++ ascii '(' :: (expr ++ [ascii ')'])) ++ more = name ++ ascii '(' :: (expr ++ ascii ')' :: more) := by
    simp
  have hbrace : ascii '@' ≠ openBrace := by decide
  have hpair : Bytes.startsWith "@" (name ++ ascii '(' :: (expr ++ ascii ')' :: more)) = false := by
    cases name with
    | nil => cases hname.start
    | cons c cs =>
      have hc : ascii '@' ≠ c := by
        rintro rfl
        cases hname.start
      have hfirst : Bytes.startsWith "@" ((c :: cs) ++ ascii '(' :: (expr ++ ascii ')' :: more)) = (ascii '@' == c && true) := rfl
      rw [hfirst, beq_false_of_ne hc]
      rfl
  have hstart := startsDirective_printed hname (expr ++ ascii ')' :: more) hknown
  have htake := takeName_printed hname (expr ++ ascii ')' :: more)
  rw [happend]
  unfold piece
  rw [if_neg (fun h => hbrace h.1), if_neg (fun h => hbrace h.1), if_neg (by simp [hpair]), if_neg, if_pos ⟨rfl, hstart⟩]
  · simp only [htake, List.drop_left, if_true]
    rw [hbalanced.closingFrom_eq]
    simp only [Nat.add_sub_cancel_left, List.take_left]
    have hlength : name.length + 1 + expr.length + 1 = (name ++ ascii '(' :: (expr ++ [ascii ')'])).length := by
      simp only [List.length_append, List.length_cons, List.length_nil]
      omega
    rw [hlength]
  · rintro ⟨hv, -, hend⟩
    exact hend ⟨rfl, htake.trans (hverbatim hv)⟩

theorem piece_interpolation {expr : Bytes} {escaped : Bool} (htrim : Text.trim expr = expr)
    (hclose : Bytes.contains (closing escaped) expr = false) {c : UInt8} {lead : Bytes}
    (hopen : opening escaped = c :: lead) (more : Bytes) :
    piece r verbatim offset before c ((lead ++ 32 :: (expr ++ 32 :: closing escaped)) ++ more) =
      .ok (.interpolation expr escaped, (lead ++ 32 :: (expr ++ 32 :: closing escaped)).length) := by
  have hcut : Bytes.cut (closing escaped) (32 :: (expr ++ 32 :: (closing escaped ++ more))) =
      some (32 :: (expr ++ [32]), more) := by
    have hspace : (32 : UInt8) ∉ closing escaped := by cases escaped <;> decide
    have hsep : closing escaped ≠ [] := by cases escaped <;> decide
    exact Bytes.cut_append (e := 32 :: expr) hsep hspace (Bytes.contains_cons_of_not_mem hsep hspace hclose)
  have hfound : interpolation (closing escaped) escaped (32 :: (expr ++ 32 :: (closing escaped ++ more))) =
      some (.interpolation expr escaped, (32 :: (expr ++ 32 :: closing escaped)).length) := by
    rw [interpolation, hcut]
    simp only [Option.map_some, Text.trim_padded htrim]
    simp
    omega
  have happend : (lead ++ 32 :: (expr ++ 32 :: closing escaped)) ++ more =
      lead ++ 32 :: (expr ++ 32 :: (closing escaped ++ more)) := by
    simp
  rw [happend, List.length_append]
  cases escaped with
  | true =>
    cases hopen
    have hdrop : List.drop 1 ([openBrace] ++ 32 :: (expr ++ 32 :: (closing true ++ more))) =
        32 :: (expr ++ 32 :: (closing true ++ more)) := rfl
    unfold piece
    rw [if_pos ⟨rfl, rfl⟩, hdrop, show [closeBrace, closeBrace] = closing true from rfl, hfound]
    rfl
  | false =>
    cases hopen
    have hdrop : List.drop 2 (("!!" : Bytes) ++ 32 :: (expr ++ 32 :: (closing false ++ more))) =
        32 :: (expr ++ 32 :: (closing false ++ more)) := rfl
    unfold piece
    rw [if_neg, if_pos ⟨rfl, rfl⟩, hdrop, show ("!!" ++ [closeBrace] : Bytes) = closing false from rfl, hfound]
    · rfl
    · rintro ⟨-, h⟩
      cases h

end

/-! ### Reading on -/

/-- What stays the same while a template is read. -/
structure Reader where
  registry : Registry
  options : ParseOptions
  path : Bytes
  lines : LineTable

/-- Reading goes over `s`, when `more` follows: from one tree under construction to another. -/
def Reader.Passes (e : Reader) (s more : Bytes) (offset : Nat) (o : Outline) (before : Option UInt8) (o' : Outline)
    (before' : Option UInt8) : Prop :=
  parseFrom e.registry e.options e.path e.lines o offset before (s ++ more) =
    parseFrom e.registry e.options e.path e.lines o' (offset + s.length) before' more

section
variable {e : Reader} {s s' more : Bytes} {offset : Nat} {o o₁ o₂ : Outline} {before before₁ before₂ : Option UInt8}

theorem Reader.Passes.refl : e.Passes [] more offset o before o before := rfl

theorem Reader.Passes.trans (h : e.Passes s (s' ++ more) offset o before o₁ before₁)
    (h' : e.Passes s' more (offset + s.length) o₁ before₁ o₂ before₂) :
    e.Passes (s ++ s') more offset o before o₂ before₂ := by
  unfold Reader.Passes at *
  rw [List.append_assoc, h, h', List.length_append, Nat.add_assoc]

/-- One piece is read. -/
theorem passes_piece {c : UInt8} {cs : Bytes} {p : Piece}
    (h : piece e.registry o.verbatim offset before c (cs ++ more) = .ok (p, cs.length)) :
    e.Passes (c :: cs) more offset o before (o.add e.registry e.options e.lines offset (c :: cs) p)
      (c :: cs).getLast? := by
  unfold Reader.Passes
  rw [List.cons_append, parseFrom, h]
  simp only [List.take_left, List.drop_left]

/-! ### Text -/

theorem passes_text_piece {c : UInt8} {cs value : Bytes}
    (h : piece e.registry o.verbatim offset before c (cs ++ more) = .ok (.text value, cs.length)) :
    ∃ span, e.Passes (c :: cs) more offset o before (o.pushText value span) (c :: cs).getLast? :=
  ⟨_, passes_piece h⟩

/-- What follows a text: nothing, or a byte that may end a run of text. -/
def isBoundary (more : Bytes) : Prop := more.head?.all isSpecial = true

@[simp] theorem doubled_append (a b : Bytes) : doubled (a ++ b) = doubled a ++ doubled b := by
  induction a with
  | nil => rfl
  | cons c a ih =>
    simp only [List.cons_append, doubled, ih]
    split <;> rfl

theorem doubled_plain {s : Bytes} (h : ∀ c ∈ s, isSpecial c = false) : doubled s = s := by
  induction s with
  | nil => rfl
  | cons c s ih =>
    have hc : c ≠ ascii '@' := by
      rintro rfl
      cases h (ascii '@') List.mem_cons_self
    rw [doubled, if_neg hc, ih fun d hd => h d (List.mem_cons_of_mem c hd)]

theorem head?_doubled (s : Bytes) : (doubled s).head? = s.head? := by
  cases s with
  | nil => rfl
  | cons c s =>
    rw [doubled]
    split <;> rfl

@[simp] theorem current_withCurrent (o : Outline) (ns : List Node) : (o.withCurrent ns).current = ns := by
  obtain ⟨root, _ | ⟨b, bs⟩⟩ := o <;> rfl

@[simp] theorem withCurrent_withCurrent (o : Outline) (ns ms : List Node) :
    (o.withCurrent ns).withCurrent ms = o.withCurrent ms := by
  obtain ⟨root, _ | ⟨b, bs⟩⟩ := o <;> rfl

@[simp] theorem withCurrent_current (o : Outline) : o.withCurrent o.current = o := by
  obtain ⟨root, _ | ⟨b, bs⟩⟩ := o <;> rfl

@[simp] theorem verbatim_withCurrent (o : Outline) (ns : List Node) : (o.withCurrent ns).verbatim = o.verbatim := by
  obtain ⟨root, _ | ⟨b, bs⟩⟩ := o <;> rfl

/-- The text node that text is joined to. -/
theorem pushText_eq (o : Outline) (value : Bytes) (span : Span) :
    (∃ t s rest, o.current = .text t s :: rest ∧
      o.pushText value span = o.withCurrent (.text (t ++ value) ⟨s.start, span.stop⟩ :: rest)) ∨
    (startsWithText o.current = false ∧ o.pushText value span = o.withCurrent (.text value span :: o.current)) := by
  unfold Outline.pushText
  split
  · rename_i t s rest hcurrent
    exact Or.inl ⟨t, s, rest, hcurrent, rfl⟩
  · rename_i hcurrent
    refine Or.inr ⟨?_, rfl⟩
    unfold startsWithText
    split
    · rename_i t s rest heq
      exact absurd heq (hcurrent t s rest)
    · rfl

/-- Text joins text that was just read. -/
theorem pushText_pushText (o : Outline) (a b : Bytes) (x y : Span) :
    (o.pushText a x).pushText b y = o.pushText (a ++ b) ⟨x.start, y.stop⟩ := by
  have hjoin : ∀ t s rest, (o.withCurrent (.text t s :: rest)).pushText b y =
      o.withCurrent (.text (t ++ b) ⟨s.start, y.stop⟩ :: rest) := by
    intro t s rest
    simp only [Outline.pushText, current_withCurrent, withCurrent_withCurrent]
  rcases pushText_eq o a x with ⟨t, s, rest, hcurrent, ha⟩ | ⟨htext, ha⟩
  · rw [ha, hjoin]
    simp only [Outline.pushText, hcurrent, List.append_assoc]
  · rw [ha, hjoin]
    rcases pushText_eq o (a ++ b) ⟨x.start, y.stop⟩ with ⟨t, s, rest, hcurrent, -⟩ | ⟨-, hab⟩
    · rw [hcurrent] at htext
      cases htext
    · rw [hab]

theorem IsText.of_append {a b : Bytes} (h : IsText (a ++ b)) (hb : b ≠ []) : IsText b := by
  induction a with
  | nil => exact h
  | cons c a ih =>
    refine ih ⟨List.append_ne_nil_of_right_ne_nil a hb, (Bytes.contains_cons h.escaped).2, (Bytes.contains_cons h.raw).2, ?_⟩
    have hlast := h.last
    rwa [List.cons_append, List.getLast?_cons_of_ne_nil (List.append_ne_nil_of_right_ne_nil a hb)] at hlast

theorem isBoundary.doubled_append {b : Bytes} (hmore : isBoundary more) (hb : b.head?.all isSpecial = true) :
    isBoundary (doubled b ++ more) := by
  cases b with
  | nil => exact hmore
  | cons c b =>
    unfold isBoundary
    rw [List.head?_append, head?_doubled]
    exact hb

theorem isBoundary.takeWhile_eq_nil (hmore : isBoundary more) : more.takeWhile (fun d => !isSpecial d) = [] := by
  cases more with
  | nil => rfl
  | cons c more =>
    have hc : isSpecial c = true := hmore
    rw [List.takeWhile_cons_of_neg (by simp [hc])]

/-- The plain text at the front of a text. -/
theorem exists_run (v : Bytes) :
    ∃ run rest, v = run ++ rest ∧ (∀ d ∈ run, isSpecial d = false) ∧ rest.head?.all isSpecial = true := by
  refine ⟨v.takeWhile fun d => !isSpecial d, v.dropWhile fun d => !isSpecial d, List.takeWhile_append_dropWhile.symm,
    fun d hd => ?_, ?_⟩
  · simpa using List.all_eq_true.mp List.all_takeWhile d hd
  · have hfirst := List.head?_dropWhile_not (fun d => !isSpecial d) v
    cases hhead : (v.dropWhile fun d => !isSpecial d).head? with
    | none => rfl
    | some d => simpa [hhead] using hfirst

/-- Plain text is one piece. -/
theorem passes_run {c : UInt8} {run : Bytes} (hc : isSpecial c = false) (hplain : ∀ d ∈ run, isSpecial d = false)
    (hmore : isBoundary more) :
    ∃ span, e.Passes (c :: run) more offset o before (o.pushText (c :: run) span) (c :: run).getLast? := by
  refine passes_text_piece ?_
  have hstop : (run ++ more).takeWhile (fun d => !isSpecial d) = run := by
    rw [List.takeWhile_append_of_pos (fun d hd => by simp [hplain d hd]), hmore.takeWhile_eq_nil, List.append_nil]
  rw [piece_run hc, hstop]

theorem startsWith_brace {v : Bytes} (h : IsText (openBrace :: v)) :
    Bytes.startsWith [openBrace] (doubled v ++ more) = false := by
  cases v with
  | nil => exact absurd rfl h.last
  | cons d v =>
    have hd : (openBrace == d) = false := by
      have hfirst := (Bytes.contains_cons h.escaped).1
      simpa [opening, List.isPrefixOf] using hfirst
    have hhead : ∃ x, doubled (d :: v) = d :: x := by
      rw [doubled]
      split
      · exact ⟨_, rfl⟩
      · exact ⟨_, rfl⟩
    obtain ⟨x, hx⟩ := hhead
    rw [hx, Bytes.startsWith, List.cons_append, List.isPrefixOf, hd, Bool.false_and]

theorem startsWith_marks {v : Bytes} (h : IsText (openBrace :: v)) (hmore : isBoundary more) :
    Bytes.startsWith "!!" (doubled v ++ more) = false := by
  rw [Bool.eq_false_iff]
  intro hmarks
  have hsplit : doubled v ++ more = ascii '!' :: ascii '!' :: (doubled v ++ more).drop 2 := startsWith_eq hmarks
  cases v with
  | nil => exact absurd rfl h.last
  | cons d v =>
    have hd : d = ascii '!' := by
      have hhead := congrArg List.head? hsplit
      rw [List.head?_append, head?_doubled] at hhead
      simpa using hhead
    subst hd
    rw [doubled, if_neg (by decide), List.cons_append] at hsplit
    have hnext := congrArg List.head? (List.cons_eq_cons.mp hsplit).2
    rw [List.head?_append, head?_doubled] at hnext
    cases v with
    | nil =>
      have hspecial := hmore
      simp only [List.head?_nil, Option.none_or, List.head?_cons] at hnext
      rw [isBoundary, hnext] at hspecial
      cases hspecial
    | cons d v =>
      have hd : d = ascii '!' := by simpa using hnext
      subst hd
      have hfirst := (Bytes.contains_cons h.raw).1
      cases hfirst

/-- The first piece of a text. -/
theorem exists_first_piece {value : Bytes} (h : IsText value) (hmore : isBoundary more) (e : Reader) (o : Outline)
    (before : Option UInt8) (offset : Nat) :
    ∃ a b span, value = a ++ b ∧ a ≠ [] ∧
      e.Passes (doubled a) (doubled b ++ more) offset o before (o.pushText a span) a.getLast? := by
  cases value with
  | nil => exact absurd rfl h.nonempty
  | cons c v =>
    by_cases hat : c = ascii '@'
    · subst hat
      have hpiece : piece e.registry o.verbatim offset before (ascii '@') ([ascii '@'] ++ (doubled v ++ more)) = _ :=
        piece_pair (doubled v ++ more)
      obtain ⟨span, hpasses⟩ := passes_text_piece hpiece
      exact ⟨[ascii '@'], v, span, rfl, List.cons_ne_nil _ _, hpasses⟩
    by_cases hbrace : c = openBrace
    · subst hbrace
      have hpiece : piece e.registry o.verbatim offset before openBrace ([] ++ (doubled v ++ more)) = _ :=
        piece_brace (startsWith_brace h) (startsWith_marks h hmore)
      obtain ⟨span, hpasses⟩ := passes_text_piece hpiece
      exact ⟨[openBrace], v, span, rfl, List.cons_ne_nil _ _, hpasses⟩
    have hc : isSpecial c = false := by simp [isSpecial, hat, hbrace]
    obtain ⟨run, rest, rfl, hplain, hspecial⟩ := exists_run v
    obtain ⟨span, hpasses⟩ := passes_run hc hplain (hmore.doubled_append hspecial)
    refine ⟨c :: run, rest, span, rfl, List.cons_ne_nil _ _, ?_⟩
    rw [doubled_plain (List.forall_mem_cons.mpr ⟨hc, hplain⟩)]
    exact hpasses

/-- Text is read as one text node, or joins the text before it. -/
theorem passes_text {value : Bytes} (h : IsText value) (hmore : isBoundary more) (e : Reader) (o : Outline)
    (before : Option UInt8) (offset : Nat) :
    ∃ span, e.Passes (doubled value) more offset o before (o.pushText value span) value.getLast? := by
  induction hn : value.length using Nat.strongRecOn generalizing value o before offset with
  | _ n ih =>
    obtain ⟨a, b, span, rfl, ha, hfirst⟩ := exists_first_piece h hmore e o before offset
    by_cases hb : b = []
    · subst hb
      rw [List.append_nil]
      exact ⟨span, hfirst⟩
    · have hshorter : b.length < n := by
        have := List.length_pos_iff.mpr ha
        rw [← hn, List.length_append]
        omega
      obtain ⟨span', hrest⟩ := ih _ hshorter (h.of_append hb) (o.pushText a span) a.getLast? (offset + (doubled a).length) rfl
      rw [pushText_pushText] at hrest
      refine ⟨⟨span.start, span'.stop⟩, ?_⟩
      have hlast : (a ++ b).getLast? = b.getLast? := by
        rw [List.getLast?_append, List.getLast?_eq_some_getLast hb, Option.some_or]
      rw [Markup.doubled_append, hlast]
      exact hfirst.trans hrest

/-! ### Interpolations and heads -/

theorem passes_interpolation {expr : Bytes} {escaped : Bool} (htrim : Text.trim expr = expr)
    (hclose : Bytes.contains (closing escaped) expr = false) (e : Reader) (more : Bytes) (offset : Nat) (o : Outline)
    (before : Option UInt8) :
    ∃ span, e.Passes (opening escaped ++ 32 :: (expr ++ 32 :: closing escaped)) more offset o before
      (o.push (.interpolation expr escaped span)) (some closeBrace) := by
  obtain ⟨c, lead, hopen⟩ : ∃ c lead, opening escaped = c :: lead := by
    cases escaped
    · exact ⟨_, _, rfl⟩
    · exact ⟨_, _, rfl⟩
  have hpiece : piece e.registry o.verbatim offset before c ((lead ++ 32 :: (expr ++ 32 :: closing escaped)) ++ more) = _ :=
    piece_interpolation htrim hclose hopen more
  have hpasses := passes_piece hpiece
  have hlast : (c :: (lead ++ 32 :: (expr ++ 32 :: closing escaped))).getLast? = some closeBrace := by
    have hend : closing escaped = (closing escaped).dropLast ++ [closeBrace] := by cases escaped <;> rfl
    have hwhole : c :: (lead ++ 32 :: (expr ++ 32 :: closing escaped)) =
        (c :: (lead ++ 32 :: (expr ++ 32 :: (closing escaped).dropLast))) ++ [closeBrace] := by
      rw [List.cons_append, List.append_assoc, List.cons_append, List.append_assoc, List.cons_append, ← hend]
    rw [hwhole, List.getLast?_concat]
  rw [hlast] at hpasses
  rw [hopen]
  exact ⟨_, hpasses⟩

theorem passes_head {name expr : Bytes} (hname : IsName name) (hbalanced : Argument.Balanced expr) (e : Reader)
    (more : Bytes) (offset : Nat) (o : Outline) (before : Option UInt8)
    (hverbatim : o.verbatim = true → name = terminator)
    (hknown : before.any isWordByte = true →
      name = terminator ∨ e.registry.isPart name = true ∨ (e.registry.lookup name).isSome = true) :
    ∃ span raw, e.Passes (printHead name expr) more offset o before
      (o.addHead e.registry e.options { name, args := some (Text.trim expr), span } raw) (some (ascii ')')) := by
  have hpiece : piece e.registry o.verbatim offset before (ascii '@')
      ((name ++ ascii '(' :: (expr ++ [ascii ')'])) ++ more) = _ := piece_head hname hbalanced hverbatim more hknown
  have hpasses := passes_piece hpiece
  have hlast : (ascii '@' :: (name ++ ascii '(' :: (expr ++ [ascii ')']))).getLast? = some (ascii ')') := by
    have hwhole : ascii '@' :: (name ++ ascii '(' :: (expr ++ [ascii ')'])) =
        (ascii '@' :: (name ++ ascii '(' :: expr)) ++ [ascii ')'] := by
      rw [List.cons_append, List.append_assoc, List.cons_append]
    rw [hwhole, List.getLast?_concat]
  rw [hlast] at hpasses
  exact ⟨_, _, hpasses⟩

end

end Stencil.Markup
