import Stencil.Directive.Regex
import Mathlib.Logic.Relation

/-! # Languages of regular expressions

`Regex.Matches` says which parts of a text an expression matches, with no preference among the ways to do so. The
steps that an expression is turned into lead over just these parts. A part that matches is walked over
(`goes_of_matches`), and a walk comes out of the steps of an expression only behind such a part (`Walk.leaves`). So
what a whole program reaches at its end is the language (`reaches_end_iff`). -/

namespace Stencil.Directive.Regex

open Relation

/-- An expression matches the part of a text from one place up to another. -/
def Matches (text : Array Char) : Regex → Nat → Nat → Prop
  | .empty, i, j => i = j
  | .set negated ranges, i, j => (∃ c, text[i]? = some c ∧ holds negated ranges c.toNat = true) ∧ i + 1 = j
  | .anchor a, i, j => Anchor.holdsAt text i a = true ∧ i = j
  | .seq a b, i, j => ∃ k, a.Matches text i k ∧ b.Matches text k j
  | .alt a b, i, j => a.Matches text i j ∨ b.Matches text i j
  | .repeated .star _ r, i, j => ReflTransGen (r.Matches text) i j
  | .repeated .plus _ r, i, j => TransGen (r.Matches text) i j
  | .repeated .quest _ r, i, j => i = j ∨ r.Matches text i j
  | .group _ r, i, j => r.Matches text i j

/-- The whole text is in the language of the expression. -/
def Accepts (r : Regex) (text : Array Char) : Prop := r.Matches text 0 text.size

/-! ### Points of a search -/

/-- A step and a place in the text. -/
abbrev Point := Nat × Nat

section Points
variable (code : Array RegexStep) (text : Array Char)

/-- The points that a point goes on to, the preferred one first; `none` at the end. Where groups start and stop
plays no part in this. -/
def options (c : Point) : Option (List Point) :=
  (advance text ⟨c.1, c.2, []⟩ (code.getD c.1 .done)).map fun ways => ways.map fun t => (t.step, t.place)

def Goes (c d : Point) : Prop := ∃ ds, options code text c = some ds ∧ d ∈ ds

/-- A walk of so many steps. -/
def Walk : Nat → Point → Point → Prop
  | 0, c, d => c = d
  | n + 1, c, d => ∃ e, Goes code text c e ∧ Walk n e d

/-- The steps stand in the code from `base` on. -/
def Has : Nat → List RegexStep → Prop
  | _, [] => True
  | base, s :: ss => code.getD base .done = s ∧ Has (base + 1) ss

end Points

attribute [local simp] Matches Has steps size

variable {code : Array RegexStep} {text : Array Char}

@[simp] theorem has_append {base : Nat} (ss ts : List RegexStep) :
    Has code base (ss ++ ts) ↔ Has code base ss ∧ Has code (base + ss.length) ts := by
  induction ss generalizing base with
  | nil => simp
  | cons s ss ih => simp [ih, and_assoc, Nat.add_assoc, Nat.add_comm 1]

theorem has_self (before ss : List RegexStep) : Has (before ++ ss).toArray before.length ss := by
  induction ss generalizing before with
  | nil => trivial
  | cons s ss ih => exact ⟨by simp, by simpa using ih (before ++ [s])⟩

section Steps
variable {step i : Nat} {d : Point}

theorem goes_set {negated : Bool} {ranges : List (Nat × Nat)} {next : Nat}
    (h : code.getD step .done = .set negated ranges next) :
    Goes code text (step, i) d ↔
      (∃ c, text[i]? = some c ∧ holds negated ranges c.toNat = true) ∧ d = (next, i + 1) := by
  cases hc : text[i]? with
  | none => simp [Goes, options, h, advance, hc]
  | some c => by_cases hholds : holds negated ranges c.toNat = true <;> simp [Goes, options, h, advance, hc, hholds]

theorem goes_anchor {a : Anchor} {next : Nat} (h : code.getD step .done = .anchor a next) :
    Goes code text (step, i) d ↔ Anchor.holdsAt text i a = true ∧ d = (next, i) := by
  by_cases hholds : Anchor.holdsAt text i a = true <;> simp [Goes, options, h, advance, hholds]

theorem goes_split {first second : Nat} (h : code.getD step .done = .split first second) :
    Goes code text (step, i) d ↔ d = (first, i) ∨ d = (second, i) := by
  simp [Goes, options, h, advance]

theorem goes_choose {greedy : Bool} {inner next : Nat} (h : code.getD step .done = choose greedy inner next) :
    Goes code text (step, i) d ↔ d = (inner, i) ∨ d = (next, i) := by
  cases greedy
  · exact (goes_split h).trans or_comm
  · exact goes_split h

theorem goes_note {slot next : Nat} (h : code.getD step .done = .note slot next) :
    Goes code text (step, i) d ↔ d = (next, i) := by
  simp [Goes, options, h, advance]

theorem goes_pass {next : Nat} (h : code.getD step .done = .pass next) :
    Goes code text (step, i) d ↔ d = (next, i) := by
  simp [Goes, options, h, advance]

theorem options_eq_none {c : Point} : options code text c = none ↔ code.getD c.1 .done = .done := by
  cases h : code.getD c.1 .done with
  | set negated ranges next => cases hc : text[c.2]? <;> simp [options, h, advance, hc]
  | _ => simp [options, h, advance]

end Steps

/-! ### What matches is walked over -/

/-- A step that starts a part over or goes on behind it leads over any number of such parts. -/
theorem goes_fork {fork inner next : Nat} {R : Nat → Nat → Prop}
    (hfork : ∀ i d, Goes code text (fork, i) d ↔ d = (inner, i) ∨ d = (next, i))
    (hinner : ∀ i j, R i j → ReflTransGen (Goes code text) (inner, i) (fork, j)) {i j : Nat}
    (h : ReflTransGen R i j) : ReflTransGen (Goes code text) (fork, i) (next, j) := by
  induction h using ReflTransGen.head_induction_on with
  | refl => exact .single ((hfork _ _).mpr (.inr rfl))
  | head hR _ ih => exact .head ((hfork _ _).mpr (.inl rfl)) ((hinner _ _ hR).trans ih)

/-- A part with such a step behind it leads over one such part or more. -/
theorem goes_turns {fork inner next : Nat} {R : Nat → Nat → Prop}
    (hfork : ∀ i d, Goes code text (fork, i) d ↔ d = (inner, i) ∨ d = (next, i))
    (hinner : ∀ i j, R i j → ReflTransGen (Goes code text) (inner, i) (fork, j)) {i j : Nat}
    (h : TransGen R i j) : ReflTransGen (Goes code text) (inner, i) (next, j) := by
  obtain ⟨k, hR, hRs⟩ := TransGen.head'_iff.mp h
  exact (hinner i k hR).trans (goes_fork hfork hinner hRs)

theorem goes_of_matches {r : Regex} {base next i j : Nat} (hcode : Has code base (r.steps base next))
    (h : r.Matches text i j) : ReflTransGen (Goes code text) (base, i) (next, j) := by
  induction r generalizing base next i j with
  | empty =>
    obtain rfl : i = j := h
    exact .single ((goes_pass hcode.1).mpr rfl)
  | set negated ranges =>
    obtain ⟨hholds, rfl⟩ := h
    exact .single ((goes_set hcode.1).mpr ⟨hholds, rfl⟩)
  | anchor a =>
    obtain ⟨hholds, rfl⟩ := h
    exact .single ((goes_anchor hcode.1).mpr ⟨hholds, rfl⟩)
  | seq a b iha ihb =>
    obtain ⟨k, ha, hb⟩ := h
    simp only [steps, has_append, length_steps] at hcode
    exact (iha hcode.1 ha).trans (ihb hcode.2 hb)
  | alt a b iha ihb =>
    simp only [steps, Has, has_append, length_steps] at hcode
    obtain ⟨hsplit, ha, hb⟩ := hcode
    cases h with
    | inl h => exact .head ((goes_split hsplit).mpr (.inl rfl)) (iha ha h)
    | inr h => exact .head ((goes_split hsplit).mpr (.inr rfl)) (ihb hb h)
  | repeated kind greedy r ih =>
    cases kind with
    | star =>
      -- a part that matches nothing is only entered on purpose: the loop is then a choice before one part or more
      by_cases hnull : r.nullable = true
      · simp only [steps, hnull, if_true, Has, has_append, length_steps] at hcode
        obtain ⟨hfirst, hinner, hfork, -⟩ := hcode
        obtain rfl | hRs := reflTransGen_iff_eq_or_transGen.mp h
        · exact .single ((goes_choose hfirst).mpr (.inr rfl))
        · exact .head ((goes_choose hfirst).mpr (.inl rfl))
            (goes_turns (fun i d => goes_choose hfork) (fun i j hR => ih hinner hR) hRs)
      · simp only [steps, hnull, Bool.false_eq_true, if_false, Has] at hcode
        exact goes_fork (fun i d => goes_choose hcode.1) (fun i j hR => ih hcode.2 hR) h
    | plus =>
      simp only [steps, Has, has_append, length_steps] at hcode
      obtain ⟨hinner, hfork, -⟩ := hcode
      exact goes_turns (fun i d => goes_choose hfork) (fun i j hR => ih hinner hR) h
    | quest =>
      obtain rfl | h := h
      · exact .single ((goes_choose hcode.1).mpr (.inr rfl))
      · exact .head ((goes_choose hcode.1).mpr (.inl rfl)) (ih hcode.2 h)
  | group index r ih =>
    simp only [steps, Has, has_append, length_steps] at hcode
    obtain ⟨hopen, hinner, hclose, -⟩ := hcode
    exact .head ((goes_note hopen).mpr rfl) ((ih hinner h).tail ((goes_note hclose).mpr rfl))

/-! ### What is walked over matches -/

namespace Walk

variable {n : Nat} {c d x : Point}

theorem of_reflTransGen (h : ReflTransGen (Goes code text) c d) : ∃ n, Walk code text n c d := by
  induction h using ReflTransGen.head_induction_on with
  | refl => exact ⟨0, rfl⟩
  | head hgoes _ ih =>
    obtain ⟨n, hn⟩ := ih
    exact ⟨n + 1, _, hgoes, hn⟩

/-- A walk to another step starts with a step. -/
theorem first (h : Walk code text n c x) (hne : x.1 ≠ c.1) :
    ∃ m < n, ∃ e, Goes code text c e ∧ Walk code text m e x := by
  cases n with
  | zero =>
    obtain rfl : c = x := h
    exact absurd rfl hne
  | succ n =>
    obtain ⟨e, hgoes, hwalk⟩ := h
    exact ⟨n, Nat.lt_succ_self n, e, hgoes, hwalk⟩

/-- A walk that comes out of a loop goes over some parts first. The loop starts a part over, or is left, at one
step. -/
theorem leaves_fork {fork inner next : Nat} {R : Nat → Nat → Prop} (hne : x.1 ≠ fork)
    (hfork : ∀ i d, Goes code text (fork, i) d ↔ d = (inner, i) ∨ d = (next, i))
    (hinner : ∀ n i, Walk code text n (inner, i) x → ∃ m < n, ∃ j, R i j ∧ Walk code text m (fork, j) x) (n i : Nat)
    (h : Walk code text n (fork, i) x) : ∃ m < n, ∃ j, ReflTransGen R i j ∧ Walk code text m (next, j) x := by
  induction n using Nat.strongRecOn generalizing i with
  | ind n ih =>
    obtain ⟨m, hm, e, hgoes, hwalk⟩ := h.first hne
    obtain rfl | rfl := (hfork i e).mp hgoes
    · obtain ⟨m', hm', j, hR, hwalk⟩ := hinner m i hwalk
      obtain ⟨m'', hm'', k, hRs, hwalk⟩ := ih m' (by omega) j hwalk
      exact ⟨m'', by omega, k, .head hR hRs, hwalk⟩
    · exact ⟨m, hm, i, .refl, hwalk⟩

/-- A walk from the start of the part goes over it once before it comes to that step. -/
theorem leaves_turns {fork inner next : Nat} {R : Nat → Nat → Prop} (hne : x.1 ≠ fork)
    (hfork : ∀ i d, Goes code text (fork, i) d ↔ d = (inner, i) ∨ d = (next, i))
    (hinner : ∀ n i, Walk code text n (inner, i) x → ∃ m < n, ∃ j, R i j ∧ Walk code text m (fork, j) x) (n i : Nat)
    (h : Walk code text n (inner, i) x) : ∃ m < n, ∃ j, TransGen R i j ∧ Walk code text m (next, j) x := by
  obtain ⟨m, hm, j, hR, hwalk⟩ := hinner n i h
  obtain ⟨m', hm', k, hRs, hwalk⟩ := leaves_fork hne hfork hinner m j hwalk
  exact ⟨m', by omega, k, TransGen.head' hR hRs, hwalk⟩

/-- A walk out of the steps of an expression goes over a part that matches, and on from the step behind them. -/
theorem leaves {r : Regex} {base next i : Nat} (hcode : Has code base (r.steps base next))
    (h : Walk code text n (base, i) x) (hx : x.1 < base ∨ base + r.size ≤ x.1) :
    ∃ m < n, ∃ j, r.Matches text i j ∧ Walk code text m (next, j) x := by
  induction r generalizing base next n i with
  | empty =>
    obtain ⟨m, hm, e, hgoes, hwalk⟩ := h.first (by simp at hx ⊢; omega)
    obtain rfl := (goes_pass hcode.1).mp hgoes
    exact ⟨m, hm, i, rfl, hwalk⟩
  | set negated ranges =>
    obtain ⟨m, hm, e, hgoes, hwalk⟩ := h.first (by simp at hx ⊢; omega)
    obtain ⟨hholds, rfl⟩ := (goes_set hcode.1).mp hgoes
    exact ⟨m, hm, i + 1, ⟨hholds, rfl⟩, hwalk⟩
  | anchor a =>
    obtain ⟨m, hm, e, hgoes, hwalk⟩ := h.first (by simp at hx ⊢; omega)
    obtain ⟨hholds, rfl⟩ := (goes_anchor hcode.1).mp hgoes
    exact ⟨m, hm, i, ⟨hholds, rfl⟩, hwalk⟩
  | seq a b iha ihb =>
    simp only [steps, has_append, length_steps] at hcode
    simp only [size] at hx
    obtain ⟨m, hm, j, ha, hwalk⟩ := iha hcode.1 h (by omega)
    obtain ⟨m', hm', k, hb, hwalk⟩ := ihb hcode.2 hwalk (by omega)
    exact ⟨m', by omega, k, ⟨j, ha, hb⟩, hwalk⟩
  | alt a b iha ihb =>
    simp only [steps, Has, has_append, length_steps] at hcode
    simp only [size] at hx
    obtain ⟨hsplit, ha, hb⟩ := hcode
    obtain ⟨m, hm, e, hgoes, hwalk⟩ := h.first (by simp only; omega)
    obtain rfl | rfl := (goes_split hsplit).mp hgoes
    · obtain ⟨m', hm', j, hmatch, hwalk⟩ := iha ha hwalk (by omega)
      exact ⟨m', by omega, j, .inl hmatch, hwalk⟩
    · obtain ⟨m', hm', j, hmatch, hwalk⟩ := ihb hb hwalk (by omega)
      exact ⟨m', by omega, j, .inr hmatch, hwalk⟩
  | repeated kind greedy r ih =>
    cases kind with
    | star =>
      by_cases hnull : r.nullable = true
      · simp only [steps, hnull, if_true, Has, has_append, length_steps] at hcode
        simp only [size, hnull, if_true] at hx
        obtain ⟨hfirst, hinner, hfork, -⟩ := hcode
        obtain ⟨m, hm, e, hgoes, hwalk⟩ := h.first (by simp only; omega)
        obtain rfl | rfl := (goes_choose hfirst).mp hgoes
        · obtain ⟨m', hm', j, hRs, hwalk⟩ := leaves_turns (by omega) (fun i d => goes_choose hfork)
            (fun n i hwalk => ih hinner hwalk (by omega)) m i hwalk
          exact ⟨m', by omega, j, hRs.to_reflTransGen, hwalk⟩
        · exact ⟨m, hm, i, .refl, hwalk⟩
      · simp only [steps, hnull, Bool.false_eq_true, if_false, Has] at hcode
        simp only [size, hnull, Bool.false_eq_true, if_false] at hx
        exact leaves_fork (by omega) (fun i d => goes_choose hcode.1)
          (fun n i hwalk => ih hcode.2 hwalk (by omega)) n i h
    | plus =>
      simp only [steps, Has, has_append, length_steps] at hcode
      simp only [size] at hx
      obtain ⟨hinner, hfork, -⟩ := hcode
      exact leaves_turns (by omega) (fun i d => goes_choose hfork)
        (fun n i hwalk => ih hinner hwalk (by omega)) n i h
    | quest =>
      simp only [size] at hx
      obtain ⟨m, hm, e, hgoes, hwalk⟩ := h.first (by simp only; omega)
      obtain rfl | rfl := (goes_choose hcode.1).mp hgoes
      · obtain ⟨m', hm', j, hmatch, hwalk⟩ := ih hcode.2 hwalk (by omega)
        exact ⟨m', by omega, j, .inr hmatch, hwalk⟩
      · exact ⟨m, hm, i, .inl rfl, hwalk⟩
  | group index r ih =>
    simp only [steps, Has, has_append, length_steps] at hcode
    simp only [size] at hx
    obtain ⟨hopen, hinner, hclose, -⟩ := hcode
    obtain ⟨m, hm, e, hgoes, hwalk⟩ := h.first (by simp only; omega)
    obtain rfl := (goes_note hopen).mp hgoes
    obtain ⟨m', hm', j, hmatch, hwalk⟩ := ih hinner hwalk (by omega)
    obtain ⟨m'', hm'', e, hgoes, hwalk⟩ := hwalk.first (by simp only; omega)
    obtain rfl := (goes_note hclose).mp hgoes
    exact ⟨m'', by omega, j, hmatch, hwalk⟩

end Walk

/-! ### Programs -/

variable {r : Regex} {i j : Nat} {x : Point}

theorem has_program (r : Regex) :
    Has r.program 0 (r.steps 0 r.size) ∧ r.program.getD r.size .done = .done := by
  have h : Has r.program 0 (r.steps 0 r.size ++ [.done]) := has_self [] _
  simpa [length_steps] using h

theorem size_program (r : Regex) : r.program.size = r.size + 1 := by simp [program, length_steps]

/-- The steps of an expression all go on. -/
theorem done_notMem_steps (r : Regex) (base next : Nat) : RegexStep.done ∉ r.steps base next := by
  have hchoose (greedy : Bool) (inner next : Nat) : RegexStep.done ≠ choose greedy inner next := by
    cases greedy <;> simp [choose]
  induction r generalizing base next with
  | repeated kind greedy r ih =>
    cases kind with
    | star => by_cases hnull : r.nullable = true <;> simp [hnull, ih, hchoose]
    | plus | quest => simp [ih, hchoose]
  | _ => simp [*]

/-- A search has ended when it has come behind the steps of the expression. -/
theorem options_program (h : x.1 ≤ r.size) : options r.program text x = none ↔ x.1 = r.size := by
  rw [options_eq_none]
  constructor
  · intro hdone
    refine Nat.le_antisymm h (Nat.le_of_not_lt fun hlt => ?_)
    rw [← length_steps r 0 r.size] at hlt
    have hmem : (r.steps 0 r.size)[x.1] ∈ r.steps 0 r.size := List.getElem_mem hlt
    have hstep : r.program.getD x.1 .done = (r.steps 0 r.size)[x.1] := by
      simp [program, Array.getD, hlt, Nat.lt_succ_of_lt hlt]
    rw [← hstep, hdone] at hmem
    exact done_notMem_steps r 0 r.size hmem
  · rintro h
    rw [h]
    exact (has_program r).2

/-- Behind the steps of the expression a search stands still, and what it has gone over matches. -/
theorem step_le_of_reaches (h : ReflTransGen (Goes r.program text) (0, i) x) :
    x.1 < r.size ∨ x.1 = r.size ∧ r.Matches text i x.2 := by
  rcases Nat.lt_or_ge x.1 r.size with hlt | hge
  · exact .inl hlt
  · right
    obtain ⟨n, hwalk⟩ := Walk.of_reflTransGen h
    obtain ⟨m, -, j, hmatch, hwalk⟩ := hwalk.leaves (has_program r).1 (by simpa using hge)
    cases m with
    | zero =>
      obtain rfl : (r.size, j) = x := hwalk
      exact ⟨rfl, hmatch⟩
    | succ m =>
      obtain ⟨e, ⟨ds, hds, -⟩, -⟩ := hwalk
      rw [options_eq_none.mpr (has_program r).2] at hds
      cases hds

/-- A program comes to its end just behind the parts that its expression matches. -/
theorem reaches_end_iff : ReflTransGen (Goes r.program text) (0, i) (r.size, j) ↔ r.Matches text i j := by
  refine ⟨fun h => ?_, goes_of_matches (has_program r).1⟩
  obtain hlt | ⟨-, hmatch⟩ := step_le_of_reaches h
  · exact absurd hlt (Nat.lt_irrefl _)
  · exact hmatch

end Stencil.Directive.Regex
