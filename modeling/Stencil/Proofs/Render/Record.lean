import Stencil.Proofs.Render.Trace

/-! # Output in pieces

The machine writes placeholders into the same output as text and finds them again by a byte that delimits
them. A `Record` keeps them apart: output is a list of pieces, and what was pushed and defined is kept in
the order of execution. As long as nothing that is written contains that byte, the output of every scope is
that of its pieces (`Shows`), and filling in placeholders replaces the pieces that were placed, and no text
(`shows_acts`). -/

namespace Stencil.Render

/-- A piece of output. -/
inductive Piece where
  | text (bytes : Bytes)
  /-- What stands here is not known before the end. -/
  | placeholder (kind name fallback : Bytes)
  deriving DecidableEq, Repr

namespace Piece

/-- The text inside a placeholder. -/
def token (kind name : Bytes) : Bytes := kind ++ ":" ++ name

/-- The piece as it stands in output. -/
def bytes : Piece → Bytes
  | .text t => t
  | .placeholder kind name _ => [mark] ++ token kind name ++ [mark]

/-- The delimiter of placeholders does not occur in a text, a name or a fallback. -/
def IsClean : Piece → Prop
  | .text t => mark ∉ t
  | .placeholder kind name fallback => mark ∉ token kind name ∧ mark ∉ fallback

end Piece

/-- The bytes of some pieces. -/
def flat (ps : List Piece) : Bytes := ps.flatMap Piece.bytes

@[simp] theorem flat_nil : flat [] = [] := rfl

@[simp] theorem flat_append (ps qs : List Piece) : flat (ps ++ qs) = flat ps ++ flat qs := List.flatMap_append

theorem flat_cons (p : Piece) (ps : List Piece) : flat (p :: ps) = p.bytes ++ flat ps := rfl

theorem flat_flatten (pss : List (List Piece)) : flat pss.flatten = (pss.map flat).flatten := by
  induction pss with
  | nil => rfl
  | cons ps pss ih => simp [ih]

/-! ### What is deferred -/

/-- What was pushed to stacks and defined as sections, in order, and the placeholders with their fallbacks. -/
structure Deferred where
  pushed : List (Bytes × List Piece) := []
  defined : List (Bytes × List Piece) := []
  /-- Kind, name and fallback of each placeholder. -/
  placed : List (Bytes × Bytes × Bytes) := []

namespace Deferred
variable (d : Deferred)

/-- What was pushed to a stack, in order. -/
def pushedTo (name : Bytes) : List (List Piece) := (d.pushed.filter fun e => e.1 == name).map (·.2)

/-- The section that was defined last under a name. -/
def section? (name : Bytes) : Option (List Piece) := ((d.defined.filter fun e => e.1 == name).getLast?).map (·.2)

/-- The fallback that was given last for a placeholder; an empty one is none. -/
def fallback? (token : Bytes) : Option Bytes :=
  ((d.placed.filter fun e => Piece.token e.1 e.2.1 == token && e.2.2 != []).getLast?).map (·.2.2)

/-- Once more something was pushed. -/
def push (name : Bytes) (ps : List Piece) : Deferred := { d with pushed := d.pushed ++ [(name, ps)] }

/-- One more section was defined. -/
def define (name : Bytes) (ps : List Piece) : Deferred := { d with defined := d.defined ++ [(name, ps)] }

/-- One more placeholder was placed. -/
def place (kind name fallback : Bytes) : Deferred := { d with placed := d.placed ++ [(kind, name, fallback)] }

theorem pushedTo_push (name other : Bytes) (ps : List Piece) :
    (d.push name ps).pushedTo other = d.pushedTo other ++ if name = other then [ps] else [] := by
  by_cases h : name = other <;> simp [push, pushedTo, h]

theorem section?_define (name other : Bytes) (ps : List Piece) :
    (d.define name ps).section? other = if name = other then some ps else d.section? other := by
  by_cases h : name = other <;> simp [define, section?, h]

theorem fallback?_place (kind name fallback token : Bytes) :
    (d.place kind name fallback).fallback? token =
      if Piece.token kind name = token ∧ fallback ≠ [] then some fallback else d.fallback? token := by
  by_cases htoken : Piece.token kind name = token <;> by_cases hempty : fallback = [] <;>
    simp [place, fallback?, htoken, hempty]

/-- What stands for a placeholder. -/
def expand (token : Bytes) : List Piece :=
  let (kind, name) := Shared.kindAndName token
  let found : Option (List Piece) :=
    if kind = "stack" then if d.pushedTo name = [] then none else some (d.pushedTo name).flatten
    else if kind = "section" then d.section? name
    else none
  found.getD [.text ((d.fallback? token).getD [])]

/-- Replaces each placeholder once. -/
def fillOnce (ps : List Piece) : List Piece :=
  ps.flatMap fun p =>
    match p with
    | .text t => [.text t]
    | .placeholder kind name _ => d.expand (Piece.token kind name)

/-- Replaces placeholders, also those in what was put in their place, up to a number of passes. -/
def fill : (passes : Nat) → List Piece → List Piece
  | 0, ps => ps
  | passes + 1, ps => fill passes (d.fillOnce ps)

end Deferred

/-! ### Records -/

/-- A render in pieces: the output of the innermost scope and of those around it, and what is deferred. -/
structure Record where
  top : List Piece := []
  outer : List (List Piece) := []
  deferred : Deferred := {}

namespace Record

/-- Adds a piece of output. -/
def write (r : Record) (p : Piece) : Record := { r with top := r.top ++ [p] }

/-- Closes the innermost scope, unless it is the only one, and disposes of its output. -/
def close (r : Record) (mode : ScopeMode) (name : Bytes) : Record :=
  match r.outer with
  | [] => r
  | s :: rest =>
    match mode with
    | .merge => { r with top := s ++ r.top, outer := rest }
    | .push => { top := s, outer := rest, deferred := r.deferred.push name r.top }
    | .define => { top := s, outer := rest, deferred := r.deferred.define name r.top }
    | .discard | .slot | .component | .unknown _ => { r with top := s, outer := rest }

/-- The record after an event. -/
def after (r : Record) : Event → Record
  | .wrote text => r.write (.text text)
  | .placed kind name fallback =>
    { r.write (.placeholder kind name fallback) with deferred := r.deferred.place kind name fallback }
  | .opened => { r with top := [], outer := r.top :: r.outer }
  | .closed mode name => r.close mode name
  | .filled => { r with top := r.deferred.fill maxPasses r.top }

/-- The record after some events. -/
def afterAll (r : Record) (es : List Event) : Record := es.foldl after r

end Record

/-! ### Filling in -/

/-- Nothing in the pieces contains the delimiter of placeholders. -/
def Clean (ps : List Piece) : Prop := ∀ p ∈ ps, p.IsClean

theorem Clean.append {ps qs : List Piece} (hp : Clean ps) (hq : Clean qs) : Clean (ps ++ qs) :=
  fun p hmem => (List.mem_append.mp hmem).elim (hp p) (hq p)

theorem Clean.flatten {pss : List (List Piece)} (h : ∀ ps ∈ pss, Clean ps) : Clean pss.flatten := by
  intro p hp
  obtain ⟨ps, hps, hmem⟩ := List.mem_flatten.mp hp
  exact h ps hps p hmem

/-- All that is deferred is clean. -/
structure Deferred.Clean (d : Deferred) : Prop where
  pushed : ∀ e ∈ d.pushed, Render.Clean e.2
  defined : ∀ e ∈ d.defined, Render.Clean e.2
  placed : ∀ e ∈ d.placed, mark ∉ e.2.2

/-- The machine has deferred the same. -/
structure Holds (sh : Shared) (d : Deferred) : Prop where
  pushed : ∀ name, Assoc.get? name sh.pushed =
    if d.pushedTo name = [] then none else some ((d.pushedTo name).map flat)
  sections : ∀ name, Assoc.get? name sh.sections = (d.section? name).map flat
  fallbacks : ∀ token, Assoc.get? token sh.fallbacks = d.fallback? token

section Fill
variable {sh : Shared} {d : Deferred}

theorem fillOnce_text (sh : Shared) {text : Bytes} (h : mark ∉ text) (rest : Bytes) :
    sh.fillOnce none (text ++ rest) = text ++ sh.fillOnce none rest := by
  induction text with
  | nil => rfl
  | cons c text ih =>
    obtain ⟨hc, htext⟩ : mark ≠ c ∧ mark ∉ text := by simpa using h
    rw [List.cons_append, Shared.fillOnce, if_neg (Ne.symm hc), ih htext, List.cons_append]

/-- A placeholder of which some bytes were read already. -/
theorem fillOnce_open (sh : Shared) (read : Bytes) {token : Bytes} (h : mark ∉ token) (rest : Bytes) :
    sh.fillOnce (some read) (token ++ ([mark] ++ rest)) = sh.expand (read.reverse ++ token) ++ sh.fillOnce none rest := by
  induction token generalizing read with
  | nil => simp [Shared.fillOnce]
  | cons c token ih =>
    obtain ⟨hc, htoken⟩ : mark ≠ c ∧ mark ∉ token := by simpa using h
    rw [List.cons_append, Shared.fillOnce, if_neg (Ne.symm hc), ih _ htoken]
    simp

theorem fillOnce_piece (sh : Shared) {p : Piece} (h : p.IsClean) (rest : Bytes) :
    sh.fillOnce none (p.bytes ++ rest) =
      (match p with
        | .text t => t
        | .placeholder kind name _ => sh.expand (Piece.token kind name)) ++ sh.fillOnce none rest := by
  cases p with
  | text t => exact fillOnce_text sh h rest
  | placeholder kind name fallback =>
    have hbytes : Piece.bytes (.placeholder kind name fallback) ++ rest =
        mark :: (Piece.token kind name ++ ([mark] ++ rest)) := by simp [Piece.bytes]
    rw [hbytes, Shared.fillOnce, if_pos rfl, fillOnce_open sh [] h.1 rest]
    rfl

theorem expand_eq (hd : Holds sh d) (token : Bytes) : sh.expand token = flat (d.expand token) := by
  unfold Shared.expand Deferred.expand
  rcases Shared.kindAndName token with ⟨kind, name⟩
  simp only [hd.pushed, hd.sections, hd.fallbacks]
  have hfallback : (d.fallback? token).getD [] = flat [.text ((d.fallback? token).getD [])] := by simp [flat, Piece.bytes]
  by_cases hstack : kind = "stack"
  · simp only [if_pos hstack]
    by_cases hnone : d.pushedTo name = []
    · simpa [hnone] using hfallback
    · simp [hnone, flat_flatten]
  · simp only [if_neg hstack]
    by_cases hsection : kind = "section"
    · simp only [if_pos hsection]
      cases d.section? name with
      | none => exact hfallback
      | some ps => rfl
    · simp only [if_neg hsection]
      exact hfallback

theorem fillOnce_flat (hd : Holds sh d) : ∀ {ps : List Piece}, Clean ps →
    sh.fillOnce none (flat ps) = flat (d.fillOnce ps)
  | [], _ => rfl
  | p :: ps, h => by
    have ih := fillOnce_flat hd fun q hq => h q (List.mem_cons_of_mem p hq)
    rw [flat_cons, fillOnce_piece sh (h p List.mem_cons_self), ih]
    cases p with
    | text t => simp [Deferred.fillOnce, flat, Piece.bytes]
    | placeholder kind name fallback => simp [Deferred.fillOnce, expand_eq hd, flat]

theorem clean_pushedTo (hd : d.Clean) (name : Bytes) : ∀ ps ∈ d.pushedTo name, Clean ps := by
  intro ps hps
  obtain ⟨e, he, rfl⟩ := List.mem_map.mp hps
  exact hd.pushed e (List.mem_filter.mp he).1

theorem clean_section (hd : d.Clean) {name : Bytes} {ps : List Piece} (h : d.section? name = some ps) : Clean ps := by
  obtain ⟨e, he, rfl⟩ := Option.map_eq_some_iff.mp h
  exact hd.defined e (List.mem_filter.mp (List.mem_of_getLast? he)).1

theorem clean_fallback (hd : d.Clean) (token : Bytes) : mark ∉ (d.fallback? token).getD [] := by
  cases h : d.fallback? token with
  | none => exact List.not_mem_nil
  | some fallback =>
    obtain ⟨e, he, rfl⟩ := Option.map_eq_some_iff.mp h
    exact hd.placed e (List.mem_filter.mp (List.mem_of_getLast? he)).1

theorem clean_expand (hd : d.Clean) (token : Bytes) : Clean (d.expand token) := by
  have hfallback : Clean [.text ((d.fallback? token).getD [])] := fun p hp =>
    List.mem_singleton.mp hp ▸ clean_fallback hd token
  unfold Deferred.expand
  rcases Shared.kindAndName token with ⟨kind, name⟩
  dsimp only
  split
  · split
    · exact hfallback
    · exact Clean.flatten (clean_pushedTo hd name)
  · split
    · cases h : d.section? name with
      | none => exact hfallback
      | some ps => exact clean_section hd h
    · exact hfallback

theorem clean_fillOnce (hd : d.Clean) {ps : List Piece} (h : Clean ps) : Clean (d.fillOnce ps) := by
  intro q hq
  obtain ⟨p, hp, hmem⟩ := List.mem_flatMap.mp hq
  cases p with
  | text t => exact List.mem_singleton.mp hmem ▸ h _ hp
  | placeholder kind name fallback => exact clean_expand hd _ q hmem

/-- Text without placeholders stays as it is. -/
theorem fill_text (sh : Shared) (n : Nat) {text : Bytes} (h : mark ∉ text) : sh.fill n text = text := by
  cases n with
  | zero => rfl
  | succ n => rw [Shared.fill, if_neg h]

/-- Filling in replaces the placeholders among the pieces, and nothing else. -/
theorem fill_flat (hd : Holds sh d) (hclean : d.Clean) (n : Nat) {ps : List Piece} (h : Clean ps) :
    sh.fill n (flat ps) = flat (d.fill n ps) ∧ Clean (d.fill n ps) := by
  induction n generalizing ps with
  | zero => exact ⟨rfl, h⟩
  | succ n ih =>
    obtain ⟨heq, hfill⟩ := ih (clean_fillOnce hclean h)
    refine ⟨?_, hfill⟩
    rw [Deferred.fill, ← heq, ← fillOnce_flat hd h, Shared.fill]
    split
    · rfl
    · rename_i hmark
      have hsame : sh.fillOnce none (flat ps) = flat ps := by
        simpa [Shared.fillOnce] using fillOnce_text sh hmark []
      rw [hsame, fill_text sh n hmark]

end Fill

/-! ### Events -/

/-- What an event writes or places does not contain the delimiter of placeholders. -/
def Event.IsClean : Event → Prop
  | .wrote text => mark ∉ text
  | .placed kind name fallback => mark ∉ Piece.token kind name ∧ mark ∉ fallback
  | .opened | .closed _ _ | .filled => True

instance : DecidablePred Event.IsClean
  | .wrote text => inferInstanceAs (Decidable (mark ∉ text))
  | .placed kind name fallback => inferInstanceAs (Decidable (mark ∉ Piece.token kind name ∧ mark ∉ fallback))
  | .opened | .closed _ _ | .filled => inferInstanceAs (Decidable True)

/-- The output of each scope is that of its pieces, and the same is deferred; all of it is clean. -/
structure Shows (m : State) (r : Record) : Prop where
  top : m.top.out = flat r.top
  outer : m.outer.map Scope.out = r.outer.map flat
  holds : Holds m.shared r.deferred
  cleanTop : Clean r.top
  cleanOuter : ∀ ps ∈ r.outer, Clean ps
  cleanDeferred : r.deferred.Clean

section
variable {m m' : State} {r : Record}

theorem Shows.quiet {host : Host} (h : Shows m r) (hq : Quiet host m m') : Shows m' r := by
  have houts := hq.outs
  simp only [State.scopes, List.map_cons, List.cons.injEq] at houts
  exact ⟨houts.1.trans h.top, houts.2.trans h.outer,
    ⟨by rw [hq.pushed]; exact h.holds.pushed, by rw [hq.sections]; exact h.holds.sections,
      by rw [hq.fallbacks]; exact h.holds.fallbacks⟩, h.cleanTop, h.cleanOuter, h.cleanDeferred⟩

/-- A placeholder is written, and its fallback kept if it is not empty. -/
theorem placeholder_eq (m : State) (kind name fallback : Bytes) :
    m.placeholder kind name fallback =
      { m.write (Piece.bytes (.placeholder kind name fallback)) with
        shared := { m.shared with
          fallbacks :=
            if fallback = [] then m.shared.fallbacks
            else Assoc.insert (Piece.token kind name) fallback m.shared.fallbacks } } := by
  unfold State.placeholder
  dsimp only
  split <;> rfl

theorem Shows.write {p : Piece} (h : Shows m r) (hp : p.IsClean) : Shows (m.write p.bytes) (r.write p) where
  top := by simp [State.write, Scope.write, Record.write, h.top, flat]
  outer := h.outer
  holds := h.holds
  cleanTop := h.cleanTop.append fun q hq => List.mem_singleton.mp hq ▸ hp
  cleanOuter := h.cleanOuter
  cleanDeferred := h.cleanDeferred

theorem Shows.opened (h : Shows m r) {s : Scope} (hs : s.out = []) : Shows (m.enter s) (r.after .opened) where
  top := hs
  outer := by simp [State.enter, Record.after, h.top, h.outer]
  holds := h.holds
  cleanTop := nofun
  cleanOuter := List.forall_mem_cons.mpr ⟨h.cleanTop, h.cleanOuter⟩
  cleanDeferred := h.cleanDeferred

theorem Shows.filled (h : Shows m r) (hroot : m.isRoot = true) : Shows m.resolve (r.after .filled) := by
  obtain ⟨heq, hclean⟩ := fill_flat h.holds h.cleanDeferred maxPasses h.cleanTop
  rw [State.resolve, if_pos hroot, h.top, heq]
  simp only [Record.after]
  generalize r.deferred.fill maxPasses r.top = ps at hclean ⊢
  exact ⟨rfl, h.outer, h.holds, hclean, h.cleanOuter, h.cleanDeferred⟩

theorem Shows.placed (h : Shows m r) {kind name fallback : Bytes} (hclean : (Event.placed kind name fallback).IsClean) :
    Shows (m.placeholder kind name fallback) (r.after (.placed kind name fallback)) := by
  have hwrite := h.write (p := .placeholder kind name fallback) hclean
  have hfallbacks (token : Bytes) :
      Assoc.get? token (if fallback = [] then m.shared.fallbacks
        else Assoc.insert (Piece.token kind name) fallback m.shared.fallbacks) =
      (r.deferred.place kind name fallback).fallback? token := by
    rw [Deferred.fallback?_place, ← h.holds.fallbacks]
    -- an empty fallback is not kept, so it leaves an earlier one in place
    by_cases hempty : fallback = []
    · simp [hempty]
    · by_cases htoken : Piece.token kind name = token
      · simp [hempty, htoken]
      · simp [hempty, htoken, Assoc.get?_insert_ne (Ne.symm htoken)]
  have hclean' : (r.deferred.place kind name fallback).Clean := by
    refine ⟨h.cleanDeferred.pushed, h.cleanDeferred.defined, fun e he => ?_⟩
    rcases List.mem_append.mp he with he | he
    · exact h.cleanDeferred.placed e he
    · exact List.mem_singleton.mp he ▸ hclean.2
  rw [placeholder_eq]
  exact ⟨hwrite.top, h.outer, ⟨h.holds.pushed, h.holds.sections, hfallbacks⟩, hwrite.cleanTop, h.cleanOuter, hclean'⟩

theorem Shows.closed (h : Shows m r) (mode : ScopeMode) (name : Bytes) (houter : m.outer ≠ []) :
    Shows (m.close mode name) (r.after (.closed mode name)) := by
  obtain ⟨top, outer, shared⟩ := m
  obtain ⟨rtop, router, d⟩ := r
  obtain ⟨htop, hout, hholds, hcleanTop, hcleanOuter, hdeferred⟩ := h
  cases outer with
  | nil => exact absurd rfl houter
  | cons s rest =>
    cases router with
    | nil => simp at hout
    | cons ps pss =>
      simp only [List.map_cons, List.cons.injEq] at htop hout hholds hdeferred hcleanTop hcleanOuter
      obtain ⟨hps, hpss⟩ := List.forall_mem_cons.mp hcleanOuter
      have hleave : Shows ({ top := s, outer := rest, shared } : State) { top := ps, outer := pss, deferred := d } :=
        ⟨hout.1, hout.2, hholds, hps, hpss, hdeferred⟩
      -- the modes differ in where the output of the scope goes
      cases mode with
      | discard | slot | component | unknown _ => exact hleave
      | merge =>
        refine ⟨?_, hout.2, hholds, hps.append hcleanTop, hpss, hdeferred⟩
        simp only [State.close, State.leave, State.write, Scope.write, Record.after, Record.close, flat_append]
        rw [hout.1, htop]
      | push =>
        refine ⟨hout.1, hout.2, ⟨fun other => ?_, hholds.sections, hholds.fallbacks⟩, hps, hpss,
          ⟨?_, hdeferred.defined, hdeferred.placed⟩⟩
        · simp only [State.close, State.leave, Shared.push, Record.after, Record.close, Deferred.pushedTo_push]
          by_cases hname : name = other
          · subst hname
            rw [Assoc.get?_insert_self, hholds.pushed]
            by_cases hnone : d.pushedTo name = []
            · simp [hnone, htop]
            · simp [hnone, htop]
          · rw [Assoc.get?_insert_ne (Ne.symm hname), hholds.pushed]
            simp [hname]
        · intro e he
          rcases List.mem_append.mp he with he | he
          · exact hdeferred.pushed e he
          · exact List.mem_singleton.mp he ▸ hcleanTop
      | define =>
        refine ⟨hout.1, hout.2, ⟨hholds.pushed, fun other => ?_, hholds.fallbacks⟩, hps, hpss,
          ⟨hdeferred.pushed, ?_, hdeferred.placed⟩⟩
        · simp only [State.close, State.leave, Shared.define, Record.after, Record.close, Deferred.section?_define]
          by_cases hname : name = other
          · subst hname
            simp [htop]
          · rw [Assoc.get?_insert_ne (Ne.symm hname), hholds.sections, if_neg hname]
        · intro e he
          rcases List.mem_append.mp he with he | he
          · exact hdeferred.defined e he
          · exact List.mem_singleton.mp he ▸ hcleanTop

theorem Record.afterAll_cons (r : Record) (e : Event) (es : List Event) : r.afterAll (e :: es) = (r.after e).afterAll es :=
  rfl

/-- Every event keeps output and pieces together. -/
theorem shows_acts {host : Host} {es : List Event} (hacts : Acts host m es m') (hclean : ∀ e ∈ es, e.IsClean) (h : Shows m r) :
    Shows m' (r.afterAll es) := by
  induction hacts generalizing r with
  | refl => exact h
  | quiet hq _ ih => exact ih hclean (h.quiet hq)
  | wrote text _ ih =>
    obtain ⟨htext, hrest⟩ := List.forall_mem_cons.mp hclean
    rw [Record.afterAll_cons]
    exact ih hrest (h.write (p := .text text) htext)
  | placed kind name fallback _ ih =>
    obtain ⟨hplaced, hrest⟩ := List.forall_mem_cons.mp hclean
    rw [Record.afterAll_cons]
    exact ih hrest (h.placed hplaced)
  | opened s hs _ ih =>
    rw [Record.afterAll_cons]
    exact ih (List.forall_mem_cons.mp hclean).2 (h.opened hs)
  | closed mode name houter _ ih =>
    rw [Record.afterAll_cons]
    exact ih (List.forall_mem_cons.mp hclean).2 (h.closed mode name houter)
  | filled hroot _ ih =>
    rw [Record.afterAll_cons]
    exact ih (List.forall_mem_cons.mp hclean).2 (h.filled hroot)

end

end Stencil.Render
