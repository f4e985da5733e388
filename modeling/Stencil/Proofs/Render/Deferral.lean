import Stencil.Proofs.Render.Record

/-! # Deferred content

What stands for a placeholder is known only when a render is over: all that was pushed to a stack, or the
section that was defined last. `Filled` says what a text with placeholders comes to, without passes. The
machine makes a number of passes instead, and comes to the same as long as placeholders are not more deeply
nested than that (`filled_fill`) and those of one name have one fallback. -/

namespace Stencil.Render

/-! ### What stands for placeholders -/

namespace Deferred
variable (d : Deferred)

/-- What stands for a placeholder in the end: all that was pushed to the stack, in order; or the section that
was defined last, or else the fallback. -/
def content (kind name fallback : Bytes) : List Piece :=
  if kind = "stack" then (d.pushedTo name).flatten
  else if kind = "section" then (d.section? name).getD [.text fallback]
  else [.text fallback]

/-- A text comes to some output when every placeholder is replaced, also those in what stands for it. -/
inductive Filled (d : Deferred) : List Piece → Bytes → Prop
  | nil : Filled d [] []
  | text (t : Bytes) {ps : List Piece} {out : Bytes} (rest : Filled d ps out) : Filled d (.text t :: ps) (t ++ out)
  | placeholder {kind name fallback inner : Bytes} {ps : List Piece} {out : Bytes}
      (content : Filled d (d.content kind name fallback) inner) (rest : Filled d ps out) :
      Filled d (.placeholder kind name fallback :: ps) (inner ++ out)

/-- Placeholders are at most so deep in one another; one in the text itself is one deep. -/
def nestsWithin : (depth : Nat) → List Piece → Bool
  | 0, ps => ps.all fun p =>
    match p with
    | .text _ => true
    | .placeholder _ _ _ => false
  | depth + 1, ps => ps.all fun p =>
    match p with
    | .text _ => true
    | .placeholder kind name fallback => nestsWithin depth (d.content kind name fallback)

variable {d}

/-- There is only one output. -/
theorem Filled.unique {ps : List Piece} {out out' : Bytes} (h : d.Filled ps out) (h' : d.Filled ps out') : out = out' := by
  induction h generalizing out' with
  | nil => cases h'; rfl
  | text t _ ih =>
    cases h' with
    | text _ rest => rw [ih rest]
  | placeholder _ _ ih ih' =>
    cases h' with
    | placeholder content rest => rw [ih content, ih' rest]

/-! ### Passes -/

@[simp] theorem fillOnce_append (ps qs : List Piece) : d.fillOnce (ps ++ qs) = d.fillOnce ps ++ d.fillOnce qs :=
  List.flatMap_append

theorem fill_append (n : Nat) (ps qs : List Piece) : d.fill n (ps ++ qs) = d.fill n ps ++ d.fill n qs := by
  induction n generalizing ps qs with
  | zero => rfl
  | succ n ih => simp only [fill, fillOnce_append, ih]

theorem fill_cons (n : Nat) (p : Piece) (ps : List Piece) : d.fill n (p :: ps) = d.fill n [p] ++ d.fill n ps :=
  fill_append n [p] ps

theorem fill_nil (n : Nat) : d.fill n [] = [] := by
  induction n with
  | zero => rfl
  | succ n ih => exact ih

theorem fill_text (n : Nat) (t : Bytes) : d.fill n [.text t] = [.text t] := by
  induction n with
  | zero => rfl
  | succ n ih => exact ih

theorem fill_fill (m n : Nat) (ps : List Piece) : d.fill n (d.fill m ps) = d.fill (m + n) ps := by
  induction m generalizing ps with
  | zero => rw [Nat.zero_add]; rfl
  | succ m ih => rw [fill, ih, Nat.add_right_comm]; rfl

/-! ### Placeholders with one fallback -/

theorem kindAndName_token {kind : Bytes} (h : kind = "section" ∨ kind = "stack") (name : Bytes) :
    Shared.kindAndName (Piece.token kind name) = (kind, name) := by
  rcases h with rfl | rfl <;> rfl

/-- The placeholder is for a section or a stack, and no other fallback was given for it. -/
structure Honors (d : Deferred) (kind name fallback : Bytes) : Prop where
  standard : kind = "section" ∨ kind = "stack" ∧ fallback = []
  same : (d.fallback? (Piece.token kind name)).getD [] = fallback

/-- One pass puts what stands for a placeholder in its place. -/
theorem Honors.fill_expand {kind name fallback : Bytes} (h : d.Honors kind name fallback) (n : Nat) :
    flat (d.fill n (d.expand (Piece.token kind name))) = flat (d.fill n (d.content kind name fallback)) := by
  have hname := kindAndName_token (h.standard.imp_right And.left) name
  simp only [expand, hname, content, h.same]
  rcases h.standard with rfl | ⟨rfl, rfl⟩
  · rw [if_neg (by decide), if_pos rfl, if_neg (by decide), if_pos rfl]
  · simp only [if_true]
    by_cases hnone : d.pushedTo name = []
    · simp [hnone, fill_nil, fill_text, flat, Piece.bytes]
    · simp [hnone]

/-- Every placeholder that may be come to honors its fallback. -/
structure Honest (d : Deferred) : Prop where
  pushed : ∀ e ∈ d.pushed, ∀ kind name fallback, .placeholder kind name fallback ∈ e.2 → d.Honors kind name fallback
  defined : ∀ e ∈ d.defined, ∀ kind name fallback, .placeholder kind name fallback ∈ e.2 → d.Honors kind name fallback

theorem Honest.content (hd : d.Honest) {kind name fallback : Bytes} : ∀ k n f,
    .placeholder k n f ∈ d.content kind name fallback → d.Honors k n f := by
  intro k n f hmem
  unfold Deferred.content at hmem
  split at hmem
  · obtain ⟨ps, hps, hp⟩ := List.mem_flatten.mp hmem
    obtain ⟨e, he, rfl⟩ := List.mem_map.mp hps
    exact hd.pushed e (List.mem_filter.mp he).1 k n f hp
  · split at hmem
    · cases hsection : d.section? name with
      | none => simp [hsection] at hmem
      | some ps =>
        obtain ⟨e, he, rfl⟩ := Option.map_eq_some_iff.mp hsection
        rw [hsection] at hmem
        exact hd.defined e (List.mem_filter.mp (List.mem_of_getLast? he)).1 k n f hmem
    · simp at hmem

/-- As many passes as placeholders are deep in one another replace them all. The induction is on the depth, and
then on the pieces. -/
theorem filled_fill (hd : d.Honest) (depth passes : Nat) (hpasses : depth ≤ passes) : ∀ ps : List Piece,
    (∀ kind name fallback, .placeholder kind name fallback ∈ ps → d.Honors kind name fallback) →
    d.nestsWithin depth ps = true → d.Filled ps (flat (d.fill passes ps))
  | [], _, _ => by
    rw [fill_nil]
    exact .nil
  | p :: ps, hps, hnest => by
    have hrest : d.nestsWithin depth ps = true := by
      cases depth <;> simp only [nestsWithin, List.all_cons, Bool.and_eq_true] at hnest ⊢ <;> exact hnest.2
    have ih := filled_fill hd depth passes hpasses ps
      (fun kind name fallback h => hps kind name fallback (List.mem_cons_of_mem p h)) hrest
    rw [fill_cons, flat_append]
    cases p with
    | text t =>
      rw [fill_text]
      simpa [flat, Piece.bytes] using Filled.text t ih
    | placeholder kind name fallback =>
      cases depth with
      | zero => simp [nestsWithin] at hnest
      | succ depth =>
        obtain ⟨passes, rfl⟩ : ∃ n, passes = n + 1 := ⟨passes - 1, by omega⟩
        have hcontent : d.nestsWithin depth (d.content kind name fallback) = true := by
          simp only [nestsWithin, List.all_cons, Bool.and_eq_true] at hnest
          exact hnest.1
        have hhonors := hps kind name fallback List.mem_cons_self
        have hinner := filled_fill hd depth passes (Nat.le_of_succ_le_succ hpasses) _ hd.content hcontent
        have hpass : d.fill (passes + 1) [.placeholder kind name fallback] =
            d.fill passes (d.expand (Piece.token kind name)) := by
          simp [fill, fillOnce]
        rw [hpass, hhonors.fill_expand]
        exact .placeholder hinner ih
termination_by ps => (depth, ps.length)

end Deferred

/-! ### Records of traces -/

/-- The placeholder that an event places: kind, name and fallback. -/
def Event.placement? : Event → Option (Bytes × Bytes × Bytes)
  | .placed kind name fallback => some (kind, name, fallback)
  | .wrote _ | .opened | .closed _ _ | .filled => none

namespace Record

theorem placed_after (r : Record) (e : Event) :
    (r.after e).deferred.placed = r.deferred.placed ++ e.placement?.toList := by
  cases e with
  | placed kind name fallback => rfl
  | wrote text | opened | filled => exact (List.append_nil _).symm
  | closed mode name =>
    refine Eq.trans ?_ (List.append_nil _).symm
    simp only [after, close]
    split
    · rfl
    · cases mode <;> rfl

theorem placed_afterAll (r : Record) (es : List Event) :
    (r.afterAll es).deferred.placed = r.deferred.placed ++ es.filterMap Event.placement? := by
  induction es generalizing r with
  | nil => exact (List.append_nil _).symm
  | cons e es ih =>
    rw [afterAll_cons, ih, placed_after, List.append_assoc]
    cases h : e.placement? <;> simp [h]

theorem mem_placed_afterAll {es : List Event} {kind name fallback : Bytes} :
    (kind, name, fallback) ∈ (afterAll {} es).deferred.placed ↔ .placed kind name fallback ∈ es := by
  rw [placed_afterAll, List.nil_append, List.mem_filterMap]
  constructor
  · rintro ⟨e, he, heq⟩
    cases e <;> simp only [Event.placement?, Option.some.injEq, Prod.mk.injEq, reduceCtorEq] at heq
    obtain ⟨rfl, rfl, rfl⟩ := heq
    exact he
  · exact fun h => ⟨_, h, rfl⟩

/-- All pieces are of some kind. -/
structure All (P : Piece → Prop) (r : Record) : Prop where
  top : ∀ p ∈ r.top, P p
  outer : ∀ ps ∈ r.outer, ∀ p ∈ ps, P p
  pushed : ∀ e ∈ r.deferred.pushed, ∀ p ∈ e.2, P p
  defined : ∀ e ∈ r.deferred.defined, ∀ p ∈ e.2, P p

section
variable {P : Piece → Prop} {r : Record}

theorem All.write (h : r.All P) {p : Piece} (hp : P p) : (r.write p).All P where
  top q hq := (List.mem_append.mp hq).elim (h.top q) fun hq => List.mem_singleton.mp hq ▸ hp
  outer := h.outer
  pushed := h.pushed
  defined := h.defined

theorem All.close (h : r.All P) (mode : ScopeMode) (name : Bytes) : (r.close mode name).All P := by
  unfold Record.close
  split
  · exact h
  · rename_i s rest houter
    obtain ⟨hs, hrest⟩ : (∀ p ∈ s, P p) ∧ ∀ ps ∈ rest, ∀ p ∈ ps, P p :=
      List.forall_mem_cons.mp (houter ▸ h.outer)
    have hmore (es : List (Bytes × List Piece)) (hes : ∀ e ∈ es, ∀ p ∈ e.2, P p) :
        ∀ e ∈ es ++ [(name, r.top)], ∀ p ∈ e.2, P p := by
      intro e he
      rcases List.mem_append.mp he with he | he
      · exact hes e he
      · exact List.mem_singleton.mp he ▸ h.top
    cases mode with
    | merge => exact ⟨fun p hp => (List.mem_append.mp hp).elim (hs p) (h.top p), hrest, h.pushed, h.defined⟩
    | push => exact ⟨hs, hrest, hmore _ h.pushed, h.defined⟩
    | define => exact ⟨hs, hrest, h.pushed, hmore _ h.defined⟩
    | discard | slot | component | unknown code => exact ⟨hs, hrest, h.pushed, h.defined⟩

/-- Until placeholders are filled in, pieces come from events only. -/
theorem All.afterAll (htext : ∀ t, P (.text t)) {es : List Event} (hfilled : .filled ∉ es)
    (hplaced : ∀ kind name fallback, .placed kind name fallback ∈ es → P (.placeholder kind name fallback))
    (h : r.All P) : (r.afterAll es).All P := by
  induction es generalizing r with
  | nil => exact h
  | cons e es ih =>
    rw [afterAll_cons]
    refine ih (fun h => hfilled (List.mem_cons_of_mem e h))
      (fun kind name fallback h => hplaced kind name fallback (List.mem_cons_of_mem e h)) ?_
    cases e with
    | wrote text => exact h.write (htext text)
    | placed kind name fallback =>
      have hwrite := h.write (hplaced kind name fallback List.mem_cons_self)
      exact ⟨hwrite.top, hwrite.outer, hwrite.pushed, hwrite.defined⟩
    | opened => exact ⟨nofun, List.forall_mem_cons.mpr ⟨h.top, h.outer⟩, h.pushed, h.defined⟩
    | closed mode name => exact h.close mode name
    | filled => exact absurd List.mem_cons_self hfilled

end

end Record

/-- All placeholders of one kind and name have the same fallback. -/
def Deferred.OneFallback (d : Deferred) : Prop :=
  ∀ a ∈ d.placed, ∀ b ∈ d.placed, a.1 = b.1 → a.2.1 = b.2.1 → a.2.2 = b.2.2

instance (d : Deferred) : Decidable d.OneFallback :=
  inferInstanceAs (Decidable (∀ a ∈ d.placed, ∀ b ∈ d.placed, a.1 = b.1 → a.2.1 = b.2.1 → a.2.2 = b.2.2))

/-- Placeholders stand for sections and stacks, one name has one fallback, and stacks have none. -/
structure Uniform (es : List Event) : Prop where
  kinds : ∀ kind name fallback : Bytes, .placed kind name fallback ∈ es →
    kind = "section" ∨ kind = "stack" ∧ fallback = []
  one : (Record.afterAll {} es).deferred.OneFallback

section
variable {es : List Event}

/-- The fallback that was given for a placeholder is its own. -/
theorem Uniform.honors (h : Uniform es) {kind name fallback : Bytes} (hmem : .placed kind name fallback ∈ es) :
    (Record.afterAll {} es).deferred.Honors kind name fallback := by
  have hplaced : ∀ {k n f}, (k, n, f) ∈ (Record.afterAll {} es).deferred.placed ↔ .placed k n f ∈ es :=
    Record.mem_placed_afterAll
  have hone := h.one
  generalize (Record.afterAll {} es).deferred = d at hplaced hone ⊢
  have hkind := h.kinds kind name fallback hmem
  refine ⟨hkind, ?_⟩
  cases hlast : d.fallback? (Piece.token kind name) with
  | none =>
    rw [Deferred.fallback?, Option.map_eq_none_iff, List.getLast?_eq_none_iff, List.filter_eq_nil_iff] at hlast
    have hempty := hlast _ (hplaced.mpr hmem)
    have hnone : fallback = [] := by simpa using hempty
    rw [hnone, Option.getD_none]
  | some other =>
    obtain ⟨⟨k, n, f⟩, he, rfl⟩ := Option.map_eq_some_iff.mp hlast
    obtain ⟨hmem', hsame⟩ := List.mem_filter.mp (List.mem_of_getLast? he)
    simp only [Bool.and_eq_true, beq_iff_eq, bne_iff_ne] at hsame
    have hkind' := h.kinds k n f (hplaced.mp hmem')
    -- the kind and the name can be read off what is inside a placeholder
    have hnames := Deferred.kindAndName_token (hkind'.imp_right And.left) n
    rw [hsame.1, Deferred.kindAndName_token (hkind.imp_right And.left) name, Prod.mk.injEq] at hnames
    obtain ⟨rfl, rfl⟩ := hnames
    exact hone _ hmem' _ (hplaced.mpr hmem) rfl rfl

/-- As long as placeholders are not too deeply nested, passes come to the output in which all of them are replaced. -/
theorem filled_afterAll (h : Uniform es) (hfilled : .filled ∉ es) {depth passes : Nat} (hpasses : depth ≤ passes)
    (hnest : (Record.afterAll {} es).deferred.nestsWithin depth (Record.afterAll {} es).top = true) :
    (Record.afterAll {} es).deferred.Filled (Record.afterAll {} es).top
      (flat ((Record.afterAll {} es).deferred.fill passes (Record.afterAll {} es).top)) := by
  have hall : (Record.afterAll {} es).All fun p =>
      ∀ kind name fallback, p = .placeholder kind name fallback → .placed kind name fallback ∈ es := by
    refine Record.All.afterAll (fun _ => nofun) hfilled ?_ ⟨nofun, nofun, nofun, nofun⟩
    rintro kind name fallback hmem _ _ _ ⟨⟩
    exact hmem
  have hhonest : (Record.afterAll {} es).deferred.Honest :=
    ⟨fun e he kind name fallback hp => h.honors (hall.pushed e he _ hp kind name fallback rfl),
      fun e he kind name fallback hp => h.honors (hall.defined e he _ hp kind name fallback rfl)⟩
  exact Deferred.filled_fill hhonest depth passes hpasses _
    (fun kind name fallback hp => h.honors (hall.top _ hp kind name fallback rfl)) hnest

end

end Stencil.Render
