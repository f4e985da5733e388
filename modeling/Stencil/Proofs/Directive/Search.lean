import Stencil.Proofs.Directive.Language

/-! # The preferred match

A way leads from a point to an end and never comes to a point again. Of two ways from one point the one that takes
the preferred side where they part is before the other (`Before`). A search takes each point once, so it gives up
what it came to before; `findAtStart_cases` says that it still finds the first of all ways, and finds none only when
there is none. So a text that an expression matches as a whole is found as a whole unless a way that stops short of
its end comes first (`findAtStart_whole_iff`). -/

namespace Stencil.Directive.Regex

open Relation

/-! ### Ways -/

section Ways
variable (code : Array RegexStep) (text : Array Char)

/-- The points from one point to an end. -/
inductive Route : Point → List Point → Prop
  | stop {c : Point} (h : options code text c = none) : Route c [c]
  | step {c d : Point} {ds us : List Point} (h : options code text c = some ds) (hd : d ∈ ds) (hroute : Route d us) :
    Route c (c :: us)

/-- A way to an end over points that are allowed, which never comes to a point again. -/
structure Way (ok : Point → Prop) (c : Point) (us : List Point) : Prop where
  route : Route code text c us
  nodup : us.Nodup
  ok : ∀ u ∈ us, ok u

/-- Where two ways part, the first one takes the preferred side. -/
inductive Before : List Point → List Point → Prop
  | here {c d e : Point} {ds us vs : List Point} (h : options code text c = some ds) (hlt : ds.idxOf d < ds.idxOf e) :
    Before (c :: d :: us) (c :: e :: vs)
  | later {c : Point} {us vs : List Point} (h : Before us vs) : Before (c :: us) (c :: vs)

/-- A way before all others. -/
structure First (ok : Point → Prop) (c : Point) (us : List Point) : Prop where
  way : Way code text ok c us
  before : ∀ vs, Way code text ok c vs → vs = us ∨ Before code text us vs

/-- One allowed point leads to another over allowed points. -/
def Leads (ok : Point → Prop) (c d : Point) : Prop :=
  ok c ∧ ReflTransGen (fun a b => Goes code text a b ∧ ok b) c d

def CanEnd (ok : Point → Prop) (c : Point) : Prop := ∃ e, Leads code text ok c e ∧ options code text e = none

/-- The first way from the first of some points from which there is one. -/
inductive FirstOf (ok : Point → Prop) : List Point → List Point → Prop
  | here {c : Point} {cs us : List Point} (h : First code text ok c us) : FirstOf ok (c :: cs) us
  | later {c : Point} {cs us : List Point} (hc : ¬CanEnd code text ok c) (h : FirstOf ok cs us) :
    FirstOf ok (c :: cs) us

/-- No end can be reached from some points. Allowed is now only what they do not lead to. -/
structure Explored (ok ok' : Point → Prop) (cs : List Point) : Prop where
  not_canEnd : ∀ c ∈ cs, ¬CanEnd code text ok c
  rest : ∀ x, ok' x ↔ ok x ∧ ∀ c ∈ cs, ¬Leads code text ok c x

end Ways

variable {code : Array RegexStep} {text : Array Char} {ok ok' : Point → Prop} {c d x : Point} {cs us vs : List Point}

namespace Leads

theorem tail (h : Leads code text ok c d) (hgoes : Goes code text d x) (hx : ok x) : Leads code text ok c x :=
  ⟨h.1, h.2.tail ⟨hgoes, hx⟩⟩

theorem trans (h : Leads code text ok c d) (h' : Leads code text ok d x) : Leads code text ok c x :=
  ⟨h.1, h.2.trans h'.2⟩

theorem head (hc : ok c) (hgoes : Goes code text c d) (h : Leads code text ok d x) : Leads code text ok c x :=
  ⟨hc, .head ⟨hgoes, h.1⟩ h.2⟩

theorem mono (hok : ∀ x, ok' x → ok x) (h : Leads code text ok' c d) : Leads code text ok c d :=
  ⟨hok c h.1, ReflTransGen.mono (fun _ b hb => ⟨hb.1, hok b hb.2⟩) _ _ h.2⟩

/-- After the last visit to a point, its neighbours lead to what it leads to without coming to it again. -/
theorem iff_next : Leads code text ok c x ↔
    ok c ∧ (x = c ∨ ∃ d, Goes code text c d ∧ Leads code text (fun y => ok y ∧ y ≠ c) d x) := by
  constructor
  · rintro ⟨hc, h⟩
    refine ⟨hc, ?_⟩
    induction h with
    | refl => exact .inl rfl
    | @tail a b _ hb ih =>
      by_cases hbc : b = c
      · exact .inl hbc
      right
      obtain rfl | ⟨d, hd, h⟩ := ih
      · exact ⟨b, hb.1, ⟨hb.2, hbc⟩, .refl⟩
      · exact ⟨d, hd, h.tail hb.1 ⟨hb.2, hbc⟩⟩
  · rintro ⟨hc, rfl | ⟨d, hd, h⟩⟩
    · exact ⟨hc, .refl⟩
    · exact .head hc hd (h.mono fun _ hy => hy.1)

end Leads

namespace Route

theorem exists_cons (h : Route code text c us) : ∃ rest, us = c :: rest := by
  cases h with
  | stop => exact ⟨[], rfl⟩
  | step => exact ⟨_, rfl⟩

/-- Along a way every point can come to an end. -/
theorem canEnd (h : Route code text c us) (hok : ∀ u ∈ us, ok u) : ∀ u ∈ us, CanEnd code text ok u := by
  induction h with
  | @stop c hc =>
    intro u hu
    obtain rfl := List.mem_singleton.mp hu
    exact ⟨u, ⟨hok u hu, .refl⟩, hc⟩
  | @step c d ds us hc hd hroute ih =>
    obtain ⟨hokc, hokus⟩ := List.forall_mem_cons.mp hok
    have hus := ih hokus
    refine List.forall_mem_cons.mpr ⟨?_, hus⟩
    obtain ⟨rest, rfl⟩ := hroute.exists_cons
    obtain ⟨e, hlead, he⟩ := hus d List.mem_cons_self
    exact ⟨e, .head hokc ⟨ds, hc, hd⟩ hlead, he⟩

theorem reaches (h : Route code text c us) : ∀ u ∈ us, ReflTransGen (Goes code text) c u := by
  induction h with
  | stop => exact fun u hu => List.mem_singleton.mp hu ▸ .refl
  | @step c d ds us hc hd hroute ih =>
    exact List.forall_mem_cons.mpr ⟨.refl, fun u hu => .head ⟨ds, hc, hd⟩ (ih u hu)⟩

theorem exists_last (h : Route code text c us) : ∃ e, us.getLast? = some e ∧ options code text e = none := by
  induction h with
  | stop h => exact ⟨_, rfl, h⟩
  | step _ _ hroute ih =>
    obtain ⟨rest, rfl⟩ := hroute.exists_cons
    simpa using ih

/-- From any of its points on, a route is a route. -/
theorem from_mem (h : Route code text c us) :
    ∀ u ∈ us, ∃ before after, us = before ++ after ∧ Route code text u after := by
  induction h with
  | stop hc =>
    intro u hu
    obtain rfl := List.mem_singleton.mp hu
    exact ⟨[], _, rfl, .stop hc⟩
  | @step c d ds us hc hd hroute ih =>
    refine List.forall_mem_cons.mpr ⟨⟨[], _, rfl, .step hc hd hroute⟩, fun u hu => ?_⟩
    obtain ⟨before, after, rfl, h⟩ := ih u hu
    exact ⟨c :: before, after, rfl, h⟩

end Route

theorem Way.canEnd (h : Way code text ok c us) : CanEnd code text ok c := by
  obtain ⟨rest, rfl⟩ := h.route.exists_cons
  exact h.route.canEnd h.ok c List.mem_cons_self

namespace Before

theorem head_eq (h : Before code text us vs) : us.head? = vs.head? := by cases h <;> rfl

theorem asymm (h : Before code text us vs) : ¬Before code text vs us := by
  induction h with
  | here hc hlt =>
    intro h'
    cases h' with
    | here hc' hlt' =>
      cases hc.symm.trans hc'
      omega
    | later h' =>
      cases h'.head_eq
      omega
  | later h ih =>
    intro h'
    cases h' with
    | here hc hlt =>
      cases h.head_eq
      omega
    | later h' => exact ih h'

end Before

/-! ### Points from which no end can be reached -/

namespace Explored

theorem mono (h : Explored code text ok ok' cs) {x : Point} (hx : ok' x) : ok x := ((h.rest x).mp hx).1

/-- A point that can come to an end stays allowed. -/
theorem of_canEnd (h : Explored code text ok ok' cs) (hend : CanEnd code text ok x) (hx : ok x) : ok' x := by
  refine (h.rest x).mpr ⟨hx, fun c hc hlead => h.not_canEnd c hc ?_⟩
  obtain ⟨e, he, hstop⟩ := hend
  exact ⟨e, hlead.trans he, hstop⟩

theorem way_iff (h : Explored code text ok ok' cs) : Way code text ok' c us ↔ Way code text ok c us :=
  ⟨fun hway => ⟨hway.route, hway.nodup, fun u hu => h.mono (hway.ok u hu)⟩,
    fun hway => ⟨hway.route, hway.nodup, fun u hu => h.of_canEnd (hway.route.canEnd hway.ok u hu) (hway.ok u hu)⟩⟩

theorem first_iff (h : Explored code text ok ok' cs) : First code text ok' c us ↔ First code text ok c us := by
  constructor
  · exact fun hfirst => ⟨h.way_iff.mp hfirst.way, fun vs hvs => hfirst.before vs (h.way_iff.mpr hvs)⟩
  · exact fun hfirst => ⟨h.way_iff.mpr hfirst.way, fun vs hvs => hfirst.before vs (h.way_iff.mp hvs)⟩

/-- What is led to, is led to without the points or from one of them. -/
theorem leads_or (h : Explored code text ok ok' cs) (hlead : Leads code text ok c x) :
    Leads code text ok' c x ∨ ∃ d ∈ cs, Leads code text ok d x := by
  by_cases hx : ∃ d ∈ cs, Leads code text ok d x
  · exact .inr hx
  left
  obtain ⟨hc, hlead⟩ := hlead
  have hfree {y : Point} (hy : ok y) (hnot : ¬∃ d ∈ cs, Leads code text ok d y) : ok' y :=
    (h.rest y).mpr ⟨hy, fun d hd hlead => hnot ⟨d, hd, hlead⟩⟩
  induction hlead with
  | refl => exact ⟨hfree hc hx, .refl⟩
  | @tail a b _ hb ih =>
    refine (ih fun ⟨d, hd, hlead⟩ => hx ⟨d, hd, hlead.tail hb.1 hb.2⟩).tail hb.1 (hfree hb.2 hx)

theorem canEnd_iff (h : Explored code text ok ok' cs) : CanEnd code text ok' c ↔ CanEnd code text ok c := by
  constructor
  · rintro ⟨e, hlead, he⟩
    exact ⟨e, hlead.mono fun _ hx => h.mono hx, he⟩
  · rintro ⟨e, hlead, he⟩
    obtain hlead | ⟨d, hd, hlead⟩ := h.leads_or hlead
    · exact ⟨e, hlead, he⟩
    · exact absurd ⟨e, hlead, he⟩ (h.not_canEnd d hd)

theorem firstOf (h : Explored code text ok ok' cs) {ds : List Point} (hfirst : FirstOf code text ok' ds us) :
    FirstOf code text ok ds us := by
  induction hfirst with
  | here hfirst => exact .here (h.first_iff.mp hfirst)
  | later hc _ ih => exact .later (fun hend => hc (h.canEnd_iff.mpr hend)) ih

theorem nil : Explored code text ok ok [] := ⟨nofun, fun x => by simp⟩

theorem cons {ok'' : Point → Prop} (h : Explored code text ok ok' [c]) (h' : Explored code text ok' ok'' cs) :
    Explored code text ok ok'' (c :: cs) := by
  have hc := h.not_canEnd c List.mem_cons_self
  refine ⟨List.forall_mem_cons.mpr ⟨hc, fun d hd hend => h'.not_canEnd d hd (h.canEnd_iff.mpr hend)⟩, fun x => ?_⟩
  rw [h'.rest, h.rest, List.forall_mem_singleton, List.forall_mem_cons, and_assoc]
  refine and_congr_right fun _ => and_congr_right fun hnot => forall₂_congr fun d _ => not_congr ⟨?_, fun hlead => ?_⟩
  · exact fun hlead => hlead.mono fun _ hx => h.mono hx
  · obtain hlead | ⟨_, hd, hlead⟩ := h.leads_or hlead
    · exact hlead
    · exact absurd (List.mem_singleton.mp hd ▸ hlead) hnot

/-- A point that is not allowed leads nowhere. -/
theorem of_not (hc : ¬ok c) : Explored code text ok ok [c] := by
  have hlead (x : Point) : ¬Leads code text ok c x := fun h => hc h.1
  refine ⟨fun d hd => ?_, fun x => ?_⟩
  · obtain rfl := List.mem_singleton.mp hd
    exact fun ⟨e, he, _⟩ => hlead e he
  · simp [hlead]

/-- A point is explored when the points it goes on to are, without coming back to it. -/
theorem of_options (hc : ok c) (hds : options code text c = some cs)
    (h : Explored code text (fun y => ok y ∧ y ≠ c) ok' cs) : Explored code text ok ok' [c] := by
  have hiff (x : Point) : Leads code text ok c x ↔
      x = c ∨ ∃ d ∈ cs, Leads code text (fun y => ok y ∧ y ≠ c) d x := by
    rw [Leads.iff_next]
    simp [hc, Goes, hds]
  refine ⟨fun d hd => ?_, fun x => ?_⟩
  · obtain rfl := List.mem_singleton.mp hd
    rintro ⟨e, hlead, he⟩
    obtain rfl | ⟨d', hd', hlead⟩ := (hiff e).mp hlead
    · cases hds.symm.trans he
    · exact h.not_canEnd d' hd' ⟨e, hlead, he⟩
  · rw [h.rest, List.forall_mem_singleton, hiff, not_or, and_assoc]
    simp

end Explored

/-! ### The first way from a point -/

/-- The first way from points in turn starts at one of them. Any other way comes after it, or starts at a point that
stands behind that one. -/
theorem FirstOf.spec (h : FirstOf code text ok cs us) : ∃ d ∈ cs, Way code text ok d us ∧
    ∀ e ∈ cs, ∀ vs, Way code text ok e vs → vs = us ∨ Before code text us vs ∨ cs.idxOf d < cs.idxOf e := by
  induction h with
  | @here d cs us hfirst =>
    refine ⟨d, List.mem_cons_self, hfirst.way, fun e he vs hvs => ?_⟩
    by_cases hde : e = d
    · subst hde
      exact (hfirst.before vs hvs).imp_right .inl
    · refine .inr (.inr ?_)
      rw [List.idxOf_cons_self, List.idxOf_cons, cond_eq_ite, if_neg (by simpa using Ne.symm hde)]
      exact Nat.succ_pos _
  | @later c cs us hc _ ih =>
    obtain ⟨d, hd, hway, hbefore⟩ := ih
    refine ⟨d, List.mem_cons_of_mem c hd, hway, fun e he vs hvs => ?_⟩
    have hne {x : Point} {ws : List Point} (hx : Way code text ok x ws) : c ≠ x := fun h => hc (h ▸ hx.canEnd)
    have he : e ∈ cs := (List.mem_cons.mp he).resolve_left (hne hvs).symm
    simpa [List.idxOf_cons, cond_eq_ite, hne hway, hne hvs] using hbefore e he vs hvs

theorem First.of_stop (hc : ok c) (h : options code text c = none) : First code text ok c [c] := by
  refine ⟨⟨.stop h, List.pairwise_singleton _ c, by simpa using hc⟩, fun vs hvs => ?_⟩
  cases hvs.route with
  | stop => exact .inl rfl
  | step hds => cases h.symm.trans hds

theorem First.of_options (hc : ok c) (hcs : options code text c = some cs)
    (h : FirstOf code text (fun y => ok y ∧ y ≠ c) cs us) : First code text ok c (c :: us) := by
  obtain ⟨d, hd, hway, hbefore⟩ := h.spec
  have hnot : c ∉ us := fun hmem => (hway.ok c hmem).2 rfl
  refine ⟨⟨.step hcs hd hway.route, List.nodup_cons.mpr ⟨hnot, hway.nodup⟩,
    List.forall_mem_cons.mpr ⟨hc, fun u hu => (hway.ok u hu).1⟩⟩, fun vs hvs => ?_⟩
  obtain ⟨hroute, hnodup, hok⟩ := hvs
  cases hroute with
  | stop h => cases h.symm.trans hcs
  | @step _ e ds vs hds he hroute =>
    cases hcs.symm.trans hds
    obtain ⟨hnotin, hnodup⟩ := List.nodup_cons.mp hnodup
    have hvs : Way code text (fun y => ok y ∧ y ≠ c) e vs :=
      ⟨hroute, hnodup, fun v hv => ⟨(List.forall_mem_cons.mp hok).2 v hv, fun h => hnotin (h ▸ hv)⟩⟩
    obtain rfl | hlt | hlt := hbefore e he vs hvs
    · exact .inl rfl
    · exact .inr (.later hlt)
    · obtain ⟨us, rfl⟩ := hway.route.exists_cons
      obtain ⟨vs, rfl⟩ := hroute.exists_cons
      exact .inr (.here hcs hlt)

/-! ### Searching -/

/-- Where a thread is. -/
def pointOf (t : RegexThread) : Point := (t.step, t.place)

/-- What a thread goes on to does not depend on what it remembers of groups. -/
theorem options_pointOf (t : RegexThread) :
    options code text (pointOf t) = (advance text t (code.getD t.step .done)).map (List.map pointOf) := by
  unfold options pointOf
  cases code.getD t.step .done with
  | set negated ranges next =>
    simp only [advance]
    split
    · split <;> rfl
    · rfl
  | anchor a next =>
    simp only [advance]
    split <;> rfl
  | _ => rfl

theorem length_advance_le {t : RegexThread} {s : RegexStep} {ways : List RegexThread}
    (h : advance text t s = some ways) : ways.length ≤ 2 := by
  cases s with
  | set negated ranges next =>
    simp only [advance] at h
    split at h
    · split at h <;> cases h <;> simp
    · cases h
      simp
  | anchor a next =>
    simp only [advance] at h
    split at h <;> cases h <;> simp
  | done => cases h
  | _ =>
    cases h
    simp

/-- No search goes behind the end of the text. -/
theorem Goes.place_le (h : Goes code text c d) (hc : c.2 ≤ text.size) : d.2 ≤ text.size := by
  obtain ⟨step, i⟩ := c
  cases hstep : code.getD step .done with
  | set negated ranges next =>
    obtain ⟨⟨c, hchar, -⟩, rfl⟩ := (goes_set hstep).mp h
    exact (Array.getElem?_eq_some_iff.mp hchar).1
  | anchor a next => exact ((goes_anchor hstep).mp h).2 ▸ hc
  | split first second => obtain rfl | rfl := (goes_split hstep).mp h <;> exact hc
  | note slot next => exact (goes_note hstep).mp h ▸ hc
  | pass next => exact (goes_pass hstep).mp h ▸ hc
  | done =>
    obtain ⟨ds, hds, -⟩ := h
    cases (options_eq_none.mpr hstep).symm.trans hds

section Marks

/-- A step has not been taken at a place of the text. -/
def Free (text : Array Char) (taken : Array Bool) (c : Point) : Prop :=
  c.2 ≤ text.size ∧ taken.getD (c.1 * (text.size + 1) + c.2) true = false

/-- Marks a step as taken at a place. -/
def take (text : Array Char) (taken : Array Bool) (c : Point) : Array Bool :=
  taken.setIfInBounds (c.1 * (text.size + 1) + c.2) true

/-- How many marks are not set. -/
def remaining (taken : Array Bool) : Nat := taken.count false

variable {taken : Array Bool}

/-- Every point has a mark of its own. -/
theorem mark_injective {n : Nat} (hc : c.2 ≤ n) (hd : d.2 ≤ n) (h : c.1 * (n + 1) + c.2 = d.1 * (n + 1) + d.2) :
    c = d := by
  have hdiv {x : Point} (hx : x.2 ≤ n) : (x.1 * (n + 1) + x.2) / (n + 1) = x.1 := by
    rw [Nat.mul_comm, Nat.mul_add_div (Nat.succ_pos n), Nat.div_eq_of_lt (Nat.lt_succ_of_le hx), Nat.add_zero]
  have hstep : c.1 = d.1 := by rw [← hdiv hc, h, hdiv hd]
  exact Prod.ext hstep (by rw [hstep] at h; omega)

theorem free_take (hc : Free text taken c) : Free text (take text taken c) = fun x => Free text taken x ∧ x ≠ c := by
  funext x
  unfold Free take
  rw [and_assoc, eq_iff_iff]
  refine and_congr_right fun hx => ?_
  by_cases hxc : x = c
  · subst hxc
    simp [Array.getD]
  · have hmark : c.1 * (text.size + 1) + c.2 ≠ x.1 * (text.size + 1) + x.2 :=
      fun h => hxc (mark_injective hc.1 hx h).symm
    rw [Array.getD_eq_getD_getElem?, Array.getElem?_setIfInBounds_ne hmark, ← Array.getD_eq_getD_getElem?]
    exact (and_iff_left hxc).symm

theorem remaining_take (hc : Free text taken c) : remaining (take text taken c) + 1 = remaining taken := by
  obtain ⟨-, h⟩ := hc
  have hlt : c.1 * (text.size + 1) + c.2 < taken.size :=
    Nat.lt_of_not_le fun hge => by simp [Array.getD, Nat.not_lt.mpr hge] at h
  have hget : taken[c.1 * (text.size + 1) + c.2] = false := by simpa [Array.getD, hlt] using h
  have hpos : 0 < taken.count false := Array.count_pos_iff.mpr (hget ▸ Array.getElem_mem hlt)
  simp only [remaining, take, Array.setIfInBounds, hlt, dite_true, Array.count_set, hget, beq_self_eq_true, if_true,
    beq_false, Bool.not_true, Bool.false_eq_true, if_false, Nat.add_zero]
  omega

end Marks

section Outcome
variable {taken taken' : Array Bool} {t : RegexThread} {ts waiting : List RegexThread} {fuel : Nat}

/-- What comes of threads in front of others. Either the first way from their points has been found, or no end can be
reached from them; then what they lead to is taken, and the search goes on with those that wait. -/
inductive Settles (code : Array RegexStep) (text : Array Char) (taken : Array Bool) (ts waiting : List RegexThread)
    (out : Option RegexThread) : Prop
  | found {t : RegexThread} {us : List Point} (hout : out = some t)
    (hfirst : FirstOf code text (Free text taken) (ts.map pointOf) us) (hlast : us.getLast? = some (pointOf t))
  | goesOn {fuel : Nat} {taken' : Array Bool} (hout : out = search code text fuel taken' waiting)
    (hexplored : Explored code text (Free text taken) (Free text taken') (ts.map pointOf))
    (hle : remaining taken' ≤ remaining taken) (hfuel : 2 * remaining taken' + waiting.length ≤ fuel)

/-- The threads behind one from which no end can be reached come next. -/
theorem Settles.cons {out : Option RegexThread}
    (hexplored : Explored code text (Free text taken) (Free text taken') [pointOf t])
    (hle : remaining taken' ≤ remaining taken) (h : Settles code text taken' ts waiting out) :
    Settles code text taken (t :: ts) waiting out := by
  cases h with
  | found hout hfirst hlast =>
    exact .found hout (.later (hexplored.not_canEnd _ List.mem_cons_self) (hexplored.firstOf hfirst)) hlast
  | goesOn hout hexplored' hle' hfuel => exact .goesOn hout (hexplored.cons hexplored') (Nat.le_trans hle' hle) hfuel

theorem search_of_taken (hplace : t.place ≤ text.size) (h : ¬Free text taken (pointOf t)) :
    search code text (fuel + 1) taken (t :: waiting) = search code text fuel taken waiting := by
  rw [search]
  exact if_pos (Bool.not_eq_false _ ▸ fun hmark => h ⟨hplace, hmark⟩)

theorem search_of_stop (hfree : Free text taken (pointOf t)) (h : advance text t (code.getD t.step .done) = none) :
    search code text (fuel + 1) taken (t :: waiting) = some t := by
  have hmark : taken.getD (t.step * (text.size + 1) + t.place) true = false := hfree.2
  simp only [search, hmark, h, Bool.false_eq_true, if_false]

theorem search_of_ways (hfree : Free text taken (pointOf t)) {ways : List RegexThread}
    (h : advance text t (code.getD t.step .done) = some ways) :
    search code text (fuel + 1) taken (t :: waiting) =
      search code text fuel (take text taken (pointOf t)) (ways ++ waiting) := by
  have hmark : taken.getD (t.step * (text.size + 1) + t.place) true = false := hfree.2
  simp only [search, hmark, h, Bool.false_eq_true, if_false]
  rfl

/-- With a try for each point that is free, and one more for each thread, a search settles the threads in front. -/
theorem settles_search (hplaces : ∀ t ∈ ts, t.place ≤ text.size)
    (hfuel : 2 * remaining taken + ts.length + waiting.length ≤ fuel) :
    Settles code text taken ts waiting (search code text fuel taken (ts ++ waiting)) := by
  -- taking a point leaves fewer free ones; a thread at a point that is not free only makes the list shorter
  induction hn : remaining taken using Nat.strongRecOn generalizing taken ts waiting fuel with
  | ind n ihn =>
    subst hn
    induction ts generalizing fuel with
    | nil => exact .goesOn rfl .nil (Nat.le_refl _) (by simpa using hfuel)
    | cons t ts iht =>
      obtain ⟨hplace, hplaces⟩ := List.forall_mem_cons.mp hplaces
      simp only [List.length_cons] at hfuel
      obtain ⟨fuel, rfl⟩ : ∃ m, fuel = m + 1 := ⟨fuel - 1, by omega⟩
      rw [List.cons_append]
      by_cases hfree : Free text taken (pointOf t)
      · cases hadvance : advance text t (code.getD t.step .done) with
        | none =>
          have hstop : options code text (pointOf t) = none := by rw [options_pointOf, hadvance]; rfl
          exact .found (search_of_stop hfree hadvance) (.here (.of_stop hfree hstop)) rfl
        | some ways =>
          have hoptions : options code text (pointOf t) = some (ways.map pointOf) := by
            rw [options_pointOf, hadvance]; rfl
          have htaken := remaining_take hfree
          have hlength := length_advance_le hadvance
          have hplaces' : ∀ w ∈ ways, w.place ≤ text.size := fun w hw =>
            Goes.place_le ⟨_, hoptions, List.mem_map_of_mem hw⟩ hplace
          have hways : Settles code text (take text taken (pointOf t)) ways (ts ++ waiting) (search code text fuel
              (take text taken (pointOf t)) (ways ++ (ts ++ waiting))) :=
            ihn _ (by omega) hplaces' (by simp only [List.length_append]; omega) rfl
          rw [search_of_ways hfree hadvance]
          cases hways with
          | found hout hfirst hlast =>
            rw [free_take hfree] at hfirst
            exact .found hout (.here (.of_options hfree hoptions hfirst)) (by rw [List.getLast?_cons, hlast]; rfl)
          | goesOn hout hexplored hle hfuel' =>
            rw [free_take hfree] at hexplored
            rw [hout]
            simp only [List.length_append] at hfuel'
            exact (ihn _ (by omega) hplaces (by omega) rfl).cons (.of_options hfree hoptions hexplored) (by omega)
      · rw [search_of_taken hplace hfree]
        exact (iht hplaces (by omega)).cons (.of_not hfree) (Nat.le_refl _)

end Outcome

/-! ### Matches at the start of a text -/

/-- A way of matching an expression at the start of a text. -/
def Tries (r : Regex) (text : Array Char) (us : List Point) : Prop := Way r.program text (fun _ => True) (0, 0) us

/-- A way ends at a place of the text. -/
def EndsAt (us : List Point) (place : Nat) : Prop := ∃ step, us.getLast? = some (step, place)

/-- A way that ends before the end of the text comes before every way that ends there. -/
def StopsShort (r : Regex) (text : Array Char) : Prop :=
  ∃ us, r.Tries text us ∧ (∃ place < text.size, EndsAt us place) ∧
    ∀ vs, r.Tries text vs → EndsAt vs text.size → Before r.program text us vs

variable {r : Regex} {place : Nat}

theorem EndsAt.unique {place' : Nat} (h : EndsAt us place) (h' : EndsAt us place') : place = place' := by
  obtain ⟨step, h⟩ := h
  obtain ⟨step', h'⟩ := h'
  cases h.symm.trans h'
  rfl

/-- Points that can be reached can be reached without coming to a point again. -/
theorem exists_way {e : Point} (h : ReflTransGen (Goes code text) c e) (he : options code text e = none) :
    ∃ us, Way code text (fun _ => True) c us ∧ us.getLast? = some e := by
  induction h using ReflTransGen.head_induction_on with
  | refl => exact ⟨[e], ⟨.stop he, List.pairwise_singleton _ e, fun _ _ => trivial⟩, rfl⟩
  | @head c d hgoes _ ih =>
    obtain ⟨us, hway, hlast⟩ := ih
    by_cases hmem : c ∈ us
    · -- the way comes back to the point, so it is the rest of the way from there on
      obtain ⟨before, after, rfl, hroute⟩ := hway.route.from_mem c hmem
      refine ⟨after, ⟨hroute, hway.nodup.sublist (List.sublist_append_right before after), fun _ _ => trivial⟩, ?_⟩
      obtain ⟨rest, rfl⟩ := hroute.exists_cons
      simpa using hlast
    · obtain ⟨ds, hds, hd⟩ := hgoes
      refine ⟨c :: us, ⟨.step hds hd hway.route, List.nodup_cons.mpr ⟨hmem, hway.nodup⟩, fun _ _ => trivial⟩, ?_⟩
      rw [List.getLast?_cons, hlast]
      rfl

/-- A text is matched up to a place exactly if some way ends there. -/
theorem matches_iff_tries : r.Matches text 0 place ↔ ∃ us, r.Tries text us ∧ EndsAt us place := by
  constructor
  · intro h
    obtain ⟨us, hway, hlast⟩ := exists_way (reaches_end_iff.mpr h) ((options_program (Nat.le_refl _)).mpr rfl)
    exact ⟨us, hway, r.size, hlast⟩
  · rintro ⟨us, hway, step, hlast⟩
    have hreach := hway.route.reaches _ (List.mem_of_getLast? hlast)
    obtain ⟨e, he, hstop⟩ := hway.route.exists_last
    cases hlast.symm.trans he
    obtain hlt | ⟨-, hmatch⟩ := step_le_of_reaches hreach
    · exact absurd ((options_program (Nat.le_of_lt hlt)).mp hstop) (Nat.ne_of_lt hlt)
    · exact hmatch

/-- All points that a search comes to are free at first. -/
theorem free_of_reaches (h : ReflTransGen (Goes r.program text) (0, 0) x) :
    Free text (Array.replicate (r.program.size * (text.size + 1)) false) x := by
  have hplace : x.2 ≤ text.size := by
    induction h with
    | refl => exact Nat.zero_le _
    | tail _ hgoes ih => exact hgoes.place_le ih
  have hstep : x.1 ≤ r.size := by
    obtain hlt | ⟨heq, -⟩ := step_le_of_reaches h
    · exact Nat.le_of_lt hlt
    · exact Nat.le_of_eq heq
  have hlt : x.1 * (text.size + 1) + x.2 < r.program.size * (text.size + 1) := by
    have hmul := Nat.mul_le_mul_right (text.size + 1) hstep
    rw [size_program, Nat.succ_mul]
    omega
  exact ⟨hplace, by simp [Array.getD, hlt]⟩

theorem tries_iff_way_free : r.Tries text us ↔
    Way r.program text (Free text (Array.replicate (r.program.size * (text.size + 1)) false)) (0, 0) us :=
  ⟨fun h => ⟨h.route, h.nodup, fun u hu => free_of_reaches (h.route.reaches u hu)⟩,
    fun h => ⟨h.route, h.nodup, fun _ _ => trivial⟩⟩

/-- The search finds the end of the first of all ways, and nothing only if nothing matches. -/
theorem findAtStart_cases (r : Regex) (text : Array Char) :
    (∃ t us, r.findAtStart text = some t ∧ r.Tries text us ∧ us.getLast? = some (pointOf t) ∧
        ∀ vs, r.Tries text vs → vs = us ∨ Before r.program text us vs) ∨
      r.findAtStart text = none ∧ ∀ place, ¬r.Matches text 0 place := by
  have hsettles : Settles r.program text (Array.replicate (r.program.size * (text.size + 1)) false) [⟨0, 0, []⟩] []
      (r.findAtStart text) := settles_search (by simp) (by simp [remaining])
  cases hsettles with
  | found hout hfirst hlast =>
    left
    cases hfirst with
    | here hfirst =>
      exact ⟨_, _, hout, tries_iff_way_free.mpr hfirst.way, hlast, fun vs hvs =>
        hfirst.before vs (tries_iff_way_free.mp hvs)⟩
    | later _ h => cases h
  | @goesOn fuel taken hout hexplored _ _ =>
    refine .inr ⟨hout.trans (by cases fuel <;> rfl), fun place hmatch => ?_⟩
    obtain ⟨us, htries, -⟩ := matches_iff_tries.mp hmatch
    exact hexplored.not_canEnd _ List.mem_cons_self (tries_iff_way_free.mp htries).canEnd

/-- What is found is the whole text exactly if the text is in the language and no way that stops short of its end
comes first. -/
theorem findAtStart_whole_iff (r : Regex) (text : Array Char) :
    (∃ t, r.findAtStart text = some t ∧ t.place = text.size) ↔ r.Accepts text ∧ ¬r.StopsShort text := by
  constructor
  · rintro ⟨t, hfound, hplace⟩
    obtain ⟨_, us, hfound', htries, hlast, hfirst⟩ | ⟨hnone, -⟩ := findAtStart_cases r text
    · cases hfound.symm.trans hfound'
      have hends : EndsAt us text.size := ⟨t.step, hplace ▸ hlast⟩
      refine ⟨matches_iff_tries.mpr ⟨us, htries, hends⟩, ?_⟩
      rintro ⟨vs, hvs, ⟨place, hshort, hvsEnds⟩, hbefore⟩
      obtain rfl | h := hfirst vs hvs
      · exact absurd (hvsEnds.unique hends) (Nat.ne_of_lt hshort)
      · exact h.asymm (hbefore us htries hends)
    · cases hfound.symm.trans hnone
  · rintro ⟨haccepts, hnot⟩
    obtain ⟨t, us, hfound, htries, hlast, hfirst⟩ | ⟨-, hnone⟩ := findAtStart_cases r text
    · refine ⟨t, hfound, Nat.le_antisymm ?_ (Nat.le_of_not_lt fun hlt => hnot ?_)⟩
      · exact (free_of_reaches (htries.route.reaches _ (List.mem_of_getLast? hlast))).1
      · refine ⟨us, htries, ⟨t.place, hlt, t.step, hlast⟩, fun vs hvs hends => (hfirst vs hvs).resolve_left ?_⟩
        rintro rfl
        exact Nat.ne_of_lt hlt (EndsAt.unique ⟨t.step, hlast⟩ hends)
    · exact absurd haccepts (hnone _)

/-- Only a text that also matches in part is stopped short of. -/
theorem StopsShort.exists_matches (h : r.StopsShort text) : ∃ place < text.size, r.Matches text 0 place := by
  obtain ⟨us, htries, ⟨place, hlt, hends⟩, -⟩ := h
  exact ⟨place, hlt, matches_iff_tries.mpr ⟨us, htries, hends⟩⟩

end Stencil.Directive.Regex
