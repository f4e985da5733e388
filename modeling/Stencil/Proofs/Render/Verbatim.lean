import Stencil.Proofs.Render.Record

/-! # Output of whole renders

A render starts with no output and nothing deferred, and its pieces are known from its trace. While no text
contains the delimiter of placeholders, the output is that of the pieces: only what was placed as a
placeholder is replaced, and the output of a template of text and expressions is what it wrote. A text that
contains the delimiter twice is taken for a placeholder all the same. -/

namespace Stencil.Render

/-- The state in which a render starts. -/
def State.root (data : Bindings) (session : Session) : State := { top := { vars := data }, shared := { session } }

/-- The trace of a render. -/
def rootEvents (host : Host) (p : Program) (data : Bindings) (session : Session) : List Event :=
  events host host.stepLimit p { state := .root data session }

/-- The text that an event writes. -/
def Event.text : Event → Bytes
  | .wrote text => text
  | .placed _ _ _ | .opened | .closed _ _ | .filled => []

/-- Every instruction writes. -/
def OnlyWrites (p : Program) : Prop := ∀ i ∈ p.instrs, i.op = .text ∨ i.op = .emit

section
variable {host : Host} {p : Program} {data : Bindings} {session : Session} {m : State}

theorem shows_root (data : Bindings) (session : Session) : Shows (.root data session) {} where
  top := rfl
  outer := rfl
  holds := ⟨fun _ => rfl, fun _ => rfl, fun _ => rfl⟩
  cleanTop := nofun
  cleanOuter := nofun
  cleanDeferred := ⟨nofun, nofun, nofun⟩

theorem acts_run (h : run host p (.root data session) = (.ok (), m)) :
    Acts host (.root data session) (rootEvents host p data session) m :=
  (acts_exec host host.stepLimit p _ m (Nat.zero_le _) h).1

/-- The output of a render is that of its pieces. -/
theorem shows_run (h : run host p (.root data session) = (.ok (), m))
    (hclean : ∀ e ∈ rootEvents host p data session, e.IsClean) :
    Shows m (Record.afterAll {} (rootEvents host p data session)) :=
  shows_acts (acts_run h) hclean (shows_root data session)

end

/-! ### Text and expressions -/

/-- The event writes, or it fills in placeholders. -/
def Event.IsPlain (e : Event) : Prop := e = .filled ∨ ∃ text, e = .wrote text

theorem Deferred.fillOnce_texts (d : Deferred) : ∀ {ps : List Piece}, (∀ p ∈ ps, ∃ t, p = .text t) → d.fillOnce ps = ps
  | [], _ => rfl
  | p :: ps, h => by
    obtain ⟨⟨t, rfl⟩, hps⟩ := List.forall_mem_cons.mp h
    have ih := d.fillOnce_texts hps
    simp only [Deferred.fillOnce, List.flatMap_cons] at ih ⊢
    rw [ih]
    rfl

theorem Deferred.fill_texts (d : Deferred) {ps : List Piece} (h : ∀ p ∈ ps, ∃ t, p = .text t) (n : Nat) :
    d.fill n ps = ps := by
  induction n with
  | zero => rfl
  | succ n ih => rw [Deferred.fill, d.fillOnce_texts h, ih]

/-- Texts that are written are all there is. -/
theorem Record.top_of_isPlain {es : List Event} (h : ∀ e ∈ es, e.IsPlain) : ∀ {r : Record},
    (∀ p ∈ r.top, ∃ t, p = .text t) → flat (r.afterAll es).top = flat r.top ++ es.flatMap Event.text := by
  induction es with
  | nil => exact fun _ => (List.append_nil _).symm
  | cons e es ih =>
    intro r htexts
    obtain ⟨he, hes⟩ := List.forall_mem_cons.mp h
    rw [Record.afterAll_cons]
    rcases he with rfl | ⟨text, rfl⟩
    · -- passes find nothing to replace
      have hsame : r.after .filled = r := by rw [Record.after, r.deferred.fill_texts htexts]
      rw [hsame, ih hes htexts, List.flatMap_cons, Event.text, List.nil_append]
    · rw [ih hes fun p hp => ?_]
      · simp [Record.after, Record.write, Event.text, flat, Piece.bytes]
      · rcases List.mem_append.mp hp with hp | hp
        · exact htexts p hp
        · exact ⟨text, List.mem_singleton.mp hp⟩

theorem isPlain_of_mem_events (host : Host) {p : Program} (hp : OnlyWrites p) : ∀ (fuel : Nat) (f : Frame),
    ∀ e ∈ events host fuel p f, e.IsPlain
  | 0, _, _, he => by cases he
  | fuel + 1, f, e, he => by
    have hfill (he : e ∈ fillEvents f.state) : e.IsPlain := by
      unfold fillEvents at he
      split at he
      · exact .inl (List.mem_singleton.mp he)
      · cases he
    rw [events] at he
    split at he
    · exact hfill he
    · rename_i i hi
      rcases List.mem_append.mp he with he | he
      · rcases hp i (List.mem_of_getElem? hi) with hop | hop <;> simp only [stepEvents, hop] at he
        · exact .inr ⟨_, List.mem_singleton.mp he⟩
        · split at he
          · cases he
          · exact .inr ⟨_, List.mem_singleton.mp he⟩
      · split at he
        · cases he
        · exact isPlain_of_mem_events host hp fuel _ e he

/-- While no text contains the delimiter of placeholders, the output of a render is that of its pieces, in
which only what was placed as a placeholder is replaced; and a program that only writes gives what it writes. -/
theorem out_of_run {host : Host} {p : Program} {data : Bindings} {session : Session} {m : State}
    (h : run host p (.root data session) = (.ok (), m))
    (hclean : ∀ e ∈ rootEvents host p data session, e.IsClean) :
    m.top.out = flat (Record.afterAll {} (rootEvents host p data session)).top ∧
      (OnlyWrites p → m.top.out = (rootEvents host p data session).flatMap Event.text) := by
  have hshows := shows_run h hclean
  refine ⟨hshows.top, fun hp => hshows.top.trans ?_⟩
  exact Record.top_of_isPlain (isPlain_of_mem_events host hp host.stepLimit _) nofun

/-- A host that knows names only. -/
def namesHost : Host where
  evaluator := some names
  stepLimit := 5

/-- Data with one value. -/
def valued (text : Bytes) : Bindings := [("x", .text text)]

/-- A program that writes a text and a value. -/
def addressing : Program where
  name := "page"
  instrs := [.literal "Dear ", .emit "x" true]

/-- The same with a section behind it that is never defined. -/
def greeting : Program where
  name := "page"
  instrs := addressing.instrs ++ [{ op := .placeholder, key := "section", name := "end", text := "!" }]

/-- What is special in markup is escaped, and of the rest only the placeholder is replaced. -/
theorem out_of_run_name :
    (∃ m, run namesHost greeting (.root (valued "a<b") {}) = (.ok (), m) ∧
      (∀ e ∈ rootEvents namesHost greeting (valued "a<b") {}, e.IsClean) ∧
      .placed "section" "end" "!" ∈ rootEvents namesHost greeting (valued "a<b") {} ∧ m.top.out = "Dear a&lt;b!") ∧
    ∃ m, run namesHost addressing (.root (valued "a<b") {}) = (.ok (), m) ∧
      (∀ e ∈ rootEvents namesHost addressing (valued "a<b") {}, e.IsClean) ∧ OnlyWrites addressing ∧
      m.top.out = "Dear a&lt;b" := by
  have hgreets : (run namesHost greeting (.root (valued "a<b") {})).1 = .ok () := rfl
  have hcleanGreeting : ∀ e ∈ rootEvents namesHost greeting (valued "a<b") {}, e.IsClean := by decide +kernel
  have hwrites : (run namesHost addressing (.root (valued "a<b") {})).1 = .ok () := rfl
  have hclean : ∀ e ∈ rootEvents namesHost addressing (valued "a<b") {}, e.IsClean := by decide +kernel
  have honly : OnlyWrites addressing :=
    List.forall_mem_cons.mpr ⟨.inl rfl, List.forall_mem_singleton.mpr (.inr rfl)⟩
  refine ⟨⟨_, Prod.ext hgreets rfl, hcleanGreeting, by decide +kernel, ?_⟩, _, Prod.ext hwrites rfl, hclean, honly, ?_⟩
  · rw [(out_of_run (Prod.ext hgreets rfl) hcleanGreeting).1]
    decide +kernel
  · rw [(out_of_run (Prod.ext hwrites rfl) hclean).2 honly]
    decide +kernel

/-- A program that writes one value. -/
def marking : Program where
  name := "page"
  instrs := [.emit "x" true]

/-- The end of a render with that value. -/
def written (text out : Bytes) : State := { top := { vars := valued text, out } }

/-- With the delimiter twice in a value, what is between is lost. -/
theorem not_out_of_run : ¬ ∀ (host : Host) (p : Program) (data : Bindings) (session : Session) (m : State),
    run host p (.root data session) = (.ok (), m) → OnlyWrites p →
      m.top.out = (rootEvents host p data session).flatMap Event.text := by
  intro h
  have hrun : run namesHost marking (.root (valued [97, mark, 98, mark, 99]) {}) =
      (.ok (), written [97, mark, 98, mark, 99] [97, 99]) := rfl
  have hout := h _ _ _ _ _ hrun fun i hi => .inr (List.mem_singleton.mp hi ▸ rfl)
  revert hout
  decide +kernel

end Stencil.Render
