import Stencil.Proofs.Compile.Scripts
import Stencil.Proofs.Program.Structure

/-! # What standard directives emit

Every node that is compiled with the standard directives adds the code of well formed statements to
the body, with labels of its own (`Emits`), whatever goes wrong with the directives in it: a directive
that fails is given back before it leaves anything open, and a part of a chain that fails changes
nothing of the chain. While a chain is being compiled its code is not yet that of statements: some
branches are closed, and one may be open (`Chain`). -/

namespace Stencil.Compile

open Stencil.Directive
open Stencil.Markup (Node Tag)
open Program (marked)
open Statement (codeAll AllWellFormed)

/-! ### Labels of a stretch of compilation -/

/-- Labels that were handed out between two counts, none of them twice. -/
structure Fresh (low high : Nat) (ls : List Int) : Prop where
  nodup : ls.Nodup
  bounds : ∀ l ∈ ls, (low : Int) < l ∧ l ≤ high

namespace Fresh
variable {low mid high : Nat} {a b : List Int}

theorem nil (low high : Nat) : Fresh low high [] := ⟨List.nodup_nil, nofun⟩

theorem widen {low' high' : Nat} (h : Fresh low high a) (hlow : low' ≤ low) (hhigh : high ≤ high') :
    Fresh low' high' a := by
  refine ⟨h.nodup, fun l hl => ?_⟩
  have := h.bounds l hl
  omega

theorem append (ha : Fresh low mid a) (hb : Fresh mid high b) (hlow : low ≤ mid) (hhigh : mid ≤ high) :
    Fresh low high (a ++ b) := by
  refine ⟨List.nodup_append.mpr ⟨ha.nodup, hb.nodup, fun x hx y hy hxy => ?_⟩, fun l hl => ?_⟩
  · have := ha.bounds x hx
    have := hb.bounds y hy
    omega
  · rcases List.mem_append.mp hl with hl | hl
    · have := ha.bounds l hl
      omega
    · have := hb.bounds l hl
      omega

theorem perm (h : Fresh low high a) (hp : a.Perm b) : Fresh low high b :=
  ⟨hp.nodup_iff.mp h.nodup, fun l hl => h.bounds l (hp.mem_iff.mpr hl)⟩

/-- The next label. -/
theorem single (low : Nat) : Fresh low (low + 1) [((low + 1 : Nat) : Int)] := by
  refine ⟨by simp, fun l hl => ?_⟩
  rw [List.mem_singleton.mp hl]
  omega

end Fresh

/-! ### Additions to the body -/

/-- The body has grown by some code; labels may have been handed out. -/
structure Adds (st st' : State) (code : List Instr) : Prop where
  pre : st'.out.pre = st.out.pre
  body : st'.out.body = st.out.body ++ code
  post : st'.out.post = st.out.post
  loader : st'.out.loader = st.out.loader
  labels : st.labels ≤ st'.labels
  running : st'.canceled = st.canceled

theorem Adds.refl (st : State) : Adds st st [] :=
  ⟨rfl, (List.append_nil _).symm, rfl, rfl, Nat.le_refl _, rfl⟩

theorem Adds.trans {st₁ st₂ st₃ : State} {a b : List Instr} (h : Adds st₁ st₂ a) (h' : Adds st₂ st₃ b) :
    Adds st₁ st₃ (a ++ b) where
  pre := h'.pre.trans h.pre
  body := by rw [h'.body, h.body, List.append_assoc]
  post := h'.post.trans h.post
  loader := h'.loader.trans h.loader
  labels := Nat.le_trans h.labels h'.labels
  running := h'.running.trans h.running

/-- Only the output, the labels and the cancellation are looked at. -/
theorem Adds.congr {st st₁ st₂ : State} {code : List Instr} (h : Adds st st₁ code) (hout : st₂.out = st₁.out)
    (hlabels : st₁.labels ≤ st₂.labels) (hrun : st₂.canceled = st₁.canceled) : Adds st st₂ code :=
  ⟨hout ▸ h.pre, hout ▸ h.body, hout ▸ h.post, hout ▸ h.loader, Nat.le_trans h.labels hlabels, hrun.trans h.running⟩

theorem Adds.of_start {st st₁ st₂ : State} {code : List Instr} (h : Adds st₁ st₂ code) (hout : st₁.out = st.out)
    (hlabels : st.labels ≤ st₁.labels) (hrun : st₁.canceled = st.canceled) : Adds st st₂ code :=
  ⟨hout ▸ h.pre, hout ▸ h.body, hout ▸ h.post, hout ▸ h.loader, Nat.le_trans hlabels h.labels, h.running.trans hrun⟩

theorem adds_emit {env : Env} (hpart : env.part = .body) (st : State) (code : List Instr) :
    Adds st (st.emit env.part code) code := by
  rw [hpart]
  exact ⟨rfl, rfl, rfl, rfl, Nat.le_refl _, rfl⟩

/-- The body has grown by statements. -/
structure Emits (st st' : State) (ss : List Statement) : Prop extends Adds st st' (codeAll ss) where
  wellFormed : AllWellFormed none ss
  fresh : Fresh st.labels st'.labels (marked (codeAll ss))

/-- What a failure leaves of the counts, and of what was emitted before. -/
structure Survives (st st' : State) : Prop where
  pre : st.out.pre <+: st'.out.pre
  body : st.out.body <+: st'.out.body
  post : st.out.post <+: st'.out.post
  labels : st.labels ≤ st'.labels
  running : st'.canceled = st.canceled

theorem Survives.refl (st : State) : Survives st st :=
  ⟨List.prefix_rfl, List.prefix_rfl, List.prefix_rfl, Nat.le_refl _, rfl⟩

theorem Survives.trans {st₁ st₂ st₃ : State} (h : Survives st₁ st₂) (h' : Survives st₂ st₃) : Survives st₁ st₃ where
  pre := h.pre.trans h'.pre
  body := h.body.trans h'.body
  post := h.post.trans h'.post
  labels := Nat.le_trans h.labels h'.labels
  running := h'.running.trans h.running

theorem Adds.survives {st st' : State} {code : List Instr} (h : Adds st st' code) : Survives st st' where
  pre := h.pre ▸ List.prefix_rfl
  body := h.body ▸ List.prefix_append _ _
  post := h.post ▸ List.prefix_rfl
  labels := h.labels
  running := h.running

namespace Emits
variable {st st₁ st₂ st₃ : State} {ss ts : List Statement}

theorem of_adds_nil (h : Adds st st₁ []) : Emits st st₁ [] := ⟨h, trivial, .nil _ _⟩

theorem refl (st : State) : Emits st st [] := of_adds_nil (.refl st)

theorem trans (h : Emits st₁ st₂ ss) (h' : Emits st₂ st₃ ts) : Emits st₁ st₃ (ss ++ ts) where
  toAdds := by
    rw [Statement.codeAll_append]
    exact h.toAdds.trans h'.toAdds
  wellFormed := (Statement.allWellFormed_append ss ts).mpr ⟨h.wellFormed, h'.wellFormed⟩
  fresh := by
    rw [Statement.codeAll_append, Program.marked_append]
    exact h.fresh.append h'.fresh h.labels h'.labels

theorem of_plain {i : Instr} (hop : i.op.isStraight = true) (h : Adds st st₁ [i]) : Emits st st₁ [.plain i] where
  toAdds := h
  wellFormed := ⟨hop, trivial⟩
  fresh := by
    simp only [codeAll, List.append_nil, Statement.marked_code_plain hop]
    exact .nil _ _

/-- What hooks remember for the template is no output. -/
theorem memory (st : State) (memory : Bindings) : Emits st { st with memory } [] :=
  of_adds_nil ((Adds.refl st).congr rfl (Nat.le_refl _) rfl)

/-- What the chain at hand keeps is no output either. -/
theorem data {data data' : Bindings} (h : Emits { st with data } st₁ ss) : Emits st { st₁ with data := data' } ss :=
  ⟨⟨h.pre, h.body, h.post, h.loader, h.labels, h.running⟩, h.wellFormed, h.fresh⟩

theorem emit {env : Env} (hpart : env.part = .body) {i : Instr} (hop : i.op.isStraight = true) (st : State) :
    Emits st (st.emit env.part [i]) [.plain i] :=
  of_plain hop (adds_emit hpart st [i])

theorem add {env : Env} (hpart : env.part = .body) (st : State) (text : Bytes) :
    ∃ ss, Emits st (st.add env.part text) ss := by
  by_cases htext : text = []
  · exact ⟨[], by simpa [State.add, Output.add, htext] using refl st⟩
  · by_cases hloader : st.out.loader = primaryLoader
    · refine ⟨[.plain (.literal text)], ?_⟩
      have hadd : st.add env.part text = st.emit env.part [.literal text] := by
        simp [State.add, State.emit, Output.add, htext, hloader]
      exact hadd ▸ emit hpart rfl st
    · refine ⟨[], of_adds_nil ⟨?_, ?_, ?_, ?_, Nat.le_refl _, rfl⟩⟩ <;>
        simp [State.add, Output.add, htext, hloader]

theorem scope {opening closing : Instr} (hopen : opening.op = .enterScope) (hclose : closing.op = .exitScope)
    (hmode : closing.mode.isKnown = true) (h₁ : Adds st st₁ [opening]) (h₂ : Emits st₁ st₂ ss)
    (h₃ : Adds st₂ st₃ [closing]) : Emits st st₃ [.scope opening ss closing] where
  toAdds := by simpa [codeAll, Statement.code] using h₁.trans (h₂.toAdds.trans h₃)
  wellFormed := ⟨⟨hopen, hclose, hmode, h₂.wellFormed⟩, trivial⟩
  fresh := by
    simp only [codeAll, List.append_nil, Statement.marked_code_scope opening closing ss hopen hclose]
    exact h₂.fresh.widen h₁.labels h₃.labels

/-- The parts of a loop, with its three labels handed out before its body. -/
theorem loop {st₄ st₅ : State} {items item key : Bytes} {again empty stop : Int}
    (hlabels : Fresh st.labels st₁.labels [again, empty, stop])
    (h₁ : Adds st st₁ [.enter, Statement.rangeInstr items item key empty, .mark again]) (h₂ : Emits st₁ st₂ ss)
    (h₃ : Adds st₂ st₃ [Statement.nextInstr again, .jump stop, .mark empty]) (h₄ : Emits st₃ st₄ ts)
    (h₅ : Adds st₄ st₅ [.mark stop, .exit .merge []]) :
    Emits st st₅ [.scope .enter [.loop items item key again empty stop ss ts] (.exit .merge [])] where
  toAdds := by
    simpa [codeAll, Statement.code] using h₁.trans (h₂.toAdds.trans (h₃.trans (h₄.toAdds.trans h₅)))
  wellFormed := ⟨⟨rfl, rfl, rfl, ⟨h₂.wellFormed, h₄.wellFormed⟩, trivial⟩, trivial⟩
  fresh := by
    have hinner : Fresh st₁.labels st₅.labels (marked (codeAll ss) ++ marked (codeAll ts)) :=
      (h₂.fresh.append (h₄.fresh.widen h₃.labels h₅.labels) h₂.labels
        (Nat.le_trans h₃.labels (Nat.le_trans h₄.labels h₅.labels)))
    have hall := hlabels.append hinner h₁.labels
      (Nat.le_trans h₂.labels (Nat.le_trans h₃.labels (Nat.le_trans h₄.labels h₅.labels)))
    refine hall.perm ?_
    have hscope := Statement.marked_code_scope .enter (.exit .merge [])
      [.loop items item key again empty stop ss ts] rfl rfl
    simp only [Statement.codeAll_cons, Statement.codeAll_nil, List.append_nil, hscope, Statement.marked_code_loop]
    grind

end Emits

/-! ### Open chains -/

/-- The branch of a chain that is still open. -/
structure Arm where
  test : Bytes
  next : Int
  body : List Statement

/-- The code of closed branches and of the open one. -/
def openCode (done : List Statement) : Option Arm → List Instr
  | none => codeAll done
  | some a => codeAll done ++ .jumpIfNot a.test a.next :: codeAll a.body

/-- The labels that an open branch still has to mark. -/
def pending : Option Arm → List Int
  | none => []
  | some a => [a.next]

@[simp] theorem openCode_none (done : List Statement) : openCode done none = codeAll done := rfl

@[simp] theorem marked_openCode_some (done : List Statement) (a : Arm) :
    marked (openCode done (some a)) = marked (codeAll done) ++ marked (codeAll a.body) := by
  simp [openCode, Program.marked_cons, Instr.jumpIfNot]

@[simp] theorem pending_none : pending none = [] := rfl

@[simp] theorem pending_some (a : Arm) : pending (some a) = [a.next] := rfl

/-- The body has grown by a chain that is not closed yet; its end will be marked `stop`. -/
structure Chain (st st' : State) (stop : Int) (done : List Statement) (arm : Option Arm) : Prop
    extends Adds st st' (openCode done arm) where
  doneWellFormed : AllWellFormed (some stop) done
  armWellFormed : ∀ a, arm = some a → AllWellFormed none a.body
  fresh : Fresh st.labels st'.labels (stop :: (pending arm ++ marked (openCode done arm)))

namespace Chain
variable {st st₁ st₂ : State} {stop : Int} {done : List Statement} {arm : Option Arm}

theorem start (hstop : Fresh st.labels st₁.labels [stop]) (h : Adds st st₁ []) : Chain st st₁ stop [] none :=
  ⟨h, trivial, nofun, hstop⟩

/-- Only the output, the labels and the cancellation are looked at. -/
theorem congr (h : Chain st st₁ stop done arm) (hout : st₂.out = st₁.out) (hlabels : st₁.labels ≤ st₂.labels)
    (hrun : st₂.canceled = st₁.canceled) : Chain st st₂ stop done arm :=
  ⟨h.toAdds.congr hout hlabels hrun, h.doneWellFormed, h.armWellFormed, h.fresh.widen (Nat.le_refl _) hlabels⟩

/-- Statements go to the open branch, or after the closed ones. -/
theorem emit {ss : List Statement} (h : Chain st st₁ stop done arm) (h' : Emits st₁ st₂ ss) :
    ∃ done' arm', Chain st st₂ stop done' arm' ∧ pending arm' = pending arm := by
  have hall := h.fresh.append h'.fresh h.labels h'.labels
  cases arm with
  | none =>
    refine ⟨done ++ ss, none, ⟨?_, ?_, nofun, ?_⟩, rfl⟩
    · simpa [openCode] using h.toAdds.trans h'.toAdds
    · exact (Statement.allWellFormed_append done ss).mpr ⟨h.doneWellFormed, h'.wellFormed.within _⟩
    · simpa using hall
  | some a =>
    refine ⟨done, some ⟨a.test, a.next, a.body ++ ss⟩, ⟨?_, h.doneWellFormed, ?_, ?_⟩, rfl⟩
    · simpa [openCode] using h.toAdds.trans h'.toAdds
    · rintro _ ⟨⟩
      exact (Statement.allWellFormed_append a.body ss).mpr ⟨h.armWellFormed a rfl, h'.wellFormed⟩
    · simpa using hall

/-- Opens a branch. -/
theorem branch {test : Bytes} {next : Int} (h : Chain st st₁ stop done none)
    (hnext : Fresh st₁.labels st₂.labels [next]) (h' : Adds st₁ st₂ [.jumpIfNot test next]) :
    Chain st st₂ stop done (some ⟨test, next, []⟩) where
  toAdds := by simpa [openCode, codeAll] using h.toAdds.trans h'
  doneWellFormed := h.doneWellFormed
  armWellFormed := by
    rintro _ ⟨⟩
    trivial
  fresh := by
    refine (h.fresh.append hnext h.labels h'.labels).perm ?_
    simp

/-- Closes the open branch, whose end goes to the end of the chain. -/
theorem leave {a : Arm} (h : Chain st st₁ stop done (some a)) (h' : Adds st₁ st₂ [.jump stop, .mark a.next]) :
    Chain st st₂ stop (done ++ [.branch a.test a.next (some stop) a.body]) none where
  toAdds := by simpa [openCode, codeAll, Statement.code] using h.toAdds.trans h'
  doneWellFormed := (Statement.allWellFormed_append done _).mpr
    ⟨h.doneWellFormed, ⟨Or.inr rfl, h.armWellFormed a rfl⟩, trivial⟩
  armWellFormed := nofun
  fresh := by
    refine (h.fresh.widen (Nat.le_refl _) h'.labels).perm ?_
    simp
    grind

theorem close (h : Chain st st₁ stop done none) (h' : Adds st₁ st₂ [.mark stop]) :
    Emits st st₂ [.region stop done] where
  toAdds := by simpa [openCode, codeAll, Statement.code] using h.toAdds.trans h'
  wellFormed := ⟨h.doneWellFormed, trivial⟩
  fresh := by
    refine (h.fresh.widen (Nat.le_refl _) h'.labels).perm ?_
    simp
    grind

/-- Closes the chain together with its open branch. -/
theorem closeLast {a : Arm} (h : Chain st st₁ stop done (some a)) (h' : Adds st₁ st₂ [.mark a.next, .mark stop]) :
    Emits st st₂ [.region stop (done ++ [.branch a.test a.next none a.body])] where
  toAdds := by simpa [openCode, codeAll, Statement.code] using h.toAdds.trans h'
  wellFormed := ⟨(Statement.allWellFormed_append done _).mpr
    ⟨h.doneWellFormed, ⟨Or.inl rfl, h.armWellFormed a rfl⟩, trivial⟩, trivial⟩
  fresh := by
    refine (h.fresh.widen (Nat.le_refl _) h'.labels).perm ?_
    simp
    grind

/-- Labels count from one, so zero stands for no label. -/
theorem next_ne_zero {a : Arm} (h : Chain st st₁ stop done (some a)) : a.next ≠ 0 := by
  have := h.fresh.bounds a.next (by simp [pending])
  omega

end Chain

/-! ### Failures that are contained -/

section Contained
variable {env : Env} {st after : State} {tag : Tag}

theorem emits_reject (hpart : env.part = .body) (st : State) (tag : Tag) (kind : DiagnosticKind) (message : Bytes) :
    Emits st (st.reject env tag kind message) [.plain (.comment message)] :=
  .of_plain rfl ((adds_emit hpart st _).congr rfl (Nat.le_refl _) rfl)

/-- What was emitted before a failing node is what its mark leaves. -/
theorem adds_backTo (h : Survives st after) : Adds st (after.backTo st.out.mark) [] where
  pre := (List.prefix_iff_eq_take.mp h.pre).symm
  body := (List.prefix_iff_eq_take.mp h.body).symm.trans (List.append_nil _).symm
  post := (List.prefix_iff_eq_take.mp h.post).symm
  loader := rfl
  labels := h.labels
  running := h.running

theorem emits_rollback (hpart : env.part = .body) (h : Survives st after) (tag : Tag) (e : Failure) :
    Emits st (after.rollback st.out.mark env tag e) [.plain (.comment ("error in @" ++ tag.name))] :=
  .of_plain rfl (((adds_backTo h).trans (adds_emit hpart _ _)).congr rfl (Nat.le_refl _) rfl)

/-- One use of a directive ends as its life does, or gives back what it produced. -/
theorem contained_cases {ask : Requests} {d : Definition} {owner : Bytes} {P failed : State → Prop}
    (h : Ends (lifecycle env ask tag d owner st) (fun _ => P) failed) :
    P (contained env ask tag d owner st) ∨
      ∃ after e, failed after ∧ contained env ask tag d owner st = after.rollback st.out.mark env tag e := by
  unfold contained
  rcases hlife : lifecycle env ask tag d owner st with ⟨e | u, after⟩ <;> rw [hlife] at h
  · exact Or.inr ⟨after, e, h, rfl⟩
  · exact Or.inl h

theorem emits_contained (hpart : env.part = .body) {ask : Requests} {d : Definition} {owner : Bytes}
    (h : Ends (lifecycle env ask tag d owner st) (fun _ st' => ∃ ss, Emits st st' ss) (Survives st)) :
    ∃ ss, Emits st (contained env ask tag d owner st) ss := by
  rcases contained_cases h with h | ⟨after, e, hafter, heq⟩
  · exact h
  · exact heq ▸ ⟨_, emits_rollback hpart hafter tag e⟩

end Contained

/-! ### Answers to requests -/

/-- A step that always succeeds, adds statements and keeps what the chain at hand remembers. -/
def Steady (f : State → Outcome Unit) : Prop :=
  ∀ st, st.canceled = false → ∃ st' ss, f st = (.ok (), st') ∧ Emits st st' ss ∧ st'.data = st.data

/-- The answers that the nodes of a template give, when no more is known of its chain. -/
structure Serves (ask : Requests) : Prop where
  compile : ∀ which, Steady (ask.compile which)
  embed : ∀ path src bindings st, st.canceled = false →
    Ends (ask.embed path src bindings st) (fun _ st' => ∃ ss, Emits st st' ss) (Survives st)

end Stencil.Compile
