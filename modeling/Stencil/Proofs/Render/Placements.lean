import Stencil.Proofs.Program.Merge
import Stencil.Proofs.Render.Trace

/-! # Where placeholders come from

Every placeholder of a render is placed by an instruction of the program, or of a program that was kept or
compiled meanwhile. If a program fills placeholders in last, as compiled ones do, then a whole render does so
only after everything else. -/

namespace Stencil.Render

open Program (FillsLast)

/-! ### Programs -/

section
variable {host : Host} {m m' : State} {p : Program}

theorem keeps_congr (h : m'.shared.session = m.shared.session) : m'.Keeps p ↔ m.Keeps p := by
  unfold State.Keeps
  rw [h]

@[simp] theorem session_leave (m : State) : m.leave.shared.session = m.shared.session := by
  unfold State.leave
  split <;> rfl

@[simp] theorem session_close (m : State) (mode : ScopeMode) (name : Bytes) :
    (m.close mode name).shared.session = m.shared.session := by
  cases mode <;> exact session_leave m

@[simp] theorem session_placeholder (m : State) (kind name fallback : Bytes) :
    (m.placeholder kind name fallback).shared.session = m.shared.session := by
  unfold State.placeholder
  dsimp only
  split <;> rfl

@[simp] theorem session_resolve (m : State) : m.resolve.shared.session = m.shared.session := by
  unfold State.resolve
  split <;> rfl

/-- Programs that are kept were kept before, or were compiled meanwhile. -/
theorem Acts.loaded {es : List Event} (h : Acts host m es m') (hp : m'.Keeps p) : m.Keeps p ∨ host.Compiles p := by
  induction h with
  | refl => exact .inl hp
  | quiet hq _ ih => exact (ih hp).elim (hq.loaded p) .inr
  | wrote text _ ih => exact ih hp
  | placed kind name fallback _ ih => exact (ih hp).imp_left (keeps_congr (session_placeholder _ _ _ _)).mp
  | opened s hs _ ih => exact ih hp
  | closed mode name houter _ ih => exact (ih hp).imp_left (keeps_congr (session_close _ _ _)).mp
  | filled hroot _ ih => exact (ih hp).imp_left (keeps_congr (session_resolve _)).mp

/-- The programs that a run may come to are of a kind. -/
structure Runs (P : Program → Prop) (host : Host) (m : State) : Prop where
  compiles : ∀ p, host.Compiles p → P p
  keeps : ∀ p, m.Keeps p → P p

variable {P : Program → Prop}

theorem Runs.acts {es : List Event} (h : Runs P host m) (hacts : Acts host m es m') : Runs P host m' :=
  ⟨h.compiles, fun p hp => (hacts.loaded hp).elim (h.keeps p) (h.compiles p)⟩

theorem Opens.runs {vars : Bindings} {inner : State} {session : Session} (h : Opens host vars m p inner session)
    (hm : Runs P host m) : P p ∧ Runs P host inner := by
  obtain ⟨rfl, hprogram, hloaded⟩ := h
  exact ⟨hprogram.elim (hm.keeps p) (hm.compiles p), hm.compiles,
    fun q hq => (hloaded q hq).elim (hm.keeps q) (hm.compiles q)⟩

end

/-! ### Placeholders -/

theorem traced_exec (host : Host) (fuel : Nat) :
    Traced host (fun q m => exec host fuel q { state := m }) fun q m => events host fuel q { state := m } where
  acts q _ m' hrun := (acts_exec host fuel q _ m' (Nat.zero_le _) hrun).1
  depth q _ m' hrun := (acts_exec host fuel q _ m' (Nat.zero_le _) hrun).2.1
  nested q _ m' hrun houter := (acts_exec host fuel q _ m' (Nat.zero_le _) hrun).2.2 (List.length_pos_iff.mpr houter)

/-- The placeholder is placed by an instruction of a program of some kind. -/
def PlacedBy (P : Program → Prop) (kind fallback : Bytes) : Prop :=
  ∃ q i, P q ∧ i ∈ q.instrs ∧ i.op = .placeholder ∧ i.key = kind ∧ i.text = fallback

section
variable {P : Program → Prop} {host : Host} {kind name fallback : Bytes}

/-- One step places what its instruction does, or what the template that it renders does. -/
theorem placedBy_of_mem_stepEvents {trace : Program → State → List Event}
    (htrace : ∀ q m, P q → Runs P host m → .placed kind name fallback ∈ trace q m → PlacedBy P kind fallback)
    {p : Program} (hp : P p) {i : Instr} (hi : i ∈ p.instrs) {m : State} (hm : Runs P host m)
    (h : .placed kind name fallback ∈ stepEvents host trace i m) : PlacedBy P kind fallback := by
  have htemplate {path : Bytes} {vars : Bindings} {m' : State} (hm' : Runs P host m')
      (h : .placed kind name fallback ∈ templateEvents host trace path vars m') : PlacedBy P kind fallback := by
    unfold templateEvents at h
    split at h
    · cases h
    · rename_i q inner hopen
      obtain ⟨session, hopens⟩ := openTemplate_ok hopen
      obtain ⟨hq, hinner⟩ := hopens.runs hm'
      refine htrace q inner hq hinner ?_
      simpa using h
  cases hop : i.op with
  | placeholder =>
    simp only [stepEvents, hop, List.mem_singleton, Event.placed.injEq] at h
    obtain ⟨hkind, -, hfallback⟩ := h
    exact ⟨p, i, hp, hi, hop, hkind.symm, hfallback.symm⟩
  | exitScope =>
    simp only [stepEvents, hop, List.mem_cons, reduceCtorEq, false_or] at h
    split at h
    · exact htemplate ⟨hm.compiles, fun q hq => hm.keeps q ((keeps_congr (session_leave m)).mp hq)⟩ h
    · cases h
  | render =>
    simp only [stepEvents, hop] at h
    split at h
    · cases h
    · exact htemplate hm h
  | emit =>
    simp only [stepEvents, hop] at h
    split at h <;> simp at h
  | resolve =>
    simp only [stepEvents, hop, fillEvents] at h
    split at h <;> simp at h
  | text | enterScope | comment | label | jump | jumpIfNot | set | bind | range | next | unknown code =>
    simp [stepEvents, hop] at h

theorem placedBy_of_mem_events : ∀ (fuel : Nat) {p : Program} {f : Frame}, P p → Runs P host f.state →
    f.opened ≤ f.state.outer.length → .placed kind name fallback ∈ events host fuel p f → PlacedBy P kind fallback
  | 0, _, _, _, _, _, h => by cases h
  | fuel + 1, p, f, hp, hf, hopened, h => by
    rw [events] at h
    split at h
    · unfold fillEvents at h
      split at h <;> simp at h
    · rename_i i hi
      rcases List.mem_append.mp h with h | h
      · -- a template inside has fewer steps left
        refine placedBy_of_mem_stepEvents (fun q m hq hm hmem => ?_) hp (List.mem_of_getElem? hi) hf h
        exact placedBy_of_mem_events fuel hq hm (Nat.zero_le _) hmem
      · split at h
        · cases h
        · rename_i f' hs
          have hstep := stepTraced (traced_exec host fuel) hopened hs
          have hdepth := hstep.depth
          exact placedBy_of_mem_events fuel hp (hf.acts hstep.acts) (by omega) h

end

/-! ### Filling in -/

/-- The events after which placeholders are filled in. -/
def FilledAfter (es es' : List Event) : Prop := .filled ∉ es' ∧ (es = es' ++ [.filled] ∨ es = es' ++ [.filled, .filled])

theorem FilledAfter.append {es es' before : List Event} (h : FilledAfter es es') (hbefore : .filled ∉ before) :
    FilledAfter (before ++ es) (before ++ es') := by
  refine ⟨fun hmem => (List.mem_append.mp hmem).elim hbefore h.1, h.2.imp ?_ ?_⟩ <;>
    exact fun heq => by rw [heq, List.append_assoc]

/-- A program that fills placeholders in last does so after everything else, when it runs at the root: by its
own instruction, if it has one, and when it ends. -/
theorem filledAfter_exec (host : Host) {p : Program} (hp : FillsLast p.instrs) : ∀ (fuel : Nat) (f : Frame) (m : State),
    f.opened = f.state.outer.length → exec host fuel p f = (.ok (), m) →
    ∃ es, FilledAfter (events host fuel p f) es
  | 0, _, _, _, h => by cases h
  | fuel + 1, f, m, hopened, h => by
    rcases exec_ok_cases h with ⟨hend, hclosed, -⟩ | ⟨i, f', hi, hs, hrest⟩
    · have hroot : f.state.outer = [] := List.length_eq_zero_iff.mp (hopened.symm.trans hclosed)
      refine ⟨[], nofun, .inl ?_⟩
      simp [events, hend, fillEvents, State.isRoot, hroot]
    · have hstep := stepTraced (traced_exec host fuel) (Nat.le_of_eq hopened) hs
      have hdepth := hstep.depth
      obtain ⟨es, hes⟩ := filledAfter_exec host hp fuel f' m (by omega) hrest
      rw [events_next hi hs]
      by_cases hfilled : .filled ∈ stepEvents host (fun q m => events host fuel q { state := m }) i f.state
      · -- the last instruction fills placeholders in, and then the program ends
        obtain ⟨hop, hroot⟩ := hstep.filled hfilled
        have hlast := hp.ends hi hop
        simp only [step, hop, Step.next.injEq] at hs
        subst hs
        obtain ⟨fuel, rfl⟩ : ∃ n, fuel = n + 1 := by
          cases fuel with
          | zero => cases hrest
          | succ n => exact ⟨n, rfl⟩
        have hroot' : f.state.resolve.isRoot = true := by simpa [State.isRoot] using hroot
        refine ⟨[], nofun, .inr ?_⟩
        simp [stepEvents, hop, events, hlast, fillEvents, hroot, hroot']
      · exact ⟨_, hes.append hfilled⟩

end Stencil.Render
