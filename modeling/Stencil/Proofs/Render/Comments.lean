import Stencil.Proofs.Program.Comments
import Stencil.Proofs.Render.Reaching
import Stencil.Proofs.Render.Record

/-! # Programs that differ in comments

Statements do the same without their comments (`performAll_uncommentedAll`). So two programs whose code differs in
comments come to the same end (`exists_ends_uncommented`), wherever the comments stand between literals. -/

namespace Stencil.Render

open Compile (mergeLiterals)
open Program (marked uncommented marked_uncommented)
open Statement (codeAll codeAll_append AllWellFormed)

/-! ### Statements -/

section
variable {host : Host} {run : Program → State → Outcome}

theorem perform_comment {s : Statement} (h : s.isComment = true) (m : State) : perform host run s m = .done m := by
  cases s with
  | plain i =>
    have hi : i.op = .comment := by simpa [Statement.isComment] using h
    simp [perform, act, hi, Flow.of]
  | scope | region | branch | loop => cases h

mutual

theorem perform_uncommented : ∀ (s : Statement) (m : State), perform host run s.uncommented m = perform host run s m
  | .plain _, _ => rfl
  | .scope _ body _, m => by simp only [Statement.uncommented, perform, performAll_uncommentedAll body]
  | .region _ body, m => by simp only [Statement.uncommented, perform, performAll_uncommentedAll body]
  | .branch _ _ _ body, m => by simp only [Statement.uncommented, perform, performAll_uncommentedAll body]
  | .loop _ _ _ _ _ _ body otherwise, m => by
    have hbody : performAll host run (Statement.uncommentedAll body) = performAll host run body :=
      funext (performAll_uncommentedAll body)
    simp only [Statement.uncommented, perform, hbody, performAll_uncommentedAll otherwise]

/-- Statements do the same without their comments. -/
theorem performAll_uncommentedAll : ∀ (ss : List Statement) (m : State),
    performAll host run (Statement.uncommentedAll ss) m = performAll host run ss m
  | [], _ => rfl
  | s :: ss, m => by
    rw [Statement.uncommentedAll, performAll]
    split
    · rename_i hcomment
      rw [perform_comment hcomment, Flow.andThen, performAll_uncommentedAll ss]
    · rw [performAll, perform_uncommented s]
      exact congrArg _ (funext (performAll_uncommentedAll ss))

end

end

/-! ### Programs -/

/-- What a run shows: nothing when it fails. -/
def Outcome.output (o : Outcome) : Bytes := o.settled.toOption.elim [] fun m => m.top.out

theorem out_resolve (m : State) (h : mark ∉ m.top.out) : m.resolve.top.out = m.top.out := by
  unfold State.resolve
  split
  · exact fill_text m.shared maxPasses h
  · rfl

/-- Filling in once more makes no difference to an output without placeholders. -/
theorem output_resolve {o o' : Outcome} (h : o.settled.toOption = o'.settled.toOption.map State.resolve)
    (hmark : mark ∉ o'.output) : o.output = o'.output := by
  unfold Outcome.output at hmark ⊢
  rw [h]
  cases hsettled : o'.settled.toOption with
  | none => rfl
  | some m =>
    rw [hsettled] at hmark
    exact out_resolve m hmark

theorem result?_resolve {host : Host} {run : Program → State → Outcome} (ss : List Statement) (m : State) :
    (performAll host run (ss ++ [.plain { op := .resolve }]) m).result? =
      (performAll host run ss m).result?.map State.resolve := by
  rw [performAll_append]
  cases performAll host run ss m with
  | done m' => rfl
  | left | failed | canceled => rfl

section
variable {P : Program → Prop} {host : Host} {depth : Nat} {run : Program → State → Outcome}
variable (hrun : Answers P host depth run) {m : State} (hm : Within P host depth m)
include hrun hm

/-- What statements leave depends on their code only. -/
theorem result?_of_codeAll {ss ss' : List Statement} (hsame : codeAll ss = codeAll ss') (hss : AllWellFormed none ss)
    (hss' : AllWellFormed none ss') (hnodup : (marked (codeAll ss)).Nodup) :
    (performAll host run ss m).result? = (performAll host run ss' m).result? := by
  let p : Program := ⟨[], codeAll ss⟩
  obtain ⟨o, hends, ho⟩ := exists_ends_performAll (p := p) hrun rfl hss hnodup hm
  obtain ⟨o', hends', ho'⟩ := exists_ends_performAll (p := p) hrun hsame hss' hnodup hm
  rw [← ho, ← ho', hends.unique hends']

theorem result?_uncommented {ss ss' : List Statement} (hss : AllWellFormed none ss) (hss' : AllWellFormed none ss')
    (hnodup : (marked (codeAll ss)).Nodup) (hsame : uncommented (codeAll ss) = uncommented (codeAll ss')) :
    (performAll host run ss m).result? = (performAll host run ss' m).result? := by
  rw [← performAll_uncommentedAll ss, ← performAll_uncommentedAll ss']
  refine result?_of_codeAll hrun hm ?_ hss.uncommentedAll hss'.uncommentedAll ?_
  · rw [Statement.codeAll_uncommentedAll hss, Statement.codeAll_uncommentedAll hss', hsame]
  · rwa [Statement.codeAll_uncommentedAll hss, marked_uncommented]

/-- A program with its literals joined comes to the end of its statements. -/
theorem exists_ends_merged (name : Bytes) {ss : List Statement} (hss : AllWellFormed none ss)
    (hnodup : (marked (codeAll ss)).Nodup) : ∃ o, Ends host ⟨name, mergeLiterals (codeAll ss)⟩ { state := m } o ∧
      o.settled.toOption = (performAll host run ss m).result? := by
  rw [← performAll_joinedAll ss]
  refine exists_ends_performAll hrun (Statement.mergeLiterals_codeAll hss) hss.joinedAll ?_ hm
  rwa [Compile.marked_mergeLiterals]

end

/-- Programs that differ in comments show the same. When the first fills placeholders in once more at its end, this
makes a difference only if there are still some. -/
theorem exists_outputs {P : Program → Prop} {host : Host} (hP : ∀ q, P q → q.IsCode) {m : State} (hm : Runs P host m)
    (name name' : Bytes) {ss ss' : List Statement} (hss : AllWellFormed none ss) (hss' : AllWellFormed none ss')
    (hnodup : (marked (codeAll ss)).Nodup) (hnodup' : (marked (codeAll ss')).Nodup) {extra : List Instr}
    (hextra : extra = [] ∨ extra = [{ op := .resolve }])
    (hsame : uncommented (codeAll ss) = uncommented (codeAll ss') ++ extra) :
    ∃ o o', Ends host ⟨name, mergeLiterals (codeAll ss)⟩ { state := m } o ∧
      Ends host ⟨name', mergeLiterals (codeAll ss')⟩ { state := m } o' ∧
      ((mark ∈ o'.output → extra = []) → o.output = o'.output) := by
  have hwithin : Within P host m.shared.depth m := ⟨hm, rfl⟩
  obtain ⟨run, hrun⟩ : ∃ run, Answers P host m.shared.depth run := exists_answers_of_isCode hP
  obtain ⟨o, hends, ho⟩ := exists_ends_merged hrun hwithin name hss hnodup
  obtain ⟨o', hends', ho'⟩ := exists_ends_merged hrun hwithin name' hss' hnodup'
  refine ⟨o, o', hends, hends', fun hmark => ?_⟩
  rcases hextra with rfl | rfl
  · have hresult := result?_uncommented hrun hwithin hss hss' hnodup (by rw [hsame, List.append_nil])
    rw [Outcome.output, ho, hresult, ← ho', Outcome.output]
  · have hlast : AllWellFormed none (ss' ++ [.plain { op := .resolve }]) :=
      (Statement.allWellFormed_append _ _).mpr ⟨hss', rfl, trivial⟩
    have hresult := result?_uncommented hrun hwithin hss hlast hnodup (by rw [hsame, codeAll_append]; simp [Statement.code])
    rw [result?_resolve, ← ho, ← ho'] at hresult
    exact output_resolve hresult fun hmem => by cases hmark hmem

end Stencil.Render
