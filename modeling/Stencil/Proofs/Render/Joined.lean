import Stencil.Proofs.Render.Endings
import Stencil.Proofs.Render.Merging

/-! # Joined programs end alike

A program and the same program with its literals joined come to the same end, whichever of the two is known to
end (`Follows.ends`, `Follows.ends_of_joined`). An instruction that is no literal does the same in both, also
where it renders another template. The joined program makes fewer steps, so what holds of it is shown by letting
the other catch up through the literals of one joined literal (`Follows.catch_up`). -/

namespace Stencil.Render

open Stencil.Compile (mergeLiterals Apart Memory Stored Template isChain_mergeLiterals link_mergeLiterals)
open Program (link_eq_ok)

/-! ### Ends -/

/-- The same failure, also when the instruction that failed stands elsewhere. -/
inductive SameCause : Failure → Failure → Prop
  | same (e : Failure) : SameCause e e
  | moved (name : Bytes) (k k' : Nat) (i : Instr) (cause : Failure) :
    SameCause (.instruction name k i cause) (.instruction name k' i cause)

/-- Runs that come to the same state, and succeed or fail with the same cause. -/
inductive EndsAlike : Outcome → Outcome → Prop
  | ok (m : State) : EndsAlike (.ok (), m) (.ok (), m)
  | error {e e' : Failure} (he : SameCause e e') (m : State) : EndsAlike (.error e, m) (.error e', m)

theorem EndsAlike.refl : ∀ o : Outcome, EndsAlike o o
  | (.ok (), m) => .ok m
  | (.error e, m) => .error (.same e) m

/-- A run in a state comes to an end, and does so under every limit that is high enough. -/
structure RunsTo (host : Host) (p : Program) (m : State) (o : Outcome) : Prop where
  ends : Ends host p { state := m } o
  limit : ∃ n, ∀ limit, n ≤ limit → run { host with stepLimit := limit } p m = o

theorem runsTo_iff_ends {host : Host} {p : Program} {m : State} {o : Outcome} :
    RunsTo host p m o ↔ Ends host p { state := m } o := by
  refine ⟨RunsTo.ends, fun h => ⟨h, ?_⟩⟩
  obtain ⟨n, hn⟩ := exec_of_ends h
  refine ⟨n, fun limit hlimit => ?_⟩
  rw [run, exec_stepLimit]
  exact hn limit hlimit

/-- A step before a run. -/
theorem Ends.after {host : Host} {p : Program} {f g : Frame} {o : Outcome} {i : Instr} (hi : p.instrs[f.pc]? = some i)
    (hnested : nested? host i f.state = none) (hs : ∀ run, step host run p i f = .next g) (h : Ends host p g o) :
    Ends host p f o := by
  have hinside : ∀ q m, nested? host i f.state = some (q, m) → Ends host q { state := m } o := by
    rw [hnested]
    nofun
  exact .next hi hinside (hs _) h

theorem Ends.literal {host : Host} {p : Program} {f : Frame} {o : Outcome} {i : Instr} (hi : p.instrs[f.pc]? = some i)
    (hop : i.op = .text) (h : Ends host p { f with pc := f.pc + 1, state := f.state.write i.text } o) :
    Ends host p f o :=
  .after hi (by simp only [nested?, hop]) (fun run => by simp only [step, hop]) h

/-! ### One step -/

/-- Steps to frames of which one follows the other, or that end alike. -/
inductive StepsFollow (p q : Program) : Step → Step → Prop
  | next {g g₁ : Frame} (h : Follows p q g g₁) : StepsFollow p q (.next g) (.next g₁)
  | stop {e e' : Failure} {g g₁ : Frame} (he : SameCause e e') (hg : g.abandon = g₁.abandon) :
    StepsFollow p q (.stop e g) (.stop e' g₁)

section
variable {host : Host} {p q : Program} {f f₁ : Frame} {i : Instr} {o : Outcome}

theorem Follows.steps (h : Follows p q f f₁) (host : Host) (hjoin : Joins p q) (hname : q.name = p.name)
    (hi : p.instrs[f.pc]? = some i) (hop : i.op ≠ .text) (run : Program → State → Outcome) :
    q.instrs[f₁.pc]? = some i ∧ f₁.state = f.state ∧ StepsFollow p q (step host run p i f) (step host run q i f₁) := by
  obtain ⟨pc, rfl, hqi, hrest⟩ := h.place hi hop
  refine ⟨hqi, rfl, ?_⟩
  obtain ⟨eff, heff, hjump⟩ := hasEffect host run i f
  have hp : step host run p i f = eff.step p i f.pc := heff p f.pc
  rw [hp, heff q pc]
  cases eff with
  | forward g => exact .next (.aligned hrest)
  | jump g =>
    have hmarked := hjoin.jumps i (List.mem_of_getElem? hi) (hjump g rfl)
    exact .next (.aligned (hjoin.target_drop hmarked))
  | fail e g =>
    rw [Effect.step, Effect.step, hname]
    exact .stop (.moved ..) rfl
  | cancel g => exact .stop (.same _) rfl

/-! ### Whole runs -/

theorem Follows.finish_eq (h : Follows p q f f₁) (hname : q.name = p.name) (hend : p.instrs[f.pc]? = none) :
    q.instrs[f₁.pc]? = none ∧ f₁.finish q = f.finish p := by
  obtain ⟨hnone, hstate, hopened⟩ := h.finish hend
  exact ⟨hnone, by simp only [Frame.finish, Frame.abandon, hstate, hopened, hname]⟩

/-- The joined program ends like the other. -/
theorem Follows.ends (hjoin : Joins p q) (hname : q.name = p.name) (h : Follows p q f f₁) (hends : Ends host p f o) :
    ∃ o', Ends host q f₁ o' ∧ EndsAlike o o' := by
  induction hends generalizing f₁ with
  | finish hend =>
    obtain ⟨hnone, hfinish⟩ := h.finish_eq hname hend
    exact ⟨_, .finish hnone, hfinish ▸ .refl _⟩
  | @stop p f g i e inside hi hinside hs _ =>
    have hop : i.op ≠ .text := fun hop => by simp [step, hop] at hs
    obtain ⟨hqi, hstate, hsteps⟩ := h.steps host hjoin hname hi hop fun _ _ => inside
    rw [hs] at hsteps
    generalize hs' : step host (fun _ _ => inside) q i f₁ = s at hsteps
    cases hsteps with
    | stop he hg => exact ⟨_, .stop hqi (hstate ▸ hinside) hs', hg ▸ .error he _⟩
  | @next p f g i inside o hi hinside hs _ _ ih =>
    by_cases hop : i.op = .text
    · have hg : g = { f with pc := f.pc + 1, state := f.state.write i.text } := by
        simp only [step, hop] at hs
        cases hs
        rfl
      obtain ⟨x, hx, hxop, hfollows | hfollows⟩ := h.literal hi hop
      · exact ih hjoin hname (hg ▸ hfollows)
      · obtain ⟨o', ho', halike⟩ := ih hjoin hname (hg ▸ hfollows)
        exact ⟨o', .literal hx hxop ho', halike⟩
    · obtain ⟨hqi, hstate, hsteps⟩ := h.steps host hjoin hname hi hop fun _ _ => inside
      rw [hs] at hsteps
      generalize hs' : step host (fun _ _ => inside) q i f₁ = s at hsteps
      cases hsteps with
      | next hfollows =>
        obtain ⟨o', ho', halike⟩ := ih hjoin hname hfollows
        exact ⟨o', .next hqi (hstate ▸ hinside) hs' ho', halike⟩

/-- The other program writes all literals of a joined one. -/
theorem Follows.catch_up {x : Instr} (h : Follows p q f f₁) (hx : q.instrs[f₁.pc]? = some x) (hop : x.op = .text) :
    ∃ g, Follows p q g { f₁ with pc := f₁.pc + 1, state := f₁.state.write x.text } ∧
      ∀ host o, Ends host p g o → Ends host p f o := by
  -- by induction on the instructions that are left
  generalize hleft : p.instrs.length - f.pc = left
  induction left using Nat.strongRecOn generalizing f with
  | ind left ih =>
    cases hi : p.instrs[f.pc]? with
    | none =>
      rw [(h.finish hi).1] at hx
      cases hx
    | some i =>
      by_cases htext : i.op = .text
      · obtain ⟨x', hx', -, hwaits | hfollows⟩ := h.literal hi htext
        · have hlt : f.pc < p.instrs.length := (List.getElem?_eq_some_iff.mp hi).1
          have hless : p.instrs.length - (f.pc + 1) < left := by omega
          obtain ⟨g, hg, hends⟩ := ih _ hless hwaits rfl
          exact ⟨g, hg, fun host o ho => .literal hi htext (hends host o ho)⟩
        · cases hx.symm.trans hx'
          exact ⟨_, hfollows, fun host o ho => .literal hi htext ho⟩
      · obtain ⟨pc, rfl, hqi, -⟩ := h.place hi htext
        cases hx.symm.trans hqi
        exact absurd hop htext

/-- The joined program is at an instruction that is no literal only when the other is. -/
theorem Follows.place_of_joined (h : Follows p q f f₁) (hi : q.instrs[f₁.pc]? = some i) (hop : i.op ≠ .text) :
    p.instrs[f.pc]? = some i := by
  cases hj : p.instrs[f.pc]? with
  | none =>
    rw [(h.finish hj).1] at hi
    cases hi
  | some j =>
    by_cases htext : j.op = .text
    · obtain ⟨x, hx, hxop, -⟩ := h.literal hj htext
      cases hi.symm.trans hx
      exact absurd hxop hop
    · obtain ⟨pc, rfl, hqj, -⟩ := h.place hj htext
      exact congrArg some (Option.some.inj (hqj.symm.trans hi))

theorem Follows.finish_of_joined (h : Follows p q f f₁) (hend : q.instrs[f₁.pc]? = none) : p.instrs[f.pc]? = none := by
  cases hi : p.instrs[f.pc]? with
  | none => rfl
  | some i =>
    by_cases htext : i.op = .text
    · obtain ⟨x, hx, -⟩ := h.literal hi htext
      cases hend.symm.trans hx
    · obtain ⟨pc, rfl, hqi, -⟩ := h.place hi htext
      cases hend.symm.trans hqi

/-- The other program ends like the joined one. -/
theorem Follows.ends_of_joined (hjoin : Joins p q) (hname : q.name = p.name) (h : Follows p q f f₁)
    (hends : Ends host q f₁ o) : ∃ o', Ends host p f o' ∧ EndsAlike o' o := by
  induction hends generalizing f with
  | finish hend =>
    have hnone := h.finish_of_joined hend
    exact ⟨_, .finish hnone, (h.finish_eq hname hnone).2 ▸ .refl _⟩
  | @stop q f₁ g i e inside hi hinside hs _ =>
    have hop : i.op ≠ .text := fun hop => by simp [step, hop] at hs
    have hpi := h.place_of_joined hi hop
    obtain ⟨-, hstate, hsteps⟩ := h.steps host hjoin hname hpi hop fun _ _ => inside
    rw [hs] at hsteps
    generalize hs' : step host (fun _ _ => inside) p i f = s at hsteps
    cases hsteps with
    | stop he hg => exact ⟨_, .stop hpi (hstate ▸ hinside) hs', hg ▸ .error he _⟩
  | @next q f₁ g i inside o hi hinside hs _ _ ih =>
    by_cases hop : i.op = .text
    · have hg : g = { f₁ with pc := f₁.pc + 1, state := f₁.state.write i.text } := by
        simp only [step, hop] at hs
        cases hs
        rfl
      obtain ⟨f', hfollows, hback⟩ := h.catch_up hi hop
      obtain ⟨o', ho', halike⟩ := ih hjoin hname (hg ▸ hfollows)
      exact ⟨o', hback host o' ho', halike⟩
    · have hpi := h.place_of_joined hi hop
      obtain ⟨-, hstate, hsteps⟩ := h.steps host hjoin hname hpi hop fun _ _ => inside
      rw [hs] at hsteps
      generalize hs' : step host (fun _ _ => inside) p i f = s at hsteps
      cases hsteps with
      | next hfollows =>
        obtain ⟨o', ho', halike⟩ := ih hjoin hname hfollows
        exact ⟨o', .next hpi (hstate ▸ hinside) hs' ho', halike⟩

end

/-! ### Programs of templates -/

theorem joins_of_link {name : Bytes} {instrs : List Instr} {p q : Program} (hp : Program.link name instrs = .ok p)
    (hq : Program.link name (mergeLiterals instrs) = .ok q) : Joins p q ∧ q.name = p.name := by
  obtain ⟨rfl, -, hjumps⟩ := link_eq_ok.mp hp
  obtain ⟨rfl, -⟩ := link_eq_ok.mp hq
  exact ⟨⟨rfl, hjumps⟩, rfl⟩

/-- The program of a template links when its instructions do, has no two literals next to each other, and runs to
the same ends in the same states as the instructions themselves. Making it changes nothing that is in memory, so
it can be made again. -/
theorem program_joined (t : Template) :
    ((∃ q, t.program = .ok q) ↔ ∃ p, Program.link t.path t.instrs = .ok p) ∧
      (∀ p q, Program.link t.path t.instrs = .ok p → t.program = .ok q →
        q.instrs.IsChain Apart ∧
          ∀ (host : Host) (m : State),
            (∀ o, RunsTo host p m o → ∃ o', RunsTo host q m o' ∧ EndsAlike o o') ∧
              ∀ o', RunsTo host q m o' → ∃ o, RunsTo host p m o ∧ EndsAlike o o') ∧
      ∀ (u : Stored) (mem : Memory), u.Holds mem t →
        (u.program mem).1 = t.program ∧ mem <+: (u.program mem).2 ∧
          (u.program (u.program mem).2).1 = (u.program mem).1 := by
  refine ⟨link_mergeLiterals t.path t.instrs, fun p q hp hq => ?_, fun u mem hmem => ?_⟩
  · obtain ⟨hjoin, hname⟩ := joins_of_link hp hq
    have hstart (m : State) : Follows p q { state := m } { state := m } := .aligned hjoin.instrs
    refine ⟨hjoin.instrs ▸ isChain_mergeLiterals p.instrs, fun host m => ?_⟩
    simp only [runsTo_iff_ends]
    exact ⟨fun o ho => (hstart m).ends hjoin hname ho, fun o' ho' => (hstart m).ends_of_joined hjoin hname ho'⟩
  · have hagain := hmem.append (mergeLiterals t.instrs)
    rw [Stored.program_eq hmem, Stored.program_eq hagain]
    exact ⟨rfl, List.prefix_append .., rfl⟩

/-- Literals are joined over the borders of the sections, and before a jump whose label moves. -/
theorem program_joined_sections :
    let t : Template := { path := "t", pre := [.literal "a"],
                          body := [.literal "b", .jump 1, .literal "x", .literal "y", .mark 1, .literal "c"],
                          post := [.literal "d"], channels := [], deps := [], errors := [] }
    let q : Program := { name := "t", instrs := [.literal "ab", .jump 1, .literal "xy", .mark 1, .literal "cd"] }
    let u : Stored := { path := "t", pre := 1, body := 0, post := 2 }
    let mem : Memory := [t.body, t.pre, t.post]
    t.program = .ok q ∧
      (∃ o', RunsTo {} q { top := {} } o' ∧ EndsAlike (.ok (), { top := { out := "abcd" } }) o') ∧
      (u.program (u.program mem).2).1 = .ok q := by
  intro t q u mem
  have hp : Program.link t.path t.instrs = .ok ⟨t.path, t.instrs⟩ := by rfl
  have hq : t.program = .ok q := by rfl
  obtain ⟨-, hruns, hmade⟩ := program_joined t
  obtain ⟨hfirst, -, hagain⟩ := hmade u mem ⟨rfl, rfl, rfl, rfl⟩
  have hends : Ends {} ⟨t.path, t.instrs⟩ { state := { top := {} } } (.ok (), { top := { out := "abcd" } }) :=
    .literal rfl rfl (.literal rfl rfl (.after rfl rfl (fun _ => rfl)
      (.literal rfl rfl (.literal rfl rfl (.finish rfl)))))
  exact ⟨hq, ((hruns _ q hp hq).2 {} { top := {} }).1 _ (runsTo_iff_ends.mpr hends), hagain.trans (hfirst.trans hq)⟩

end Stencil.Render
