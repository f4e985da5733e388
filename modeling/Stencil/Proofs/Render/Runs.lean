import Stencil.Proofs.Render.Safety

/-! # Stretches of a run

`Goes` is a stretch of steps that render no other template, so it does not depend on how many steps
are left. `CodeAt` says that code stands at a place of a program; one lemma for each instruction says
where a frame goes from there. -/

namespace Stencil.Render

open Program (marked)

/-- Steps from one frame to another, without a render of another template. -/
inductive Goes (host : Host) (p : Program) : Frame → Frame → Prop
  | refl {f : Frame} : Goes host p f f
  | step {f f' g : Frame} {i : Instr} (hi : p.instrs[f.pc]? = some i) (hs : ∀ run, step host run p i f = .next f')
      (rest : Goes host p f' g) : Goes host p f g

/-- The next step fails with an error of its instruction. -/
def Stops (host : Host) (p : Program) (f : Frame) (e : Failure) : Prop :=
  ∃ i f', p.instrs[f.pc]? = some i ∧ ∀ run, step host run p i f = .stop (.instruction p.name f.pc i e) f'

section
variable {host : Host} {p : Program} {f g h : Frame}

theorem Goes.single {i : Instr} (hi : p.instrs[f.pc]? = some i) (hs : ∀ run, Render.step host run p i f = .next g) :
    Goes host p f g :=
  .step hi hs .refl

theorem Goes.trans (hfg : Goes host p f g) (hgh : Goes host p g h) : Goes host p f h := by
  induction hfg with
  | refl => exact hgh
  | step hi hs _ ih => exact .step hi hs (ih hgh)

/-- With enough steps left a run comes to the end of the stretch. -/
theorem Goes.visits (hfg : Goes host p f g) : ∃ k, ∀ fuel, Visits host p (fuel + k) f fuel g := by
  induction hfg with
  | refl => exact ⟨0, fun _ => .here⟩
  | step hi hs _ ih =>
    obtain ⟨k, hk⟩ := ih
    exact ⟨k + 1, fun fuel => .step hi (hs _) (hk fuel)⟩

/-- A stretch to the end of a program is a whole run. -/
theorem exec_of_goes_end (hfg : Goes host p f g) (hend : p.instrs[g.pc]? = none) :
    ∃ n, ∀ fuel, n ≤ fuel → exec host fuel p f = g.finish p := by
  obtain ⟨k, hk⟩ := hfg.visits
  refine ⟨k + 1, fun fuel hfuel => ?_⟩
  obtain ⟨r, rfl⟩ : ∃ r, fuel = r + 1 + k := ⟨fuel - (k + 1), by omega⟩
  rw [exec_of_visits (hk (r + 1)), exec, hend]

/-- The limit counts only where a run starts. -/
theorem exec_stepLimit (host : Host) (limit fuel : Nat) (p : Program) (f : Frame) :
    exec { host with stepLimit := limit } fuel p f = exec host fuel p f := by
  induction fuel generalizing p f with
  | zero => rfl
  | succ fuel ih =>
    have hrun : (fun q m => exec { host with stepLimit := limit } fuel q { state := m }) =
        fun q m => exec host fuel q { state := m } := by
      funext q m
      exact ih q _
    rw [exec, exec, hrun]
    split
    · rfl
    · simp only [ih]
      rfl

theorem exec_of_goes_stops {e : Failure} (hfg : Goes host p f g) (hstop : Stops host p g e) :
    ∃ n i, ∀ fuel, n ≤ fuel → (exec host fuel p f).1 = .error (.instruction p.name g.pc i e) := by
  obtain ⟨k, hk⟩ := hfg.visits
  obtain ⟨i, f', hi, hs⟩ := hstop
  refine ⟨k + 1, i, fun fuel hfuel => ?_⟩
  obtain ⟨r, rfl⟩ : ∃ r, fuel = r + 1 + k := ⟨fuel - (k + 1), by omega⟩
  rw [exec_of_visits (hk (r + 1)), exec, hi]
  simp only [hs]

end

/-! ### Code at a place -/

/-- The instructions of `code` stand at `pc` and after it. -/
def CodeAt (p : Program) (pc : Nat) (code : List Instr) : Prop :=
  ∀ k i, code[k]? = some i → p.instrs[pc + k]? = some i

namespace CodeAt
variable {p : Program} {pc : Nat} {i : Instr} {a b : List Instr}

theorem whole (p : Program) : CodeAt p 0 p.instrs := fun k i hi => by rwa [Nat.zero_add]

theorem head (h : CodeAt p pc (i :: a)) : p.instrs[pc]? = some i := h 0 i rfl

theorem tail (h : CodeAt p pc (i :: a)) : CodeAt p (pc + 1) a := fun k j hj => by
  rw [Nat.add_assoc, Nat.add_comm 1 k]
  exact h (k + 1) j hj

theorem left (h : CodeAt p pc (a ++ b)) : CodeAt p pc a := fun k j hj =>
  h k j (by rw [List.getElem?_append_left (List.getElem?_eq_some_iff.mp hj).1, hj])

theorem right (h : CodeAt p pc (a ++ b)) : CodeAt p (pc + a.length) b := fun k j hj => by
  rw [Nat.add_assoc]
  exact h (a.length + k) j (by rw [List.getElem?_append_right (Nat.le_add_right _ _), Nat.add_sub_cancel_left, hj])

/-- A mark leads to the place after it. -/
theorem target {l : Int} (hnodup : (marked p.instrs).Nodup) (h : CodeAt p pc (.mark l :: a)) : p.target l = pc :=
  Program.target_eq hnodup h.head rfl

end CodeAt

/-! ### Single instructions -/

section
variable {host : Host} {p : Program} {f : Frame} {rest : List Instr}

theorem goes_literal {text : Bytes} (h : CodeAt p f.pc (.literal text :: rest)) :
    Goes host p f { f with pc := f.pc + 1, state := f.state.write text } :=
  .single h.head fun _ => rfl

theorem goes_mark {l : Int} (h : CodeAt p f.pc (.mark l :: rest)) : Goes host p f { f with pc := f.pc + 1 } :=
  .single h.head fun _ => rfl

theorem goes_jump {l : Int} (h : CodeAt p f.pc (.jump l :: rest)) :
    Goes host p f { f with pc := p.target l + 1 } :=
  .single h.head fun _ => rfl

theorem goes_enter (h : CodeAt p f.pc (.enter :: rest)) :
    Goes host p f { f with pc := f.pc + 1, opened := f.opened + 1, state := f.state.enter {} } :=
  .single h.head fun _ => rfl

end

end Stencil.Render
