import Mathlib.Logic.Function.Basic
import Stencil.Proofs.Engine.Caching

/-! # Loads at the same time

A load looks its template up, compiles it if it is not kept, and stores the program. Other loads, changes of templates
and invalidations may come between these steps, since nothing is locked while a template is compiled. A load that begins
after an invalidation may then still return a program from before it, but only one that another load had compiled before
and stored afterwards (`Engine.Traffic.version_of_load_after_invalidate`). -/

namespace Stencil.Engine

/-! ### Steps -/

/-- A load that is asked for. -/
structure Traffic.Call where
  path : Bytes
  canceled : Bool := false

/-- How far a load has come. A program comes with the version of its template that it was compiled from. -/
inductive Traffic.Stage where
  | waiting
  | missed
  | compiled (p : Program) (version : Nat)
  | returned (p : Program) (version : Nat)
  | failed (f : Failure)

/-- What a load gives, once it has ended. -/
def Traffic.Stage.result? : Stage → Option (Except Failure Program)
  | .returned p _ => some (.ok p)
  | .failed f => some (.error f)
  | .waiting => none
  | .missed => none
  | .compiled _ _ => none

/-- One step of a load, or something that happens beside the loads. -/
inductive Traffic.Event where
  | lookUp (load : Nat)
  | compile (load : Nat)
  | store (load : Nat)
  | invalidate (path : Bytes)
  | change (path src : Bytes)
  deriving DecidableEq

/-- An engine and the loads that use it. -/
structure Traffic where
  engine : Engine
  /-- How often the text of a template has changed. -/
  version : Bytes → Nat := fun _ => 0
  /-- The version that the kept program of a template was compiled from. -/
  origin : Bytes → Nat := fun _ => 0
  stage : Nat → Traffic.Stage := fun _ => .waiting

namespace Traffic

/-- A load finds its program kept. -/
def find (s : Traffic) (i : Nat) (path : Bytes) (p : Program) : Traffic :=
  { s with
    engine := { s.engine with loader := { s.engine.loader with hits := s.engine.loader.hits + 1 } }
    stage := Function.update s.stage i (.returned p (s.origin path)) }

/-- A load finds no program. -/
def miss (s : Traffic) (i : Nat) : Traffic :=
  { s with
    engine := { s.engine with loader := { s.engine.loader with misses := s.engine.loader.misses + 1 } }
    stage := Function.update s.stage i .missed }

/-- A load has compiled its template as it is now. -/
def finish (s : Traffic) (i : Nat) (path : Bytes) (built : Built) : Traffic :=
  let isSealed := s.engine.registry.isSealed || built.seals
  { s with
    engine := { s.engine with registry := { s.engine.registry with isSealed } }
    stage := Function.update s.stage i
      (match built.program with
        | .ok p => .compiled p (s.version path)
        | .error f => .failed (.within ("failed to load " ++ path) f)) }

/-- A load stores its program. -/
def keep (s : Traffic) (i : Nat) (path : Bytes) (p : Program) (version : Nat) : Traffic :=
  { s with
    engine := { s.engine with loader := s.engine.loader.store path p }
    origin := Function.update s.origin path version
    stage := Function.update s.stage i (.returned p version) }

/-- One event. A load that is not ready for a step does nothing. -/
def step (calls : Nat → Call) (s : Traffic) : Event → Traffic
  | .lookUp i =>
    match s.stage i with
    | .waiting =>
      match s.engine.loader.kept? (calls i).path with
      | some p => s.find i (calls i).path p
      | none => s.miss i
    | _ => s
  | .compile i =>
    match s.stage i with
    | .missed => s.finish i (calls i).path (s.engine.compileStep (calls i).path (calls i).canceled)
    | _ => s
  | .store i =>
    match s.stage i with
    | .compiled p version => s.keep i (calls i).path p version
    | _ => s
  | .invalidate path => { s with engine := s.engine.invalidate path }
  | .change path src =>
    { s with engine := s.engine.edit path src, version := Function.update s.version path (s.version path + 1) }

/-- Events in order. -/
def run (calls : Nat → Call) (s : Traffic) (events : List Event) : Traffic := events.foldl (step calls) s

section Steps
variable {calls : Nat → Call} {s : Traffic} {i : Nat}

theorem step_lookUp (h : s.stage i = .waiting) : s.step calls (.lookUp i) =
    match s.engine.loader.kept? (calls i).path with
    | some p => s.find i (calls i).path p
    | none => s.miss i := by
  rw [step, h]

theorem step_compile (h : s.stage i = .missed) : s.step calls (.compile i) =
    s.finish i (calls i).path (s.engine.compileStep (calls i).path (calls i).canceled) := by
  rw [step, h]

theorem step_store {p : Program} {version : Nat} (h : s.stage i = .compiled p version) :
    s.step calls (.store i) = s.keep i (calls i).path p version := by
  rw [step, h]

/-- A load that has ended does nothing more. -/
theorem step_ended {r : Except Failure Program} (h : (s.stage i).result? = some r) :
    s.step calls (.compile i) = s ∧ s.step calls (.store i) = s := by
  unfold step
  cases hstage : s.stage i <;> simp [hstage, Stage.result?] at h ⊢

end Steps

/-- With nothing between its steps a load is that of the engine. -/
theorem run_load (calls : Nat → Call) (s : Traffic) (i : Nat) (h : s.stage i = .waiting) :
    let s' := s.run calls [.lookUp i, .compile i, .store i]
    s'.engine = (s.engine.load (calls i).path (calls i).canceled).2 ∧
      (s'.stage i).result? = some (s.engine.load (calls i).path (calls i).canceled).1 := by
  simp only [run, List.foldl_cons, List.foldl_nil]
  rw [step_lookUp h]
  unfold load Session.load
  cases hkept : s.engine.loader.kept? (calls i).path with
  | some p =>
    have hended : ((s.find i (calls i).path p).stage i).result? = some (.ok p) := by
      simp [find, Stage.result?]
    rw [(step_ended hended).1, (step_ended hended).2]
    simp only [Engine.session, hkept]
    exact ⟨rfl, hended⟩
  | none =>
    have hmissed : (s.miss i).stage i = .missed := Function.update_self i _ _
    rw [step_compile hmissed]
    have hbuilt : (s.miss i).engine.compileStep = s.engine.compileStep := rfl
    rw [hbuilt]
    obtain ⟨built, hcompile⟩ : ∃ built, built = s.engine.compileStep (calls i).path (calls i).canceled := ⟨_, rfl⟩
    simp only [Engine.session, hkept, ← hcompile]
    cases hprogram : built.program with
    | error f =>
      have hended : (((s.miss i).finish i (calls i).path built).stage i).result? =
          some (.error (.within ("failed to load " ++ (calls i).path) f)) := by
        simp [finish, hprogram, Stage.result?]
      rw [(step_ended hended).2]
      exact ⟨rfl, hended⟩
    | ok p =>
      have hcompiled : ((s.miss i).finish i (calls i).path built).stage i = .compiled p (s.version (calls i).path) := by
        simp [finish, hprogram, miss]
      rw [step_store hcompiled]
      exact ⟨rfl, by simp [keep, Stage.result?]⟩

/-! ### After an invalidation -/

/-- Why a load may return a program after `s₀` and the events `seen`: it was compiled from a version that is not older
than the one in `s₀`, or another load had compiled it before and stored it since. -/
def Explained (calls : Nat → Call) (s₀ : Traffic) (path : Bytes) (seen : List Event) (p : Program) (version : Nat) :
    Prop :=
  s₀.version path ≤ version ∨
    ∃ j, (calls j).path = path ∧ s₀.stage j = .compiled p version ∧ .store j ∈ seen

/-- What holds of a template after `s₀`, in which its program was dropped, and the events `seen`. -/
structure Since (calls : Nat → Call) (s₀ : Traffic) (path : Bytes) (seen : List Event) (s : Traffic) : Prop where
  version : s₀.version path ≤ s.version path
  kept : ∀ p, s.engine.loader.kept? path = some p → Explained calls s₀ path seen p (s.origin path)
  compiled : ∀ i p version, (calls i).path = path → s.stage i = .compiled p version →
    s₀.version path ≤ version ∨ s₀.stage i = .compiled p version
  returned : ∀ i p version, (calls i).path = path → s₀.stage i = .waiting → s.stage i = .returned p version →
    Explained calls s₀ path seen p version

section Runs
variable {calls : Nat → Call} {s₀ s s' : Traffic} {path : Bytes} {seen : List Event} {e : Event}

theorem Explained.later {p : Program} {version : Nat} (h : Explained calls s₀ path seen p version) (e : Event) :
    Explained calls s₀ path (seen ++ [e]) p version :=
  h.imp_right fun ⟨j, hpath, hcompiled, hmem⟩ => ⟨j, hpath, hcompiled, List.mem_append_left [e] hmem⟩

theorem Since.still (h : Since calls s₀ path seen s) (hversion : s.version path ≤ s'.version path)
    (hkept : ∀ p, s'.engine.loader.kept? path = some p → s.engine.loader.kept? path = some p)
    (horigin : s'.origin = s.origin) (hstage : s'.stage = s.stage) : Since calls s₀ path (seen ++ [e]) s' where
  version := Nat.le_trans h.version hversion
  kept p hp := horigin ▸ (h.kept p (hkept p hp)).later e
  compiled := hstage ▸ h.compiled
  returned i p version hpath hwaiting hreturned :=
    (h.returned i p version hpath hwaiting (hstage ▸ hreturned)).later e

/-- One load goes on. -/
theorem Since.move (h : Since calls s₀ path seen s) (i : Nat) {stage : Stage} (hversion : s'.version = s.version)
    (hkept : ∀ p, s'.engine.loader.kept? path = some p → Explained calls s₀ path (seen ++ [e]) p (s'.origin path))
    (hstage : s'.stage = Function.update s.stage i stage)
    (hcompiled : ∀ p version, (calls i).path = path → stage = .compiled p version → s₀.version path ≤ version)
    (hreturned : ∀ p version, (calls i).path = path → stage = .returned p version →
      Explained calls s₀ path (seen ++ [e]) p version) : Since calls s₀ path (seen ++ [e]) s' where
  version := hversion ▸ h.version
  kept := hkept
  compiled j p version hpath hj := by
    rw [hstage] at hj
    by_cases hji : j = i
    · subst hji
      exact .inl (hcompiled p version hpath (by rwa [Function.update_self] at hj))
    · exact h.compiled j p version hpath (by rwa [Function.update_of_ne hji] at hj)
  returned j p version hpath hwaiting hj := by
    rw [hstage] at hj
    by_cases hji : j = i
    · subst hji
      exact hreturned p version hpath (by rwa [Function.update_self] at hj)
    · exact (h.returned j p version hpath hwaiting (by rwa [Function.update_of_ne hji] at hj)).later e

theorem Since.step (h : Since calls s₀ path seen s) (e : Event) : Since calls s₀ path (seen ++ [e]) (s.step calls e) := by
  have hidle : Since calls s₀ path (seen ++ [e]) s := h.still (Nat.le_refl _) (fun _ => id) rfl rfl
  cases e with
  | lookUp i =>
    cases hstage : s.stage i with
    | waiting =>
      rw [step_lookUp hstage]
      cases hkept : s.engine.loader.kept? (calls i).path with
      | some p =>
        refine h.move i rfl (fun q hq => (h.kept q hq).later _) rfl (fun _ _ _ => nofun) fun q version hpath hq => ?_
        cases hq
        exact hpath ▸ (h.kept p (hpath ▸ hkept)).later _
      | none => exact h.move i rfl (fun q hq => (h.kept q hq).later _) rfl (fun _ _ _ => nofun) (fun _ _ _ => nofun)
    | _ => simpa only [Traffic.step, hstage] using hidle
  | compile i =>
    cases hstage : s.stage i with
    | missed =>
      rw [step_compile hstage]
      refine h.move i rfl (fun q hq => (h.kept q hq).later _) rfl (fun p version hpath hp => ?_) fun p version _ hp => ?_
      · split at hp
        · cases hp
          exact hpath ▸ h.version
        · cases hp
      · split at hp <;> cases hp
    | _ => simpa only [Traffic.step, hstage] using hidle
  | store i =>
    cases hstage : s.stage i with
    | compiled p version =>
      rw [step_store hstage]
      -- the load itself explains the program that it stores
      have hstored (hpath : (calls i).path = path) : Explained calls s₀ path (seen ++ [.store i]) p version :=
        (h.compiled i p version hpath hstage).imp_right fun hbefore => ⟨i, hpath, hbefore, by simp⟩
      refine h.move i rfl (fun q hq => ?_) rfl (fun _ _ _ => nofun) fun q version' hpath hq => ?_
      · by_cases hpath : path = (calls i).path
        · obtain rfl : q = p := Loader.kept?_store_self (hpath ▸ hq)
          have horigin : (s.keep i (calls i).path q version).origin path = version := by
            rw [hpath]
            exact Function.update_self _ _ _
          rw [horigin]
          exact hstored hpath.symm
        · have horigin : (s.keep i (calls i).path p version).origin path = s.origin path :=
            Function.update_of_ne hpath _ _
          rcases Loader.kept?_store hq with ⟨heq, -⟩ | hq
          · exact absurd heq hpath
          · exact horigin ▸ (h.kept q hq).later _
      · cases hq
        exact hstored hpath
    | _ => simpa only [Traffic.step, hstage] using hidle
  | invalidate dropped =>
    exact h.still (Nat.le_refl _) (fun p hp => (Loader.kept?_invalidate hp).2) rfl rfl
  | change changed src =>
    refine h.still ?_ (fun _ => id) rfl rfl
    by_cases hchanged : path = changed
    · subst hchanged
      have hnext : (s.step calls (.change path src)).version path = s.version path + 1 := by
        simp [Traffic.step]
      exact hnext ▸ Nat.le_succ _
    · exact Nat.le_of_eq (Function.update_of_ne hchanged _ _).symm

theorem since_invalidate (calls : Nat → Call) (s₀ : Traffic) (path : Bytes) :
    Since calls s₀ path [] (s₀.step calls (.invalidate path)) where
  version := Nat.le_refl _
  kept _ hp := absurd rfl (Loader.kept?_invalidate hp).1
  compiled _ _ _ _ h := .inr h
  returned i p version _ hwaiting hreturned := by
    have hstage : (s₀.step calls (.invalidate path)).stage i = s₀.stage i := rfl
    rw [hstage, hwaiting] at hreturned
    cases hreturned

theorem Since.run (h : Since calls s₀ path seen s) (events : List Event) :
    Since calls s₀ path (seen ++ events) (s.run calls events) := by
  induction events generalizing seen s with
  | nil => rwa [List.append_nil]
  | cons e events ih =>
    rw [← List.singleton_append, ← List.append_assoc]
    exact ih (h.step e)

end Runs

/-- A load that begins after its template was invalidated returns no program from before that, except one that another
load had compiled by then and stored afterwards. -/
theorem version_of_load_after_invalidate (calls : Nat → Call) (s : Traffic) (events : List Event) (i : Nat) (p : Program)
    (version : Nat) (hwaiting : s.stage i = .waiting)
    (hreturned : ((s.step calls (.invalidate (calls i).path)).run calls events).stage i = .returned p version) :
    s.version (calls i).path ≤ version ∨
      ∃ j, (calls j).path = (calls i).path ∧ s.stage j = .compiled p version ∧ .store j ∈ events :=
  ((since_invalidate calls s (calls i).path).run events).returned i p version rfl hwaiting hreturned

/-- The load of a page that another load compiles meanwhile, both after the page was changed and invalidated. -/
theorem version_of_load_after_invalidate_page :
    let calls : Nat → Call := fun _ => { path := "page" }
    let s := run calls { engine := navEngine } [.change "page" "b"]
    ∃ p version, ((s.step calls (.invalidate "page")).run calls
        [.lookUp 0, .lookUp 1, .compile 0, .store 0, .compile 1, .store 1]).stage 1 = .returned p version ∧
      s.version "page" ≤ version := by
  intro calls s
  let events : List Event := [.lookUp 0, .lookUp 1, .compile 0, .store 0, .compile 1, .store 1]
  have hcheck : (match ((s.step calls (.invalidate "page")).run calls events).stage 1 with
      | .returned _ _ => true
      | _ => false) = true := by decide +kernel
  split at hcheck
  · rename_i p version hreturned
    refine ⟨p, version, hreturned, ?_⟩
    obtain hversion | ⟨j, -, hcompiled, -⟩ := version_of_load_after_invalidate calls s events 1 p version rfl hreturned
    · exact hversion
    · cases hcompiled
  · cases hcheck

/-- A load that compiles before the invalidation and stores after it brings the old program back. -/
theorem not_version_of_load_after_invalidate : ¬ ∀ (calls : Nat → Call) (e : Engine) (before after : List Event) (i : Nat)
    (p : Program) (version : Nat), e.loader.policy = .always →
    (run calls { engine := e } before).stage i = .waiting →
    ((((run calls { engine := e } before).step calls (.invalidate (calls i).path)).run calls after).stage i =
      .returned p version) →
    (run calls { engine := e } before).version (calls i).path ≤ version := by
  intro h
  let calls : Nat → Call := fun _ => { path := "page" }
  let before : List Event := [.lookUp 0, .compile 0, .change "page" "b"]
  let after : List Event := [.store 0, .lookUp 1]
  have hcheck : (match ((((run calls { engine := navEngine } before).step calls (.invalidate "page")).run calls
      after).stage 1) with
      | .returned _ version => version == 0
      | _ => false) = true := by decide +kernel
  split at hcheck
  · rename_i p version hreturned
    obtain rfl : version = 0 := beq_iff_eq.mp hcheck
    have hversion : (run calls { engine := navEngine } before).version "page" = 1 := by decide +kernel
    have hold := h calls navEngine before after 1 p 0 rfl rfl hreturned
    rw [hversion] at hold
    exact absurd hold (by decide)
  · cases hcheck

end Traffic

end Stencil.Engine
