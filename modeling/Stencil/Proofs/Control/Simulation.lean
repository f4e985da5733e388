import Stencil.Proofs.Control.Lowering
import Stencil.Proofs.Render.Runs

/-! # The code of control templates does what they mean

Wherever the code of a tree stands in a program whose labels are all different, running it from its
first instruction writes the output of the interpretation and comes to the instruction after it, or
stops with the first failure (`simulates_lower`). -/

namespace Stencil.Control

open Stencil.Directive
open Stencil.Directive.Standard
open Stencil.Markup (Node Tag)
open Stencil.Render (Frame Host Goes Stops CodeAt)
open Program (marked)

/-- Nothing is cancelled, and the loops that run bind their names in scopes that are open. -/
structure Sound (f : Frame) : Prop where
  running : f.state.shared.session.canceled = false
  loops : ∀ l ∈ f.loops, ∀ k, l.level = some k → k ≤ f.state.outer.length

/-- The bindings of the scopes around the innermost one. -/
def around (m : Render.State) : List Bindings := m.outer.map (·.vars)

/-- A state after some output and with new bindings in its innermost scope. -/
def became (m : Render.State) (vars : Bindings) (out : Bytes) : Render.State :=
  { m with top := { m.top with vars, out := m.top.out ++ out } }

@[simp] theorem became_vars (m : Render.State) (vars : Bindings) (out : Bytes) : (became m vars out).top.vars = vars := rfl

@[simp] theorem around_became (m : Render.State) (vars : Bindings) (out : Bytes) :
    around (became m vars out) = around m := rfl

@[simp] theorem became_became (m : Render.State) (vars vars' : Bindings) (out out' : Bytes) :
    became (became m vars out) vars' out' = became m vars' (out ++ out') := by
  simp [became]

@[simp] theorem became_nil (m : Render.State) : became m m.top.vars [] = m := by
  simp [became]

/-- A run from a frame comes to the result: it goes to the frame that `final` gives, or it stops with
the failure. -/
def Reaches (host : Host) (p : Program) (f : Frame) (final : Bindings → Bytes → Frame) : Result → Prop
  | .ok (vars, out) => Goes host p f (final vars out)
  | .error e => ∃ g, Goes host p f g ∧ Stops host p g e

/-- A run comes to the result at the place `stop`, with nothing else changed. -/
abbrev Realizes (host : Host) (p : Program) (f : Frame) (stop : Nat) : Result → Prop :=
  Reaches host p f fun vars out => { f with pc := stop, state := became f.state vars out }

section
variable {host : Host} {evaluate : Render.Evaluator} {p : Program}

namespace Reaches
variable {f g : Frame} {mid final : Bindings → Bytes → Frame} {r : Result}

theorem of_goes (hf : Goes host p f g) (h : Reaches host p g final r) : Reaches host p f final r := by
  cases r with
  | error e =>
    obtain ⟨g', hg, hstop⟩ := h
    exact ⟨g', hf.trans hg, hstop⟩
  | ok r => exact hf.trans h

theorem goes (h : Reaches host p f mid r) (hg : ∀ vars out, Goes host p (mid vars out) (final vars out)) :
    Reaches host p f final r := by
  cases r with
  | error e => exact h
  | ok r => exact Goes.trans h (hg _ _)

/-- One stretch after another. -/
theorem append {next : Bindings → Result} (h : Reaches host p f mid r)
    (h' : ∀ vars out, Reaches host p (mid vars out) (fun vars' out' => final vars' (out ++ out')) (next vars)) :
    Reaches host p f final (r.append next) := by
  cases r with
  | error e => exact h
  | ok r =>
    obtain ⟨vars, out⟩ := r
    have hrest := h' vars out
    cases hnext : next vars with
    | error e =>
      rw [hnext] at hrest
      obtain ⟨g, hg, hstop⟩ := hrest
      simp only [Result.append, hnext]
      exact ⟨g, Goes.trans h hg, hstop⟩
    | ok r' =>
      rw [hnext] at hrest
      simp only [Result.append, hnext]
      exact Goes.trans h hrest

/-- What ran in a scope of its own leaves the bindings around it. -/
theorem of_scoped {vars : Bindings} (h : Reaches host p f (fun _ out => final vars out) r) :
    Reaches host p f final (r.scoped vars) := by
  cases r with
  | error e => exact h
  | ok r => exact h

end Reaches

/-! ### Values -/

theorem withValue_append (scopes : List Bindings) (evaluation : Evaluation) (expr : Bytes) (use : Value → Result)
    (next : Bindings → Result) :
    (withValue evaluation scopes expr use).append next = withValue evaluation scopes expr fun v => (use v).append next := by
  unfold withValue
  split <;> rfl

theorem append_ok_nil (vars : Bindings) (next : Bindings → Result) : Result.append (.ok (vars, [])) next = next vars := by
  cases hnext : next vars <;> simp [Result.append, hnext]

theorem lookup_eq (m : Render.State) : m.lookup = lookup (m.top.vars :: around m) := by
  have h : ∀ (ss : List Render.Scope) (name : Bytes), Render.Scope.lookup name ss = lookup (ss.map (·.vars)) name := by
    intro ss name
    induction ss with
    | nil => rfl
    | cons s ss ih =>
      cases hget : Assoc.get? name s.vars with
      | none => simp only [Render.Scope.lookup, List.map_cons, lookup, hget, ih]
      | some v => simp only [Render.Scope.lookup, List.map_cons, lookup, hget]
  funext name
  exact h m.scopes name

variable (hhost : host.evaluator = some evaluate)
include hhost

theorem eval_eq {f : Frame} (hf : Sound f) (expr : Bytes) :
    f.state.eval host expr = evaluate false expr (lookup (f.state.top.vars :: around f.state)) := by
  rw [Render.State.eval, hhost, lookup_eq, hf.running]

/-- An instruction that needs a value stops when there is none, and else goes on with it. -/
theorem reaches_of_value {f : Frame} (hf : Sound f) {i : Instr} (hi : p.instrs[f.pc]? = some i)
    {final : Bindings → Bytes → Frame} {use : Value → Result}
    (hstop : ∀ e, f.state.eval host i.expr = .error e → ∀ run,
      Render.step host run p i f = .stop (.instruction p.name f.pc i e) f)
    (h : ∀ v, f.state.eval host i.expr = .ok v → Reaches host p f final (use v)) :
    Reaches host p f final (withValue (evaluate false) (f.state.top.vars :: around f.state) i.expr use) := by
  rw [withValue, ← eval_eq hhost hf]
  cases hv : f.state.eval host i.expr with
  | error e => exact ⟨f, .refl, i, f, hi, hstop e hv⟩
  | ok v => exact h v hv

/-- Code does what `meaning` says, wherever it stands in the program. -/
def Simulates (host : Host) (p : Program) (code : List Instr) (meaning : List Bindings → Bindings → Result) : Prop :=
  ∀ f, CodeAt p f.pc code → Sound f →
    Realizes host p f (f.pc + code.length) (meaning (around f.state) f.state.top.vars)

omit hhost in
theorem Sound.became {f : Frame} (hf : Sound f) (pc : Nat) (vars : Bindings) (out : Bytes) :
    Sound { f with pc, state := became f.state vars out } :=
  ⟨hf.running, hf.loops⟩

omit hhost in
theorem simulates_nil : Simulates host p [] fun _ vars => .ok (vars, []) := by
  intro f _ _
  show Goes host p f { f with pc := f.pc, state := became f.state f.state.top.vars [] }
  rw [became_nil]
  exact .refl

omit hhost in
theorem Simulates.append {a b : List Instr} {x y : List Bindings → Bindings → Result} (ha : Simulates host p a x)
    (hb : Simulates host p b y) : Simulates host p (a ++ b) fun outer vars => (x outer vars).append (y outer) := by
  intro f hcode hf
  refine (ha f hcode.left hf).append fun vars out => ?_
  have hrest := hb { f with pc := f.pc + a.length, state := Control.became f.state vars out } hcode.right (hf.became _ _ _)
  simp only [Realizes, became_became] at hrest
  rw [List.length_append, ← Nat.add_assoc]
  exact hrest

/-- An instruction that stores or shows the value of an expression. -/
theorem simulates_value {i : Instr} (use : Bindings → Value → Bindings × Bytes)
    (hstep : ∀ (f : Frame) run, Render.step host run p i f = match f.state.eval host i.expr with
      | .error e => .stop (.instruction p.name f.pc i e) f
      | .ok v => .next { f with pc := f.pc + 1,
                                state := Control.became f.state (use f.state.top.vars v).1 (use f.state.top.vars v).2 }) :
    Simulates host p [i] fun outer vars => withValue (evaluate false) (vars :: outer) i.expr fun v => .ok (use vars v) := by
  intro f hcode hf
  refine reaches_of_value hhost hf hcode.head (fun e he run => ?_) fun v hv => ?_
  · rw [hstep, he]
  · refine Goes.single hcode.head fun run => ?_
    rw [hstep, hv]
    rfl

/-! ### Text, interpolations and variables -/

omit hhost in
theorem simulates_text (value : Bytes) (span : Markup.Span) (n : Nat) :
    Simulates host p (lower n (.text value span)) fun outer => interpret (evaluate false) outer n (.text value span) := by
  rw [lower]
  split
  · rename_i hvalue
    intro f _ _
    simp only [interpret, hvalue]
    exact simulates_nil f (fun _ _ h => by cases h) ‹_›
  · intro f hcode _
    exact Render.goes_literal hcode

theorem simulates_interpolation (expr : Bytes) (escaped : Bool) (span : Markup.Span) (n : Nat) :
    Simulates host p (lower n (.interpolation expr escaped span))
      fun outer => interpret (evaluate false) outer n (.interpolation expr escaped span) := by
  refine simulates_value hhost (fun vars v => (vars, if escaped then Text.escapeHtml v.rendered else v.rendered)) ?_
  intro f run
  cases hv : f.state.eval host expr <;> simp [Render.step, Instr.emit, hv]
  cases escaped <;> rfl

theorem simulates_assign (name expr : Bytes) :
    Simulates host p [.set name expr] fun outer vars =>
      withValue (evaluate false) (vars :: outer) expr fun v => .ok (Assoc.insert name v vars, []) := by
  refine simulates_value hhost (fun vars v => (Assoc.insert name v vars, [])) ?_
  intro f run
  cases hv : f.state.eval host expr <;> simp [Render.step, Instr.set, hv]
  simp [Render.State.set, Render.Scope.set, Control.became]

/-! ### Lists of nodes -/

variable (evaluate p) in
/-- The code of a node does what the node means. -/
def NodeSimulates (host : Host) (n : Node) : Prop :=
  ∀ k, Simulates host p (lower k n) fun outer => interpret (evaluate false) outer k n

variable (evaluate p) in
/-- The code of the children that are no parts does what they mean. -/
def BodySimulates (host : Host) (ns : List Node) : Prop :=
  ∀ k, Simulates host p (lowerAll k ns) fun outer => interpretAll (evaluate false) outer k ns

omit hhost in
theorem bodySimulates : ∀ ns : List Node, (∀ n ∈ ns, n.isPart = false → NodeSimulates evaluate p host n) →
    BodySimulates evaluate p host ns
  | [], _, _ => simulates_nil
  | n :: ns, h, k => by
    have ih := bodySimulates ns fun m hm => h m (List.mem_cons_of_mem n hm)
    cases hn : n.isPart with
    | true =>
      simp only [lowerAll, interpretAll, hn, if_true]
      exact ih k
    | false =>
      simp only [lowerAll, interpretAll, hn, Bool.false_eq_true, if_false]
      exact (h n List.mem_cons_self hn k).append (ih (k + labels n))

/-- A test goes on with the next instruction, or with the place after the mark. -/
theorem realizes_of_test {f : Frame} (hf : Sound f) {expr : Bytes} {l : Int} {rest : List Instr}
    (hcode : CodeAt p f.pc (.jumpIfNot expr l :: rest)) {stop : Nat} {yes no : Result}
    (hyes : Realizes host p { f with pc := f.pc + 1 } stop yes)
    (hno : Realizes host p { f with pc := p.target l + 1 } stop no) :
    Realizes host p f stop (withValue (evaluate false) (f.state.top.vars :: around f.state) expr fun v =>
      if v.truthy then yes else no) := by
  refine reaches_of_value hhost hf hcode.head (fun e he run => ?_) fun v hv => ?_
  · simp only [Render.step, Instr.jumpIfNot] at he ⊢
    rw [he]
  · have hstep : ∀ run, Render.step host run p (.jumpIfNot expr l) f =
        .next (if v.truthy then { f with pc := f.pc + 1 } else { f with pc := p.target l + 1 }) := by
      intro run
      have hv : f.state.eval host expr = .ok v := hv
      cases htruthy : v.truthy <;> simp [Render.step, Instr.jumpIfNot, hv, htruthy]
    split
    · rename_i htrue
      exact .of_goes (.single hcode.head fun run => by rw [hstep, if_pos htrue]) hyes
    · rename_i hfalse
      exact .of_goes (.single hcode.head fun run => by rw [hstep, if_neg hfalse]) hno

/-! ### Conditions -/

omit hhost in
/-- The alternatives of a condition end with its mark. -/
theorem lowerElse_eq (stop : Int) : ∀ (ns : List Node) (n : Nat) (next : Int),
    ∃ init, lowerElse stop next n ns = init ++ [.mark stop]
  | [], _, next => ⟨[.mark next], rfl⟩
  | .part _ tag children :: cs, n, next => by
    rw [lowerElse]
    split
    · obtain ⟨init, hinit⟩ := lowerElse_eq stop cs (n + 1 + labelsAll children) (n + 1 : Nat)
      rw [hinit]
      exact ⟨.jump stop :: .mark next :: .jumpIfNot (rawArg elseifPart tag "condition") (n + 1 : Nat)
        :: (lowerAll (n + 1) children ++ init), by simp⟩
    · exact ⟨_ :: _ :: lowerAll n children, rfl⟩
  | .text _ _ :: cs, n, next | .interpolation _ _ _ :: cs, n, next | .directive _ _ :: cs, n, next =>
    lowerElse_eq stop cs n next

variable (hnodup : (marked p.instrs).Nodup)
include hnodup

omit hhost in
/-- Code that ends with a mark ends at the place that the mark leads to. -/
theorem target_of_last {pc : Nat} {code init : List Instr} {stop : Int} (hcode : CodeAt p pc code)
    (hinit : code = init ++ [.mark stop]) : p.target stop + 1 = pc + code.length := by
  rw [hinit] at hcode
  rw [hcode.right.target hnodup, hinit, List.length_append, List.length_singleton, Nat.add_assoc]

/-- From its first instruction the code of the alternatives leads to its end; from the place that the
test before them leads to it does what they mean. -/
theorem realizes_else (stop : Int) : ∀ (ns : List Node) (n : Nat) (next : Int) (pc : Nat),
    (∀ c ∈ ns, BodySimulates evaluate p host c.children) → CodeAt p pc (lowerElse stop next n ns) →
      (∀ f : Frame, f.pc = pc → Goes host p f { f with pc := pc + (lowerElse stop next n ns).length }) ∧
      ∀ f : Frame, f.pc = p.target next + 1 → Sound f →
        Realizes host p f (pc + (lowerElse stop next n ns).length)
          (interpretElse (evaluate false) (around f.state) n ns f.state.top.vars)
  | [], n, next, pc, _, hcode => by
    rw [lowerElse] at hcode ⊢
    have htarget := hcode.target hnodup
    refine ⟨?_, ?_⟩
    · rintro f rfl
      exact (Render.goes_mark hcode).trans (Render.goes_mark hcode.tail)
    · intro f hpc _
      rw [htarget] at hpc
      have hmark : Goes host p f { f with pc := f.pc + 1 } := Render.goes_mark (hpc ▸ hcode.tail)
      rw [hpc] at hmark
      show Goes host p f { f with pc := _, state := Control.became f.state f.state.top.vars [] }
      rw [became_nil]
      exact hmark
  | .part name tag children :: cs, n, next, pc, hbodies, hcode => by
    -- the end is where the label `stop` leads: the branch before jumps there
    obtain ⟨init, hinit⟩ := lowerElse_eq stop (.part name tag children :: cs) n next
    have hend := target_of_last hnodup hcode hinit
    have hbody : BodySimulates evaluate p host children := hbodies _ List.mem_cons_self
    rw [← hend]
    clear hinit
    rw [lowerElse] at hcode
    split at hcode
    · rename_i helseif
      have htarget := hcode.tail.target hnodup
      have hrest := hcode.tail.tail.tail.right
      obtain ⟨hskip, hmeaning⟩ := realizes_else stop cs (n + 1 + labelsAll children) (n + 1 : Nat) _
        (fun c hc => hbodies c (List.mem_cons_of_mem _ hc)) hrest
      obtain ⟨init', hinit'⟩ := lowerElse_eq stop cs (n + 1 + labelsAll children) (n + 1 : Nat)
      rw [← target_of_last hnodup hrest hinit'] at hskip hmeaning
      refine ⟨?_, ?_⟩
      · rintro f rfl
        exact Render.goes_jump hcode
      · intro f hpc hf
        rw [htarget] at hpc
        simp only [interpretElse, helseif, if_true]
        refine realizes_of_test hhost hf (by rw [hpc]; exact hcode.tail.tail) ?_ ?_
        · -- after its body the branch skips the alternatives behind it
          have hthen := hbody (n + 1) { f with pc := f.pc + 1 } (by rw [hpc]; exact hcode.tail.tail.tail.left)
            ⟨hf.running, hf.loops⟩
          refine hthen.goes fun vars out => ?_
          exact hskip _ (by simp only [hpc])
        · exact hmeaning { f with pc := p.target (n + 1 : Nat) + 1 } rfl ⟨hf.running, hf.loops⟩
    · rename_i helse
      have htarget := hcode.tail.target hnodup
      refine ⟨?_, ?_⟩
      · rintro f rfl
        exact Render.goes_jump hcode
      · intro f hpc hf
        rw [htarget] at hpc
        simp only [interpretElse, helse, if_false]
        have hlast := hcode.tail.tail.right
        have hthen := hbody n f (by rw [hpc]; exact hcode.tail.tail.left) hf
        refine hthen.goes fun vars out => ?_
        rw [hlast.target hnodup, ← hpc]
        exact Render.goes_mark (by rw [hpc]; exact hlast)
  | .text _ _ :: cs, n, next, pc, hbodies, hcode | .interpolation _ _ _ :: cs, n, next, pc, hbodies, hcode
  | .directive _ _ :: cs, n, next, pc, hbodies, hcode =>
    realizes_else stop cs n next pc (fun c hc => hbodies c (List.mem_cons_of_mem _ hc)) hcode

theorem simulates_if {tag : Tag} {children : List Node} (hname : tag.name = "if")
    (hbody : BodySimulates evaluate p host children)
    (hbodies : ∀ c ∈ children, BodySimulates evaluate p host c.children) :
    NodeSimulates evaluate p host (.directive tag children) := by
  intro n f hcode hf
  simp only [lower, hname, if_true] at hcode ⊢
  simp only [interpret, hname, if_true]
  have hrest := hcode.tail.right
  obtain ⟨hskip, hmeaning⟩ := realizes_else hhost hnodup (n + 1 : Nat) children (n + 2 + labelsAll children)
    (n + 2 : Nat) _ hbodies hrest
  have hlength : f.pc + 1 + (lowerAll (n + 2) children).length + (lowerElse (n + 1 : Nat) (n + 2 : Nat)
      (n + 2 + labelsAll children) children).length = f.pc + (Instr.jumpIfNot (rawArg ifDirective tag "condition") (n + 2 : Nat)
        :: (lowerAll (n + 2) children ++ lowerElse (n + 1 : Nat) (n + 2 : Nat) (n + 2 + labelsAll children) children)).length := by
    simp only [List.length_cons, List.length_append]
    omega
  rw [hlength] at hskip hmeaning
  refine realizes_of_test hhost hf hcode ?_ ?_
  · have hthen := hbody (n + 2) { f with pc := f.pc + 1 } hcode.tail.left ⟨hf.running, hf.loops⟩
    exact hthen.goes fun vars out => hskip _ rfl
  · exact hmeaning { f with pc := p.target (n + 2 : Nat) + 1 } rfl ⟨hf.running, hf.loops⟩

/-! ### Choices -/

omit hhost hnodup in
theorem lowerCases_eq (subject : Bytes) (stop : Int) : ∀ (ns : List Node) (n : Nat),
    ∃ init, lowerCases subject stop n ns = init ++ [.mark stop]
  | [], _ => ⟨[], rfl⟩
  | .part _ tag children :: cs, n => by
    rw [lowerCases]
    split
    · obtain ⟨init, hinit⟩ := lowerCases_eq subject stop cs (n + 1 + labelsAll children)
      rw [hinit]
      exact ⟨.jumpIfNot (subject ++ " == (" ++ rawArg casePart tag "value" ++ ")") (n + 1 : Nat)
        :: (lowerAll (n + 1) children ++ (.jump stop :: .mark (n + 1 : Nat) :: init)), by simp⟩
    · exact ⟨lowerAll n children, rfl⟩
  | .text _ _ :: cs, n | .interpolation _ _ _ :: cs, n | .directive _ _ :: cs, n => lowerCases_eq subject stop cs n

theorem simulates_cases (subject : Bytes) (stop : Int) : ∀ (ns : List Node) (n : Nat),
    (∀ c ∈ ns, BodySimulates evaluate p host c.children) →
      Simulates host p (lowerCases subject stop n ns)
        fun outer => interpretCases (evaluate false) outer subject n ns
  | [], n, _, f, hcode, _ => by
    show Goes host p f { f with pc := f.pc + 1, state := Control.became f.state f.state.top.vars [] }
    rw [became_nil]
    exact Render.goes_mark hcode
  | .part name tag children :: cs, n, hbodies, f, hcode, hf => by
    obtain ⟨init, hinit⟩ := lowerCases_eq subject stop (.part name tag children :: cs) n
    have hend := target_of_last hnodup hcode hinit
    have hbody : BodySimulates evaluate p host children := hbodies _ List.mem_cons_self
    rw [← hend]
    clear hinit
    rw [lowerCases] at hcode
    split at hcode
    · rename_i hcase
      simp only [interpretCases, hcase, if_true]
      have hleave := hcode.tail.right
      have hrest := hleave.tail.tail
      refine realizes_of_test hhost hf hcode ?_ ?_
      · have hthen := hbody (n + 1) { f with pc := f.pc + 1 } hcode.tail.left ⟨hf.running, hf.loops⟩
        exact hthen.goes fun vars out => Render.goes_jump hleave
      · rw [hleave.tail.target hnodup]
        obtain ⟨init', hinit'⟩ := lowerCases_eq subject stop cs (n + 1 + labelsAll children)
        rw [target_of_last hnodup hrest hinit']
        exact simulates_cases subject stop cs _ (fun c hc => hbodies c (List.mem_cons_of_mem _ hc))
          { f with pc := f.pc + 1 + (lowerAll (n + 1) children).length + 1 + 1 } hrest ⟨hf.running, hf.loops⟩
    · rename_i hcase
      simp only [interpretCases, hcase, if_false]
      rw [hcode.right.target hnodup]
      exact (hbody n f hcode.left hf).goes fun vars out => Render.goes_mark hcode.right
  | .text _ _ :: cs, n, hbodies, f, hcode, hf | .interpolation _ _ _ :: cs, n, hbodies, f, hcode, hf
  | .directive _ _ :: cs, n, hbodies, f, hcode, hf =>
    simulates_cases subject stop cs n (fun c hc => hbodies c (List.mem_cons_of_mem _ hc)) f hcode hf

theorem simulates_switch {tag : Tag} {children : List Node} (hname : tag.name = "switch")
    (hbodies : ∀ c ∈ children, BodySimulates evaluate p host c.children) :
    NodeSimulates evaluate p host (.directive tag children) := by
  intro n
  have hset := simulates_assign hhost (p := p) (subjectName (n + 1)) (rawArg switchDirective tag "subject")
  have hcases := simulates_cases hhost hnodup (subjectName (n + 1)) (n + 2 : Nat) children (n + 2) hbodies
  have hboth := hset.append hcases
  simp only [withValue_append, append_ok_nil] at hboth
  have hlower : lower n (.directive tag children) = [.set (subjectName (n + 1)) (rawArg switchDirective tag "subject")]
      ++ lowerCases (subjectName (n + 1)) (n + 2 : Nat) (n + 2) children := by
    simp only [lower, hname]
    rfl
  rw [hlower]
  intro f hcode hf
  have hmeaning := hboth f hcode hf
  simp only [interpret, hname]
  exact hmeaning

omit hnodup in
theorem simulates_set {tag : Tag} {children : List Node} (hname : tag.name = "set")
    (hbody : BodySimulates evaluate p host children) : NodeSimulates evaluate p host (.directive tag children) := by
  intro n
  have hset := simulates_assign hhost (p := p) (nameArg setDirective tag "name") (rawArg setDirective tag "value")
  have hboth := hset.append (hbody n)
  simp only [withValue_append, append_ok_nil] at hboth
  have hlower : lower n (.directive tag children) =
      [.set (nameArg setDirective tag "name") (rawArg setDirective tag "value")] ++ lowerAll n children := by
    simp only [lower, hname]
    rfl
  rw [hlower]
  intro f hcode hf
  have hmeaning := hboth f hcode hf
  simp only [interpret, hname]
  exact hmeaning

/-! ### Loops -/

/-- A frame in a scope that it has opened. -/
def inside (f : Frame) (pc : Nat) (loops : List Render.Loop) (vars : Bindings) (out : Bytes) : Frame where
  pc
  opened := f.opened + 1
  loops
  state := became (f.state.enter {}) vars out

omit hhost hnodup in
/-- The end of a scope whose output is kept. -/
theorem goes_merge {f : Frame} (hf : Sound f) {pc : Nat} (hcode : CodeAt p pc [.exit .merge []]) (vars : Bindings)
    (out : Bytes) :
    Goes host p (inside f pc f.loops vars out) { f with pc := pc + 1, state := became f.state f.state.top.vars out } := by
  refine .single hcode.head fun run => ?_
  have hloops : f.loops.map (Render.Loop.detach (f.state.outer.length + 1)) = f.loops := by
    refine (List.map_congr_left fun l hl => ?_).trans (List.map_id _)
    rw [Render.Loop.detach, if_neg, id]
    intro hlevel
    have := hf.loops l hl _ hlevel
    omega
  simp only [Render.step, Instr.exit, inside, became, Render.State.enter, List.length_cons, hloops, Render.closeScope,
    Render.State.leave, Render.State.write, Render.Scope.write, List.nil_append]

omit hhost hnodup in
/-- Code does the same inside a scope. -/
theorem Simulates.inside {code : List Instr} {meaning : List Bindings → Bindings → Result}
    (h : Simulates host p code meaning) {f : Frame} {pc : Nat} (hcode : CodeAt p pc code) {loops : List Render.Loop}
    (hf : Sound f) (hloops : ∀ l ∈ loops, l ∈ f.loops ∨ l.level = some (f.state.outer.length + 1)) (vars : Bindings)
    (out : Bytes) :
    Reaches host p (inside f pc loops vars out)
      (fun vars' out' => Control.inside f (pc + code.length) loops vars' (out ++ out'))
      (meaning (f.state.top.vars :: around f.state) vars) := by
  have hsound : Sound (Control.inside f pc loops vars out) := by
    refine ⟨hf.running, fun l hl k hk => ?_⟩
    rcases hloops l hl with hl | hlevel
    · exact Nat.le_succ_of_le (hf.loops l hl k hk)
    · exact Nat.le_of_eq (Option.some.inj (hk.symm.trans hlevel))
  have hmeaning := h (Control.inside f pc loops vars out) hcode hsound
  simp only [Realizes, Control.inside, became_became] at hmeaning
  exact hmeaning

omit hhost hnodup in
theorem mem_or_level {f : Frame} {l : Render.Loop} (hlevel : l.level = some (f.state.outer.length + 1)) :
    ∀ l' ∈ l :: f.loops, l' ∈ f.loops ∨ l'.level = some (f.state.outer.length + 1) :=
  List.forall_mem_cons.mpr ⟨Or.inr hlevel, fun _ h => Or.inl h⟩

omit hhost hnodup in
/-- The turns of a loop from one that has its names bound, up to its end. -/
theorem reaches_turns {f : Frame} (hf : Sound f) {n pc : Nat} {children : List Node}
    (hbody : BodySimulates evaluate p host children)
    (hcode : CodeAt p pc (lowerAll (n + 3) children ++ [Statement.nextInstr (n + 1 : Nat)]))
    (hagain : p.target (n + 1 : Nat) + 1 = pc) (item key : Bytes) (length : Nat) :
    ∀ (es : List Value.Entry) (index : Nat) (vars : Bindings) (out : Bytes) (l : Render.Loop),
      l.rest = es → l.index = index → l.length = length → l.item = item → l.key = key →
      l.level = some (f.state.outer.length + 1) →
      Reaches host p (inside f pc (l :: f.loops) vars out)
        (fun vars' out' => inside f (pc + (lowerAll (n + 3) children).length + 1) f.loops vars' (out ++ out'))
        ((interpretAll (evaluate false) (f.state.top.vars :: around f.state) (n + 3) children vars).append
          (turns (interpretAll (evaluate false) (f.state.top.vars :: around f.state) (n + 3) children) item key length
            (index + 1) es)) := by
  intro es
  induction es with
  | nil =>
    intro index vars out l hrest _ _ _ _ hlevel
    refine ((hbody (n + 3)).inside hcode.left hf (mem_or_level hlevel) vars out).append fun v o => ?_
    refine Goes.single hcode.right.head fun run => ?_
    simp only [Render.step, Statement.nextInstr, inside, became, Render.State.enter, hf.running, Render.advanceLoop, hrest,
      List.append_nil]
    rfl
  | cons e rest ih =>
    intro index vars out l hrest hindex hlength hitem hkey hlevel
    refine ((hbody (n + 3)).inside hcode.left hf (mem_or_level hlevel) vars out).append fun v o => ?_
    have hnext : Goes host p (inside f (pc + (lowerAll (n + 3) children).length) (l :: f.loops) v (out ++ o))
        (inside f pc ({ l with rest, index := index + 1 } :: f.loops)
          (Assoc.insertAll v (turn item key (index + 1) length e)) (out ++ o)) := by
      refine Goes.single hcode.right.head fun run => ?_
      simp only [Render.step, Statement.nextInstr, inside, became, Render.State.enter, hf.running, Render.advanceLoop,
        hrest, Render.Loop.bind, hlevel, Render.State.atLevel, List.length_cons, Nat.sub_self, hagain, hindex]
      subst hlength hitem hkey
      rfl
    have hturns := ih (index + 1) (Assoc.insertAll v (turn item key (index + 1) length e)) (out ++ o)
      { l with rest, index := index + 1 } rfl rfl hlength hitem hkey hlevel
    simp only [List.append_assoc] at hturns hnext
    exact hturns.of_goes hnext

omit hhost in
/-- A loop that has items, from the first of them. -/
theorem reaches_startLoop {f : Frame} (hf : Sound f) {n pc : Nat} {children : List Node}
    (hbody : BodySimulates evaluate p host children) {items item key : Bytes} {empty : Int} {rest : List Instr}
    (hcode : CodeAt p pc (Statement.rangeInstr items item key empty :: .mark (n + 1 : Nat)
      :: ((lowerAll (n + 3) children ++ [Statement.nextInstr (n + 1 : Nat)]) ++ rest)))
    (e : Value.Entry) (es : List Value.Entry) :
    Reaches host p
      (Render.startLoop p (Statement.rangeInstr items item key empty) (e :: es) (inside f pc f.loops [] []))
      (fun vars out => inside f (pc + 1 + 1 + (lowerAll (n + 3) children ++ [Statement.nextInstr (n + 1 : Nat)]).length)
        f.loops vars out)
      (turns (interpretAll (evaluate false) (f.state.top.vars :: around f.state) (n + 3) children) item key
        (es.length + 1) 0 (e :: es) []) := by
  have hfirst : Render.startLoop p (Statement.rangeInstr items item key empty) (e :: es) (inside f pc f.loops [] []) =
      inside f (pc + 1) (⟨es, 0, es.length + 1, some (f.state.outer.length + 1), item, key⟩ :: f.loops)
        (Assoc.insertAll [] (turn item key 0 (es.length + 1) e)) [] := by
    simp only [Render.startLoop, Statement.rangeInstr, inside, became, Render.State.enter, Render.Loop.bind,
      Render.State.atLevel, List.length_cons, Nat.sub_self]
    rfl
  have hturns := reaches_turns hf hbody hcode.tail.tail.left (by rw [hcode.tail.target hnodup]) item key (es.length + 1) es
    0 (Assoc.insertAll [] (turn item key 0 (es.length + 1) e)) []
    ⟨es, 0, es.length + 1, some (f.state.outer.length + 1), item, key⟩ rfl rfl rfl rfl rfl rfl
  rw [hfirst, List.length_append]
  exact hturns.of_goes (Render.goes_mark hcode.tail)

omit hhost hnodup in
theorem simulates_parts : ∀ (ns : List Node) (n : Nat), (∀ c ∈ ns, BodySimulates evaluate p host c.children) →
    Simulates host p (lowerParts n ns) fun outer => interpretParts (evaluate false) outer n ns
  | [], _, _ => simulates_nil
  | .part _ _ children :: cs, n, hbodies => by
    have hbody : BodySimulates evaluate p host children := hbodies _ List.mem_cons_self
    exact (hbody n).append (simulates_parts cs (n + labelsAll children)
      fun c hc => hbodies c (List.mem_cons_of_mem _ hc))
  | .text _ _ :: cs, n, hbodies | .interpolation _ _ _ :: cs, n, hbodies | .directive _ _ :: cs, n, hbodies =>
    simulates_parts cs n fun c hc => hbodies c (List.mem_cons_of_mem _ hc)

theorem simulates_each {tag : Tag} {children : List Node} (hname : tag.name = "each")
    (hbody : BodySimulates evaluate p host children)
    (hbodies : ∀ c ∈ children, BodySimulates evaluate p host c.children) :
    NodeSimulates evaluate p host (.directive tag children) := by
  intro n f hcode hf
  have hlower : lower n (.directive tag children) = .enter :: Statement.rangeInstr (rawArg eachDirective tag "items")
      (nameArg eachDirective tag "as") (nameArg eachDirective tag "key") (n + 2 : Nat) :: .mark (n + 1 : Nat)
      :: ((lowerAll (n + 3) children ++ [Statement.nextInstr (n + 1 : Nat)]) ++ (.jump (n + 3 : Nat) :: .mark (n + 2 : Nat)
        :: (lowerParts (n + 3 + labelsAll children) children ++ [.mark (n + 3 : Nat), .exit .merge []]))) := by
    simp only [lower, hname, List.append_assoc]
    rfl
  rw [hlower] at hcode ⊢
  have hrange := hcode.tail
  have hagain := hrange.tail.target hnodup
  have hturns := hrange.tail.tail
  have hleave := hturns.right
  have hempty := hleave.tail.target hnodup
  have hparts := hleave.tail.tail
  have hstop := hparts.right.target hnodup
  have hexit := hparts.right.tail
  have hend : p.target (n + 3 : Nat) + 1 + 1 = f.pc + (lower n (.directive tag children)).length := by
    rw [hstop, hlower]
    simp only [List.length_cons, List.length_append, List.length_nil]
    omega
  rw [← hlower, ← hend]
  -- every way leads to the end of the scope
  have hclose : ∀ vars out, Goes host p (inside f (p.target (n + 3 : Nat) + 1) f.loops vars out)
      { f with pc := p.target (n + 3 : Nat) + 1 + 1, state := became f.state f.state.top.vars out } :=
    fun vars out => goes_merge hf (by rw [hstop]; exact hexit) vars out
  have hsound : ∀ pc, Sound (inside f pc f.loops [] []) := fun pc =>
    ⟨hf.running, fun l hl k hk => Nat.le_succ_of_le (hf.loops l hl k hk)⟩
  simp only [interpret, hname]
  refine Reaches.of_goes (g := inside f (f.pc + 1) f.loops [] []) (Render.goes_enter hcode) ?_
  refine reaches_of_value hhost (hsound _) hrange.head (fun e he run => ?_) fun v hv => ?_
  · simp only [Render.step, Statement.rangeInstr] at he ⊢
    rw [he]
  · have hv : (inside f (f.pc + 1) f.loops [] []).state.eval host (rawArg eachDirective tag "items") = .ok v := hv
    cases hentries : v.entries? with
    | none =>
      refine ⟨_, .refl, _, inside f (f.pc + 1) f.loops [] [], hrange.head, fun run => ?_⟩
      simp only [Render.step, Statement.rangeInstr, hv, hentries]
    | some entries =>
      have hstart : Goes host p (inside f (f.pc + 1) f.loops [] []) (Render.startLoop p
          (Statement.rangeInstr (rawArg eachDirective tag "items") (nameArg eachDirective tag "as")
            (nameArg eachDirective tag "key") (n + 2 : Nat)) entries (inside f (f.pc + 1) f.loops [] [])) := by
        refine Goes.single hrange.head fun run => ?_
        simp only [Render.step, Statement.rangeInstr, hv, hentries]
      refine Reaches.of_goes hstart ?_
      cases entries with
      | nil =>
        have hplace : CodeAt p (p.target (n + 2 : Nat) + 1) (lowerParts (n + 3 + labelsAll children) children) := by
          rw [hempty]
          exact hparts.left
        have hmeaning := (simulates_parts children (n + 3 + labelsAll children) hbodies).inside hplace hf
          (fun _ hl => Or.inl hl) [] []
        have hpos : p.target (n + 2 : Nat) + 1 + (lowerParts (n + 3 + labelsAll children) children).length =
            p.target (n + 3 : Nat) := by
          rw [hempty, hstop]
        rw [hpos] at hmeaning
        refine Reaches.of_scoped (hmeaning.goes fun vars out => ?_)
        exact Goes.trans (Render.goes_mark (by rw [hstop]; exact hparts.right)) (hclose vars out)
      | cons e es =>
        have hmeaning := reaches_startLoop hnodup hf hbody hrange e es
        refine Reaches.of_scoped (hmeaning.goes fun vars out => ?_)
        exact Goes.trans (Render.goes_jump hleave) (hclose vars out)

/-! ### Trees -/

/-- The code of every tree does what the tree means. -/
theorem simulates_lower (n : Node) : NodeSimulates evaluate p host n ∧ BodySimulates evaluate p host n.children := by
  induction n using Node.byChildren with
  | h n ih =>
    have hbody := bodySimulates n.children fun c hc _ => (ih c hc).1
    have hbodies : ∀ c ∈ n.children, BodySimulates evaluate p host c.children := fun c hc => (ih c hc).2
    refine ⟨?_, hbody⟩
    cases n with
    | text value span => exact simulates_text value span
    | interpolation expr escaped span => exact simulates_interpolation hhost expr escaped span
    | part owner tag children => exact fun k => simulates_nil
    | directive tag children =>
      by_cases hif : tag.name = "if"
      · exact simulates_if hhost hnodup hif hbody hbodies
      by_cases hswitch : tag.name = "switch"
      · exact simulates_switch hhost hnodup hswitch hbodies
      by_cases heach : tag.name = "each"
      · exact simulates_each hhost hnodup heach hbody hbodies
      by_cases hset : tag.name = "set"
      · exact simulates_set hhost hset hbody
      · intro k
        simp only [lower, interpret, hif, hswitch, heach, hset, if_false]
        exact simulates_nil

end

end Stencil.Control
