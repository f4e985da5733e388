import Stencil.Proofs.Control.Generation
import Stencil.Proofs.Control.Simulation
import Stencil.Proofs.Render.Merging

/-! # Control templates render what they mean

From a tree to its code, to the program with its literals joined, to a run: rendering gives the output
of the interpretation, or fails where the interpretation does (`renders_generate`). -/

namespace Stencil.Control

open Stencil.Compile (generate mergeLiterals Options Template structured_mergeLiterals structured_generate)
open Stencil.Directive.Standard (registry)
open Stencil.Markup (Node)
open Stencil.Render (Frame Host Goes Stops Joins Follows CodeAt mark)

/-- Rendering on a root scope gives a result, when there are steps enough: its output with the
placeholders filled in, which is the output itself when there is no mark in it, or its failure at some
instruction. -/
def Renders (host : Host) (p : Program) (data : Bindings) (shared : Render.Shared) (result : Result) : Prop :=
  ∃ n, ∀ limit, n ≤ limit →
    let outcome := Render.run { host with stepLimit := limit } p { top := { vars := data }, shared }
    match result with
    | .ok (_, out) => outcome.1 = .ok () ∧ outcome.2.top.out = shared.fill Render.maxPasses out ∧
        (mark ∉ out → outcome.2.top.out = out)
    | .error e => ∃ pc i, outcome.1 = .error (.instruction p.name pc i e)

/-- Output without a mark has no placeholders to fill in. -/
theorem fill_eq (shared : Render.Shared) {out : Bytes} (h : mark ∉ out) : shared.fill Render.maxPasses out = out := by
  simp only [Render.maxPasses, Render.Shared.fill, h, if_false]

/-- Literals may be joined: a run that ends, or stops, does so in the joined program. -/
theorem renders_of_joins {host : Host} {p q : Program} (hjoin : Joins p q) {data : Bindings} {shared : Render.Shared}
    {result : Result} {final : Bindings → Bytes → Frame}
    (h : Reaches host p { state := { top := { vars := data }, shared } } final result)
    (hend : ∀ vars out, p.instrs[(final vars out).pc]? = none)
    (hopened : ∀ vars out, (final vars out).opened = 0)
    (hstate : ∀ vars out, (final vars out).state = { top := { vars, out }, shared }) :
    Renders host q data shared result := by
  have hstart : Follows p q { state := { top := { vars := data }, shared } }
      { state := { top := { vars := data }, shared } } := .aligned hjoin.instrs
  cases result with
  | ok r =>
    obtain ⟨vars, out⟩ := r
    obtain ⟨g, hg, hfollows⟩ := hstart.goes hjoin h
    obtain ⟨hgend, hgstate, hgopened⟩ := hfollows.finish (hend vars out)
    obtain ⟨n, hn⟩ := Render.exec_of_goes_end hg hgend
    refine ⟨n, fun limit hlimit => ?_⟩
    have hrun : Render.run { host with stepLimit := limit } q { top := { vars := data }, shared } =
        (.ok (), Render.State.resolve { top := { vars, out }, shared }) := by
      rw [Render.run, Render.exec_stepLimit, hn limit hlimit, Frame.finish, hgopened, hopened, if_pos rfl, hgstate, hstate]
    rw [hrun]
    exact ⟨rfl, rfl, fill_eq shared⟩
  | error e =>
    obtain ⟨g, hg, hstop⟩ := h
    obtain ⟨g', hg', hfollows⟩ := hstart.goes hjoin hg
    obtain ⟨n, i, hn⟩ := Render.exec_of_goes_stops hg' (hfollows.stops hstop)
    refine ⟨n, fun limit hlimit => ⟨g'.pc, i, ?_⟩⟩
    rw [Render.run, Render.exec_stepLimit]
    exact hn limit hlimit

/-- A template of control directives that compiles without errors has a program, and rendering it does
what its tree means, whatever the data and the evaluator. -/
theorem renders_generate (options : Options) (path : Bytes) (nodes : List Node) (hcontrol : IsControl nodes)
    (t : Template) (ht : (generate registry options path false nodes).result = .ok t) (herrors : t.errors = []) :
    ∃ p, t.program = .ok p ∧ ∀ evaluate host, host.evaluator = some evaluate →
      ∀ data (shared : Render.Shared), shared.session.canceled = false →
        Renders host p data shared (interpretAll (evaluate false) [] 0 nodes data) := by
  obtain ⟨t', ht', hpath, hstructured⟩ := structured_generate options path nodes
  obtain rfl : t' = t := Except.ok.inj (ht'.symm.trans ht)
  refine ⟨⟨t'.path, mergeLiterals t'.instrs⟩, (structured_mergeLiterals hstructured).link t'.path, ?_⟩
  intro evaluate host hhost data shared hcanceled
  have hjoin : Joins ⟨t'.path, t'.instrs⟩ ⟨t'.path, mergeLiterals t'.instrs⟩ :=
    ⟨rfl, fun _ hi hjumps => hstructured.label_mem hi hjumps⟩
  have hcode : CodeAt ⟨t'.path, t'.instrs⟩ 0 (lowerAll 0 nodes) := by
    rw [← instrs_of_control options path hcontrol ht herrors]
    exact .whole ⟨t'.path, t'.instrs⟩
  have hbody : BodySimulates evaluate ⟨t'.path, t'.instrs⟩ host nodes :=
    bodySimulates nodes fun n _ _ => (simulates_lower hhost hstructured.nodup n).1
  have hreaches := hbody 0 { state := { top := { vars := data }, shared } } hcode ⟨hcanceled, nofun⟩
  refine renders_of_joins hjoin hreaches (fun vars out => ?_) (fun vars out => rfl) fun vars out => rfl
  simp [instrs_of_control options path hcontrol ht herrors]

/-- A loop with a condition and a choice in it, over two numbers. -/
theorem renders_generate_loop :
    ∃ nodes t, Markup.parse registry {} "page"
        "@each(xs, 'x')@if(x == 1)one @else@switch(x)@case(2)two, {{ x + 1 }}@end@end@end" = .ok nodes ∧
      (generate registry {} "page" false nodes).result = .ok t ∧
      ∃ p vars, t.program = .ok p ∧
        Renders {} p [("xs", .list .any [.int 1, .int 2])] {} (.ok (vars, "one two, 3")) := by
  let data : Bindings := [("xs", .list .any [.int 1, .int 2])]
  have hread : (match Markup.parse registry {} "page"
        "@each(xs, 'x')@if(x == 1)one @else@switch(x)@case(2)two, {{ x + 1 }}@end@end@end" with
      | .ok nodes => decide (∀ t ∈ Node.tagsList nodes, t.name ∈ names) &&
        (match (generate registry {} "page" false nodes).result with
          | .ok t => t.errors.isEmpty
          | .error _ => false) &&
        (match interpretAll (Render.expressions false) [] 0 nodes data with
          | .ok (_, out) => decide (out = "one two, 3")
          | .error _ => false)
      | .error _ => false) = true := by decide +kernel
  split at hread
  · rename_i nodes hnodes
    simp only [Bool.and_eq_true, decide_eq_true_eq] at hread
    obtain ⟨⟨hcontrol, herrors⟩, hmeaning⟩ := hread
    split at herrors
    · rename_i t ht
      obtain ⟨p, hp, hrenders⟩ := renders_generate {} "page" nodes hcontrol t ht (List.isEmpty_iff.mp herrors)
      have hrenders := hrenders Render.expressions {} rfl data {} rfl
      split at hmeaning
      · rename_i vars out hout
        rw [hout, of_decide_eq_true hmeaning] at hrenders
        exact ⟨nodes, t, hnodes, ht, p, vars, hp, hrenders⟩
      · cases hmeaning
    · cases herrors
  · cases hread

end Stencil.Control
