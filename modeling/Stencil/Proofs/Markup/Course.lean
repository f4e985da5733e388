import Mathlib.Logic.Relation
import Stencil.Markup.Parse

/-! # The course of reading

A template is read piece by piece (`Reading.Step`). What holds at the start and is kept by each piece holds
of everything that reading comes to, and reading comes to the whole template in one way only. -/

namespace Stencil.Markup

open Stencil.Directive
open Relation (ReflTransGen)

/-- How far a template is read, and the tree so far. -/
structure Reading where
  tree : Outline := {}
  offset : Nat := 0
  before : Option UInt8 := none
  rest : Bytes

section
variable (r : Registry) (options : ParseOptions) (src : Bytes)

/-- One more piece is read. -/
inductive Reading.Step : Reading → Reading → Prop
  | mk {o : Outline} {offset n : Nat} {before : Option UInt8} {c : UInt8} {cs : Bytes} {p : Piece}
      (h : piece r o.verbatim offset before c cs = .ok (p, n)) :
      Step ⟨o, offset, before, c :: cs⟩
        ⟨o.add r options (LineTable.ofText src) offset (c :: cs.take n) p, offset + (c :: cs.take n).length,
          (c :: cs.take n).getLast?, cs.drop n⟩

/-- The next piece is the head of a directive, which ends at the offset `stop`. -/
def Reading.Head (s : Reading) (name : Bytes) (args : Option Bytes) (stop : Nat) : Prop :=
  ∃ c cs n, s.rest = c :: cs ∧ piece r s.tree.verbatim s.offset s.before c cs = .ok (.head name args, n) ∧
    stop = s.offset + (c :: cs.take n).length

/-- The reading of the template comes to this. -/
def Reaches (s : Reading) : Prop := ReflTransGen (Reading.Step r options src) { rest := src } s

end

section
variable {r : Registry} {options : ParseOptions} {src : Bytes}

theorem steps_of_parseFrom {path : Bytes} {o o' : Outline} {offset : Nat} {before : Option UInt8} {rest : Bytes}
    (h : parseFrom r options path (LineTable.ofText src) o offset before rest = .ok o') :
    ∃ before', ReflTransGen (Reading.Step r options src) ⟨o, offset, before, rest⟩
      ⟨o', offset + rest.length, before', []⟩ := by
  induction hn : rest.length using Nat.strongRecOn generalizing o offset before rest with
  | _ n ih =>
    cases rest with
    | nil =>
      rw [parseFrom] at h
      cases h
      cases hn
      exact ⟨before, .refl⟩
    | cons c cs =>
      rw [parseFrom] at h
      split at h
      · cases h
      · rename_i p k hpiece
        have hlength : (c :: cs.take k).length + (cs.drop k).length = n := by
          rw [← hn, ← List.length_append, List.cons_append, List.take_append_drop]
        have hshorter : (cs.drop k).length < n := by
          rw [List.length_cons] at hlength
          omega
        obtain ⟨before', hsteps⟩ := ih _ hshorter h rfl
        rw [Nat.add_assoc, hlength] at hsteps
        exact ⟨before', .head (.mk hpiece) hsteps⟩

/-- Reading comes to the end, where what is still open is closed. -/
theorem exists_reaches_of_parse {path : Bytes} {nodes : List Node} (h : parse r options path src = .ok nodes) :
    ∃ o before, Reaches r options src ⟨o, src.length, before, []⟩ ∧
      nodes = o.nodes ((LineTable.ofText src).position src.length) := by
  simp only [parse] at h
  split at h
  · rename_i o ho
    cases h
    obtain ⟨before, hsteps⟩ := steps_of_parseFrom ho
    rw [Nat.zero_add] at hsteps
    exact ⟨o, before, hsteps, rfl⟩
  · cases h

theorem Reading.Step.unique {s s₁ s₂ : Reading} (h₁ : Reading.Step r options src s s₁)
    (h₂ : Reading.Step r options src s s₂) : s₁ = s₂ := by
  cases h₁ with
  | mk h =>
    cases h₂ with
    | mk h' =>
      cases h.symm.trans h'
      rfl

theorem Reaches.total {s s' : Reading} (h : Reaches r options src s) (h' : Reaches r options src s') :
    ReflTransGen (Reading.Step r options src) s s' ∨ ReflTransGen (Reading.Step r options src) s' s :=
  ReflTransGen.total_of_right_unique (r := Reading.Step r options src) (fun _ _ _ => Reading.Step.unique) h h'

/-- Whatever reading comes to is before its end. -/
theorem Reaches.steps_end {s last : Reading} (h : Reaches r options src s) (hlast : Reaches r options src last)
    (hend : last.rest = []) : ReflTransGen (Reading.Step r options src) s last := by
  obtain hsteps | hback := h.total hlast
  · exact hsteps
  · rcases hback.cases_head with rfl | ⟨s', hstep, -⟩
    · exact .refl
    · cases hstep
      cases hend

/-- There is one end. -/
theorem Reaches.end_unique {s s' : Reading} (h : Reaches r options src s) (h' : Reaches r options src s')
    (hend : s.rest = []) (hend' : s'.rest = []) : s' = s := by
  rcases (h.steps_end h' hend').cases_head with rfl | ⟨_, hstep, -⟩
  · rfl
  · cases hstep
    cases hend

/-- What is still to read is the template from the offset on. -/
theorem Reaches.rest_eq {s : Reading} (h : Reaches r options src s) :
    s.rest = src.drop s.offset ∧ s.offset ≤ src.length := by
  induction h with
  | refl => exact ⟨rfl, Nat.zero_le _⟩
  | tail _ hstep ih =>
    cases hstep with
    | @mk o offset n before c cs p hpiece =>
      obtain ⟨hrest, hoffset⟩ : c :: cs = src.drop offset ∧ offset ≤ src.length := ih
      have hsplit : (c :: cs.take n) ++ cs.drop n = src.drop offset := by
        rw [List.cons_append, List.take_append_drop, hrest]
      have hlength := congrArg List.length hsplit
      simp only [List.length_append, List.length_drop] at hlength
      refine ⟨?_, ?_⟩
      · have hdrop := congrArg (List.drop (c :: cs.take n).length) hsplit
        rwa [List.drop_left, List.drop_drop] at hdrop
      · show offset + (c :: cs.take n).length ≤ src.length
        omega

end

end Stencil.Markup
