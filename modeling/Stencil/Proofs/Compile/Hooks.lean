import Stencil.Proofs.Compile.Scripts
import Stencil.Proofs.Program.Structure

/-! # What the hooks of the control directives do

One equation for each hook: the instructions it emits, the labels it takes and what it keeps for the
links after it. A hook that refuses leaves the state as it was. -/

namespace Stencil.Compile

open Stencil.Directive
open Stencil.Directive.Standard

/-- The end of a condition: the mark of its open branch, if any, and that of the end. -/
def closing (next stop : Int) : List Instr := if next = 0 then [.mark stop] else [.mark next, .mark stop]

variable (env : Env) (ask : Requests) (call : Call) (st : State)

/-! ### Conditions -/

theorem runHook_ifParams : runHook env ask call ifDirective.onParams st =
    (.ok (), ((st.numbered.numbered.keeping "end" (.int (st.labels + 1 : Nat))).keeping "next"
      (.int (st.labels + 2 : Nat))).emit env.part [.jumpIfNot (call.args.rawD "condition") (st.labels + 2 : Nat)]) := by
  simp only [ifDirective, runHook, runScript_bind, runScript_label, runScript_keep, runScript_emits, andThen,
    State.labels_numbered]

theorem runHook_ifEnd : runHook env ask call ifDirective.onEnd st =
    (.ok (), st.emit env.part (closing (st.keptLabel "next") (st.keptLabel "end"))) := by
  simp only [ifDirective, runHook, runScript_bind, runScript_keptLabel, andThen, closing]
  split <;> simp_all [runScript_bind, andThen, State.emit_emit]

/-- The branch before an alternative ends. -/
def State.leaving (st : State) (env : Env) : State :=
  st.emit env.part [.jump (st.keptLabel "end"), .mark (st.keptLabel "next")]

theorem runHook_elseifParams : runHook env ask call elseifPart.onParams st =
    if st.keptLabel "next" = 0 then (.error (.refused "@elseif after @else"), st)
    else (.ok (), ((st.leaving env).numbered.keeping "next" (.int (st.labels + 1 : Nat))).emit env.part
      [.jumpIfNot (call.args.rawD "condition") (st.labels + 1 : Nat)]) := by
  simp only [elseifPart, runHook, runScript_bind, runScript_keptLabel, andThen]
  split
  · rfl
  · simp only [runScript_bind, runScript_keptLabel, runScript_emits, runScript_label, runScript_keep, andThen]
    rfl

theorem runHook_elseInit : runHook env ask call elsePart.onInit st =
    if st.keptLabel "next" = 0 then (.error (.refused "duplicate @else"), st)
    else (.ok (), (st.leaving env).keeping "next" (.int 0)) := by
  simp only [elsePart, runHook, runScript_bind, runScript_keptLabel, andThen]
  split
  · rfl
  · simp only [runScript_bind, runScript_keptLabel, runScript_emits, runScript_keep, andThen]
    rfl

/-! ### Choices -/

/-- The name of the subject of the choice at hand. -/
def State.subject (st : State) : Bytes := ((Assoc.get? ("subject" : Bytes) st.data).getD .null).display

theorem runHook_switchParams : runHook env ask call switchDirective.onParams st =
    (.ok (), ((st.numbered.keeping "subject" (.text ("_switch" ++ Bytes.ofNat (st.labels + 1)))).numbered.keeping "end"
      (.int (st.labels + 2 : Nat))).emit env.part
        [.set ("_switch" ++ Bytes.ofNat (st.labels + 1)) (call.args.rawD "subject")]) := by
  simp only [switchDirective, runHook, runScript_bind, runScript_label, runScript_keep, runScript_emits, andThen,
    State.labels_numbered, State.labels_keeping]

theorem runHook_switchEnd : runHook env ask call switchDirective.onEnd st =
    (.ok (), st.emit env.part [.mark (st.keptLabel "end")]) := by
  simp only [switchDirective, runHook, runScript_bind, runScript_keptLabel, runScript_emits, andThen]

theorem runHook_caseParams : runHook env ask call casePart.onParams st =
    if (Assoc.get? ("default" : Bytes) st.data).isSome then (.error (.refused "@case after @default"), st)
    else (.ok (), (st.numbered.keeping "case" (.int (st.labels + 1 : Nat))).emit env.part
      [.jumpIfNot (st.subject ++ " == (" ++ call.args.rawD "value" ++ ")") (st.labels + 1 : Nat)]) := by
  simp only [casePart, runHook, runScript_bind, runScript_data?, andThen]
  split
  · rfl
  · simp only [runScript_bind, runScript_label, runScript_keep, runScript_data?, runScript_emits, andThen,
      State.data_keeping, State.data_numbered, Assoc.get?_insert_ne (show ("subject" : Bytes) ≠ "case" by decide)]
    rfl

theorem runHook_caseEnd : runHook env ask call casePart.onEnd st =
    (.ok (), st.emit env.part [.jump (st.keptLabel "end"), .mark (st.keptLabel "case")]) := by
  simp only [casePart, runHook, runScript_bind, runScript_keptLabel, runScript_emits, andThen]

theorem runHook_defaultInit : runHook env ask call defaultPart.onInit st =
    if (Assoc.get? ("default" : Bytes) st.data).isSome then (.error (.refused "duplicate @default"), st)
    else (.ok (), st.keeping "default" (.bool true)) := by
  simp only [defaultPart, runHook, runScript_bind, runScript_data?, andThen]
  split <;> rfl

/-! ### Loops -/

/-- The labels of a loop: of its body, of what stands for no items, and of its end. -/
def State.looping (st : State) : State :=
  ((st.numbered.numbered.numbered.keeping "body" (.int (st.labels + 1 : Nat))).keeping "empty"
    (.int (st.labels + 2 : Nat))).keeping "end" (.int (st.labels + 3 : Nat))

/-- The labels that a loop keeps. -/
theorem State.keptLabel_looping {st st' : State} (h : st'.data = st.looping.data) :
    st'.keptLabel "body" = (st.labels + 1 : Nat) ∧ st'.keptLabel "empty" = (st.labels + 2 : Nat) ∧
      st'.keptLabel "end" = (st.labels + 3 : Nat) := by
  simp only [State.keptLabel_congr h, State.looping, State.keptLabel_keeping_self, true_and,
    State.keptLabel_keeping_ne _ _ _ _ (show ("body" : Bytes) ≠ "end" by decide),
    State.keptLabel_keeping_ne _ _ _ _ (show ("body" : Bytes) ≠ "empty" by decide),
    State.keptLabel_keeping_ne _ _ _ _ (show ("empty" : Bytes) ≠ "end" by decide)]

theorem ends_eachParams : Ends (runHook env ask call eachDirective.onParams st)
    (fun _ st' => ∃ item key, call.args.string "as" = .ok item ∧ call.args.string "key" = .ok key ∧
      st' = st.looping.emit env.part [.enter,
        Statement.rangeInstr (call.args.rawD "items") item key (st.labels + 2 : Nat), .mark (st.labels + 1 : Nat)])
    (st = ·) := by
  simp only [eachDirective, runHook, runScript_bind, runScript_ofRead, runScript_checkIdentifier]
  refine (Ends.of_arguments rfl).andThen ?_
  rintro item _ ⟨hitem, rfl⟩
  refine (Ends.of_arguments rfl).andThen ?_
  rintro key _ ⟨hkey, rfl⟩
  refine (Ends.of_read rfl).andThen ?_
  rintro _ _ ⟨-, rfl⟩
  refine (Ends.of_read rfl).andThen ?_
  rintro _ _ ⟨-, rfl⟩
  exact ⟨item, key, hitem, hkey, rfl⟩

theorem lifeOfChildren_each : lifeOfChildren env ask eachDirective call st =
    andThen (ask.compile .regular st) fun _ st₁ =>
      andThen (ask.chain (st₁.emit env.part [Statement.nextInstr (st₁.keptLabel "body"), .jump (st₁.keptLabel "end"),
        .mark (st₁.keptLabel "empty")])) fun _ st₂ =>
          (.ok (), st₂.emit env.part [.mark (st₂.keptLabel "end"), .exit .merge []]) := by
  simp only [lifeOfChildren, eachDirective, runScript_bind, runScript_compiled, runScript_keptLabel, runScript_emits,
    runScript_chained, andThen, Statement.nextInstr]

/-! ### Variables -/

theorem ends_setParams : Ends (runHook env ask call setDirective.onParams st)
    (fun _ st' => ∃ name, call.args.string "name" = .ok name ∧
      st' = st.emit env.part [.set name (call.args.rawD "value")]) (st = ·) := by
  simp only [setDirective, runHook, runScript_bind, runScript_ofRead, runScript_checkIdentifier, runScript_emits]
  refine (Ends.of_arguments rfl).andThen ?_
  rintro name _ ⟨hname, rfl⟩
  refine (Ends.of_read rfl).andThen ?_
  rintro _ _ ⟨-, rfl⟩
  exact ⟨name, hname, rfl⟩

end Stencil.Compile
