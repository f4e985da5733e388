import Stencil.Proofs.Control.Lowering

/-! # The code of conditions, choices and loops

The hooks of a chain hand its labels on from link to link through the data of the chain. What the
links so far have written, and what the data of the chain then holds, is the invariant of each kind of
chain; with the last link it says that the code of the chain is `lower`. -/

namespace Stencil.Control

open Stencil.Compile
open Stencil.Directive
open Stencil.Directive.Standard
open Stencil.Markup (Node Tag)

section Chains
variable {w : Writing} {embed : Embedder} {env : Env} {owner : Bytes}

/-! ### Conditions -/

/-- One alternative was added to a condition that was not at its end. -/
structure ElseStep (w : Writing) (tag : Tag) (body : List Node) (st st' : State) : Prop where
  isOpen : st.keptLabel "next" ≠ 0
  stop : st'.keptLabel "end" = st.keptLabel "end"
  wrote : if tag.name = "elseif" then
      Wrote st st' ([.jump (st.keptLabel "end"), .mark (st.keptLabel "next"),
        .jumpIfNot (rawArg elseifPart tag "condition") (st.labels + 1 : Nat)] ++ w.code (st.labels + 1) body)
        (1 + w.count body) ∧ st'.keptLabel "next" = (st.labels + 1 : Nat)
    else
      Wrote st st' ([.jump (st.keptLabel "end"), .mark (st.keptLabel "next")] ++ w.code st.labels body)
        (0 + w.count body) ∧ st'.keptLabel "next" = 0

/-- The alternatives of a condition were added: what is written and what its end will write are its
code. After the last alternative no more may follow. -/
structure ElseWrote (w : Writing) (ns : List Node) (st st' : State) : Prop where
  stop : st'.keptLabel "end" = st.keptLabel "end"
  wrote : if st.keptLabel "next" = 0 then
      (∀ c ∈ ns, c.isPart = false) ∧ Wrote st st' [] 0 ∧ st'.keptLabel "next" = 0
    else ∃ code, Wrote st st' code (w.countOfParts "elseif" ns) ∧
      code ++ closing (st'.keptLabel "next") (st.keptLabel "end") =
        w.alternatives (st.keptLabel "end") (st.keptLabel "next") st.labels ns

theorem ElseWrote.nil (st : State) : ElseWrote w [] st st := by
  refine ⟨rfl, ?_⟩
  split
  · rename_i hnext
    exact ⟨List.forall_mem_nil _, .refl st, hnext⟩
  · rename_i hnext
    exact ⟨[], .refl st, by simp [closing, hnext, Writing.alternatives]⟩

theorem ElseWrote.skip {c : Node} {cs : List Node} {st st' : State} (hc : c.isPart = false) (h : ElseWrote w cs st st') :
    ElseWrote w (c :: cs) st st' := by
  refine ⟨h.stop, ?_⟩
  have hlower : w.alternatives (st.keptLabel "end") (st.keptLabel "next") st.labels (c :: cs) =
      w.alternatives (st.keptLabel "end") (st.keptLabel "next") st.labels cs := by
    cases c with
    | part name tag body => cases hc
    | _ => rfl
  rw [countOfParts_skip _ hc, hlower]
  have hwrote := h.wrote
  split at hwrote
  · rename_i hnext
    rw [if_pos hnext]
    exact ⟨List.forall_mem_cons.mpr ⟨hc, hwrote.1⟩, hwrote.2⟩
  · rename_i hnext
    rw [if_neg hnext]
    exact hwrote

theorem ElseWrote.next {name : Bytes} {tag : Tag} {body cs : List Node} {st st₁ st' : State}
    (h₁ : ElseStep w tag body st st₁) (h : ElseWrote w cs st₁ st') : ElseWrote w (.part name tag body :: cs) st st' := by
  refine ⟨h.stop.trans h₁.stop, ?_⟩
  rw [if_neg h₁.isOpen]
  have hfirst := h₁.wrote
  have hrest := h.wrote
  simp only [Writing.countOfParts, Writing.alternatives]
  split at hfirst
  · rename_i helseif
    obtain ⟨hwrote₁, hnext₁⟩ := hfirst
    rw [if_neg (by omega), h₁.stop, hnext₁, hwrote₁.count] at hrest
    obtain ⟨code, hwrote, hcode⟩ := hrest
    rw [if_pos helseif, if_pos helseif]
    refine ⟨_, hwrote₁.trans hwrote, ?_⟩
    rw [List.append_assoc, hcode, ← Nat.add_assoc]
    simp
  · -- after an `else` the chain is at its end, and what follows holds no parts
    rename_i helse
    obtain ⟨hwrote₁, hnext₁⟩ := hfirst
    rw [if_pos hnext₁] at hrest
    obtain ⟨hnone, hwrote, hnext⟩ := hrest
    rw [if_neg helse, if_neg helse, countOfParts_eq_zero _ cs hnone]
    refine ⟨_, hwrote₁.trans hwrote, ?_⟩
    simp [closing, hnext]

variable (hpart : env.part = .body)
include hpart

theorem ends_elseif {tag : Tag} {body : List Node} {st : State} (hst : Ready st) (hname : tag.name = "elseif")
    (hbody : Lowers (compileNodes embed env .regular body) (fun k => w.code k body) (w.count body)) :
    Ends (lifecycle env (answers embed env elseifPart owner body) tag elseifPart owner st)
      (fun _ st' => Grows st st' (ElseStep w tag body st st')) (Failed st) := by
  refine ends_lifecycle (A := (st = ·))
    (B := fun st₁ => Grows st st₁ (Wrote st st₁ ([.jump (st.keptLabel "end"), .mark (st.keptLabel "next"),
        .jumpIfNot (rawArg elseifPart tag "condition") (st.labels + 1 : Nat)]) 1 ∧ st.keptLabel "next" ≠ 0 ∧
      st₁.keptLabel "end" = st.keptLabel "end" ∧ st₁.keptLabel "next" = (st.labels + 1 : Nat)))
    (C := fun st' => Grows st st' (ElseStep w tag body st st')) (.refl hst)
    fun args hargs => ⟨rfl, ?_, ?_, fun _ h => h⟩
  · rintro _ rfl
    rw [runHook_elseifParams]
    split
    · exact .refl hst
    · rename_i hopen
      have hleave := wrote_emit hpart st [.jump (st.keptLabel "end"), .mark (st.keptLabel "next")]
      have htest : Wrote (st.leaving env) _ _ 1 :=
        (wrote_emit hpart ((st.leaving env).numbered.keeping "next" (.int (st.labels + 1 : Nat)))
          [.jumpIfNot (args.rawD "condition") (st.labels + 1 : Nat)]).of_start rfl rfl rfl
      have hboth := hleave.trans htest
      rw [rawArg_eq hargs]
      refine .of_eq (hboth.ready hst) rfl ⟨hboth, hopen, ?_, ?_⟩
      · rw [State.keptLabel_emit, State.keptLabel_keeping_ne _ _ _ _ (show ("end" : Bytes) ≠ "next" by decide)]
        rfl
      · rw [State.keptLabel_emit, State.keptLabel_keeping_self]
  · intro st₁ h₁
    refine ((lowers_body hpart rfl rfl hbody _).ends h₁).mono ?_
    intro _ st₂ h₂
    refine h₂.mono ?_
    rintro ⟨hwrote, hdata, hopen, hstop, hnext⟩
    refine ⟨hopen, (State.keptLabel_congr hdata _).trans hstop, ?_⟩
    rw [if_pos hname]
    exact ⟨hwrote, (State.keptLabel_congr hdata _).trans hnext⟩

theorem ends_else {tag : Tag} {body : List Node} {st : State} (hst : Ready st) (hname : tag.name ≠ "elseif")
    (hbody : Lowers (compileNodes embed env .regular body) (fun k => w.code k body) (w.count body)) :
    Ends (lifecycle env (answers embed env elsePart owner body) tag elsePart owner st)
      (fun _ st' => Grows st st' (ElseStep w tag body st st')) (Failed st) := by
  refine ends_lifecycle
    (A := fun st₁ => Grows st st₁ (Wrote st st₁ ([.jump (st.keptLabel "end"), .mark (st.keptLabel "next")]) 0 ∧
      st.keptLabel "next" ≠ 0 ∧ st₁.keptLabel "end" = st.keptLabel "end" ∧ st₁.keptLabel "next" = 0))
    (B := fun st₁ => Grows st st₁ (Wrote st st₁ ([.jump (st.keptLabel "end"), .mark (st.keptLabel "next")]) 0 ∧
      st.keptLabel "next" ≠ 0 ∧ st₁.keptLabel "end" = st.keptLabel "end" ∧ st₁.keptLabel "next" = 0))
    (C := fun st' => Grows st st' (ElseStep w tag body st st')) (.refl hst)
    fun args _ => ⟨?_, fun _ h => h, ?_, fun _ h => h⟩
  · rw [runHook_elseInit]
    split
    · exact .refl hst
    · rename_i hopen
      have hleave : Wrote st ((st.leaving env).keeping "next" (.int 0)) _ 0 :=
        ⟨(adds_emit hpart st [.jump (st.keptLabel "end"), .mark (st.keptLabel "next")]).congr rfl (Nat.le_refl _) rfl, rfl⟩
      refine .of_eq (hleave.ready hst) rfl ⟨hleave, hopen, ?_, ?_⟩
      · rw [State.keptLabel_keeping_ne _ _ _ _ (show ("end" : Bytes) ≠ "next" by decide)]
        rfl
      · rw [State.keptLabel_keeping_self]
  · intro st₁ h₁
    refine ((lowers_body hpart rfl rfl hbody _).ends h₁).mono ?_
    intro _ st₂ h₂
    refine h₂.mono ?_
    rintro ⟨hwrote, hdata, hopen, hstop, hnext⟩
    refine ⟨hopen, (State.keptLabel_congr hdata _).trans hstop, ?_⟩
    rw [if_neg hname]
    exact ⟨hwrote, (State.keptLabel_congr hdata _).trans hnext⟩

variable (owner) in
theorem grows_alternatives {ns : List Node} (hbodies : BodiesLower w embed env ns) {st : State} (hst : Ready st) :
    ∃ st', compileParts embed env ifDirective owner ns st = (.ok (), st') ∧ Grows st st' (ElseWrote w ns st st') := by
  refine grows_compileParts (P := ElseStep w) .nil (fun _ _ _ _ hc h => h.skip hc)
    (fun _ _ _ _ _ _ _ h₁ h => h.next h₁) ns ?_ st hst
  intro name tag body hmem st hst
  have hbody := hbodies _ hmem
  refine grows_compilePart hpart hst fun p hp => ?_
  have hname := List.find?_some hp
  rcases List.mem_cons.mp (List.mem_of_find?_eq_some hp) with rfl | hp
  · exact ends_elseif hpart hst (beq_iff_eq.mp hname).symm hbody
  · obtain rfl := List.mem_singleton.mp hp
    refine ends_else hpart hst ?_ hbody
    rw [← beq_iff_eq.mp hname]
    decide

theorem ends_if {tag : Tag} {children : List Node} {st : State} (hst : Ready st) (hname : tag.name = "if")
    (hbody : Lowers (compileNodes embed env .regular children) (fun k => w.code k children) (w.count children))
    (hbodies : BodiesLower w embed env children) :
    Ends (lifecycle env (answers embed env ifDirective owner children) tag ifDirective owner st)
      (fun _ st' => Grows st st' (Wrote st st' (w.control st.labels tag children)
        (w.controlCount tag children))) (Failed st) := by
  have hlower : w.control st.labels tag children =
      ([.jumpIfNot (rawArg ifDirective tag "condition") (st.labels + 2 : Nat)] ++ w.code (st.labels + 2) children)
        ++ w.alternatives (st.labels + 1 : Nat) (st.labels + 2 : Nat) (st.labels + 2 + w.count children) children := by
    simp [Writing.control, hname]
  have hlabels : w.controlCount tag children = 2 + w.count children + w.countOfParts "elseif" children := by
    simp [Writing.controlCount, hname]
  refine ends_lifecycle (A := (st = ·))
    (B := fun st₁ => Grows st st₁ (Wrote st st₁ [.jumpIfNot (rawArg ifDirective tag "condition") (st.labels + 2 : Nat)] 2 ∧
      st₁.keptLabel "end" = (st.labels + 1 : Nat) ∧ st₁.keptLabel "next" = (st.labels + 2 : Nat)))
    (C := fun st' => Grows st st' (∃ code, Wrote st st' code (w.controlCount tag children) ∧
      code ++ closing (st'.keptLabel "next") (st'.keptLabel "end") = w.control st.labels tag children))
    (.refl hst) fun args hargs => ⟨rfl, ?_, ?_, ?_⟩
  · rintro _ rfl
    rw [runHook_ifParams, rawArg_eq hargs]
    have htest : Wrote st _ _ 2 :=
      (wrote_emit hpart ((st.numbered.numbered.keeping "end" (.int (st.labels + 1 : Nat))).keeping "next"
        (.int (st.labels + 2 : Nat))) [.jumpIfNot (args.rawD "condition") (st.labels + 2 : Nat)]).of_start rfl rfl rfl
    refine .of_eq (htest.ready hst) rfl ⟨htest, ?_, ?_⟩
    · rw [State.keptLabel_emit, State.keptLabel_keeping_ne _ _ _ _ (show ("end" : Bytes) ≠ "next" by decide),
        State.keptLabel_keeping_self]
    · rw [State.keptLabel_emit, State.keptLabel_keeping_self]
  · intro st₁ h₁
    refine (hbody.ends h₁).andThen ?_
    intro _ st₂ h₂
    obtain ⟨st₃, hrun, h₃⟩ := grows_alternatives owner hpart hbodies h₂.ready
    simp only [hrun]
    refine (h₂.trans h₃).mono ?_
    rintro ⟨⟨hwrote₂, hdata, hstop, hnext⟩, hstop₃, hwrote₃⟩
    rw [State.keptLabel_congr hdata, hnext, if_neg (by omega), State.keptLabel_congr hdata, hstop, hwrote₂.count] at hwrote₃
    obtain ⟨code, hwrote₃, hcode⟩ := hwrote₃
    refine ⟨_, hlabels ▸ hwrote₂.trans hwrote₃, ?_⟩
    rw [hstop₃, State.keptLabel_congr hdata, hstop, List.append_assoc, hcode, hlower, Nat.add_assoc]
  · intro st₃ h₃
    rw [runHook_ifEnd]
    have hclose := wrote_emit hpart st₃ (closing (st₃.keptLabel "next") (st₃.keptLabel "end"))
    refine (h₃.trans (.of_eq (hclose.ready h₃.ready) rfl hclose)).mono ?_
    rintro ⟨⟨code, hwrote, hcode⟩, hclose⟩
    exact hcode ▸ hwrote.trans hclose

omit hpart

/-! ### Choices -/

/-- The default of the choice at hand was given. -/
def AtDefault (st : State) : Prop := (Assoc.get? ("default" : Bytes) st.data).isSome = true

instance (st : State) : Decidable (AtDefault st) := inferInstanceAs (Decidable (_ = _))

theorem atDefault_congr {st st' : State} (h : st'.data = st.data) : AtDefault st' ↔ AtDefault st := by
  simp only [AtDefault, h]

theorem subject_congr {st st' : State} (h : st'.data = st.data) : st'.subject = st.subject := by
  simp only [State.subject, h]

/-- One case was added to a choice whose default was not given yet. -/
structure CaseStep (w : Writing) (tag : Tag) (body : List Node) (st st' : State) : Prop where
  isOpen : ¬AtDefault st
  stop : st'.keptLabel "end" = st.keptLabel "end"
  subject : st'.subject = st.subject
  wrote : if tag.name = "case" then
      Wrote st st' ([.jumpIfNot (st.subject ++ " == (" ++ rawArg casePart tag "value" ++ ")") (st.labels + 1 : Nat)]
        ++ w.code (st.labels + 1) body ++ [.jump (st.keptLabel "end"), .mark (st.labels + 1 : Nat)])
        (1 + w.count body) ∧ ¬AtDefault st'
    else Wrote st st' (w.code st.labels body) (w.count body) ∧ AtDefault st'

/-- The cases of a choice were added; only the mark of its end is missing. -/
structure CasesWrote (w : Writing) (ns : List Node) (st st' : State) : Prop where
  stop : st'.keptLabel "end" = st.keptLabel "end"
  wrote : if AtDefault st then (∀ c ∈ ns, c.isPart = false) ∧ Wrote st st' [] 0
    else ∃ code, Wrote st st' code (w.countOfParts "case" ns) ∧
      code ++ [.mark (st.keptLabel "end")] = w.choices st.subject (st.keptLabel "end") st.labels ns

theorem CasesWrote.nil (st : State) : CasesWrote w [] st st := by
  refine ⟨rfl, ?_⟩
  split
  · exact ⟨List.forall_mem_nil _, .refl st⟩
  · exact ⟨[], .refl st, rfl⟩

theorem CasesWrote.skip {c : Node} {cs : List Node} {st st' : State} (hc : c.isPart = false) (h : CasesWrote w cs st st') :
    CasesWrote w (c :: cs) st st' := by
  refine ⟨h.stop, ?_⟩
  have hlower : w.choices st.subject (st.keptLabel "end") st.labels (c :: cs) =
      w.choices st.subject (st.keptLabel "end") st.labels cs := by
    cases c with
    | part name tag body => cases hc
    | _ => rfl
  rw [countOfParts_skip _ hc, hlower]
  have hwrote := h.wrote
  split at hwrote
  · rename_i hdefault
    rw [if_pos hdefault]
    exact ⟨List.forall_mem_cons.mpr ⟨hc, hwrote.1⟩, hwrote.2⟩
  · rename_i hdefault
    rw [if_neg hdefault]
    exact hwrote

theorem CasesWrote.next {name : Bytes} {tag : Tag} {body cs : List Node} {st st₁ st' : State}
    (h₁ : CaseStep w tag body st st₁) (h : CasesWrote w cs st₁ st') : CasesWrote w (.part name tag body :: cs) st st' := by
  refine ⟨h.stop.trans h₁.stop, ?_⟩
  rw [if_neg h₁.isOpen]
  have hfirst := h₁.wrote
  have hrest := h.wrote
  simp only [Writing.countOfParts, Writing.choices]
  split at hfirst
  · rename_i hcase
    obtain ⟨hwrote₁, hopen₁⟩ := hfirst
    rw [if_neg hopen₁, h₁.stop, h₁.subject, hwrote₁.count] at hrest
    obtain ⟨code, hwrote, hcode⟩ := hrest
    rw [if_pos hcase, if_pos hcase]
    refine ⟨_, hwrote₁.trans hwrote, ?_⟩
    rw [List.append_assoc, hcode, ← Nat.add_assoc]
    simp
  · rename_i hcase
    obtain ⟨hwrote₁, hdefault₁⟩ := hfirst
    rw [if_pos hdefault₁] at hrest
    obtain ⟨hnone, hwrote⟩ := hrest
    rw [if_neg hcase, if_neg hcase, countOfParts_eq_zero _ cs hnone]
    refine ⟨_, Nat.zero_add (w.count body) ▸ hwrote₁.trans hwrote, ?_⟩
    simp

include hpart

theorem ends_case {tag : Tag} {body : List Node} {st : State} (hst : Ready st) (hname : tag.name = "case")
    (hbody : Lowers (compileNodes embed env .regular body) (fun k => w.code k body) (w.count body)) :
    Ends (lifecycle env (answers embed env casePart owner body) tag casePart owner st)
      (fun _ st' => Grows st st' (CaseStep w tag body st st')) (Failed st) := by
  refine ends_lifecycle (A := (st = ·))
    (B := fun st₁ => Grows st st₁ (Wrote st st₁
      [.jumpIfNot (st.subject ++ " == (" ++ rawArg casePart tag "value" ++ ")") (st.labels + 1 : Nat)] 1 ∧
      ¬AtDefault st ∧ st₁.data = (st.keeping "case" (.int (st.labels + 1 : Nat))).data))
    (C := fun st' => Grows st st' (Wrote st st'
      ([.jumpIfNot (st.subject ++ " == (" ++ rawArg casePart tag "value" ++ ")") (st.labels + 1 : Nat)]
        ++ w.code (st.labels + 1) body) (1 + w.count body) ∧ ¬AtDefault st ∧
      st'.data = (st.keeping "case" (.int (st.labels + 1 : Nat))).data)) (.refl hst)
    fun args hargs => ⟨rfl, ?_, ?_, ?_⟩
  · rintro _ rfl
    rw [runHook_caseParams]
    split
    · exact .refl hst
    · rename_i hopen
      have htest : Wrote st _ _ 1 := (wrote_emit hpart (st.numbered.keeping "case" (.int (st.labels + 1 : Nat)))
        [.jumpIfNot (st.subject ++ " == (" ++ args.rawD "value" ++ ")") (st.labels + 1 : Nat)]).of_start rfl rfl rfl
      rw [rawArg_eq hargs]
      exact .of_eq (htest.ready hst) rfl ⟨htest, hopen, rfl⟩
  · intro st₁ h₁
    refine ((lowers_body hpart rfl rfl hbody _).ends h₁).mono ?_
    intro _ st₂ h₂
    refine h₂.mono ?_
    rintro ⟨hwrote, hdata, hopen, hkept⟩
    exact ⟨hwrote, hopen, hdata.trans hkept⟩
  · intro st₂ h₂
    rw [runHook_caseEnd]
    have hend := wrote_emit hpart st₂ [.jump (st₂.keptLabel "end"), .mark (st₂.keptLabel "case")]
    refine (h₂.trans (.of_eq (hend.ready h₂.ready) rfl hend)).mono ?_
    rintro ⟨⟨hwrote, hopen, hkept⟩, hend⟩
    have hstop : st₂.keptLabel "end" = st.keptLabel "end" := by
      rw [State.keptLabel_congr hkept, State.keptLabel_keeping_ne _ _ _ _ (show ("end" : Bytes) ≠ "case" by decide)]
    have hcase : st₂.keptLabel "case" = (st.labels + 1 : Nat) := by
      rw [State.keptLabel_congr hkept, State.keptLabel_keeping_self]
    rw [hstop, hcase] at hend
    -- the label that the case keeps hides neither the subject nor the default
    have hsubject : (st.keeping "case" (.int (st.labels + 1 : Nat))).subject = st.subject := by
      simp only [State.subject, State.data_keeping, Assoc.get?_insert_ne (show ("subject" : Bytes) ≠ "case" by decide)]
    have hdefault : AtDefault (st.keeping "case" (.int (st.labels + 1 : Nat))) ↔ AtDefault st := by
      simp only [AtDefault, State.data_keeping, Assoc.get?_insert_ne (show ("default" : Bytes) ≠ "case" by decide)]
    refine ⟨hopen, (State.keptLabel_emit _ _ _ _).trans hstop, (subject_congr hkept).trans hsubject, ?_⟩
    rw [if_pos hname, hstop, hcase]
    exact ⟨hwrote.trans hend, fun h => hopen (hdefault.mp ((atDefault_congr hkept).mp h))⟩

theorem ends_default {tag : Tag} {body : List Node} {st : State} (hst : Ready st) (hname : tag.name ≠ "case")
    (hbody : Lowers (compileNodes embed env .regular body) (fun k => w.code k body) (w.count body)) :
    Ends (lifecycle env (answers embed env defaultPart owner body) tag defaultPart owner st)
      (fun _ st' => Grows st st' (CaseStep w tag body st st')) (Failed st) := by
  refine ends_lifecycle
    (A := fun st₁ => Grows st st₁ (Wrote st st₁ [] 0 ∧ ¬AtDefault st ∧
      st₁.data = (st.keeping "default" (.bool true)).data))
    (B := fun st₁ => Grows st st₁ (Wrote st st₁ [] 0 ∧ ¬AtDefault st ∧
      st₁.data = (st.keeping "default" (.bool true)).data))
    (C := fun st' => Grows st st' (CaseStep w tag body st st')) (.refl hst)
    fun args _ => ⟨?_, fun _ h => h, ?_, fun _ h => h⟩
  · rw [runHook_defaultInit]
    split
    · exact .refl hst
    · rename_i hopen
      exact .of_eq ⟨hst.running, hst.loader⟩ rfl ⟨⟨(Adds.refl st).congr rfl (Nat.le_refl _) rfl, rfl⟩, hopen, rfl⟩
  · intro st₁ h₁
    refine ((lowers_body hpart rfl rfl hbody _).ends h₁).mono ?_
    intro _ st₂ h₂
    refine h₂.mono ?_
    rintro ⟨hwrote, hdata, hopen, hkept⟩
    have hkept₂ := hdata.trans hkept
    refine ⟨hopen, ?_, ?_, ?_⟩
    · rw [State.keptLabel_congr hkept₂, State.keptLabel_keeping_ne _ _ _ _ (show ("end" : Bytes) ≠ "default" by decide)]
    · rw [subject_congr hkept₂]
      simp only [State.subject, State.data_keeping, Assoc.get?_insert_ne (show ("subject" : Bytes) ≠ "default" by decide)]
    · rw [if_neg hname]
      refine ⟨by simpa using hwrote, (atDefault_congr hkept₂).mpr ?_⟩
      simp only [AtDefault, State.data_keeping, Assoc.get?_insert_self, Option.isSome_some]

variable (owner) in
theorem grows_cases {ns : List Node} (hbodies : BodiesLower w embed env ns) {st : State} (hst : Ready st) :
    ∃ st', compileParts embed env switchDirective owner ns st = (.ok (), st') ∧ Grows st st' (CasesWrote w ns st st') := by
  refine grows_compileParts (P := CaseStep w) .nil (fun _ _ _ _ hc h => h.skip hc)
    (fun _ _ _ _ _ _ _ h₁ h => h.next h₁) ns ?_ st hst
  intro name tag body hmem st hst
  have hbody := hbodies _ hmem
  refine grows_compilePart hpart hst fun p hp => ?_
  have hname := List.find?_some hp
  rcases List.mem_cons.mp (List.mem_of_find?_eq_some hp) with rfl | hp
  · exact ends_case hpart hst (beq_iff_eq.mp hname).symm hbody
  · obtain rfl := List.mem_singleton.mp hp
    refine ends_default hpart hst ?_ hbody
    rw [← beq_iff_eq.mp hname]
    decide

theorem ends_switch {tag : Tag} {children : List Node} {st : State} (hst : Ready st) (hdata : st.data = [])
    (hname : tag.name = "switch")
    (hbodies : BodiesLower w embed env children) :
    Ends (lifecycle env (answers embed env switchDirective owner children) tag switchDirective owner st)
      (fun _ st' => Grows st st' (Wrote st st' (w.control st.labels tag children)
        (w.controlCount tag children))) (Failed st) := by
  have hlower : w.control st.labels tag children =
      [.set (subjectName (st.labels + 1)) (rawArg switchDirective tag "subject")]
        ++ w.choices (subjectName (st.labels + 1)) (st.labels + 2 : Nat) (st.labels + 2) children := by
    simp only [Writing.control, hname]
    rfl
  have hlabels : w.controlCount tag children = 2 + w.countOfParts "case" children := by
    simp only [Writing.controlCount, hname]
    rfl
  refine ends_lifecycle (A := (st = ·))
    (B := fun st₁ => Grows st st₁ (Wrote st st₁
      [.set (subjectName (st.labels + 1)) (rawArg switchDirective tag "subject")] 2 ∧
      st₁.keptLabel "end" = (st.labels + 2 : Nat) ∧ st₁.subject = subjectName (st.labels + 1) ∧ ¬AtDefault st₁))
    (C := fun st' => Grows st st' (∃ code, Wrote st st' code (w.controlCount tag children) ∧
      code ++ [.mark (st'.keptLabel "end")] = w.control st.labels tag children))
    (.refl hst) fun args hargs => ⟨rfl, ?_, ?_, ?_⟩
  · rintro _ rfl
    rw [runHook_switchParams, rawArg_eq hargs]
    have hset : Wrote st _ _ 2 :=
      (wrote_emit hpart ((st.numbered.keeping "subject" (.text (subjectName (st.labels + 1)))).numbered.keeping "end"
        (.int (st.labels + 2 : Nat))) [.set (subjectName (st.labels + 1)) (args.rawD "subject")]).of_start rfl rfl rfl
    refine .of_eq (hset.ready hst) rfl ⟨hset, ?_, ?_, ?_⟩
    · rw [State.keptLabel_emit, State.keptLabel_keeping_self]
    · simp only [State.subject, State.data_emit, State.data_keeping, State.data_numbered,
        Assoc.get?_insert_ne (show ("subject" : Bytes) ≠ "end" by decide), Assoc.get?_insert_self]
      rfl
    · simp [AtDefault, hdata, Assoc.get?_insert_ne (show ("default" : Bytes) ≠ "end" by decide),
        Assoc.get?_insert_ne (show ("default" : Bytes) ≠ "subject" by decide), Assoc.get?]
  · intro st₁ h₁
    obtain ⟨st₂, hrun, h₂⟩ := grows_cases owner hpart hbodies h₁.ready
    simp only [lifeOfChildren, switchDirective, runScript_chained]
    rw [switchDirective] at hrun
    rw [hrun]
    refine (h₁.trans h₂).mono ?_
    rintro ⟨⟨hwrote₁, hstop, hsubject, hdefault⟩, hstop₂, hwrote₂⟩
    -- no default was seen before the first case
    rw [if_neg hdefault, hstop, hsubject, hwrote₁.count] at hwrote₂
    obtain ⟨code, hwrote₂, hcode⟩ := hwrote₂
    refine ⟨_, hlabels ▸ hwrote₁.trans hwrote₂, ?_⟩
    rw [hstop₂, hstop, List.append_assoc, hcode, hlower]
  · intro st₂ h₂
    rw [runHook_switchEnd]
    have hclose := wrote_emit hpart st₂ [.mark (st₂.keptLabel "end")]
    refine (h₂.trans (.of_eq (hclose.ready h₂.ready) rfl hclose)).mono ?_
    rintro ⟨⟨code, hwrote, hcode⟩, hclose⟩
    exact hcode ▸ hwrote.trans hclose

omit hpart

/-! ### Loops -/

/-- One part of a loop was added. -/
structure PartStep (w : Writing) (tag : Tag) (body : List Node) (st st' : State) : Prop where
  named : tag.name ≠ []
  data : st'.data = st.data
  wrote : Wrote st st' (w.code st.labels body) (w.count body)

/-- What stands for a loop over nothing was added. -/
structure PartsWrote (w : Writing) (ns : List Node) (st st' : State) : Prop where
  data : st'.data = st.data
  wrote : Wrote st st' (w.parts st.labels ns) (w.countOfParts [] ns)

theorem PartsWrote.next {name : Bytes} {tag : Tag} {body cs : List Node} {st st₁ st' : State}
    (h₁ : PartStep w tag body st st₁) (h : PartsWrote w cs st₁ st') : PartsWrote w (.part name tag body :: cs) st st' := by
  have hrest := h.wrote
  rw [h₁.wrote.count] at hrest
  refine ⟨h.data.trans h₁.data, ?_⟩
  simp only [Writing.countOfParts, if_neg h₁.named, Nat.zero_add]
  exact h₁.wrote.trans hrest

theorem PartsWrote.skip {c : Node} {cs : List Node} {st st' : State} (hc : c.isPart = false) (h : PartsWrote w cs st st') :
    PartsWrote w (c :: cs) st st' := by
  refine ⟨h.data, ?_⟩
  cases c with
  | part name tag body => cases hc
  | _ => exact h.wrote

include hpart

variable (owner) in
theorem grows_parts {ns : List Node} (hbodies : BodiesLower w embed env ns) {st : State} (hst : Ready st) :
    ∃ st', compileParts embed env eachDirective owner ns st = (.ok (), st') ∧ Grows st st' (PartsWrote w ns st st') := by
  refine grows_compileParts (P := PartStep w) (fun st => ⟨rfl, .refl st⟩) (fun _ _ _ _ hc h => h.skip hc)
    (fun _ _ _ _ _ _ _ h₁ h => h.next h₁) ns ?_ st hst
  intro name tag body hmem st hst
  have hbody : Lowers (compileNodes embed env .regular body) _ _ := hbodies _ hmem
  refine grows_compilePart hpart hst fun p hp => ?_
  have hname := List.find?_some hp
  obtain rfl := List.mem_singleton.mp (List.mem_of_find?_eq_some hp)
  refine ends_lifecycle (A := (st = ·)) (B := (st = ·)) (.refl hst) fun args _ => ⟨rfl, fun _ h => h, ?_, fun _ h => h⟩
  rintro _ rfl
  have hstart : Grows st st (Wrote st st [] 0 ∧ tag.name ≠ []) :=
    .of_eq hst rfl ⟨.refl st, by rw [← beq_iff_eq.mp hname]; decide⟩
  refine ((lowers_body hpart rfl rfl hbody _).ends hstart).mono ?_
  intro _ st₂ h₂
  refine h₂.mono ?_
  rintro ⟨hwrote, hdata, hname⟩
  rw [Nat.zero_add] at hwrote
  exact ⟨hname, hdata, hwrote⟩

theorem ends_each {tag : Tag} {children : List Node} {st : State} (hst : Ready st) (hname : tag.name = "each")
    (hbody : Lowers (compileNodes embed env .regular children) (fun k => w.code k children) (w.count children))
    (hbodies : BodiesLower w embed env children) :
    Ends (lifecycle env (answers embed env eachDirective owner children) tag eachDirective owner st)
      (fun _ st' => Grows st st' (Wrote st st' (w.control st.labels tag children)
        (w.controlCount tag children))) (Failed st) := by
  have hlower : w.control st.labels tag children =
      (([.enter, Statement.rangeInstr (rawArg eachDirective tag "items") (nameArg eachDirective tag "as")
          (nameArg eachDirective tag "key") (st.labels + 2 : Nat), .mark (st.labels + 1 : Nat)]
        ++ w.code (st.labels + 3) children)
        ++ ([Statement.nextInstr (st.labels + 1 : Nat), .jump (st.labels + 3 : Nat), .mark (st.labels + 2 : Nat)]
        ++ w.parts (st.labels + 3 + w.count children) children)) ++ [.mark (st.labels + 3 : Nat), .exit .merge []] := by
    simp only [Writing.control, hname, List.cons_append, List.nil_append, List.append_assoc]
    rfl
  have hlabels : w.controlCount tag children = 3 + w.count children + w.countOfParts [] children := by
    simp only [Writing.controlCount, hname]
    rfl
  refine ends_lifecycle (A := (st = ·))
    (B := fun st₁ => Grows st st₁ (Wrote st st₁ [.enter, Statement.rangeInstr (rawArg eachDirective tag "items")
      (nameArg eachDirective tag "as") (nameArg eachDirective tag "key") (st.labels + 2 : Nat), .mark (st.labels + 1 : Nat)] 3 ∧
      st₁.data = st.looping.data))
    (C := fun st' => Grows st st' (Wrote st st' (w.control st.labels tag children) (w.controlCount tag children)))
    (.refl hst) fun args hargs => ⟨rfl, ?_, ?_, fun _ h => h⟩
  · rintro _ rfl
    refine ((ends_eachParams env _ _ st).mono_failed ?_).mono ?_
    · rintro _ rfl
      exact .refl hst
    · rintro _ _ ⟨item, key, hitem, hkey, rfl⟩
      rw [rawArg_eq hargs, nameArg_eq hargs hitem, nameArg_eq hargs hkey]
      have hopen : Wrote st _ _ 3 := (wrote_emit hpart st.looping [.enter,
        Statement.rangeInstr (args.rawD "items") item key (st.labels + 2 : Nat), .mark (st.labels + 1 : Nat)]).of_start
        rfl rfl rfl
      exact .of_eq (hopen.ready hst) rfl ⟨hopen, rfl⟩
  · intro st₁ h₁
    rw [lifeOfChildren_each]
    refine (hbody.ends h₁).andThen ?_
    intro _ st₂ h₂
    have hturn := wrote_emit hpart st₂ [Statement.nextInstr (st₂.keptLabel "body"), .jump (st₂.keptLabel "end"),
      .mark (st₂.keptLabel "empty")]
    have h₃ := h₂.trans (.of_eq (hturn.ready h₂.ready) rfl hturn)
    obtain ⟨st₄, hrun, h₄⟩ := grows_parts owner hpart hbodies h₃.ready
    have hend := wrote_emit hpart st₄ [.mark (st₄.keptLabel "end"), .exit .merge []]
    simp only [hrun, andThen]
    refine ((h₃.trans h₄).trans (.of_eq (hend.ready h₄.ready) rfl hend)).mono ?_
    rintro ⟨⟨⟨⟨hwrote₂, hdata₂, hdata₁⟩, hwrote₃⟩, hdata₄, hwrote₄⟩, hwrote₅⟩
    -- the body and the parts keep the data, so the labels are those that the loop was opened with
    obtain ⟨hagain, hempty, hstop⟩ := State.keptLabel_looping (hdata₂.trans hdata₁)
    obtain ⟨-, -, hstop₄⟩ := State.keptLabel_looping (hdata₄.trans (hdata₂.trans hdata₁))
    simp only [hagain, hempty, hstop, State.labels_emit, hwrote₂.count] at hwrote₃ hwrote₄
    simp only [hstop₄] at hwrote₅ ⊢
    have hall := (hwrote₂.trans (hwrote₃.trans hwrote₄)).trans hwrote₅
    rw [hlower, hlabels]
    simpa [Nat.add_assoc] using hall

end Chains

end Stencil.Control
