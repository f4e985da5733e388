import Stencil.Proofs.Program.Structure

/-! # What can be linked

Linking reads the instructions once, with the labels so far and the number of scopes that are open, and then looks
up the label of every jump. `Linkable` says the same of the list as a whole: no label stands at two places, a jump
names a label that stands somewhere, and no front of the list closes more scopes than it opens. -/

namespace Stencil.Program

/-! ### Labels -/

/-- The labels that are marked are new, and none is marked twice. -/
def Fresh (seen : List Int) (instrs : List Instr) : Prop :=
  (marked instrs).Nodup ∧ ∀ l ∈ marked instrs, l ∉ seen

section Fresh
variable {seen : List Int} {i : Instr} {rest : List Instr}

theorem fresh_nil : Fresh seen [] := ⟨List.nodup_nil, nofun⟩

theorem fresh_cons_label (hi : i.op = .label) :
    Fresh seen (i :: rest) ↔ i.label ∉ seen ∧ Fresh (i.label :: seen) rest := by
  rw [Fresh, Fresh, marked_cons, if_pos hi, List.nodup_cons, List.forall_mem_cons]
  simp only [List.mem_cons, not_or]
  constructor
  · rintro ⟨⟨hnew, hnodup⟩, hseen, hrest⟩
    exact ⟨hseen, hnodup, fun l hl => ⟨fun h => hnew (h ▸ hl), hrest l hl⟩⟩
  · rintro ⟨hseen, hnodup, hrest⟩
    exact ⟨⟨fun h => (hrest _ h).1 rfl, hnodup⟩, hseen, fun l hl => (hrest l hl).2⟩

theorem fresh_cons_of_ne (hi : i.op ≠ .label) : Fresh seen (i :: rest) ↔ Fresh seen rest := by
  rw [Fresh, Fresh, marked_cons, if_neg hi]

end Fresh

/-- A label stands at a place of the instructions. -/
def StandsAt (instrs : List Instr) (label : Int) (k : Nat) : Prop :=
  ∃ i, instrs[k]? = some i ∧ i.op = .label ∧ i.label = label

theorem mem_marked_iff {instrs : List Instr} {label : Int} :
    label ∈ marked instrs ↔ ∃ k, StandsAt instrs label k := by
  constructor
  · intro h
    obtain ⟨i, hi, hlabel⟩ := List.mem_map.mp h
    obtain ⟨hmem, hop⟩ := List.mem_filter.mp hi
    obtain ⟨k, hk⟩ := List.getElem?_of_mem hmem
    exact ⟨k, i, hk, beq_iff_eq.mp hop, hlabel⟩
  · rintro ⟨k, i, hk, hop, rfl⟩
    exact List.mem_map_of_mem (List.mem_filter.mpr ⟨List.mem_of_getElem? hk, beq_iff_eq.mpr hop⟩)

theorem StandsAt.eq_target {p : Program} (hnodup : (marked p.instrs).Nodup) {label : Int} {k : Nat}
    (h : StandsAt p.instrs label k) : k = p.target label := by
  obtain ⟨i, hk, hop, rfl⟩ := h
  exact (target_eq hnodup hk hop).symm

theorem nodup_marked_iff {instrs : List Instr} : (marked instrs).Nodup ↔
    ∀ label j k, StandsAt instrs label j → StandsAt instrs label k → j = k := by
  constructor
  · intro h label j k hj hk
    exact (StandsAt.eq_target (p := ⟨[], instrs⟩) h hj).trans (StandsAt.eq_target (p := ⟨[], instrs⟩) h hk).symm
  · intro h
    rw [marked, List.nodup_iff_pairwise_ne, List.pairwise_map, List.pairwise_filter, List.pairwise_iff_getElem]
    intro j k hj hk hlt hopj hopk heq
    have hj' : StandsAt instrs instrs[j].label j := ⟨_, List.getElem?_eq_getElem hj, beq_iff_eq.mp hopj, rfl⟩
    have hk' : StandsAt instrs instrs[j].label k := ⟨_, List.getElem?_eq_getElem hk, beq_iff_eq.mp hopk, heq.symm⟩
    exact absurd (h _ j k hj' hk') (Nat.ne_of_lt hlt)

/-! ### Scopes -/

/-- How many of the instructions have an operation. -/
def countOp (op : Op) (instrs : List Instr) : Nat := instrs.countP fun i => i.op == op

@[simp] theorem countOp_nil (op : Op) : countOp op [] = 0 := rfl

theorem countOp_cons (op : Op) (i : Instr) (rest : List Instr) :
    countOp op (i :: rest) = countOp op rest + if i.op = op then 1 else 0 := by
  simp [countOp, List.countP_cons]

/-- Read where `depth` scopes are open, no front closes more than are open then, and the whole leaves none open. -/
def Closes (depth : Nat) (instrs : List Instr) : Prop :=
  (∀ front, front <+: instrs → countOp .exitScope front ≤ depth + countOp .enterScope front) ∧
    countOp .exitScope instrs = depth + countOp .enterScope instrs

section Closes
variable {depth : Nat} {i : Instr} {rest : List Instr}

theorem closes_nil : Closes depth [] ↔ depth = 0 := by
  simp [Closes, eq_comm]

/-- The first instruction changes the number of open scopes to `after`. -/
theorem closes_cons (after : Nat)
    (hafter : depth + (if i.op = .enterScope then 1 else 0) = after + if i.op = .exitScope then 1 else 0) :
    Closes depth (i :: rest) ↔ Closes after rest := by
  have hfront (front : List Instr) : countOp .exitScope (i :: front) ≤ depth + countOp .enterScope (i :: front) ↔
      countOp .exitScope front ≤ after + countOp .enterScope front := by
    rw [countOp_cons, countOp_cons]
    omega
  constructor
  · rintro ⟨hopen, hclosed⟩
    refine ⟨fun front h => (hfront front).mp (hopen _ (List.cons_prefix_cons.mpr ⟨rfl, h⟩)), ?_⟩
    rw [countOp_cons, countOp_cons] at hclosed
    omega
  · rintro ⟨hopen, hclosed⟩
    refine ⟨fun front h => ?_, ?_⟩
    · rcases List.prefix_cons_iff.mp h with rfl | ⟨front, rfl, hprefix⟩
      · exact Nat.zero_le _
      · exact (hfront front).mpr (hopen front hprefix)
    · rw [countOp_cons, countOp_cons]
      omega

theorem not_closes_zero_exit (hi : i.op = .exitScope) : ¬Closes 0 (i :: rest) := by
  intro h
  have hone := h.1 [i] (List.cons_prefix_cons.mpr ⟨rfl, List.nil_prefix⟩)
  simp [countOp_cons, hi] at hone

end Closes

/-! ### Linking -/

/-- The reading succeeds exactly when labels are new and scopes close. -/
theorem checkShape_iff (name : Bytes) (instrs : List Instr) (k : Nat) (seen : List Int) (depth : Nat) :
    checkShape name k seen depth instrs = .ok () ↔ Fresh seen instrs ∧ Closes depth instrs := by
  induction instrs generalizing k seen depth with
  | nil => cases depth <;> simp [checkShape, closes_nil, fresh_nil]
  | cons i rest ih =>
    rw [checkShape_cons]
    cases hop : i.op with
    | label =>
      -- a label that has been seen is refused here, any other is seen from now on
      rw [fresh_cons_label hop, closes_cons depth (by simp [hop]), and_assoc, ← ih (k + 1)]
      dsimp only
      split <;> simp [*]
    | enterScope =>
      rw [fresh_cons_of_ne (by simp [hop]), closes_cons (depth + 1) (by simp [hop])]
      exact ih (k + 1) seen (depth + 1)
    | exitScope =>
      cases depth with
      | zero => simp [not_closes_zero_exit hop]
      | succ depth =>
        rw [fresh_cons_of_ne (by simp [hop]), closes_cons depth (by simp [hop])]
        exact ih (k + 1) seen depth
    | _ =>
      -- nothing else touches the labels or the depth
      rw [fresh_cons_of_ne (by simp [hop]), closes_cons depth (by simp [hop])]
      exact ih (k + 1) seen depth

/-- What linking asks of instructions: no label stands at two places, whatever jumps names a label that stands
somewhere, no front closes a scope that is not open, and all are closed in the end. -/
structure Linkable (instrs : List Instr) : Prop where
  once : ∀ label j k, StandsAt instrs label j → StandsAt instrs label k → j = k
  known : ∀ i ∈ instrs, i.op ∈ [Op.jump, .jumpIfNot, .range, .next] → ∃ k, StandsAt instrs i.label k
  opened : ∀ front, front <+: instrs → countOp .exitScope front ≤ countOp .enterScope front
  closed : countOp .exitScope instrs = countOp .enterScope instrs

theorem jumps_iff (op : Op) : op.jumps = true ↔ op ∈ [Op.jump, .jumpIfNot, .range, .next] := by
  cases op <;> simp [Op.jumps]

theorem linkable_iff {instrs : List Instr} : Linkable instrs ↔ Fresh [] instrs ∧ Closes 0 instrs ∧
    ∀ i ∈ instrs, i.op.jumps = true → i.label ∈ marked instrs := by
  simp only [Fresh, Closes, nodup_marked_iff, mem_marked_iff, jumps_iff, Nat.zero_add, List.not_mem_nil,
    not_false_eq_true, implies_true, and_true]
  exact ⟨fun h => ⟨h.once, ⟨h.opened, h.closed⟩, h.known⟩, fun h => ⟨h.1, h.2.2, h.2.1.1, h.2.1.2⟩⟩

/-- Linking accepts exactly the linkable instructions, and leads every jump to the one place of its label. -/
theorem links_iff_linkable (name : Bytes) (instrs : List Instr) :
    ((∃ p, link name instrs = .ok p) ↔ Linkable instrs) ∧
      ∀ p, link name instrs = .ok p → p.instrs = instrs ∧
        ∀ i ∈ instrs, i.op ∈ [Op.jump, .jumpIfNot, .range, .next] →
          p.target i.label < instrs.length ∧ ∀ k, StandsAt instrs i.label k ↔ k = p.target i.label := by
  have hlink {p : Program} : link name instrs = .ok p ↔ p = ⟨name, instrs⟩ ∧ Linkable instrs := by
    rw [link_eq_ok, checkShape_iff, linkable_iff, and_assoc]
  refine ⟨by simp only [hlink, exists_eq_left], fun p hp => ?_⟩
  obtain ⟨rfl, hlinkable⟩ := hlink.mp hp
  refine ⟨rfl, fun i hi hop => ?_⟩
  have hstands {k : Nat} (hk : StandsAt instrs i.label k) : k = target ⟨name, instrs⟩ i.label :=
    hk.eq_target (p := ⟨name, instrs⟩) (nodup_marked_iff.mpr hlinkable.once)
  obtain ⟨k, hk⟩ := hlinkable.known i hi hop
  have hbound : k < instrs.length := by
    obtain ⟨m, hm, -⟩ := hk
    exact (List.getElem?_eq_some_iff.mp hm).1
  obtain rfl := hstands hk
  exact ⟨hbound, fun k' => ⟨hstands, fun h => h ▸ hk⟩⟩

/-- A loop with a scope in its body, which is left for a label behind it and goes back to one before. -/
def loopCode : List Instr :=
  [{ op := .range, label := 2 }, .mark 1, .enter, .literal "x", .exit .merge [], { op := .next, label := 1 }, .mark 2]

/-- The loop can be linked, and leaves for its last place; without that place it cannot. -/
theorem links_iff_linkable_loop : Linkable loopCode ∧ ¬Linkable loopCode.dropLast ∧
    ∀ k, StandsAt loopCode 2 k ↔ k = 6 := by
  have hlink : link "list" loopCode = .ok ⟨"list", loopCode⟩ := rfl
  obtain ⟨haccepts, hleads⟩ := links_iff_linkable "list" loopCode
  obtain ⟨-, htarget⟩ := hleads _ hlink
  refine ⟨haccepts.mp ⟨_, hlink⟩, fun h => ?_, (htarget { op := .range, label := 2 } (by decide) (by decide)).2⟩
  obtain ⟨p, hp⟩ := (links_iff_linkable "list" loopCode.dropLast).1.mpr h
  cases hp

end Stencil.Program
