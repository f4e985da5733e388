import Stencil.Program.Basic

/-! # Structured code

Standard templates compile to code of a few shapes: straight instructions, scopes, conditions that
may leave a region, and loops. `Statement` is the tree of such code with the labels it marks, and
`Statement.codeAll` writes it out. Reading a list of instructions in order gives each place a shape,
the number of scopes and of loops that are open there; code of statements that are well formed jumps
only between places of one shape (`sound_codeAll`), so it can be linked and its jumps keep the shape. -/

namespace Stencil

/-- Operations that go on with the instruction after them and open or close nothing. -/
def Op.isStraight : Op → Bool
  | .text | .emit | .comment | .set | .bind | .render | .placeholder | .resolve => true
  | _ => false

/-- The modes that the render machine knows. -/
def ScopeMode.isKnown : ScopeMode → Bool
  | .unknown _ => false
  | _ => true

/-- A piece of structured code. -/
inductive Statement where
  | plain (i : Instr)
  | scope (opening : Instr) (body : List Statement) (closing : Instr)
  /-- A body that some of its branches leave for its end, marked `stop`. -/
  | region (stop : Int) (body : List Statement)
  /-- A body under a condition; `next` marks the place after it. With a label in `leave` the end of
  the body goes there. -/
  | branch (test : Bytes) (next : Int) (leave : Option Int) (body : List Statement)
  | loop (items item key : Bytes) (again empty stop : Int) (body otherwise : List Statement)

namespace Statement

/-- The start of a loop. -/
def rangeInstr (items item key : Bytes) (empty : Int) : Instr :=
  { op := .range, expr := items, name := item, key, label := empty }

/-- The end of a turn of a loop. -/
def nextInstr (again : Int) : Instr := { op := .next, label := again }

mutual

/-- The instructions of a statement. -/
def code : Statement → List Instr
  | .plain i => [i]
  | .scope opening body closing => opening :: (codeAll body ++ [closing])
  | .region stop body => codeAll body ++ [.mark stop]
  | .branch test next leave body =>
    .jumpIfNot test next :: (codeAll body ++ (leave.toList.map .jump ++ [.mark next]))
  | .loop items item key again empty stop body otherwise =>
    rangeInstr items item key empty :: .mark again :: (codeAll body
      ++ (nextInstr again :: .jump stop :: .mark empty :: (codeAll otherwise ++ [.mark stop])))

/-- The instructions of statements in order. -/
def codeAll : List Statement → List Instr
  | [] => []
  | s :: ss => code s ++ codeAll ss

end

mutual

/-- The instructions have the operations that their places ask for, and a branch leaves only the
region around it, which ends at `stop?`. -/
def WellFormed (stop? : Option Int) : Statement → Prop
  | .plain i => i.op.isStraight = true
  | .scope opening body closing =>
    opening.op = .enterScope ∧ closing.op = .exitScope ∧ closing.mode.isKnown = true
      ∧ AllWellFormed none body
  | .region stop body => AllWellFormed (some stop) body
  | .branch _ _ leave body => (leave = none ∨ leave = stop?) ∧ AllWellFormed none body
  | .loop _ _ _ _ _ _ body otherwise => AllWellFormed none body ∧ AllWellFormed none otherwise

def AllWellFormed (stop? : Option Int) : List Statement → Prop
  | [] => True
  | s :: ss => WellFormed stop? s ∧ AllWellFormed stop? ss

end

@[simp] theorem codeAll_nil : codeAll [] = [] := rfl

@[simp] theorem codeAll_cons (s : Statement) (ss : List Statement) : codeAll (s :: ss) = code s ++ codeAll ss := rfl

@[simp] theorem codeAll_append (ss ts : List Statement) :
    codeAll (ss ++ ts) = codeAll ss ++ codeAll ts := by
  induction ss with
  | nil => rfl
  | cons s ss ih => simp [ih]

@[simp] theorem allWellFormed_append {stop? : Option Int} (ss ts : List Statement) :
    AllWellFormed stop? (ss ++ ts) ↔ AllWellFormed stop? ss ∧ AllWellFormed stop? ts := by
  induction ss with
  | nil => simp [AllWellFormed]
  | cons s ss ih => simp [AllWellFormed, ih, and_assoc]

/-- A statement that leaves no region may stand in any. -/
theorem WellFormed.within {s : Statement} (stop? : Option Int) (h : WellFormed none s) :
    WellFormed stop? s := by
  cases s with
  | branch test next leave body =>
    simp only [WellFormed, or_self] at h ⊢
    exact ⟨Or.inl h.1, h.2⟩
  | plain i => simpa only [WellFormed] using h
  | scope opening body closing => simpa only [WellFormed] using h
  | region stop body => simpa only [WellFormed] using h
  | loop items item key again empty stop body otherwise => simpa only [WellFormed] using h

theorem AllWellFormed.within {ss : List Statement} (stop? : Option Int) (h : AllWellFormed none ss) :
    AllWellFormed stop? ss := by
  induction ss with
  | nil => trivial
  | cons s ss ih => exact ⟨h.1.within stop?, ih h.2⟩

end Statement

/-! ### Marked labels -/

namespace Program

@[simp] theorem marked_nil : marked [] = [] := rfl

theorem marked_cons (i : Instr) (rest : List Instr) :
    marked (i :: rest) = if i.op = .label then i.label :: marked rest else marked rest := by
  by_cases h : i.op = .label <;> simp [marked, h]

@[simp] theorem marked_append (a b : List Instr) : marked (a ++ b) = marked a ++ marked b := by
  simp [marked]

end Program

namespace Statement

open Program (marked marked_cons)

@[simp] theorem marked_code_region (stop : Int) (body : List Statement) :
    marked (code (.region stop body)) = marked (codeAll body) ++ [stop] := by
  simp [code, marked_cons, Instr.mark]

@[simp] theorem marked_code_branch (test : Bytes) (next : Int) (leave : Option Int) (body : List Statement) :
    marked (code (.branch test next leave body)) = marked (codeAll body) ++ [next] := by
  cases leave <;> simp [code, marked_cons, Instr.jumpIfNot, Instr.jump, Instr.mark]

@[simp] theorem marked_code_loop (items item key : Bytes) (again empty stop : Int) (body otherwise : List Statement) :
    marked (code (.loop items item key again empty stop body otherwise)) =
      again :: (marked (codeAll body) ++ empty :: (marked (codeAll otherwise) ++ [stop])) := by
  simp [code, marked_cons, rangeInstr, nextInstr, Instr.jump, Instr.mark]

theorem marked_code_scope (opening closing : Instr) (body : List Statement) (hopen : opening.op = .enterScope)
    (hclose : closing.op = .exitScope) :
    marked (code (.scope opening body closing)) = marked (codeAll body) := by
  simp [code, marked_cons, hopen, hclose]

theorem marked_code_plain {i : Instr} (h : i.op.isStraight = true) : marked (code (.plain i)) = [] := by
  cases hop : i.op <;> simp_all [code, marked_cons, Op.isStraight]

end Statement

/-! ### Shapes -/

/-- How many scopes and loops are open at a place. -/
structure Shape where
  scopes : Nat := 0
  loops : Nat := 0

namespace Shape

/-- The shape after an instruction when the list is read in order. -/
def after (s : Shape) (i : Instr) : Shape :=
  match i.op with
  | .enterScope => { s with scopes := s.scopes + 1 }
  | .exitScope => { s with scopes := s.scopes - 1 }
  | .range => { s with loops := s.loops + 1 }
  | .next => { s with loops := s.loops - 1 }
  | _ => s

def through (s : Shape) (instrs : List Instr) : Shape := instrs.foldl after s

/-- The labels that the instructions mark, each with the shape of its place. -/
def marks : Shape → List Instr → List (Int × Shape)
  | _, [] => []
  | s, i :: rest =>
    if i.op = .label then (i.label, s) :: marks (s.after i) rest else marks (s.after i) rest

/-- An instruction may stand at a place: what it closes is open, and the label it names is marked
with this shape. -/
def Allows (labels : List (Int × Shape)) (s : Shape) (i : Instr) : Prop :=
  match i.op with
  | .jump | .jumpIfNot | .range => (i.label, s) ∈ labels
  | .next => (i.label, s) ∈ labels ∧ 0 < s.loops
  | .exitScope => 0 < s.scopes ∧ i.mode.isKnown = true
  | .unknown _ => False
  | _ => True

/-- Every instruction may stand at its place. -/
def Sound (labels : List (Int × Shape)) : Shape → List Instr → Prop
  | _, [] => True
  | s, i :: rest => s.Allows labels i ∧ Sound labels (s.after i) rest

variable {labels : List (Int × Shape)} {s : Shape}

@[simp] theorem through_nil : s.through [] = s := rfl

@[simp] theorem through_cons (i : Instr) (rest : List Instr) :
    s.through (i :: rest) = (s.after i).through rest := rfl

@[simp] theorem through_append (a b : List Instr) : s.through (a ++ b) = (s.through a).through b := by
  simp [through]

@[simp] theorem marks_append (a b : List Instr) :
    s.marks (a ++ b) = s.marks a ++ (s.through a).marks b := by
  induction a generalizing s with
  | nil => rfl
  | cons i a ih =>
    simp only [List.cons_append, marks, through_cons, ih]
    split <;> simp

@[simp] theorem sound_append (a b : List Instr) :
    Sound labels s (a ++ b) ↔ Sound labels s a ∧ Sound labels (s.through a) b := by
  induction a generalizing s with
  | nil => simp [Sound]
  | cons i a ih => simp [Sound, ih, and_assoc]

theorem map_fst_marks (instrs : List Instr) : (s.marks instrs).map Prod.fst = Program.marked instrs := by
  induction instrs generalizing s with
  | nil => rfl
  | cons i rest ih => by_cases h : i.op = .label <;> simp [marks, Program.marked_cons, h, ih]

theorem after_of_isStraight {i : Instr} (h : i.op.isStraight = true) : s.after i = s := by
  unfold after
  cases hop : i.op <;> simp_all [Op.isStraight]

theorem allows_of_isStraight {i : Instr} (h : i.op.isStraight = true) : s.Allows labels i := by
  unfold Allows
  cases hop : i.op <;> simp_all [Op.isStraight]

end Shape

namespace Statement

open Shape

mutual

theorem through_code {stop? : Option Int} :
    ∀ (s : Shape) (st : Statement), st.WellFormed stop? → s.through st.code = s
  | s, .plain i, h => by
    simp only [WellFormed] at h
    simp [code, after_of_isStraight h]
  | s, .scope opening body closing, h => by
    obtain ⟨hopen, hclose, -, hbody⟩ := h
    simp [code, after, hopen, hclose, through_codeAll _ body hbody]
  | s, .region stop body, h => by
    simp only [WellFormed] at h
    simp [code, after, Instr.mark, through_codeAll _ body h]
  | s, .branch test next leave body, h => by
    cases leave <;> simp [code, after, Instr.mark, Instr.jump, Instr.jumpIfNot, through_codeAll _ body h.2]
  | s, .loop items item key again empty stop body otherwise, h => by
    simp [code, after, Instr.mark, Instr.jump, rangeInstr, nextInstr, through_codeAll _ body h.1,
      through_codeAll _ otherwise h.2]

/-- Code of well formed statements leads back to the shape it starts from. -/
theorem through_codeAll {stop? : Option Int} :
    ∀ (s : Shape) (ss : List Statement), AllWellFormed stop? ss → s.through (codeAll ss) = s
  | _, [], _ => rfl
  | s, st :: ss, h => by simp [codeAll, through_code s st h.1, through_codeAll s ss h.2]

end

mutual

theorem sound_code {labels : List (Int × Shape)} {stop? : Option Int} :
    ∀ (s : Shape) (st : Statement), st.WellFormed stop? → (∀ l, stop? = some l → (l, s) ∈ labels) →
      (∀ m ∈ s.marks st.code, m ∈ labels) → Sound labels s st.code
  | s, .plain i, h, _, _ => by
    simp only [WellFormed] at h
    simp [code, Sound, allows_of_isStraight h]
  | s, .scope opening body closing, h, _, hm => by
    obtain ⟨hopen, hclose, hknown, hbody⟩ := h
    simp only [code, marks, hopen, reduceCtorEq, if_false, after, marks_append, List.mem_append] at hm
    have hsound := sound_codeAll ⟨s.scopes + 1, s.loops⟩ body hbody nofun fun m h => hm m (Or.inl h)
    simp [code, Sound, through_codeAll _ body hbody, hsound, after, Allows, hopen, hclose, hknown]
  | s, .region stop body, h, _, hm => by
    simp only [WellFormed] at h
    simp only [code, marks_append, through_codeAll s body h, List.mem_append] at hm
    -- inside the region its end is the place to leave for
    have hend : (stop, s) ∈ labels := hm _ (Or.inr (by simp [marks, Instr.mark]))
    have hsound := sound_codeAll s body h (fun l hl => Option.some.inj hl ▸ hend) fun m h => hm m (Or.inl h)
    simp [code, Sound, Allows, Instr.mark, hsound]
  | s, .branch test next leave body, h, hstop, hm => by
    obtain ⟨hleave, hbody⟩ := h
    simp only [code, marks, Instr.jumpIfNot, reduceCtorEq, if_false, after, marks_append,
      through_codeAll s body hbody, List.mem_append] at hm
    have hsound := sound_codeAll s body hbody nofun fun m h => hm m (Or.inl h)
    have hnext : (next, s) ∈ labels := by
      refine hm _ (Or.inr (Or.inr ?_))
      cases leave <;> simp [after, Instr.jump, Instr.mark]
    cases leave with
    | none => simp [code, Sound, Allows, after, Instr.mark, Instr.jumpIfNot, hsound, hnext]
    | some l =>
      have hl : (l, s) ∈ labels := hstop l (hleave.resolve_left nofun).symm
      simp [code, Sound, Allows, after, Instr.mark, Instr.jump, Instr.jumpIfNot, through_codeAll s body hbody, hsound,
        hnext, hl]
  | s, .loop items item key again empty stop body otherwise, h, _, hm => by
    obtain ⟨hbody, hother⟩ := h
    simp only [code, marks, rangeInstr, nextInstr, Instr.mark, Instr.jump, reduceCtorEq, if_true, if_false, after,
      marks_append, through_codeAll _ body hbody, through_codeAll _ otherwise hother, List.mem_append, List.mem_cons,
      Nat.add_sub_cancel] at hm
    have hbody' := sound_codeAll ⟨s.scopes, s.loops + 1⟩ body hbody nofun fun m h => hm m (Or.inr (Or.inl h))
    have hother' := sound_codeAll s otherwise hother nofun fun m h => hm m (Or.inr (Or.inr (Or.inr (Or.inl h))))
    have hagain := hm (again, ⟨s.scopes, s.loops + 1⟩) (Or.inl rfl)
    have hempty := hm (empty, s) (by simp)
    have hend := hm (stop, s) (by simp)
    simp [code, Sound, Allows, after, rangeInstr, nextInstr, Instr.mark, Instr.jump, through_codeAll _ body hbody,
      hbody', hother', hagain, hempty, hend]

/-- Instructions of well formed statements may stand at their places once the labels hold the marks
of the code and the end of the region around. -/
theorem sound_codeAll {labels : List (Int × Shape)} {stop? : Option Int} :
    ∀ (s : Shape) (ss : List Statement), AllWellFormed stop? ss → (∀ l, stop? = some l → (l, s) ∈ labels) →
      (∀ m ∈ s.marks (codeAll ss), m ∈ labels) → Sound labels s (codeAll ss)
  | _, [], _, _, _ => trivial
  | s, st :: ss, h, hstop, hm => by
    simp only [codeAll, marks_append, through_code s st h.1, List.mem_append] at hm
    simp only [codeAll, sound_append, through_code s st h.1]
    exact ⟨sound_code s st h.1 hstop fun m h => hm m (Or.inl h),
      sound_codeAll s ss h.2 hstop fun m h => hm m (Or.inr h)⟩

end

end Statement

/-! ### Linking -/

namespace Program

theorem checkShape_cons (name : Bytes) (k : Nat) (seen : List Int) (depth : Nat) (i : Instr) (rest : List Instr) :
    checkShape name k seen depth (i :: rest) =
      match i.op with
      | .label =>
        if i.label ∈ seen then .error (.duplicateLabel name i.label)
        else checkShape name (k + 1) (i.label :: seen) depth rest
      | .enterScope => checkShape name (k + 1) seen (depth + 1) rest
      | .exitScope =>
        match depth with
        | 0 => .error (.exitWithoutEnter name k)
        | depth + 1 => checkShape name (k + 1) seen depth rest
      | _ => checkShape name (k + 1) seen depth rest := by
  cases depth <;> rfl

theorem checkJumps_eq_ok (name : Bytes) {labels : List Int} {instrs : List Instr} (k : Nat) :
    checkJumps name labels k instrs = .ok () ↔ ∀ i ∈ instrs, i.op.jumps = true → i.label ∈ labels := by
  induction instrs generalizing k with
  | nil => simp [checkJumps]
  | cons i rest ih =>
    rw [checkJumps, List.forall_mem_cons]
    split
    · rename_i hi
      simp only [reduceCtorEq, false_iff]
      exact fun h => hi.2 (h.1 hi.1)
    · rename_i hi
      rw [ih, and_iff_right]
      exact fun hjumps => Classical.byContradiction fun hlabel => hi ⟨hjumps, hlabel⟩

/-- A list of instructions can be linked when its shape is right and every jump has a place to go to. -/
theorem link_eq_ok {name : Bytes} {instrs : List Instr} {p : Program} : Program.link name instrs = .ok p ↔
    p = ⟨name, instrs⟩ ∧ checkShape name 0 [] 0 instrs = .ok () ∧
      ∀ i ∈ instrs, i.op.jumps = true → i.label ∈ marked instrs := by
  rw [← checkJumps_eq_ok name 0]
  simp only [Program.link, bind, Except.bind]
  cases checkShape name 0 [] 0 instrs with
  | error e => simp
  | ok u =>
    cases checkJumps name (marked instrs) 0 instrs with
    | error e => simp
    | ok v => simp [pure, Except.pure, eq_comm]

/-- Code that opens and closes in order, jumps within one shape and marks no label twice. -/
structure Structured (instrs : List Instr) : Prop where
  closed : Shape.through {} instrs = {}
  sound : Shape.Sound (Shape.marks {} instrs) {} instrs
  nodup : (marked instrs).Nodup

theorem structured_codeAll {ss : List Statement} (hwf : Statement.AllWellFormed none ss)
    (hnd : (marked (Statement.codeAll ss)).Nodup) : Structured (Statement.codeAll ss) where
  closed := Statement.through_codeAll {} ss hwf
  sound := Statement.sound_codeAll {} ss hwf nofun fun _ h => h
  nodup := hnd

theorem checkShape_eq_ok (name : Bytes) {labels : List (Int × Shape)} :
    ∀ (instrs : List Instr) (i : Nat) (seen : List Int) (s : Shape), s.Sound labels instrs →
      (s.through instrs).scopes = 0 → (marked instrs).Nodup → (∀ l ∈ marked instrs, l ∉ seen) →
      checkShape name i seen s.scopes instrs = .ok ()
  | [], i, seen, s, _, hend, _, _ => by
    simp only [Shape.through_nil] at hend
    simp [hend, checkShape]
  | instr :: rest, i, seen, s, hs, hend, hnd, hseen => by
    have ih (seen : List Int) := checkShape_eq_ok name rest (i + 1) seen (s.after instr) hs.2 hend
    have hallow := hs.1
    rw [marked_cons] at hnd hseen
    unfold checkShape
    -- only labels and scopes have a case of their own in the reading
    cases hop : instr.op with
    | label =>
      simp only [hop, if_true, List.nodup_cons, List.mem_cons, forall_eq_or_imp] at hnd hseen
      simp only [Shape.after, hop] at ih
      simp only [hop, hseen.1, if_false]
      refine ih _ hnd.2 fun l hl => ?_
      rw [List.mem_cons, not_or]
      exact ⟨fun h => hnd.1 (h ▸ hl), hseen.2 l hl⟩
    | exitScope =>
      simp only [Shape.Allows, Shape.after, hop, reduceCtorEq, if_false] at hallow ih hnd hseen
      obtain ⟨depth, hdepth⟩ := Nat.exists_eq_succ_of_ne_zero (Nat.pos_iff_ne_zero.mp hallow.1)
      simp only [hop, hdepth] at ih ⊢
      exact ih seen hnd hseen
    | _ =>
      simp only [Shape.after, hop, reduceCtorEq, if_false] at ih hnd hseen ⊢
      exact ih seen hnd hseen

theorem sound_get {labels : List (Int × Shape)} :
    ∀ {instrs : List Instr} {s : Shape} {k : Nat} {i : Instr}, s.Sound labels instrs → instrs[k]? = some i →
      (s.through (instrs.take k)).Allows labels i
  | instr :: rest, s, 0, i, hs, hi => by
    obtain rfl : instr = i := by simpa using hi
    exact hs.1
  | instr :: rest, s, k + 1, i, hs, hi => by
    simpa using sound_get hs.2 (by simpa using hi)

/-- In structured code every jump has a place to go to. -/
theorem Structured.label_mem {instrs : List Instr} (h : Structured instrs) {i : Instr} (hi : i ∈ instrs)
    (hjumps : i.op.jumps = true) : i.label ∈ marked instrs := by
  obtain ⟨k, hk⟩ := List.getElem?_of_mem hi
  have hallow := sound_get h.sound hk
  rw [← Shape.map_fst_marks (s := {})]
  refine List.mem_map.mpr ⟨(i.label, Shape.through {} (instrs.take k)), ?_, rfl⟩
  cases hop : i.op <;> simp_all [Shape.Allows, Op.jumps]

/-- Structured code can be linked. -/
theorem Structured.link {instrs : List Instr} (h : Structured instrs) (name : Bytes) :
    Program.link name instrs = .ok ⟨name, instrs⟩ :=
  have hshape : checkShape name 0 [] 0 instrs = .ok () :=
    checkShape_eq_ok name instrs 0 [] {} h.sound (by rw [h.closed]) h.nodup (by simp)
  link_eq_ok.mpr ⟨rfl, hshape, fun _ hi hjumps => h.label_mem hi hjumps⟩

/-! ### Places -/

/-- The shape of a place in a program. -/
def shapeAt (p : Program) (pc : Nat) : Shape := Shape.through {} (p.instrs.take pc)

theorem shapeAt_succ {p : Program} {pc : Nat} {i : Instr} (h : p.instrs[pc]? = some i) :
    p.shapeAt (pc + 1) = (p.shapeAt pc).after i := by
  simp [shapeAt, List.take_add_one, h]

theorem exists_of_mem_marks :
    ∀ {instrs : List Instr} {s s' : Shape} {l : Int}, (l, s') ∈ s.marks instrs →
      ∃ k i, instrs[k]? = some i ∧ i.op = .label ∧ i.label = l ∧ s.through (instrs.take k) = s'
  | [], _, _, _, h => nomatch h
  | instr :: rest, s, s', l, h => by
    have inner : (l, s') ∈ (s.after instr).marks rest →
        ∃ k i, (instr :: rest)[k]? = some i ∧ i.op = .label ∧ i.label = l ∧
          s.through ((instr :: rest).take k) = s' := fun h => by
      obtain ⟨k, i, hi, hop, hl, hs⟩ := exists_of_mem_marks h
      exact ⟨k + 1, i, by simpa using hi, hop, hl, by simpa using hs⟩
    rw [Shape.marks] at h
    split at h
    · rename_i hop
      rcases List.mem_cons.mp h with heq | h
      · obtain ⟨rfl, rfl⟩ := Prod.mk.inj heq
        exact ⟨0, instr, rfl, hop, rfl, rfl⟩
      · exact inner h
    · exact inner h

/-- When no label is marked twice, a label leads to the place that marks it. -/
theorem target_eq {p : Program} (hnd : (marked p.instrs).Nodup) {k : Nat} {i : Instr} (hi : p.instrs[k]? = some i)
    (hop : i.op = .label) : p.target i.label = k := by
  obtain ⟨hk, hget⟩ := List.getElem?_eq_some_iff.mp hi
  have hsplit : p.instrs = p.instrs.take k ++ i :: p.instrs.drop (k + 1) := by
    rw [← hget, List.getElem_cons_drop, List.take_append_drop]
  rw [hsplit, marked_append, marked_cons, if_pos hop, List.nodup_append] at hnd
  have hbefore : (p.instrs.take k).findIdx? (fun j => j.op == .label && j.label == i.label) = none := by
    simp only [List.findIdx?_eq_none_iff, Bool.and_eq_false_imp, beq_iff_eq, beq_eq_false_iff_ne]
    intro j hj hjop
    exact hnd.2.2 j.label (List.mem_map.mpr ⟨j, by simp [hj, hjop], rfl⟩) i.label (by simp)
  have hfind : p.instrs.findIdx? (fun j => j.op == .label && j.label == i.label) = some k := by
    rw [hsplit, List.findIdx?_append, hbefore]
    simp [List.findIdx?_cons, hop, Nat.min_eq_left (Nat.le_of_lt hk)]
  simp [target, hfind]

/-- In structured code a jump leads to a place of the shape it starts from. -/
theorem Structured.shapeAt_target {p : Program} (h : Structured p.instrs) {pc : Nat} {l : Int}
    (hl : (l, p.shapeAt pc) ∈ Shape.marks {} p.instrs) :
    p.target l < p.instrs.length ∧ p.shapeAt (p.target l + 1) = p.shapeAt pc := by
  obtain ⟨k, i, hi, hop, rfl, hs⟩ := exists_of_mem_marks hl
  rw [target_eq h.nodup hi hop, shapeAt_succ hi]
  refine ⟨(List.getElem?_eq_some_iff.mp hi).1, ?_⟩
  rw [shapeAt, hs]
  simp [Shape.after, hop]

end Program

end Stencil
