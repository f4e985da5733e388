import Stencil.Program.Stored
import Stencil.Render.Machine
import Stencil.Proofs.Json.RoundTrip

/-! # Programs survive their storing

A program that is stored and read again is the same program: every field of every instruction comes
back, those that were left out because they were empty included, and so does every place that a jump
goes to. -/

namespace Stencil
open Json Text.Utf8

/-! ### What can be stored -/

/-- The operation and the mode have names, the texts are valid, and the label is an integer of 64 bits. -/
structure Instr.Storable (i : Instr) : Prop where
  op : i.op ∈ Op.all
  mode : i.mode ∈ ScopeMode.all
  text : isValid i.text = true
  expr : isValid i.expr = true
  name : isValid i.name = true
  key : isValid i.key = true
  label : -(wordLimit : Int) ≤ i.label ∧ i.label < wordLimit

structure StoredProgram.Storable (s : StoredProgram) : Prop where
  name : isValid s.name = true
  instrs : ∀ is, s.instrs = some is → ∀ i ∈ is, i.Storable

theorem Op.ofName?_name {op : Op} (h : op ∈ Op.all) : Op.ofName? op.name = some op :=
  (by decide : ∀ op ∈ Op.all, Op.ofName? op.name = some op) op h

theorem ScopeMode.ofName?_name {mode : ScopeMode} (h : mode ∈ ScopeMode.all) :
    ScopeMode.ofName? mode.name = some mode :=
  (by decide : ∀ mode ∈ ScopeMode.all, ScopeMode.ofName? mode.name = some mode) mode h

theorem Op.isValid_name {op : Op} (h : op ∈ Op.all) : isValid op.name = true :=
  isValid_of_ascii ((by decide : ∀ op ∈ Op.all, op.name.all (· < 0x80) = true) op h)

theorem ScopeMode.isValid_name {mode : ScopeMode} (h : mode ∈ ScopeMode.all) : isValid mode.name = true :=
  isValid_of_ascii ((by decide : ∀ mode ∈ ScopeMode.all, mode.name.all (· < 0x80) = true) mode h)

/-! ### The tree of a program -/

namespace Json

/-- Members with valid names whose values are texts, integers and truth values. -/
def Scalars (members : List (Bytes × Json)) : Prop :=
  ∀ m ∈ members, isValid m.1 = true ∧ Plain m.2 ∧ m.2.height = 0

theorem Scalars.append {ms ns : List (Bytes × Json)} (hm : Scalars ms) (hn : Scalars ns) : Scalars (ms ++ ns) := by
  intro m h
  rcases List.mem_append.1 h with h | h
  · exact hm m h
  · exact hn m h

theorem scalars_nil : Scalars [] := by
  intro m h
  cases h

theorem scalars_singleton {name : Bytes} {j : Json} (hn : isValid name = true) (hj : Plain j) (flat : j.height = 0) :
    Scalars [member name j] := by
  intro m h
  obtain rfl := List.mem_singleton.1 h
  exact ⟨hn, hj, flat⟩

theorem heightList_le {n : Nat} {items : List Json} (h : ∀ j ∈ items, j.height ≤ n) : heightList items ≤ n := by
  induction items with
  | nil => exact Nat.zero_le n
  | cons j js ih =>
    rw [heightList]
    exact Nat.max_le.2 ⟨h j (by simp), ih fun j hj => h j (by simp [hj])⟩

theorem heightMembers_le {n : Nat} {members : List (Bytes × Json)} (h : ∀ m ∈ members, m.2.height ≤ n) :
    heightMembers members ≤ n := by
  induction members with
  | nil => exact Nat.zero_le n
  | cons m ms ih =>
    rw [heightMembers]
    exact Nat.max_le.2 ⟨h m (by simp), ih fun m hm => h m (by simp [hm])⟩

end Json

namespace Instr

theorem scalars_textMember {name s : Bytes} (hn : isValid name = true) (hs : isValid s = true) :
    Scalars (textMember name s) := by
  rw [textMember]
  split
  · exact scalars_nil
  · exact scalars_singleton hn (.string hs) rfl

variable {i : Instr}

theorem Storable.exists_members (h : i.Storable) : ∃ members, i.toJson = .object members ∧ Scalars members := by
  refine ⟨_, rfl, ?_⟩
  refine ((((((Scalars.append ?_ ?_).append ?_).append ?_).append ?_).append ?_).append ?_).append ?_
  · exact scalars_singleton (isValid_of_ascii rfl) (.string (Op.isValid_name h.op)) rfl
  · exact scalars_textMember (isValid_of_ascii rfl) h.text
  · exact scalars_textMember (isValid_of_ascii rfl) h.expr
  · exact scalars_textMember (isValid_of_ascii rfl) h.name
  · exact scalars_textMember (isValid_of_ascii rfl) h.key
  · split
    · exact scalars_nil
    · exact scalars_singleton (isValid_of_ascii rfl) (.int i.label) rfl
  · split
    · exact scalars_singleton (isValid_of_ascii rfl) (.bool true) rfl
    · exact scalars_nil
  · split
    · exact scalars_nil
    · exact scalars_singleton (isValid_of_ascii rfl) (.string (ScopeMode.isValid_name h.mode)) rfl

theorem Storable.plain (h : i.Storable) : Plain i.toJson := by
  obtain ⟨members, e, scalars⟩ := h.exists_members
  rw [e]
  exact .object (fun m hm => (scalars m hm).1) fun m hm => (scalars m hm).2.1

theorem Storable.height_le (h : i.Storable) : i.toJson.height ≤ 1 := by
  obtain ⟨members, e, scalars⟩ := h.exists_members
  rw [e, height]
  exact Nat.add_le_add_right (heightMembers_le fun m hm => Nat.le_of_eq (scalars m hm).2.2) 1

end Instr

theorem StoredProgram.Storable.plain {s : StoredProgram} (h : s.Storable) : Plain s.toJson := by
  have fields (j : Json) (hj : Plain j) : Plain (.object [("name", .string s.name), ("instrs", j)]) := by
    refine .object (fun m hm => ?_) fun m hm => ?_
    · simp only [List.mem_cons, List.not_mem_nil, or_false] at hm
      rcases hm with rfl | rfl <;> exact isValid_of_ascii rfl
    · simp only [List.mem_cons, List.not_mem_nil, or_false] at hm
      rcases hm with rfl | rfl
      · exact .string h.name
      · exact hj
  refine fields _ ?_
  cases e : s.instrs with
  | none => exact .null
  | some instrs =>
    refine .array fun j hj => ?_
    obtain ⟨i, hi, rfl⟩ := List.mem_map.1 hj
    exact (h.instrs instrs e i hi).plain

theorem StoredProgram.Storable.height_le {s : StoredProgram} (h : s.Storable) : s.toJson.height ≤ 3 := by
  have fields (j : Json) (hj : j.height ≤ 2) : height (.object [("name", .string s.name), ("instrs", j)]) ≤ 3 := by
    simp only [height, heightMembers]
    omega
  refine fields _ ?_
  cases e : s.instrs with
  | none => exact Nat.zero_le 2
  | some instrs =>
    refine Nat.add_le_add_right (heightList_le fun j hj => ?_) 1
    obtain ⟨i, hi, rfl⟩ := List.mem_map.1 hj
    exact (h.instrs instrs e i hi).height_le

/-! ### Reading the tree -/

namespace StoredProgram

section Fields

variable (i : Instr) (j : Json)

theorem setField_op : setField i "op" j = (readNamed Op.ofName? .unknownOp i.op j).map fun op => { i with op } := rfl

theorem setField_mode :
    setField i "mode" j = (readNamed ScopeMode.ofName? .unknownMode i.mode j).map fun mode => { i with mode } := rfl

theorem setField_text : setField i "text" j = (typed (readText i.text j)).map fun text => { i with text } := rfl

theorem setField_expr : setField i "expr" j = (typed (readText i.expr j)).map fun expr => { i with expr } := rfl

theorem setField_name : setField i "name" j = (typed (readText i.name j)).map fun name => { i with name } := rfl

theorem setField_key : setField i "key" j = (typed (readText i.key j)).map fun key => { i with key } := rfl

theorem setField_label : setField i "label" j = (typed (readInt i.label j)).map fun label => { i with label } := rfl

theorem setField_escape :
    setField i "escape" j = (typed (readBool i.escape j)).map fun escape => { i with escape } := rfl

end Fields

/-- The members set the fields of an instruction one after the other. -/
def setFields (i : Instr) (members : List (Bytes × Json)) : Except StoredError Instr :=
  members.foldlM (fun i m => setField i m.1 m.2) i

theorem setFields_append {i k l : Instr} {ms ns : List (Bytes × Json)} (first : setFields i ms = .ok k)
    (second : setFields k ns = .ok l) : setFields i (ms ++ ns) = .ok l := by
  rw [setFields] at first
  rw [setFields, List.foldlM_append, first]
  exact second

theorem setFields_singleton {i k : Instr} {name : Bytes} {j : Json} (set : setField i name j = .ok k) :
    setFields i [Json.member name j] = .ok k := by
  rw [setFields, List.foldlM_cons]
  simp only [Json.member, set]
  rfl

/-- A text that is left out when it is empty is read as empty. -/
theorem setFields_textMember {i k : Instr} {name s : Bytes} (same : s = [] → k = i)
    (set : setField i name (.string s) = .ok k) : setFields i (Instr.textMember name s) = .ok k := by
  rw [Instr.textMember]
  split
  · rename_i empty
    rw [same empty]
    rfl
  · exact setFields_singleton set

/-- An instruction is read back from its tree, field by field. -/
theorem readInstr_toJson {i : Instr} (h : i.Storable) : readInstr { op := .text } i.toJson = .ok i := by
  obtain ⟨op, text, expr, name, key, label, escape, mode⟩ := i
  change setFields { op := .text } _ = _
  have readOp : setFields { op := .text } [Json.member "op" (.string op.name)] = .ok { op } :=
    setFields_singleton (by simp only [setField_op, readNamed, Op.ofName?_name h.op]; rfl)
  have readText : setFields { op } (Instr.textMember "text" text) = .ok { op, text } :=
    setFields_textMember (fun e => by rw [e]) (by rw [setField_text]; rfl)
  have readExpr : setFields { op, text } (Instr.textMember "expr" expr) = .ok { op, text, expr } :=
    setFields_textMember (fun e => by rw [e]) (by rw [setField_expr]; rfl)
  have readName : setFields { op, text, expr } (Instr.textMember "name" name) = .ok { op, text, expr, name } :=
    setFields_textMember (fun e => by rw [e]) (by rw [setField_name]; rfl)
  have readKey : setFields { op, text, expr, name } (Instr.textMember "key" key) =
      .ok { op, text, expr, name, key } :=
    setFields_textMember (fun e => by rw [e]) (by rw [setField_key]; rfl)
  have readLabel : setFields { op, text, expr, name, key }
      (if label = 0 then [] else [Json.member "label" (.ofInt label)]) = .ok { op, text, expr, name, key, label } := by
    split
    · rename_i zero
      rw [zero]
      rfl
    · refine setFields_singleton ?_
      simp only [setField_label, Json.ofInt, readInt, int64?_ofInt h.label.1 h.label.2]
      rfl
  have readEscape : setFields { op, text, expr, name, key, label }
      (if escape then [Json.member "escape" (.bool true)] else []) =
        .ok { op, text, expr, name, key, label, escape } := by
    cases escape with
    | false => rfl
    | true => exact setFields_singleton (by rw [setField_escape]; rfl)
  have readMode : setFields { op, text, expr, name, key, label, escape }
      (if mode = .merge then [] else [Json.member "mode" (.string mode.name)]) =
        .ok { op, text, expr, name, key, label, escape, mode } := by
    split
    · rename_i merge
      rw [merge]
      rfl
    · exact setFields_singleton (by simp only [setField_mode, readNamed, ScopeMode.ofName?_name h.mode]; rfl)
  exact setFields_append (setFields_append (setFields_append (setFields_append (setFields_append (setFields_append
    (setFields_append readOp readText) readExpr) readName) readKey) readLabel) readEscape) readMode

/-- New items are read one by one into blank places. -/
theorem overwrite_toJson {instrs : List Instr} (h : ∀ i ∈ instrs, i.Storable) :
    Slots.overwrite readInstr { op := .text } [] (instrs.map Instr.toJson) = .ok instrs := by
  induction instrs with
  | nil => rfl
  | cons i instrs ih =>
    rw [List.map_cons, Slots.overwrite, readInstr_toJson (h i (by simp)), ih fun k hk => h k (by simp [hk])]
    rfl

theorem laidOver_toJson {instrs : List Instr} (h : ∀ i ∈ instrs, i.Storable) :
    Slots.laidOver readInstr { op := .text } {} (instrs.map Instr.toJson) = .ok ⟨instrs, []⟩ := by
  cases instrs with
  | nil => rfl
  | cons i instrs =>
    rw [List.map_cons, Slots.laidOver, ← List.map_cons]
    · simp only [List.append_nil, overwrite_toJson h]
      rfl
    · simp

theorem setDraft_name (d : Draft) (name : Bytes) : setDraft d "name" (.string name) = .ok { d with name } := rfl

theorem setDraft_instrs_null (name : Bytes) : setDraft { name } "instrs" .null = .ok { name } := rfl

theorem setDraft_instrs_array {instrs : List Instr} (h : ∀ i ∈ instrs, i.Storable) (name : Bytes) :
    setDraft { name } "instrs" (.array (instrs.map Instr.toJson)) = .ok { name, instrs := some ⟨instrs, []⟩ } := by
  have read : setDraft { name } "instrs" (.array (instrs.map Instr.toJson)) =
      (Slots.laidOver readInstr { op := .text } {} (instrs.map Instr.toJson)).map fun instrs =>
        { name, instrs := some instrs } := rfl
  rw [read, laidOver_toJson h]
  rfl

/-- A program is read back from its tree, and a list that is not there is not there again. -/
theorem ofJson_toJson {s : StoredProgram} (h : s.Storable) : ofJson s.toJson = .ok s := by
  obtain ⟨name, instrs⟩ := s
  cases instrs with
  | none =>
    rw [toJson, ofJson, List.foldlM_cons]
    simp only [setDraft_name, bind, Except.bind, List.foldlM_cons, List.foldlM_nil, setDraft_instrs_null]
    rfl
  | some instrs =>
    rw [toJson, ofJson, List.foldlM_cons]
    simp only [setDraft_name, bind, Except.bind, List.foldlM_cons, List.foldlM_nil,
      setDraft_instrs_array (h.instrs instrs rfl)]
    rfl

/-- What was stored is read again. -/
theorem decode_compact {s : StoredProgram} (h : s.Storable) : decode s.toJson.compact = .ok s := by
  have shallow : s.toJson.height ≤ maxHeight := Nat.le_trans h.height_le (by decide)
  rw [decode, parse_compact h.plain shallow]
  exact ofJson_toJson h

end StoredProgram

/-- What `encode` writes is read as the program it was written for. -/
theorem Program.decode_encode {p : Program} (storable : p.stored.Storable) :
    StoredProgram.decode p.encode = .ok p.stored :=
  StoredProgram.decode_compact storable

/-- **Stored programs are read back.** A linked program that is stored and read again, its list of
instructions missing or not, links again: under its name, with every field of every instruction, with
each label at its place, and with the same runs in every state. -/
theorem StoredProgram.reads_stored {s : StoredProgram} {p : Program} (linked : s.link = .ok p) (storable : s.Storable) :
    ∃ t q, decode s.toJson.compact = .ok t ∧ t.link = .ok q ∧ t.name = s.name ∧ t.instrs = s.instrs ∧
      q.name = p.name ∧ q.instrs = p.instrs ∧ (∀ label, q.target label = p.target label) ∧
      ∀ host state, Render.run host q state = Render.run host p state :=
  ⟨s, p, decode_compact storable, linked, rfl, rfl, rfl, rfl, fun _ => rfl, fun _ _ => rfl⟩

/-- A program with an escaped text, a jump backwards and a scope that is closed in a mode. -/
def StoredProgram.spinner : StoredProgram where
  name := "a\"b<c>"
  instrs := some [{ op := .label, label := -7 }, { op := .text, text := "<i>&\u2028\t\x01é" },
    { op := .enterScope }, { op := .exitScope, name := "head", mode := .push },
    { op := .emit, expr := "x + 1", escape := true }, { op := .jumpIfNot, expr := "y", label := -7 }]

theorem StoredProgram.reads_stored_spinner :
    ∃ p, spinner.link = .ok p ∧ spinner.Storable ∧ ∃ t q, decode spinner.toJson.compact = .ok t ∧ t.link = .ok q ∧
      t.name = spinner.name ∧ t.instrs = spinner.instrs ∧ q.name = p.name ∧ q.instrs = p.instrs ∧
      (∀ label, q.target label = p.target label) ∧
      ∀ host state, Render.run host q state = Render.run host p state := by
  have linked : spinner.link = .ok ⟨spinner.name, spinner.instrs.getD []⟩ := by rfl
  have storable : spinner.Storable := by
    refine ⟨by decide +kernel, fun is his i hi => ?_⟩
    obtain rfl : spinner.instrs.getD [] = is := by rw [his]; rfl
    have each : (spinner.instrs.getD []).all (fun i => decide (i.op ∈ Op.all) && decide (i.mode ∈ ScopeMode.all) &&
        isValid i.text && isValid i.expr && isValid i.name && isValid i.key && decide (-(wordLimit : Int) ≤ i.label) &&
        decide (i.label < wordLimit)) = true := by decide +kernel
    have fits := List.all_eq_true.1 each i hi
    simp only [Bool.and_eq_true, decide_eq_true_eq] at fits
    obtain ⟨⟨⟨⟨⟨⟨⟨op, mode⟩, text⟩, expr⟩, name⟩, key⟩, low⟩, high⟩ := fits
    exact ⟨op, mode, text, expr, name, key, low, high⟩
  exact ⟨_, linked, storable, reads_stored linked storable⟩

end Stencil
