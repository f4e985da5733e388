import Stencil.Build.UnitRecord
import Stencil.Proofs.Json.Mending
import Stencil.Proofs.Program.Stored
import Stencil.Proofs.Text.Order

/-! # Records of compiled templates read back

The text of a record gives the program exactly as it was stored, since the program is cut out of it, and each table
with mended names and texts, since these are written and read as strings (`UnitRecord.decode_encode`). -/

namespace Stencil

open Json Text.Utf8

/-! ### The tree of a record -/

/-- Members whose values are texts, integers and truth values. -/
def Json.Flat (members : List (Bytes × Json)) : Prop := ∀ m ∈ members, Integral m.2 ∧ m.2.height = 0

theorem Json.Flat.append {ms ns : List (Bytes × Json)} (hm : Flat ms) (hn : Flat ns) : Flat (ms ++ ns) :=
  fun m h => (List.mem_append.mp h).elim (hm m) (hn m)

theorem Json.flat_nil : Flat [] := nofun

theorem Json.flat_singleton (name : Bytes) {j : Json} (hj : Integral j) (flat : j.height = 0) : Flat [member name j] :=
  fun _ hm => List.mem_singleton.mp hm ▸ ⟨hj, flat⟩

theorem Instr.flat_textMember (name s : Bytes) : Flat (textMember name s) := by
  rw [textMember]
  split
  · exact flat_nil
  · exact flat_singleton _ (.string s) rfl

theorem Instr.exists_flat (i : Instr) : ∃ members, i.toJson = .object members ∧ Flat members := by
  refine ⟨_, rfl, ?_⟩
  have htexts := (((flat_singleton "op" (.string i.op.name) rfl).append (flat_textMember "text" i.text)).append
    (flat_textMember "expr" i.expr)).append (flat_textMember "name" i.name)
  refine (((htexts.append (flat_textMember "key" i.key)).append ?_).append ?_).append ?_
  · split
    · exact flat_nil
    · exact flat_singleton _ (.int i.label) rfl
  · split
    · exact flat_singleton _ (.bool true) rfl
    · exact flat_nil
  · split
    · exact flat_nil
    · exact flat_singleton _ (.string i.mode.name) rfl

theorem Program.integral_stored (p : Program) : Integral p.stored.toJson ∧ p.stored.toJson.height ≤ 3 := by
  have hinstr (i : Instr) : Integral i.toJson ∧ i.toJson.height ≤ 1 := by
    obtain ⟨members, hi, hflat⟩ := i.exists_flat
    rw [hi, height]
    exact ⟨.object fun m hm => (hflat m hm).1,
      Nat.add_le_add_right (heightMembers_le fun m hm => Nat.le_of_eq (hflat m hm).2) 1⟩
  have hlist : Integral (.array (p.instrs.map Instr.toJson)) ∧ height (.array (p.instrs.map Instr.toJson)) ≤ 2 := by
    refine ⟨.array fun j hj => ?_, Nat.add_le_add_right (heightList_le fun j hj => ?_) 1⟩
    · obtain ⟨i, -, rfl⟩ := List.mem_map.mp hj
      exact (hinstr i).1
    · obtain ⟨i, -, rfl⟩ := List.mem_map.mp hj
      exact (hinstr i).2
  refine ⟨.object fun m hm => ?_, ?_⟩
  · simp only [stored, List.mem_cons, List.not_mem_nil, or_false] at hm
    rcases hm with rfl | rfl
    · exact .string p.name
    · exact hlist.1
  · have := hlist.2
    simp only [StoredProgram.toJson, stored, height, heightMembers] at this ⊢
    omega

namespace UnitRecord

/-! ### Tables -/

/-- A table as it is read from the text of a record. -/
def reread (table : Assoc Bytes Bytes) : Assoc Bytes Bytes :=
  (Assoc.sorted table).foldl (fun t e => Assoc.insert (mend e.1) (mend e.2) t) []

/-- The members that a table is written as. -/
def tableTree (table : Assoc Bytes Bytes) : Json := .object ((Assoc.sorted table).map fun e => (e.1, .string e.2))

theorem reread_nil : reread [] = [] := by simp [reread, Assoc.sorted]

theorem readTable_mended (table : Assoc Bytes Bytes) :
    readTable (readText []) [] (mended (tableTree table)) = some (reread table) := by
  have hfold (old : Assoc Bytes Bytes) (es : List (Bytes × Bytes)) :
      (es.map fun e => (mend e.1, mended (.string e.2))).foldlM
        (fun t m => (readText [] m.2).map fun v => Assoc.insert m.1 v t) old =
      some (es.foldl (fun t e => Assoc.insert (mend e.1) (mend e.2) t) old) := by
    induction es generalizing old with
    | nil => rfl
    | cons e es ih =>
      rw [List.map_cons, List.foldlM_cons, List.foldl_cons, ← ih]
      rw [mended]
      rfl
  rw [tableTree, mended, mendedMembers_eq, List.map_map, readTable, reread, ← hfold]
  rfl

theorem flat_tableTree (table : Assoc Bytes Bytes) : Integral (tableTree table) ∧ (tableTree table).height ≤ 1 := by
  have hflat : Flat ((Assoc.sorted table).map fun e => (e.1, Json.string e.2)) := by
    intro m hm
    obtain ⟨e, -, rfl⟩ := List.mem_map.mp hm
    exact ⟨.string e.2, rfl⟩
  exact ⟨.object fun m hm => (hflat m hm).1,
    Nat.add_le_add_right (heightMembers_le fun m hm => Nat.le_of_eq (hflat m hm).2) 1⟩

theorem mem_reread {e : Bytes × Bytes} {table : Assoc Bytes Bytes} (h : e ∈ reread table) :
    ∃ e' ∈ table, (mend e'.1, mend e'.2) = e := by
  have hfold (es : List (Bytes × Bytes)) (old : Assoc Bytes Bytes)
      (h : e ∈ es.foldl (fun t e => Assoc.insert (mend e.1) (mend e.2) t) old) :
      e ∈ old ∨ ∃ e' ∈ es, (mend e'.1, mend e'.2) = e := by
    induction es generalizing old with
    | nil => exact .inl h
    | cons e' es ih =>
      obtain h | ⟨e'', he'', heq⟩ := ih _ h
      · exact (Assoc.mem_insert_cases h).imp_right fun heq => ⟨e', List.mem_cons_self, heq.symm⟩
      · exact .inr ⟨e'', List.mem_cons_of_mem _ he'', heq⟩
  obtain h | ⟨e', he', heq⟩ := hfold _ _ h
  · cases h
  · exact ⟨e', (Assoc.perm_sorted table).mem_iff.mp he', heq⟩

/-- A table that binds each name once, and only valid ones, is read in the order of the names, with mended texts. -/
theorem reread_of_nodup {table : Assoc Bytes Bytes} (hkeys : (Assoc.keys table).Nodup)
    (hnames : ∀ e ∈ table, isValid e.1 = true) :
    reread table = Assoc.sorted (table.map fun e => (e.1, mend e.2)) := by
  have hfold (es : List (Bytes × Bytes)) (hes : ∀ e ∈ es, isValid e.1 = true) (old : Assoc Bytes Bytes)
      (h : (Assoc.keys old ++ Assoc.keys es).Nodup) :
      es.foldl (fun t e => Assoc.insert (mend e.1) (mend e.2) t) old = old ++ es.map fun e => (e.1, mend e.2) := by
    induction es generalizing old with
    | nil => simp
    | cons e es ih =>
      have hfresh : Assoc.get? e.1 old = none := by
        rw [Assoc.get?_eq_none_iff]
        exact fun hmem => (List.nodup_append.mp h).2.2 e.1 hmem e.1 List.mem_cons_self rfl
      rw [List.foldl_cons, mend_of_isValid (hes e List.mem_cons_self), Assoc.insert_of_none _ hfresh,
        ih (fun e' he' => hes e' (List.mem_cons_of_mem _ he')) _ (by simpa [Assoc.keys] using h)]
      simp
  rw [reread, hfold _ (fun e he => hnames e ((Assoc.perm_sorted table).mem_iff.mp he)) [] (Assoc.nodup_keys_sorted hkeys),
    List.nil_append]
  exact List.map_mergeSort fun a _ b _ => rfl

theorem map_mend_of_isValid {table : Assoc Bytes Bytes} (h : ∀ e ∈ table, isValid e.2 = true) :
    table.map (fun e => (e.1, mend e.2)) = table :=
  (List.map_congr_left fun e he => by rw [mend_of_isValid (h e he), id]).trans (List.map_id table)

/-! ### Records -/

/-- The record of a template, as it is read from its text. -/
def ofTemplate (p : Program) (t : Compile.Template) : UnitRecord where
  program := p.encode
  channels := reread t.channels
  deps := reread t.deps

/-- The members of a record. -/
def membersOf (p : Program) (t : Compile.Template) : List (Bytes × Json) :=
  member "program" p.stored.toJson :: tableMember "channels" t.channels ++ tableMember "deps" t.deps

theorem tableMember_eq (name : Bytes) (table : Assoc Bytes Bytes) :
    tableMember name table = if table = [] then [] else [(name, tableTree table)] := rfl

theorem mem_tableMember {name : Bytes} {table : Assoc Bytes Bytes} {m : Bytes × Json} (h : m ∈ tableMember name table) :
    m = (name, tableTree table) := by
  rw [tableMember_eq] at h
  split at h
  · cases h
  · exact List.mem_singleton.mp h

theorem mem_membersOf {p : Program} {t : Compile.Template} {m : Bytes × Json} (h : m ∈ membersOf p t) :
    m = member "program" p.stored.toJson ∨ m = member "channels" (tableTree t.channels) ∨
      m = member "deps" (tableTree t.deps) := by
  rcases List.mem_append.mp h with h | h
  · exact (List.mem_cons.mp h).imp_right fun h => .inl (mem_tableMember h)
  · exact .inr (.inr (mem_tableMember h))

theorem integral_membersOf (p : Program) (t : Compile.Template) : Integral (.object (membersOf p t)) ∧
    height (.object (membersOf p t)) ≤ 4 := by
  have heach : ∀ m ∈ membersOf p t, Integral m.2 ∧ m.2.height ≤ 3 := by
    intro m hm
    rcases mem_membersOf hm with rfl | rfl | rfl
    · exact p.integral_stored
    · exact ⟨(flat_tableTree _).1, Nat.le_trans (flat_tableTree _).2 (by decide)⟩
    · exact ⟨(flat_tableTree _).1, Nat.le_trans (flat_tableTree _).2 (by decide)⟩
  exact ⟨.object fun m hm => (heach m hm).1, Nat.add_le_add_right (heightMembers_le fun m hm => (heach m hm).2) 1⟩

/-- The program is cut out of the text of a record. -/
theorem programText_encode (p : Program) (t : Compile.Template) : programText (encode p t) = p.encode := by
  have hraw : rawMembers (encode p t) = (membersOf p t).map fun m => (mend m.1, m.2.compact) :=
    rawMembers_compact (List.cons_ne_nil _ _) fun m hm => by
      rcases mem_membersOf hm with rfl | rfl | rfl
      · exact p.integral_stored.1
      · exact (flat_tableTree _).1
      · exact (flat_tableTree _).1
  have hprogram : mend "program" = "program" := mend_of_isValid (isValid_of_ascii rfl)
  have hother {name : Bytes} (hname : sameField (mend name) "program" = false) (table : Assoc Bytes Bytes) :
      ((tableMember name table).map fun m => (mend m.1, m.2.compact)).filter (fun m => sameField m.1 "program") = [] := by
    rw [tableMember_eq]
    split <;> simp [hname]
  have hchannels : sameField (mend "channels") "program" = false := by
    rw [mend_of_isValid (isValid_of_ascii rfl)]
    rfl
  have hdeps : sameField (mend "deps") "program" = false := by
    rw [mend_of_isValid (isValid_of_ascii rfl)]
    rfl
  rw [programText, hraw, membersOf, List.map_append, List.filter_append, hother hdeps, List.append_nil, List.map_cons,
    List.filter_cons, hother hchannels, member, hprogram]
  rfl

theorem setField_channels (r : UnitRecord) (j : Json) :
    setField r "channels" j = (readTable (readText []) r.channels j).map fun channels => { r with channels } := rfl

theorem setField_deps (r : UnitRecord) (j : Json) :
    setField r "deps" j = (readTable (readText []) r.deps j).map fun deps => { r with deps } := rfl

/-- The members set the fields of a record one after the other. -/
def setFields (r : UnitRecord) (members : List (Bytes × Json)) : Option UnitRecord :=
  members.foldlM (fun r m => setField r m.1 m.2) r

theorem setFields_append (r : UnitRecord) (ms ns : List (Bytes × Json)) :
    setFields r (ms ++ ns) = (setFields r ms).bind fun r => setFields r ns := List.foldlM_append

/-- A table is read from its member; an empty one has no member and is empty from the start. -/
theorem setFields_tableMember {r r' : UnitRecord} {name : Bytes} {table : Assoc Bytes Bytes}
    (hname : isValid name = true) (hempty : table = [] → r' = r)
    (hset : setField r name (mended (tableTree table)) = some r') :
    setFields r (mendedMembers (tableMember name table)) = some r' := by
  rw [tableMember_eq]
  split
  · rename_i htable
    rw [hempty htable, mendedMembers]
    rfl
  · rw [mendedMembers, mendedMembers, mend_of_isValid hname, setFields, List.foldlM_cons]
    simp only [hset]
    rfl

/-- A record is read from its text with the very text of its program, and with mended tables. -/
theorem decode_encode (p : Program) (t : Compile.Template) : decode (encode p t) = some (ofTemplate p t) := by
  have hread : parse (encode p t) = some (.object (mendedMembers (membersOf p t))) := by
    have hparse := parse_compact_mended (integral_membersOf p t).1
      (Nat.le_trans (integral_membersOf p t).2 (by decide))
    rwa [mended] at hparse
  have hprogram : setFields {} (mendedMembers [member "program" p.stored.toJson]) = some {} := by
    rw [mendedMembers, mendedMembers, member, mend_of_isValid (isValid_of_ascii rfl)]
    rfl
  have hchannels : setFields {} (mendedMembers (tableMember "channels" t.channels)) =
      some { channels := reread t.channels } := by
    refine setFields_tableMember (isValid_of_ascii rfl) (fun h => by rw [h, reread_nil]) ?_
    rw [setField_channels, readTable_mended]
    rfl
  have hdeps : setFields { channels := reread t.channels } (mendedMembers (tableMember "deps" t.deps)) =
      some { channels := reread t.channels, deps := reread t.deps } := by
    refine setFields_tableMember (isValid_of_ascii rfl) (fun h => by rw [h, reread_nil]) ?_
    rw [setField_deps, readTable_mended]
    rfl
  have hmembers : setFields {} (mendedMembers (membersOf p t)) =
      some { channels := reread t.channels, deps := reread t.deps } := by
    rw [membersOf, List.cons_append, ← List.singleton_append, mendedMembers_eq, List.map_append, List.map_append,
      ← mendedMembers_eq, ← mendedMembers_eq, ← mendedMembers_eq, setFields_append, hprogram, Option.bind_some,
      setFields_append, hchannels, Option.bind_some, hdeps]
  rw [decode, hread]
  simp only [Option.bind_eq_bind, Option.bind_some, readRecord]
  rw [← setFields, hmembers, Option.bind_some, programText_encode]
  rfl

end UnitRecord

end Stencil
