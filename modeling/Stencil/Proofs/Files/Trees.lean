import Stencil.Proofs.Files.Places

/-! # Reading after writing

What a path leads to depends on the directories that it leads through only (`locate_of_directories`). So a file that
was written is read, files at other places stay as they are, and where only something is taken away, what can be read
could be read before. -/

namespace Stencil.FileTree

section
variable {t t' : FileTree} {place : FilePlace} {path other content data : Bytes}

/-! ### Following a path -/

theorem enter_eq_ok {name : Bytes} {q : FilePlace} (h : t.enter place name = .ok q) :
    t.node? place = some .directory ∧ q = next place name := by
  unfold enter at h
  split at h
  · cases h
  · cases h
  · rename_i hplace
    refine ⟨hplace, ?_⟩
    unfold next
    split at h
    · rename_i hstay
      rw [if_pos hstay]
      exact (Except.ok.inj h).symm
    rename_i hstay
    rw [if_neg hstay]
    split at h
    · rename_i habove
      rw [if_pos habove]
      exact (Except.ok.inj h).symm
    rename_i habove
    rw [if_neg habove]
    split at h
    · cases h
    · exact (Except.ok.inj h).symm

theorem enter_congr {name : Bytes} (h : t.node? place = some .directory) (h' : t'.node? place = some .directory) :
    t'.enter place name = t.enter place name := by
  unfold enter
  rw [h, h']

/-- A path that can be followed leads through directories to its place. -/
theorem foldlM_enter {names : List Bytes} {q : FilePlace} (h : names.foldlM t.enter place = .ok q) :
    q = names.foldl next place ∧ ∀ t' : FileTree, (∀ r, t.node? r = some .directory → t'.node? r = some .directory) →
      names.foldlM t'.enter place = .ok q := by
  induction names generalizing place with
  | nil => exact ⟨(Except.ok.inj h).symm, fun _ _ => h⟩
  | cons name names ih =>
    rw [List.foldlM_cons] at h
    cases hfirst : t.enter place name with
    | error problem =>
      rw [hfirst] at h
      cases h
    | ok r =>
      rw [hfirst] at h
      obtain ⟨hdirectory, rfl⟩ := enter_eq_ok hfirst
      obtain ⟨hplace, hother⟩ := ih h
      refine ⟨hplace, fun t' hkeeps => ?_⟩
      rw [List.foldlM_cons, enter_congr hdirectory (hkeeps place hdirectory), hfirst]
      exact hother t' hkeeps

theorem placeOf_of_locate {q : FilePlace} (h : t.locate path = .ok q) : q = placeOf path := by
  unfold locate at h
  split at h
  · cases h
  split at h
  · cases h
  split at h
  · cases h
  · exact (foldlM_enter h).1

/-- A path leads to the same place in a tree with the same directories. -/
theorem locate_of_directories (hkeeps : ∀ r, t.node? r = some .directory → t'.node? r = some .directory)
    {q : FilePlace} (h : t.locate path = .ok q) : t'.locate path = .ok q := by
  unfold locate at h ⊢
  split at h
  · cases h
  rename_i hnil
  rw [if_neg hnil]
  split at h
  · cases h
  rename_i hzero
  rw [if_neg hzero]
  split at h
  · cases h
  rename_i hlong
  rw [if_neg hlong]
  exact (foldlM_enter h).2 t' hkeeps

/-! ### Reading -/

theorem read_eq_ok : t.read path = .ok data ↔
    t.locate path = .ok (placeOf path) ∧ t.node? (placeOf path) = some (.file data) := by
  unfold read
  constructor
  · intro h
    split at h
    · cases h
    rename_i q hlocate
    obtain rfl := placeOf_of_locate hlocate
    split at h
    · cases h
    · cases h
    · rename_i content hnode
      cases h
      exact ⟨hlocate, hnode⟩
  · rintro ⟨hlocate, hnode⟩
    rw [hlocate]
    simp only [hnode]

theorem toOption_read : (t.read path).toOption = some data ↔ t.read path = .ok data := by
  cases t.read path with
  | error e => exact ⟨nofun, nofun⟩
  | ok content =>
    exact ⟨fun h => congrArg Except.ok (Option.some.inj h), fun h => congrArg Option.some (Except.ok.inj h)⟩

/-- What can be read where something was taken away could be read before. -/
theorem read_of_nodes (hkeeps : ∀ r n, t'.node? r = some n → t.node? r = some n) (h : t'.read path = .ok data) :
    t.read path = .ok data := by
  obtain ⟨hlocate, hnode⟩ := read_eq_ok.mp h
  exact read_eq_ok.mpr ⟨locate_of_directories (fun r => hkeeps r .directory) hlocate, hkeeps _ _ hnode⟩

/-- Reading depends on the directories and on the node at the place. -/
theorem read_congr (hdirectories : ∀ r, t.node? r = some .directory ↔ t'.node? r = some .directory)
    (hnode : t.node? (placeOf path) = t'.node? (placeOf path)) :
    (t.read path).toOption = (t'.read path).toOption := by
  have hreads (data : Bytes) : t.read path = .ok data ↔ t'.read path = .ok data := by
    rw [read_eq_ok, read_eq_ok, hnode]
    constructor
    · exact fun h => ⟨locate_of_directories (fun r => (hdirectories r).mp) h.1, h.2⟩
    · exact fun h => ⟨locate_of_directories (fun r => (hdirectories r).mpr) h.1, h.2⟩
  cases h : t.read path with
  | ok data => rw [(hreads data).mp h]
  | error e =>
    cases h' : t'.read path with
    | ok data =>
      rw [(hreads data).mpr h'] at h
      cases h
    | error e' => rfl

/-! ### Writing -/

theorem node?_insert_self (hplace : place ≠ []) (n : FileNode) :
    node? { nodes := Assoc.insert place n t.nodes } place = some n := by
  rw [node?, if_neg hplace, Assoc.get?_insert_self]

theorem node?_insert_ne {r : FilePlace} (h : r ≠ place) (n : FileNode) :
    node? { nodes := Assoc.insert place n t.nodes } r = t.node? r := by
  rw [node?, node?, Assoc.get?_insert_ne h]

theorem write_eq_ok (h : t.write path content = .ok t') :
    t.locate path = .ok (placeOf path) ∧ t.node? (placeOf path) ≠ some .directory ∧
      t' = { nodes := Assoc.insert (placeOf path) (.file content) t.nodes } := by
  unfold write at h
  split at h
  · cases h
  split at h
  · cases h
  rename_i q hlocate
  obtain rfl := placeOf_of_locate hlocate
  split at h
  · cases h
  · rename_i hnode
    exact ⟨hlocate, hnode, (Except.ok.inj h).symm⟩

theorem exists_write_of_read (h : t.read path = .ok data) (hpath : Bytes.endsWith "/" path = false) (content : Bytes) :
    ∃ t', t.write path content = .ok t' := by
  obtain ⟨hlocate, hnode⟩ := read_eq_ok.mp h
  unfold write
  rw [if_neg (by simp [hpath]), hlocate]
  simp only [hnode]
  exact ⟨_, rfl⟩

theorem ne_nil_of_node? (h : t.node? place ≠ some .directory) : place ≠ [] := by
  rintro rfl
  exact h (if_pos rfl)

theorem directory_write_iff (h : t.write path content = .ok t') (r : FilePlace) :
    t.node? r = some .directory ↔ t'.node? r = some .directory := by
  obtain ⟨-, hnode, rfl⟩ := write_eq_ok h
  by_cases hr : r = placeOf path
  · subst hr
    rw [node?_insert_self (ne_nil_of_node? hnode)]
    exact ⟨fun hdirectory => absurd hdirectory hnode, nofun⟩
  · rw [node?_insert_ne hr]

theorem read_write_self (h : t.write path content = .ok t') (hread : t'.read path = .ok data) : data = content := by
  obtain ⟨-, hnode, rfl⟩ := write_eq_ok h
  have hfile := (read_eq_ok.mp hread).2
  rw [node?_insert_self (ne_nil_of_node? hnode)] at hfile
  cases hfile
  rfl

theorem read_write_ne (h : t.write path content = .ok t') (hother : placeOf other ≠ placeOf path) :
    (t'.read other).toOption = (t.read other).toOption := by
  have hdirectories := directory_write_iff h
  obtain ⟨-, -, rfl⟩ := write_eq_ok h
  exact (read_congr hdirectories (node?_insert_ne hother _).symm).symm

/-! ### Taking away -/

theorem get?_filter_keys {p : FilePlace → Bool} {r : FilePlace} {n : FileNode} {nodes : Assoc FilePlace FileNode}
    (h : Assoc.get? r (nodes.filter fun e => p e.1) = some n) : Assoc.get? r nodes = some n := by
  induction nodes with
  | nil => cases h
  | cons e nodes ih =>
    obtain ⟨k, v⟩ := e
    rw [Assoc.get?]
    by_cases hk : k = r
    · rw [if_pos hk]
      subst hk
      rw [List.filter_cons] at h
      split at h
      · simpa [Assoc.get?] using h
      · rename_i hp
        have hnone : Assoc.get? k (nodes.filter fun e => p e.1) = none := by
          rw [Assoc.get?_eq_none_iff]
          intro hmem
          obtain ⟨e, he, rfl⟩ := List.mem_map.mp hmem
          exact hp (List.mem_filter.mp he).2
        rw [hnone] at h
        cases h
    · rw [if_neg hk]
      refine ih ?_
      rw [List.filter_cons] at h
      split at h
      · rwa [Assoc.get?, if_neg hk] at h
      · exact h

theorem node?_of_filter {p : FilePlace → Bool} {r : FilePlace} {n : FileNode}
    (h : node? { nodes := t.nodes.filter fun e => p e.1 } r = some n) : t.node? r = some n := by
  unfold node? at h ⊢
  split at h
  · rename_i hr
    rw [if_pos hr]
    exact h
  · rename_i hr
    rw [if_neg hr]
    exact get?_filter_keys h

theorem node?_of_remove {r : FilePlace} {n : FileNode} (h : (t.remove path).node? r = some n) : t.node? r = some n := by
  unfold remove at h
  split at h
  · exact h
  split at h
  · exact node?_of_filter (p := fun k => decide (k ≠ _)) h
  · split at h
    · exact node?_of_filter (p := fun k => decide (k ≠ _)) h
    · exact h
  · exact h

theorem node?_of_removeAll (hremove : t.removeAll path = .ok t') {r : FilePlace} {n : FileNode}
    (h : t'.node? r = some n) : t.node? r = some n := by
  unfold removeAll at hremove
  split at hremove
  · cases hremove
    exact h
  split at hremove
  · cases hremove
  split at hremove
  · cases hremove
    exact node?_of_filter (p := fun k => !isAtOrBelow _ k) h
  · cases hremove
    exact h
  simp only at hremove
  split at hremove
  · cases hremove
    exact h
  · cases hremove
  split at hremove
  · cases hremove
    exact node?_of_filter (p := fun k => !isAtOrBelow _ k) h
  · cases hremove
    exact h
  · cases hremove

theorem node?_remove_ne {r : FilePlace} (h : r ≠ placeOf path) : (t.remove path).node? r = t.node? r := by
  have herase : node? { nodes := Assoc.erase (placeOf path) t.nodes } r = t.node? r := by
    rw [node?, node?, Assoc.get?_erase_ne h]
  unfold remove
  split
  · rfl
  rename_i q hlocate
  obtain rfl := placeOf_of_locate hlocate
  split
  · exact herase
  · split
    · exact herase
    · rfl
  · rfl

theorem read_remove_ne (hnode : t.node? (placeOf path) ≠ some .directory) (hother : placeOf other ≠ placeOf path) :
    ((t.remove path).read other).toOption = (t.read other).toOption := by
  refine read_congr (fun r => ⟨node?_of_remove, fun hdirectory => ?_⟩) (node?_remove_ne hother)
  have hr : r ≠ placeOf path := by
    rintro rfl
    exact hnode hdirectory
  rw [node?_remove_ne hr]
  exact hdirectory

end

end Stencil.FileTree
