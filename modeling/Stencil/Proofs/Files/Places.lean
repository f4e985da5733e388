import Stencil.FileTree
import Stencil.Proofs.Maps

/-! # Places of paths

Which place a path leads to is told by its names alone (`placeOf`); the tree only tells whether one gets there. So
paths below one directory lead to different places when they end with different names (`placeOf_join`). -/

namespace Stencil

/-! ### Splitting at a byte -/

namespace Bytes

variable {sep : UInt8}

attribute [local simp] splitOn

theorem splitOn_ne_nil (s : Bytes) : splitOn sep s ≠ [] := by
  cases s with
  | nil => exact List.cons_ne_nil _ _
  | cons c s =>
    rw [splitOn]
    split
    · exact List.cons_ne_nil _ _
    split
    · exact List.cons_ne_nil _ _
    · exact List.cons_ne_nil _ _

theorem splitOn_cons_self (s : Bytes) : splitOn sep (sep :: s) = [] :: splitOn sep s := by
  rw [splitOn]
  split
  · rename_i h
    exact absurd h (splitOn_ne_nil s)
  · rename_i h
    rw [if_pos rfl, h]

theorem splitOn_append (a b : Bytes) : splitOn sep (a ++ sep :: b) = splitOn sep a ++ splitOn sep b := by
  induction a with
  | nil => exact splitOn_cons_self b
  | cons c a ih =>
    rw [List.cons_append, splitOn, ih, splitOn]
    cases h : splitOn sep a with
    | nil => exact absurd h (splitOn_ne_nil a)
    | cons piece rest =>
      simp only [List.cons_append]
      split
      · rfl
      · rfl

theorem splitOn_of_notMem {a : Bytes} (h : sep ∉ a) : splitOn sep a = [a] := by
  induction a with
  | nil => rfl
  | cons c a ih =>
    obtain ⟨hc, ha⟩ := not_or.mp (mt List.mem_cons.mpr h)
    simp [ih ha, Ne.symm hc]

/-- Text without the separator belongs to the last piece. -/
theorem exists_splitOn_append {b : Bytes} (hb : sep ∉ b) (a : Bytes) :
    ∃ front last, splitOn sep a = front ++ [last] ∧ splitOn sep (a ++ b) = front ++ [last ++ b] := by
  induction a with
  | nil => exact ⟨[], [], rfl, splitOn_of_notMem hb⟩
  | cons c a ih =>
    obtain ⟨front, last, ha, hab⟩ := ih
    rw [List.cons_append, splitOn, splitOn, ha, hab]
    cases front with
    | nil =>
      by_cases hc : c = sep
      · exact ⟨[[]], last, if_pos hc, if_pos hc⟩
      · exact ⟨[], c :: last, if_neg hc, if_neg hc⟩
    | cons piece front =>
      by_cases hc : c = sep
      · exact ⟨[] :: piece :: front, last, if_pos hc, if_pos hc⟩
      · exact ⟨(c :: piece) :: front, last, if_neg hc, if_neg hc⟩

theorem splitOn_join {es : List Bytes} (hne : es ≠ []) (h : ∀ e ∈ es, sep ∉ e) : splitOn sep (join [sep] es) = es := by
  induction es with
  | nil => exact absurd rfl hne
  | cons e es ih =>
    obtain ⟨he, hes⟩ := List.forall_mem_cons.mp h
    cases es with
    | nil => simpa [join] using splitOn_of_notMem he
    | cons e' es =>
      have hjoin : join [sep] (e :: e' :: es) = e ++ sep :: join [sep] (e' :: es) := by simp [join]
      rw [hjoin, splitOn_append, splitOn_of_notMem he, ih (List.cons_ne_nil _ _) hes]
      rfl

theorem notMem_of_mem_splitOn {s e : Bytes} (h : e ∈ splitOn sep s) : sep ∉ e := by
  induction s generalizing e with
  | nil =>
    obtain rfl := List.mem_singleton.mp h
    exact List.not_mem_nil
  | cons c s ih =>
    rw [splitOn] at h
    cases hs : splitOn sep s with
    | nil => exact absurd hs (splitOn_ne_nil s)
    | cons piece rest =>
      rw [hs] at h ih
      simp only at h
      split at h
      · rcases List.mem_cons.mp h with rfl | h
        · exact List.not_mem_nil
        · exact ih h
      · rename_i hc
        rcases List.mem_cons.mp h with rfl | h
        · rw [List.mem_cons, not_or]
          exact ⟨Ne.symm hc, ih List.mem_cons_self⟩
        · exact ih (List.mem_cons_of_mem piece h)

end Bytes

/-! ### Names of paths -/

namespace Path

/-- A name that leads further into a tree. -/
structure IsEntry (e : Bytes) : Prop where
  nonempty : e ≠ []
  notHere : e ≠ here
  notAbove : e ≠ above
  noSlash : slash ∉ e

theorem push_of_isEntry {e : Bytes} (he : IsEntry e) (rooted : Bool) (place : List Bytes) :
    push rooted place e = e :: place := by
  unfold push
  rw [if_neg (not_or.mpr ⟨he.nonempty, he.notHere⟩), if_neg he.notAbove]

theorem normal_append {ns : List Bytes} (hns : ∀ n ∈ ns, IsEntry n) (rooted : Bool) (es : List Bytes) :
    normal rooted (es ++ ns) = normal rooted es ++ ns := by
  have hfold : ∀ place, ns.foldl (push rooted) place = ns.reverse ++ place := by
    induction ns with
    | nil => exact fun _ => rfl
    | cons n ns ih =>
      obtain ⟨hn, hns⟩ := List.forall_mem_cons.mp hns
      intro place
      rw [List.foldl_cons, push_of_isEntry hn, ih hns, List.reverse_cons, List.append_assoc]
      rfl
  rw [normal, List.foldl_append, hfold, List.reverse_append, List.reverse_reverse, normal]

/-- A normal path has no empty names, and no slashes in its names. -/
theorem of_mem_normal {rooted : Bool} {es : List Bytes} (hes : ∀ e ∈ es, slash ∉ e) :
    ∀ e ∈ normal rooted es, e ≠ [] ∧ slash ∉ e := by
  have hfold : ∀ place, (∀ e ∈ place, e ≠ [] ∧ slash ∉ e) → ∀ e ∈ es.foldl (push rooted) place, e ≠ [] ∧ slash ∉ e := by
    induction es with
    | nil => exact fun _ hplace => hplace
    | cons n ns ih =>
      obtain ⟨hn, hns⟩ := List.forall_mem_cons.mp hes
      intro place hplace
      refine ih hns _ ?_
      have habove : above ≠ [] ∧ slash ∉ above := by decide
      intro e he
      unfold push at he
      split at he
      · exact hplace e he
      rename_i hstay
      split at he
      · split at he
        · split at he
          · cases he
          · obtain rfl := List.mem_singleton.mp he
            exact habove
        · rename_i last rest
          split at he
          · rcases List.mem_cons.mp he with rfl | he
            · exact habove
            · exact hplace e he
          · exact hplace e (List.mem_cons_of_mem last he)
      · rcases List.mem_cons.mp he with rfl | he
        · exact ⟨fun h => hstay (.inl h), hn⟩
        · exact hplace e he
  intro e he
  exact hfold [] (List.forall_mem_nil _) e (List.mem_reverse.mp he)

theorem elements_slash (p : Bytes) : elements (slash :: p) = [] :: elements p := Bytes.splitOn_cons_self p

theorem elements_join {es : List Bytes} (hne : es ≠ []) (hes : ∀ e ∈ es, slash ∉ e) :
    elements (Bytes.join [slash] es) = es := Bytes.splitOn_join hne hes

theorem isRooted_join {e : Bytes} (hne : e ≠ []) (hslash : slash ∉ e) (es : List Bytes) :
    isRooted (Bytes.join [slash] (e :: es)) = false := by
  cases e with
  | nil => exact absurd rfl hne
  | cons c e =>
    have hc : slash ≠ c := fun h => hslash (h ▸ List.mem_cons_self)
    have hjoin : ∃ rest, Bytes.join [slash] ((c :: e) :: es) = c :: rest := by
      cases es with
      | nil => exact ⟨e, by simp [Bytes.join]⟩
      | cons e' es => exact ⟨_, by simp [Bytes.join]; rfl⟩
    obtain ⟨rest, hjoin⟩ := hjoin
    rw [hjoin]
    simp [isRooted, Bytes.startsWith, List.isPrefixOf, hc]

theorem normal_ne_slash (path : Bytes) (rooted : Bool) : ∀ e ∈ normal rooted (elements path), e ≠ [] ∧ slash ∉ e :=
  of_mem_normal fun _ he => Bytes.notMem_of_mem_splitOn he

theorem elements_clean (path : Bytes) (hne : normal (isRooted path) (elements path) ≠ []) :
    isRooted (clean path) = isRooted path ∧
      elements (clean path) = (if isRooted path then [[]] else []) ++ normal (isRooted path) (elements path) := by
  have hnames := normal_ne_slash path (isRooted path)
  have hsplit := elements_join hne fun e he => (hnames e he).2
  unfold clean
  cases hrooted : isRooted path with
  | true =>
    rw [hrooted] at hsplit
    rw [if_pos rfl, if_pos rfl, elements_slash, hsplit]
    exact ⟨rfl, rfl⟩
  | false =>
    rw [hrooted] at hsplit hne hnames
    rw [if_neg Bool.false_ne_true, if_neg Bool.false_ne_true]
    obtain ⟨e, es, hes⟩ := List.exists_cons_of_ne_nil hne
    rw [hes] at hsplit hnames ⊢
    obtain ⟨he, hslash⟩ := hnames e List.mem_cons_self
    exact ⟨isRooted_join he hslash es, hsplit⟩

/-- A path below a directory, before it is cleaned. -/
theorem exists_join (dir : Bytes) {ns : List Bytes} (hne : ns ≠ []) (hns : ∀ n ∈ ns, IsEntry n) :
    ∃ path, join [dir, Bytes.join [slash] ns] = clean path ∧ isRooted path = isRooted dir ∧
      normal (isRooted dir) (elements path) = normal (isRooted dir) (elements dir) ++ ns := by
  have hsplit : elements (Bytes.join [slash] ns) = ns := elements_join hne fun n hn => (hns n hn).noSlash
  obtain ⟨n, rest, rfl⟩ := List.exists_cons_of_ne_nil hne
  obtain ⟨hn, -⟩ := List.forall_mem_cons.mp hns
  have hnonempty : Bytes.join [slash] (n :: rest) ≠ [] := by
    intro hnil
    rw [hnil] at hsplit
    obtain ⟨rfl, -⟩ := List.cons_eq_cons.mp hsplit
    exact hn.nonempty rfl
  by_cases hdir : dir = []
  · subst hdir
    refine ⟨Bytes.join [slash] (n :: rest), ?_, isRooted_join hn.nonempty hn.noSlash rest, ?_⟩
    · rw [join, List.filter_cons_of_neg (by simp), List.filter_cons_of_pos (by simpa using hnonempty)]
      simp [Bytes.join]
    · rw [hsplit]
      exact normal_append hns false []
  · refine ⟨dir ++ slash :: Bytes.join [slash] (n :: rest), ?_, ?_, ?_⟩
    · rw [join, List.filter_cons_of_pos (by simpa using hdir), List.filter_cons_of_pos (by simpa using hnonempty)]
      simp [Bytes.join]
    · cases dir with
      | nil => exact absurd rfl hdir
      | cons c dir => simp [isRooted, Bytes.startsWith, List.isPrefixOf]
    · have helements : elements (dir ++ slash :: Bytes.join [slash] (n :: rest)) = elements dir ++ (n :: rest) := by
        rw [elements, Bytes.splitOn_append, ← elements, ← elements, hsplit]
      rw [helements, normal_append hns]

theorem endsWith_slash_join (dir : Bytes) {ns : List Bytes} (hne : ns ≠ []) (hns : ∀ n ∈ ns, IsEntry n) :
    Bytes.endsWith "/" (join [dir, Bytes.join [slash] ns]) = false := by
  obtain ⟨path, hjoin, hrooted, hnormal⟩ := exists_join dir hne hns
  rw [← hrooted] at hnormal
  have hnonempty : normal (isRooted path) (elements path) ≠ [] := by
    rw [hnormal]
    exact List.append_ne_nil_of_right_ne_nil _ hne
  have helements := (elements_clean path hnonempty).2
  rw [Bool.eq_false_iff]
  intro hend
  rw [hjoin] at hend
  obtain ⟨front, hfront⟩ := List.isSuffixOf_iff_suffix.mp hend
  have hlast := congrArg List.getLast? (congrArg elements hfront)
  have hsplit : elements (front ++ "/") = elements front ++ [[]] := Bytes.splitOn_append front []
  rw [hsplit, List.getLast?_concat, helements, hnormal, List.getLast?_append, List.getLast?_append,
    List.getLast?_eq_some_getLast hne, Option.some_or, Option.some_or] at hlast
  exact (hns _ (List.getLast_mem hne)).nonempty (Option.some.inj hlast).symm

end Path

namespace FileTree

/-- Where one gets from a directory by a name. -/
def next (place : FilePlace) (name : Bytes) : FilePlace :=
  if name = [] ∨ name = Path.here then place
  else if name = Path.above then
    if place = [] then [Path.above] else if place = rootPlace then rootPlace else place.dropLast
  else place ++ [name]

def startOf (path : Bytes) : FilePlace := if Path.isRooted path then rootPlace else []

/-- Where a path leads. -/
def placeOf (path : Bytes) : FilePlace := (Path.elements path).foldl next (startOf path)

/-- The place of a directory that others stand in. -/
def baseOf (dir : Bytes) : FilePlace := (Path.normal (Path.isRooted dir) (Path.elements dir)).foldl next (startOf dir)

theorem foldl_next {ns : List Bytes} (hns : ∀ n ∈ ns, Path.IsEntry n) (place : FilePlace) :
    ns.foldl next place = place ++ ns := by
  induction ns generalizing place with
  | nil => exact (List.append_nil place).symm
  | cons n ns ih =>
    obtain ⟨hn, hns⟩ := List.forall_mem_cons.mp hns
    rw [List.foldl_cons, ih hns, next, if_neg (not_or.mpr ⟨hn.nonempty, hn.notHere⟩), if_neg hn.notAbove,
      List.append_assoc]
    rfl

/-- A path below a directory leads below the place of the directory. -/
theorem placeOf_join (dir : Bytes) {ns : List Bytes} (hne : ns ≠ []) (hns : ∀ n ∈ ns, Path.IsEntry n) :
    placeOf (Path.join [dir, Bytes.join [Path.slash] ns]) = baseOf dir ++ ns := by
  obtain ⟨path, hjoin, hrooted, hnormal⟩ := Path.exists_join dir hne hns
  rw [← hrooted] at hnormal
  have hnonempty : Path.normal (Path.isRooted path) (Path.elements path) ≠ [] := by
    rw [hnormal]
    exact List.append_ne_nil_of_right_ne_nil _ hne
  obtain ⟨hclean, helements⟩ := Path.elements_clean path hnonempty
  rw [hjoin, placeOf, startOf, hclean, helements, hnormal, List.foldl_append, List.foldl_append, foldl_next hns, baseOf,
    startOf, hrooted]
  split
  · rfl
  · rfl

end FileTree

end Stencil
