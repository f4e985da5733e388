import Stencil.Compile.Resolver
import Stencil.Proofs.Files.Trees

/-! # Templates below a root

A path from a template is followed as if it started at the root, where going up is no move, so what is left of it
only goes down (`descends_belowRoot`). So does every path that looking for a template hands to a file system, and
paths that are the same when they are cleaned are looked for alike. What is found in a directory stands at a place
below that of the directory (`exists_node_of_ofDirectory`). -/

namespace Stencil

/-! ### Paths that go down -/

namespace Path

/-- A path that does not start at the root, with elements each of which is a name. -/
structure Descends (path : Bytes) : Prop where
  relative : isRooted path = false
  entries : ∀ e ∈ elements path, IsEntry e

/-- In front of a slash there is no name. -/
theorem Descends.of_entries {path : Bytes} (h : ∀ e ∈ elements path, IsEntry e) : Descends path where
  relative := by
    rw [Bool.eq_false_iff]
    intro hrooted
    obtain ⟨rest, rfl⟩ := List.isPrefixOf_iff_prefix.mp hrooted
    have hempty : [] ∈ elements (slash :: rest) := by
      rw [elements_slash]
      exact List.mem_cons_self
    exact (h [] hempty).nonempty rfl
  entries := h

theorem descends_join {es : List Bytes} (hne : es ≠ []) (hes : ∀ e ∈ es, IsEntry e) :
    Descends (Bytes.join [slash] es) := by
  refine .of_entries ?_
  rw [elements_join hne fun e he => (hes e he).noSlash]
  exact hes

theorem isEntry_append {e tail : Bytes} (he : slash ∉ e) (htail : slash ∉ tail) (hdots : ∃ c ∈ tail, c ≠ ascii '.') :
    IsEntry (e ++ tail) := by
  obtain ⟨c, hc, hdot⟩ := hdots
  have hmem : c ∈ e ++ tail := List.mem_append_right e hc
  have hne (n : Nat) : e ++ tail ≠ List.replicate n (ascii '.') := fun heq =>
    hdot (List.eq_of_mem_replicate (heq ▸ hmem))
  have hhere : here = List.replicate 1 (ascii '.') := by decide
  have habove : above = List.replicate 2 (ascii '.') := by decide
  exact ⟨List.ne_nil_of_mem hmem, hhere ▸ hne 1, habove ▸ hne 2, fun h => (List.mem_append.mp h).elim he htail⟩

/-- An extension leads no path that goes down elsewhere, nor the empty one. -/
theorem descends_append {path tail : Bytes} (hpath : path = [] ∨ Descends path) (htail : slash ∉ tail)
    (hdots : ∃ c ∈ tail, c ≠ ascii '.') : Descends (path ++ tail) := by
  obtain ⟨front, last, hsplit, hsplit'⟩ := Bytes.exists_splitOn_append htail path
  refine .of_entries fun e he => ?_
  rw [elements, hsplit', List.mem_append, List.mem_singleton] at he
  rcases he with he | rfl
  · rcases hpath with rfl | hpath
    · -- the empty path is one empty element, with none in front
      cases front with
      | nil => cases he
      | cons piece front => simp [Bytes.splitOn] at hsplit
    · have hmem : e ∈ Bytes.splitOn slash path := by
        rw [hsplit]
        exact List.mem_append_left [last] he
      exact hpath.entries e hmem
  · have hlast : last ∈ Bytes.splitOn slash path := by
      rw [hsplit]
      exact List.mem_append_right front List.mem_cons_self
    exact isEntry_append (Bytes.notMem_of_mem_splitOn hlast) htail hdots

/-! ### Cleaned paths -/

/-- From the root and from elsewhere one comes to the same names, but elsewhere they stand below some steps up. -/
theorem push_both {names : List Bytes} (hnames : ∀ n ∈ names, IsEntry n) (ups : Nat) {e : Bytes} (he : slash ∉ e) :
    (∀ n ∈ push true names e, IsEntry n) ∧
      ∃ ups', push false (names ++ List.replicate ups above) e = push true names e ++ List.replicate ups' above := by
  unfold push
  split
  · exact ⟨hnames, ups, rfl⟩
  rename_i hstay
  split
  · cases names with
    | nil =>
      -- with no name left, the root stays where it is and elsewhere there is one more step up
      refine ⟨nofun, ups + 1, ?_⟩
      cases ups with
      | zero => rfl
      | succ ups => simp [List.replicate_succ]
    | cons last rest =>
      obtain ⟨hlast, hrest⟩ := List.forall_mem_cons.mp hnames
      simp only [List.cons_append, if_neg hlast.notAbove]
      exact ⟨hrest, ups, rfl⟩
  · rename_i hup
    obtain ⟨hnonempty, hhere⟩ := not_or.mp hstay
    exact ⟨List.forall_mem_cons.mpr ⟨⟨hnonempty, hhere, hup, he⟩, hnames⟩, ups, rfl⟩

theorem foldl_push_both {es : List Bytes} (hes : ∀ e ∈ es, slash ∉ e) {names : List Bytes}
    (hnames : ∀ n ∈ names, IsEntry n) (ups : Nat) : (∀ n ∈ es.foldl (push true) names, IsEntry n) ∧
      ∃ ups', es.foldl (push false) (names ++ List.replicate ups above) =
        es.foldl (push true) names ++ List.replicate ups' above := by
  induction es generalizing names ups with
  | nil => exact ⟨hnames, ups, rfl⟩
  | cons e es ih =>
    obtain ⟨he, hes⟩ := List.forall_mem_cons.mp hes
    obtain ⟨hentries, ups', hpush⟩ := push_both hnames ups he
    rw [List.foldl_cons, List.foldl_cons, hpush]
    exact ih hes hentries ups'

section
variable {es : List Bytes} (hes : ∀ e ∈ es, slash ∉ e)
include hes

theorem isEntry_of_mem_normal : ∀ e ∈ normal true es, IsEntry e := by
  obtain ⟨hentries, -⟩ := foldl_push_both hes (List.forall_mem_nil IsEntry) 0
  exact fun e he => hentries e (List.mem_reverse.mp he)

/-- The shortest way from elsewhere goes up first, and then as from the root. -/
theorem exists_normal_eq : ∃ ups, normal false es = List.replicate ups above ++ normal true es := by
  obtain ⟨-, ups, hfold⟩ := foldl_push_both hes (List.forall_mem_nil IsEntry) 0
  refine ⟨ups, ?_⟩
  rw [List.replicate_zero, List.append_nil] at hfold
  rw [normal, hfold, List.reverse_append, List.reverse_replicate, normal]

theorem normal_normal (rooted : Bool) : normal true (normal rooted es) = normal true es := by
  have hentries := isEntry_of_mem_normal hes
  cases rooted with
  | true => exact normal_append hentries true []
  | false =>
    -- the steps up in front of the names are no moves at the root
    have hups (ups : Nat) : normal true (List.replicate ups above) = [] := by
      induction ups with
      | zero => rfl
      | succ ups ih => exact ih
    obtain ⟨ups, hnormal⟩ := exists_normal_eq hes
    rw [hnormal, normal_append hentries, hups, List.nil_append]

end

theorem belowRoot_slash (path : Bytes) : belowRoot (slash :: path) = belowRoot path := by
  rw [belowRoot, elements_slash]
  rfl

theorem clean_slash (path : Bytes) : clean (slash :: path) = slash :: belowRoot path :=
  congrArg (slash :: ·) (belowRoot_slash path)

theorem belowRoot_join_normal (rooted : Bool) (path : Bytes) :
    belowRoot (Bytes.join [slash] (normal rooted (elements path))) = belowRoot path := by
  have hnormal : normal true (normal rooted (elements path)) = normal true (elements path) :=
    normal_normal (fun _ he => Bytes.notMem_of_mem_splitOn he) rooted
  by_cases hne : normal rooted (elements path) = []
  · rw [hne] at hnormal ⊢
    rw [belowRoot.eq_def path, ← hnormal]
    rfl
  · rw [belowRoot, elements_join hne fun e he => (normal_ne_slash path rooted e he).2, hnormal, belowRoot]

theorem belowRoot_belowRoot (path : Bytes) : belowRoot (belowRoot path) = belowRoot path :=
  belowRoot_join_normal true path

/-- A path and its shortest form are the same below the root. -/
theorem belowRoot_clean (path : Bytes) : belowRoot (clean path) = belowRoot path := by
  unfold clean
  split
  · rw [belowRoot_slash]
    exact belowRoot_join_normal true path
  · have hjoin := belowRoot_join_normal false path
    split
    · rename_i hnil
      rw [hnil] at hjoin
      exact hjoin
    · exact hjoin

/-- Below the root a path only goes down. -/
theorem descends_belowRoot (path : Bytes) : belowRoot path = [] ∨ Descends (belowRoot path) := by
  by_cases hne : normal true (elements path) = []
  · exact Or.inl (by rw [belowRoot, hne]; rfl)
  · exact Or.inr (descends_join hne (isEntry_of_mem_normal fun _ he => Bytes.notMem_of_mem_splitOn he))

end Path

/-! ### Looking for templates -/

namespace Compile.Resolver

/-- The paths that a file system is asked for, in order, while the first of some files is looked for. -/
def asked (read : Bytes → Except FileError Bytes) : List Bytes → List Bytes
  | [] => []
  | path :: paths =>
    path :: match read path with
      | .ok _ => []
      | .error e => if e.problem = .missing then asked read paths else []

/-- The paths that a resolver hands to its file system. -/
def handed (read : Bytes → Except FileError Bytes) (extensions : List Bytes) (canceled : Bool) (name : Bytes) :
    List Bytes :=
  if canceled then [] else asked read (candidates extensions name)

section
variable {read read' : Bytes → Except FileError Bytes}

theorem asked_subset (read : Bytes → Except FileError Bytes) (paths : List Bytes) : asked read paths ⊆ paths := by
  induction paths with
  | nil => exact List.Subset.refl []
  | cons path paths ih =>
    refine List.cons_subset_cons path ?_
    split
    · exact List.nil_subset paths
    split
    · exact ih
    · exact List.nil_subset paths

theorem firstOf_congr (name : Bytes) {paths : List Bytes} (h : ∀ path ∈ asked read paths, read' path = read path) :
    firstOf read' name paths = firstOf read name paths := by
  induction paths with
  | nil => rfl
  | cons path paths ih =>
    rw [asked, List.forall_mem_cons] at h
    obtain ⟨hpath, hlater⟩ := h
    rw [firstOf, firstOf, hpath]
    cases hread : read path with
    | ok src => rfl
    | error e =>
      rw [hread] at hlater
      by_cases hmissing : e.problem = .missing
      · simp only [if_pos hmissing] at hlater ⊢
        exact ih hlater
      · simp only [if_neg hmissing]

end

/-- Extensions without slashes that are not all dots lead nowhere else. -/
theorem descends_of_mem_candidates {extensions : List Bytes}
    (hextensions : ∀ e ∈ extensions, Path.slash ∉ e ∧ ∃ c ∈ e, c ≠ ascii '.') (name : Bytes) :
    ∀ path ∈ candidates extensions name, path = [] ∨ Path.Descends path := by
  have hbelow := Path.descends_belowRoot name
  intro path hpath
  simp only [candidates] at hpath
  split at hpath
  · rcases List.mem_cons.mp hpath with rfl | hpath
    · exact hbelow
    · obtain ⟨e, he, rfl⟩ := List.mem_map.mp hpath
      obtain ⟨hslash, hdots⟩ := hextensions e he
      exact Or.inr (Path.descends_append hbelow hslash hdots)
  · obtain rfl := List.mem_singleton.mp hpath
    exact hbelow

theorem ofFiles_congr (read : Bytes → Except FileError Bytes) (extensions : List Bytes) {name other : Bytes}
    (h : Path.belowRoot other = Path.belowRoot name) : ofFiles read extensions other = ofFiles read extensions name := by
  simp only [ofFiles, candidates, h]

/-- A resolver hands its file system paths below the root only, and what these have tells what it finds. Names that
are the same when they are cleaned are looked for alike, as is the cleaned name. -/
theorem find_below_root (read : Bytes → Except FileError Bytes) {extensions : List Bytes}
    (hextensions : ∀ e ∈ extensions, Path.slash ∉ e ∧ ∃ c ∈ e, c ≠ ascii '.') (canceled : Bool) (name : Bytes) :
    (∀ path ∈ handed read extensions canceled name, path = [] ∨ Path.Descends path) ∧
    (∀ read', (∀ path ∈ handed read extensions canceled name, read' path = read path) →
      find (ofFiles read' extensions) canceled name = find (ofFiles read extensions) canceled name) ∧
    (∀ other, Path.clean other = Path.clean name ∨ Path.clean (Path.slash :: other) = Path.clean (Path.slash :: name) →
      find (ofFiles read extensions) canceled other = find (ofFiles read extensions) canceled name) ∧
    ∀ cleaned ∈ [Path.clean name, Path.clean (Path.slash :: name), Path.belowRoot name],
      find (ofFiles read extensions) canceled cleaned = find (ofFiles read extensions) canceled name := by
  have hfind {other : Bytes} (h : Path.belowRoot other = Path.belowRoot name) :
      find (ofFiles read extensions) canceled other = find (ofFiles read extensions) canceled name := by
    rw [find, find, ofFiles_congr read extensions h]
  refine ⟨?_, ?_, ?_, ?_⟩
  · intro path hpath
    unfold handed at hpath
    split at hpath
    · cases hpath
    · exact descends_of_mem_candidates hextensions name path (asked_subset read _ hpath)
  · intro read' h
    unfold handed at h
    unfold find
    split
    · rfl
    · rename_i hrunning
      rw [if_neg hrunning] at h
      exact firstOf_congr _ h
  · rintro other (h | h)
    · exact hfind (by rw [← Path.belowRoot_clean other, h, Path.belowRoot_clean])
    · rw [Path.clean_slash, Path.clean_slash] at h
      exact hfind (List.cons.inj h).2
  · intro cleaned hcleaned
    simp only [List.mem_cons, List.not_mem_nil, or_false] at hcleaned
    rcases hcleaned with rfl | rfl | rfl
    · exact hfind (Path.belowRoot_clean name)
    · exact hfind ((Path.belowRoot_clean _).trans (Path.belowRoot_slash name))
    · exact hfind (Path.belowRoot_belowRoot name)

/-- A file system with one file. -/
def oneFile (path : Bytes) : Except FileError Bytes :=
  if path = "partials/nav.sg" then .ok "<nav/>" else .error ⟨"open", path, .missing⟩

/-- A name that goes up from the root is asked for below it, with the extension in the end. -/
theorem find_below_root_partials :
    handed oneFile [".sg", ".html"] false "/../partials//nav" = (["partials/nav", "partials/nav.sg"] : List Bytes) ∧
      Path.Descends "partials/nav" ∧ Path.Descends "partials/nav.sg" ∧
      find (ofFiles oneFile [".sg", ".html"]) false "x/../partials/nav" = .ok "<nav/>" := by
  have hhanded : handed oneFile [".sg", ".html"] false "/../partials//nav" =
      (["partials/nav", "partials/nav.sg"] : List Bytes) := by decide
  have hextensions : ∀ e ∈ ([".sg", ".html"] : List Bytes), Path.slash ∉ e ∧ ∃ c ∈ e, c ≠ ascii '.' :=
    List.forall_mem_cons.mpr ⟨⟨by decide, ascii 's', by decide, by decide⟩,
      List.forall_mem_singleton.mpr ⟨by decide, ascii 'h', by decide, by decide⟩⟩
  obtain ⟨hdescends, -, hsame, -⟩ := find_below_root oneFile hextensions false "/../partials//nav"
  rw [hhanded] at hdescends
  have hbare := (hdescends "partials/nav" (by decide)).resolve_left (by decide)
  have hextended := (hdescends "partials/nav.sg" (by decide)).resolve_left (by decide)
  refine ⟨hhanded, hbare, hextended, ?_⟩
  rw [hsame "x/../partials/nav" (Or.inr (by decide))]
  rfl

/-! ### Places of templates -/

theorem exists_of_firstOf {read : Bytes → Except FileError Bytes} {name src : Bytes} {paths : List Bytes}
    (h : firstOf read name paths = .ok src) : ∃ path, read path = .ok src := by
  induction paths with
  | nil => cases h
  | cons path paths ih =>
    rw [firstOf] at h
    split at h
    · rename_i hread
      cases h
      exact ⟨path, hread⟩
    split at h
    · exact ih h
    · cases h

theorem isEntry_of_isInside {path : Bytes} (h : isInside path = true) : ∀ e ∈ Path.elements path, Path.IsEntry e := by
  intro e he
  obtain ⟨-, hall⟩ := Bool.and_eq_true_iff.mp h
  have hentry := List.all_eq_true.mp hall e he
  simp only [Bool.and_eq_true, bne_iff_ne] at hentry
  obtain ⟨⟨hnonempty, hhere⟩, habove⟩ := hentry
  exact ⟨hnonempty, hhere, habove, Bytes.notMem_of_mem_splitOn he⟩

/-- What is read in a directory stands below it. -/
theorem node_of_readInside {files : FileTree} {root path src : Bytes} (hroot : root ≠ [])
    (h : readInside files root path = .ok src) : (∀ n ∈ Path.elements path, Path.IsEntry n) ∧
      files.node? (FileTree.placeOf root ++ Path.elements path) = some (.file src) := by
  unfold readInside at h
  split at h
  · rename_i hinside
    have hentries := isEntry_of_isInside hinside
    have hread : files.read (root ++ [Path.slash] ++ path) = .ok src := by
      cases hread : files.read (root ++ [Path.slash] ++ path) with
      | ok content =>
        rw [hread] at h
        exact h
      | error e =>
        rw [hread] at h
        cases h
    have hplace : FileTree.placeOf (root ++ [Path.slash] ++ path) = FileTree.placeOf root ++ Path.elements path := by
      have helements : Path.elements (root ++ [Path.slash] ++ path) = Path.elements root ++ Path.elements path := by
        rw [List.append_assoc]
        exact Bytes.splitOn_append root path
      have hstart : FileTree.startOf (root ++ [Path.slash] ++ path) = FileTree.startOf root := by
        obtain ⟨c, rest, rfl⟩ := List.exists_cons_of_ne_nil hroot
        simp [FileTree.startOf, Path.isRooted, Bytes.startsWith]
      rw [FileTree.placeOf, helements, hstart, List.foldl_append, FileTree.foldl_next hentries, FileTree.placeOf]
    rw [← hplace]
    exact ⟨hentries, (FileTree.read_eq_ok.mp hread).2⟩
  · cases h

/-- Whatever its name and the extensions, a template of a directory is a file below that directory. -/
theorem exists_node_of_ofDirectory {files : FileTree} {root name src : Bytes} {extensions : List Bytes}
    (hroot : root ≠ []) (h : ofDirectory files root extensions name = .ok src) :
    ∃ names, (∀ n ∈ names, Path.IsEntry n) ∧ files.node? (FileTree.placeOf root ++ names) = some (.file src) := by
  obtain ⟨path, hread⟩ := exists_of_firstOf h
  exact ⟨Path.elements path, node_of_readInside hroot hread⟩

end Compile.Resolver

end Stencil
