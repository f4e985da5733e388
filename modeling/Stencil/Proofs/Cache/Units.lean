import Mathlib
import Stencil.Proofs.Cache.Changes
import Stencil.Proofs.Files.Trees

/-! # The units of a cache

What a cache gives for a key is what was put last into the file of that key (`Faithful`), and what happens to other
units leaves it alone, as long as their files are others (`get_serve`). The name of a file tells the first bytes of a
key only, and not all of them apart, so both need a key whose file it has to itself. -/

namespace Stencil.UnitCache

open FileTree (placeOf baseOf)

/-! ### Files of units -/

def unitName (key : Bytes) : Bytes :=
  (key.take 100).map (fun c => if isNameByte c then c else ascii '_') ++ ".json"

/-- The names of the path to the file for a unit, below the directory of the cache. -/
def unitElements (key : Bytes) : List Bytes := ["units", unitName key]

theorem unitFile_eq (key : Bytes) : unitFile key = Bytes.join [Path.slash] (unitElements key) := by
  simp [unitFile, unitName, unitElements, Bytes.join]
  rfl

theorem isEntry_unitName (key : Bytes) : Path.IsEntry (unitName key) := by
  have hlength : 5 ≤ (unitName key).length := by
    rw [unitName, List.length_append]
    exact Nat.le_add_left 5 _
  have hne {e : Bytes} (he : e.length < 5) : unitName key ≠ e := by
    rintro rfl
    omega
  refine ⟨hne (by decide), hne (by decide), hne (by decide), ?_⟩
  intro hslash
  rcases List.mem_append.mp hslash with h | h
  · obtain ⟨c, -, hc⟩ := List.mem_map.mp h
    split at hc
    · rename_i hname
      rw [hc] at hname
      exact absurd hname (by decide)
    · exact absurd hc (by decide)
  · exact absurd h (by decide)

theorem isEntry_unitElements (key : Bytes) : ∀ n ∈ unitElements key, Path.IsEntry n :=
  List.forall_mem_cons.mpr ⟨⟨by decide, by decide, by decide, by decide⟩,
    List.forall_mem_singleton.mpr (isEntry_unitName key)⟩

/-- Keys of up to a hundred bytes that stand in names of files as they are have files of their own. -/
theorem eq_of_unitFile {a b : Bytes} (ha : a.length ≤ 100 ∧ a.all isNameByte = true)
    (hb : b.length ≤ 100 ∧ b.all isNameByte = true) (h : unitFile a = unitFile b) : a = b := by
  have hname {key : Bytes} (hkey : key.length ≤ 100 ∧ key.all isNameByte = true) :
      unitFile key = "units/" ++ key ++ ".json" := by
    have hbytes : key.map (fun c => if isNameByte c then c else ascii '_') = key :=
      List.map_congr_left (fun c hc => if_pos (List.all_eq_true.mp hkey.2 c hc)) |>.trans (List.map_id' key)
    rw [unitFile, List.take_of_length_le hkey.1, hbytes]
  rw [hname ha, hname hb] at h
  exact List.append_cancel_left (List.append_cancel_right h)

def unitPath (c : UnitCache) (key : Bytes) : Bytes := c.pathOf (unitFile key)

section
variable {now : Instant} {c c' : UnitCache} {key other : Bytes}

theorem placeOf_unitPath (c : UnitCache) (key : Bytes) :
    placeOf (c.unitPath key) = baseOf c.dir ++ unitElements key := by
  rw [unitPath, pathOf, unitFile_eq]
  exact FileTree.placeOf_join c.dir (List.cons_ne_nil _ _) (isEntry_unitElements key)

theorem placeOf_indexPath (dir : Bytes) : placeOf (indexPath dir) = baseOf dir ++ [("index.json" : Bytes)] := by
  have hindex : ∀ n ∈ [("index.json" : Bytes)], Path.IsEntry n :=
    List.forall_mem_singleton.mpr ⟨by decide, by decide, by decide, by decide⟩
  have h := FileTree.placeOf_join dir (List.cons_ne_nil _ _) hindex
  simpa [indexPath, Bytes.join] using h

theorem placeOf_unitPath_ne (c : UnitCache) (h : unitFile other ≠ unitFile key) :
    placeOf (c.unitPath other) ≠ placeOf (c.unitPath key) := by
  intro heq
  rw [placeOf_unitPath, placeOf_unitPath] at heq
  have hnames := List.append_cancel_left heq
  rw [unitFile_eq, unitFile_eq, hnames] at h
  exact h rfl

theorem placeOf_unitPath_ne_index (c : UnitCache) (key : Bytes) :
    placeOf (c.unitPath key) ≠ placeOf (indexPath c.dir) := by
  intro heq
  rw [placeOf_unitPath, placeOf_indexPath] at heq
  have hlength := congrArg List.length heq
  simp [unitElements] at hlength

theorem endsWith_unitPath (c : UnitCache) (key : Bytes) : Bytes.endsWith "/" (c.unitPath key) = false := by
  rw [unitPath, pathOf, unitFile_eq]
  exact Path.endsWith_slash_join c.dir (List.cons_ne_nil _ _) (isEntry_unitElements key)

/-! ### What a cache gives -/

theorem get_fst (c : UnitCache) (now : Instant) (key : Bytes) :
    (c.get now key).1 = (Assoc.get? key c.entries).bind fun e =>
      if c.isExpired now e then none else (c.files.read (c.pathOf e.file)).toOption := by
  unfold get
  split
  · rename_i hget
    rw [hget]
    rfl
  · rename_i e hget
    rw [hget, Option.bind_some]
    split
    · rfl
    split
    · rename_i hread
      rw [hread]
      rfl
    · rename_i hread
      rw [hread]
      rfl

end

/-! ### Histories -/

/-- The cache after some requests, each with the time when it came. -/
def serveAll (c : UnitCache) (rs : List (Instant × Request)) : UnitCache := rs.foldl (fun c r => c.serve r.1 r.2) c

/-- The data of the last unit after a request, among those that are put under a wanted key and not refused as too
large. -/
def remember (maxSize : Int) (wanted : Bytes → Bool) (last : Option Bytes) : Request → Option Bytes
  | .put key data _ => if wanted key ∧ ¬(0 < maxSize ∧ maxSize < data.length) then some data else last
  | _ => last

/-- The data of the last unit that was put under a wanted key and not refused as too large. -/
def lastPut (maxSize : Int) (wanted : Bytes → Bool) (rs : List (Instant × Request)) : Option Bytes :=
  rs.foldl (fun last r => remember maxSize wanted last r.2) none

/-- The keys that units were put under. -/
def putKeys (rs : List (Instant × Request)) : List Bytes :=
  rs.filterMap fun r =>
    match r.2 with
    | .put key _ _ => some key
    | _ => none

theorem lastPut_append (maxSize : Int) (wanted : Bytes → Bool) (rs : List (Instant × Request)) (now : Instant)
    (r : Request) :
    lastPut maxSize wanted (rs ++ [(now, r)]) = remember maxSize wanted (lastPut maxSize wanted rs) r := by
  rw [lastPut, List.foldl_append]
  rfl

/-- Only what was put counts for what was put last. -/
theorem lastPut_congr (maxSize : Int) {wanted wanted' : Bytes → Bool} {rs : List (Instant × Request)}
    (h : ∀ key ∈ putKeys rs, wanted key = wanted' key) : lastPut maxSize wanted rs = lastPut maxSize wanted' rs := by
  induction rs using List.reverseRecOn with
  | nil => rfl
  | append_singleton rs r ih =>
    obtain ⟨now, r⟩ := r
    rw [putKeys, List.filterMap_append] at h
    have hrs := ih fun key hkey => h key (List.mem_append_left _ hkey)
    rw [lastPut_append, lastPut_append, hrs]
    cases r with
    | put key data deps =>
      have hkey : wanted key = wanted' key := h key (List.mem_append_right _ List.mem_cons_self)
      rw [remember, remember, hkey]
    | _ => rfl

/-- What counts as put last was put. -/
theorem exists_put_of_lastPut {maxSize : Int} {wanted : Bytes → Bool} {rs : List (Instant × Request)} {data : Bytes}
    (h : lastPut maxSize wanted rs = some data) :
    ∃ now key deps, (now, Request.put key data deps) ∈ rs ∧ wanted key = true := by
  induction rs using List.reverseRecOn with
  | nil => cases h
  | append_singleton rs r ih =>
    obtain ⟨now, r⟩ := r
    have hearlier (hlast : lastPut maxSize wanted rs = some data) :
        ∃ now' key deps, (now', Request.put key data deps) ∈ rs ++ [(now, r)] ∧ wanted key = true := by
      obtain ⟨now', key, deps, hmem, hwanted⟩ := ih hlast
      exact ⟨now', key, deps, List.mem_append_left _ hmem, hwanted⟩
    rw [lastPut_append] at h
    cases r with
    | put key data' deps =>
      rw [remember] at h
      split at h
      · rename_i hwanted
        obtain rfl := Option.some.inj h
        exact ⟨now, key, deps, List.mem_append_right _ List.mem_cons_self, hwanted.1⟩
      · exact hearlier h
    | _ => exact hearlier h

/-! ### The invariant -/

/-- Each entry has the file of its key, under which a unit was put; and if the file can be read, it holds what was put
last into it. -/
structure Faithful (c : UnitCache) (rs : List (Instant × Request)) : Prop where
  file : ∀ {key e}, Assoc.get? key c.entries = some e → e.file = unitFile key
  put : ∀ {key e}, Assoc.get? key c.entries = some e → key ∈ putKeys rs
  node : ∀ {key e}, Assoc.get? key c.entries = some e → c.files.node? (placeOf (c.unitPath key)) ≠ some .directory
  content : ∀ {key e data}, Assoc.get? key c.entries = some e → c.files.read (c.unitPath key) = .ok data →
    lastPut c.maxSize (fun k => unitFile k = unitFile key) rs = some data

section
variable {now : Instant} {c c' : UnitCache} {rs : List (Instant × Request)}

theorem Faithful.of_empty (hempty : c.entries = []) (rs : List (Instant × Request)) : Faithful c rs := by
  have hnone {key : Bytes} {e : CacheEntry} (hget : Assoc.get? key c.entries = some e) : False := by
    rw [hempty] at hget
    cases hget
  exact ⟨fun hget => (hnone hget).elim, fun hget => (hnone hget).elim, fun hget => (hnone hget).elim,
    fun hget => (hnone hget).elim⟩

/-- Where entries go and files are taken away, nothing else is read. -/
theorem Faithful.shrink (h : Faithful c rs)
    (hentries : ∀ {key e}, Assoc.get? key c'.entries = some e →
      ∃ e', Assoc.get? key c.entries = some e' ∧ e.file = e'.file)
    (hnodes : ∀ r n, c'.files.node? r = some n → c.files.node? r = some n) (hdir : c'.dir = c.dir)
    (hmax : c'.maxSize = c.maxSize) : Faithful c' rs := by
  have hpath (key : Bytes) : c'.unitPath key = c.unitPath key := by rw [unitPath, pathOf, hdir, unitPath, pathOf]
  refine ⟨?_, ?_, ?_, ?_⟩
  · intro key e hget
    obtain ⟨e', hget', hfile⟩ := hentries hget
    exact hfile.trans (h.file hget')
  · intro key e hget
    obtain ⟨e', hget', -⟩ := hentries hget
    exact h.put hget'
  · intro key e hget hdirectory
    obtain ⟨e', hget', -⟩ := hentries hget
    rw [hpath] at hdirectory
    exact h.node hget' (hnodes _ _ hdirectory)
  · intro key e data hget hread
    obtain ⟨e', hget', -⟩ := hentries hget
    rw [hpath] at hread
    rw [hmax]
    exact h.content hget' (FileTree.read_of_nodes hnodes hread)

theorem Faithful.save (h : Faithful c rs) {text : Bytes} {files : FileTree}
    (hwrite : c.files.write (indexPath c.dir) text = .ok files) : Faithful { c with files } rs where
  file := h.file
  put := h.put
  node := by
    intro key e hget hdirectory
    exact h.node hget ((FileTree.directory_write_iff hwrite _).mpr hdirectory)
  content := by
    intro key e data hget hread
    have hsame := FileTree.read_write_ne hwrite (placeOf_unitPath_ne_index c key)
    exact h.content hget (FileTree.toOption_read.mp (hsame.symm.trans (FileTree.toOption_read.mpr hread)))

theorem Faithful.change (hchange : Change now c c') (h : Faithful c rs) : Faithful c' rs := by
  have hbounds := sameBounds_of_changes (.single hchange)
  have hentries {key : Bytes} {e : CacheEntry} (hget : Assoc.get? key c'.entries = some e) :
      ∃ e', Assoc.get? key c.entries = some e' ∧ e.file = e'.file := by
    obtain ⟨e', hget', -, hfile⟩ := entry_of_change hchange hget
    exact ⟨e', hget', hfile⟩
  cases hchange with
  | count => exact h.shrink hentries (fun _ _ hn => hn) rfl rfl
  | touch => exact h.shrink hentries (fun _ _ hn => hn) rfl rfl
  | drop hget =>
    refine h.shrink hentries (fun r n hn => ?_) hbounds.dir hbounds.maxSize
    rw [drop_of_some hget] at hn
    exact FileTree.node?_of_remove hn
  | save hwrite => exact h.save hwrite

theorem Faithful.changes (hchanges : Changes now c c') (h : Faithful c rs) : Faithful c' rs :=
  hchanges.keeps (P := fun a => Faithful a rs) (fun hchange ha => ha.change hchange) h

/-- A request that stores nothing changes what counts as put last for no entry. -/
theorem Faithful.append (h : Faithful c rs) (r : Request)
    (hlast : ∀ {key e data}, Assoc.get? key c.entries = some e → c.files.read (c.unitPath key) = .ok data →
      ∀ last, remember c.maxSize (fun k => unitFile k = unitFile key) last r = last) :
    Faithful c (rs ++ [(now, r)]) where
  file := h.file
  put := by
    intro key e hget
    rw [putKeys, List.filterMap_append]
    exact List.mem_append_left _ (h.put hget)
  node := h.node
  content := by
    intro key e data hget hread
    rw [lastPut_append, hlast hget hread]
    exact h.content hget hread

theorem Faithful.store (h : Faithful c rs) {key data : Bytes} (deps : List Bytes) (hfits : ¬c.IsOversized data)
    {files : FileTree} (hwrite : c.files.write (c.unitPath key) data = .ok files) :
    Faithful (c.withUnit now key data deps files) (rs ++ [(now, .put key data deps)]) := by
  have hput : key ∈ putKeys (rs ++ [(now, Request.put key data deps)]) := by
    rw [putKeys, List.filterMap_append]
    exact List.mem_append_right _ List.mem_cons_self
  -- an entry after the unit was stored is the new one, or one that was there
  have hentries {other : Bytes} {e : CacheEntry}
      (hget : Assoc.get? other (c.withUnit now key data deps files).entries = some e) :
      (other = key ∧ e = entryOf now key data deps) ∨ Assoc.get? other c.entries = some e := by
    by_cases hkey : other = key
    · subst hkey
      exact .inl ⟨rfl, Option.some.inj (hget.symm.trans (Assoc.get?_insert_self ..))⟩
    · exact .inr ((Assoc.get?_insert_ne hkey _ _).symm.trans hget)
  have hnode {other : Bytes} (hnot : c.files.node? (placeOf (c.unitPath other)) ≠ some .directory) :
      files.node? (placeOf (c.unitPath other)) ≠ some .directory :=
    fun hdirectory => hnot ((FileTree.directory_write_iff hwrite _).mpr hdirectory)
  refine ⟨?_, ?_, ?_, ?_⟩
  · intro other e hget
    rcases hentries hget with ⟨rfl, rfl⟩ | hget
    · rfl
    · exact h.file hget
  · intro other e hget
    rcases hentries hget with ⟨rfl, rfl⟩ | hget
    · exact hput
    · rw [putKeys, List.filterMap_append]
      exact List.mem_append_left _ (h.put hget)
  · intro other e hget
    rcases hentries hget with ⟨rfl, rfl⟩ | hget
    · exact hnode (FileTree.write_eq_ok hwrite).2.1
    · exact hnode (h.node hget)
  · intro other e found hget hread
    change files.read (c.unitPath other) = .ok found at hread
    rw [lastPut_append]
    by_cases hfile : unitFile other = unitFile key
    · have hpath : c.unitPath other = c.unitPath key := by rw [unitPath, hfile, unitPath]
      rw [hpath] at hread
      rw [FileTree.read_write_self hwrite hread, remember]
      exact if_pos ⟨by simp [hfile], hfits⟩
    · rcases hentries hget with ⟨rfl, rfl⟩ | hget
      · exact absurd rfl hfile
      have hsame := FileTree.read_write_ne hwrite (placeOf_unitPath_ne c hfile)
      have hread := FileTree.toOption_read.mp (hsame.symm.trans (FileTree.toOption_read.mpr hread))
      rw [remember, if_neg (by simp [Ne.symm hfile])]
      exact h.content hget hread

theorem Faithful.serve (h : Faithful c rs) (r : Request) : Faithful (c.serve now r) (rs ++ [(now, r)]) := by
  cases r with
  | put key data deps =>
    have hcleared := h.changes (changes_cleared now c key data)
    have hbounds := sameBounds_of_changes (changes_cleared now c key data)
    rw [UnitCache.serve]
    rcases put_cases c now key data deps with ⟨hsize, e, hput⟩ | ⟨-, problem, e, hwrite, hput⟩ |
      ⟨hfits, files, hwrite, hput⟩
    · rw [hput]
      exact h.append _ fun _ _ _ => if_neg fun hnot => hnot.2 hsize
    · rw [hput]
      refine hcleared.append _ ?_
      -- a file that can be read could have been written
      intro other e' found hget hread last
      refine if_neg ?_
      rintro ⟨hfile, -⟩
      have hpath : (c.cleared now key data).unitPath other = (c.cleared now key data).unitPath key := by
        rw [unitPath, unitPath, of_decide_eq_true hfile]
      rw [hpath] at hread
      obtain ⟨files, hwrite'⟩ := FileTree.exists_write_of_read hread (endsWith_unitPath _ key) data
      rw [unitPath, hwrite] at hwrite'
      cases hwrite'
    · rw [hput]
      have hfits' : ¬(c.cleared now key data).IsOversized data := by
        rw [IsOversized, hbounds.maxSize]
        exact hfits
      exact (hcleared.store deps hfits' hwrite).changes (changes_saveIndex now _)
  | clear =>
    refine Faithful.append ?_ _ fun _ _ _ => rfl
    rw [UnitCache.serve]
    rcases clear_cases c now with ⟨e, hclear⟩ | ⟨files, e, hremove, hclear⟩ | ⟨files, hclear⟩
    · rw [hclear]
      exact h
    · rw [hclear]
      exact h.shrink (fun hget => ⟨_, hget, rfl⟩) (fun _ _ => FileTree.node?_of_removeAll hremove) rfl rfl
    · rw [hclear]
      exact (Faithful.of_empty rfl rs).changes (changes_saveIndex now _)
  | get key => exact (h.changes (changes_get now c key)).append _ fun _ _ _ => rfl
  | delete key => exact (h.changes (changes_delete now c key)).append _ fun _ _ _ => rfl
  | invalidate path => exact (h.changes (changes_invalidate now c path)).append _ fun _ _ _ => rfl

theorem faithful_serveAll (hempty : c.entries = []) (rs : List (Instant × Request)) : Faithful (c.serveAll rs) rs := by
  induction rs using List.reverseRecOn with
  | nil => exact .of_empty hempty []
  | append_singleton rs r ih =>
    rw [serveAll, List.foldl_append]
    exact ih.serve r.2

/-- What is given for a key is what was put last into its file. -/
theorem Faithful.given (h : Faithful c rs) {key data : Bytes} (hget : (c.get now key).1 = some data) :
    lastPut c.maxSize (fun k => unitFile k = unitFile key) rs = some data := by
  rw [get_fst] at hget
  obtain ⟨e, hentry, hread⟩ := Option.bind_eq_some_iff.mp hget
  split at hread
  · cases hread
  · rw [h.file hentry] at hread
    exact h.content hentry (FileTree.toOption_read.mp hread)

/-! ### Other units -/

/-- No other entry has the file of a key. -/
def Alone (c : UnitCache) (key : Bytes) : Prop :=
  ∀ {other : Bytes} {e : CacheEntry}, Assoc.get? other c.entries = some e → unitFile other = unitFile key → other = key

/-- The same is given for a key, whenever it is asked for. -/
def GivesSame (c c' : UnitCache) (key : Bytes) : Prop := ∀ later, (c'.get later key).1 = (c.get later key).1

theorem Alone.of_change (hchange : Change now c c') {key : Bytes} (halone : Alone c key) : Alone c' key := by
  intro other e' hget' hfile
  obtain ⟨e, hget, -⟩ := entry_of_change hchange hget'
  exact halone hget hfile

theorem Alone.of_changes (hchanges : Changes now c c') {key : Bytes} (halone : Alone c key) : Alone c' key :=
  Changes.keeps (P := fun a => Alone a key) (fun hchange ha => ha.of_change hchange) hchanges halone

theorem Alone.withUnit {key other data : Bytes} {deps : List Bytes} {files : FileTree} (halone : Alone c key)
    (hfiles : unitFile key ≠ unitFile other) : Alone (c.withUnit now other data deps files) key := by
  intro third e hget hfile
  have hthird : third ≠ other := by
    rintro rfl
    exact hfiles hfile.symm
  exact halone ((Assoc.get?_insert_ne hthird _ _).symm.trans hget) hfile

theorem givesSame_of_read {key : Bytes} (hbounds : SameBounds c c') {e e' : CacheEntry}
    (hget : Assoc.get? key c.entries = some e) (hget' : Assoc.get? key c'.entries = some e')
    (hcreated : e'.created = e.created) (hfile : e'.file = e.file)
    (hread : (c'.files.read (c.pathOf e.file)).toOption = (c.files.read (c.pathOf e.file)).toOption) :
    GivesSame c c' key := by
  intro later
  have hexpired : c'.isExpired later e' = c.isExpired later e := by
    rw [isExpired, isExpired, hbounds.maxAge, hcreated]
  have hpath : c'.pathOf e'.file = c.pathOf e.file := by rw [pathOf, pathOf, hbounds.dir, hfile]
  rw [get_fst, get_fst, hget, hget', Option.bind_some, Option.bind_some, hexpired, hpath, hread]

theorem givesSame_of_change (hchange : Change now c c') (h : Faithful c rs) {key : Bytes} (halone : Alone c key)
    (hindexed : Assoc.has key c'.entries = true) : Assoc.has key c.entries = true ∧ GivesSame c c' key := by
  have hbounds := sameBounds_of_changes (.single hchange)
  obtain ⟨e', hget'⟩ := Option.isSome_iff_exists.mp hindexed
  obtain ⟨e, hget, hcreated, hfile⟩ := entry_of_change hchange hget'
  refine ⟨Option.isSome_iff_exists.mpr ⟨e, hget⟩, givesSame_of_read hbounds hget hget' hcreated hfile ?_⟩
  have hpath : c.pathOf e.file = c.unitPath key := by rw [unitPath, h.file hget]
  rw [hpath]
  cases hchange with
  | count => rfl
  | touch => rfl
  | @drop other dropped hdropped =>
    -- the key that is dropped is another one, so its file is another one, too
    have hother : other ≠ key := by
      rintro rfl
      rw [entries_drop, Assoc.get?_erase_self] at hget'
      cases hget'
    have hfiles : unitFile key ≠ unitFile other := fun heq => hother (halone hdropped heq.symm)
    have hremoved : c.pathOf dropped.file = c.unitPath other := by rw [unitPath, h.file hdropped]
    rw [drop_of_some hdropped, hremoved]
    exact FileTree.read_remove_ne (h.node hdropped) (placeOf_unitPath_ne c hfiles)
  | save hwrite => exact FileTree.read_write_ne hwrite (placeOf_unitPath_ne_index c key)

theorem givesSame_of_changes (hchanges : Changes now c c') (h : Faithful c rs) {key : Bytes} (halone : Alone c key)
    (hindexed : Assoc.has key c'.entries = true) : Assoc.has key c.entries = true ∧ GivesSame c c' key := by
  induction hchanges with
  | refl => exact ⟨hindexed, fun _ => rfl⟩
  | @tail b d hchanges hlast ih =>
    have hb := h.changes hchanges
    obtain ⟨hindexedb, hsame⟩ := givesSame_of_change hlast hb (halone.of_changes hchanges) hindexed
    obtain ⟨hindexedc, hsame'⟩ := ih hindexedb
    exact ⟨hindexedc, fun later => (hsame later).trans (hsame' later)⟩

theorem givesSame_withUnit (h : Faithful c rs) {key other data : Bytes} {deps : List Bytes} {files : FileTree}
    (hwrite : c.files.write (c.unitPath other) data = .ok files) (hfiles : unitFile key ≠ unitFile other)
    (hindexed : Assoc.has key (c.withUnit now other data deps files).entries = true) :
    Assoc.has key c.entries = true ∧ GivesSame c (c.withUnit now other data deps files) key := by
  have hother : key ≠ other := by
    rintro rfl
    exact hfiles rfl
  obtain ⟨e, hget'⟩ := Option.isSome_iff_exists.mp hindexed
  have hget : Assoc.get? key c.entries = some e := (Assoc.get?_insert_ne hother _ _).symm.trans hget'
  refine ⟨Option.isSome_iff_exists.mpr ⟨e, hget⟩, givesSame_of_read ⟨rfl, rfl, rfl⟩ hget hget' rfl rfl ?_⟩
  have hpath : c.pathOf e.file = c.unitPath key := by rw [unitPath, h.file hget]
  rw [hpath]
  exact FileTree.read_write_ne hwrite (placeOf_unitPath_ne c hfiles)

/-- Whatever is asked of a cache, apart from taking every unit away, leaves alone what is given for a key that stays in
the index, if no other key has its file. -/
theorem givesSame_serve (h : Faithful c rs) {key : Bytes} (halone : Alone c key) {r : Request} (hclear : r ≠ .clear)
    (hput : ∀ other data deps, r = .put other data deps → unitFile other ≠ unitFile key)
    (hindexed : Assoc.has key (c.serve now r).entries = true) : GivesSame c (c.serve now r) key := by
  by_cases hr : ∀ other data deps, r ≠ .put other data deps
  · exact (givesSame_of_changes (changes_serve now c hr hclear) h halone hindexed).2
  · simp only [not_forall, not_not] at hr
    obtain ⟨other, data, deps, rfl⟩ := hr
    have hfiles := (hput other data deps rfl).symm
    have hcleared := h.changes (changes_cleared now c other data)
    rw [UnitCache.serve] at hindexed ⊢
    rcases put_cases c now other data deps with ⟨-, e, heq⟩ | ⟨-, problem, e, -, heq⟩ | ⟨hfits, files, hwrite, heq⟩
    · rw [heq]
      exact fun _ => rfl
    · rw [heq] at hindexed ⊢
      exact (givesSame_of_changes (changes_cleared now c other data) h halone hindexed).2
    · have hfits' : ¬(c.cleared now other data).IsOversized data := by
        rw [IsOversized, (sameBounds_of_changes (changes_cleared now c other data)).maxSize]
        exact hfits
      rw [heq] at hindexed ⊢
      -- the unit is stored in the cache with room for it, and then the index is written down
      have hroom : Alone (c.cleared now other data) key := halone.of_changes (changes_cleared now c other data)
      obtain ⟨hindexed, hsaved⟩ := givesSame_of_changes (changes_saveIndex now _)
        (hcleared.store deps hfits' hwrite) (hroom.withUnit hfiles) hindexed
      obtain ⟨hindexed, hstored⟩ := givesSame_withUnit hcleared hwrite hfiles hindexed
      obtain ⟨-, hcleared⟩ := givesSame_of_changes (changes_cleared now c other data) h halone hindexed
      exact fun later => (hsaved later).trans ((hstored later).trans (hcleared later))

end

/-! ### The cache as a map -/

theorem maxSize_serveAll (c : UnitCache) (rs : List (Instant × Request)) : (c.serveAll rs).maxSize = c.maxSize := by
  induction rs using List.reverseRecOn with
  | nil => rfl
  | append_singleton rs r ih =>
    rw [serveAll, List.foldl_append]
    exact (sameBounds_serve (c.serveAll rs) r.1 r.2).maxSize.trans ih

theorem maxSize_of_openAt {dir : Bytes} {maxSize maxAge : Int} {now : Instant} {files : FileTree} {c : UnitCache}
    (hopen : openAt dir maxSize maxAge now files = .ok c) : c.maxSize = maxSize := by
  unfold openAt at hopen
  split at hopen
  · cases hopen
  · cases hopen
    rfl

/-- What a cache that was opened without entries gives for a key is the data of the last unit that was put into the file
of that key. If no other key was put into this file, it is the last unit that was put under the key, and requests for
other keys leave what is given alone as long as the key stays in the index. -/
theorem get_serveAll {dir : Bytes} {maxSize maxAge : Int} {start : Instant} {files : FileTree} {c : UnitCache}
    (hopen : openAt dir maxSize maxAge start files = .ok c) (hempty : c.entries = []) (rs : List (Instant × Request))
    (key : Bytes) :
    (∀ now data, ((c.serveAll rs).get now key).1 = some data →
      lastPut maxSize (fun k => unitFile k = unitFile key) rs = some data) ∧
    ((∀ other ∈ putKeys rs, unitFile other = unitFile key → other = key) →
      (∀ now data, ((c.serveAll rs).get now key).1 = some data → lastPut maxSize (fun k => k = key) rs = some data) ∧
      ∀ now r, r ≠ .clear → (∀ other data deps, r = .put other data deps → unitFile other ≠ unitFile key) →
        Assoc.has key ((c.serveAll rs).serve now r).entries = true →
        ∀ later, (((c.serveAll rs).serve now r).get later key).1 = ((c.serveAll rs).get later key).1) := by
  have hrun := faithful_serveAll hempty rs
  have hmax : (c.serveAll rs).maxSize = maxSize := (maxSize_serveAll c rs).trans (maxSize_of_openAt hopen)
  have hgives : ∀ now data, ((c.serveAll rs).get now key).1 = some data →
      lastPut maxSize (fun k => unitFile k = unitFile key) rs = some data := by
    intro now data hget
    rw [← hmax]
    exact hrun.given hget
  refine ⟨hgives, fun hfiles => ⟨?_, ?_⟩⟩
  · intro now data hget
    rw [← hgives now data hget]
    refine lastPut_congr maxSize fun other hother => ?_
    by_cases hkey : other = key
    · simp [hkey]
    · have hfile : unitFile other ≠ unitFile key := fun heq => hkey (hfiles other hother heq)
      simp [hkey, hfile]
  · intro now r hclear hput hindexed
    exact givesSame_serve hrun (fun hget => hfiles _ (hrun.put hget)) hclear hput hindexed

/-- A cache without bounds, opened where there is nothing. -/
def emptyCache : UnitCache where
  dir := "c"
  files := { nodes := [(["c"], .directory), (["c", "units"], .directory)] }

theorem openAt_emptyCache : openAt "c" 0 0 .zero {} = .ok emptyCache := by cbv

/-- Two keys with files of their own. -/
def apartPuts : List (Instant × Request) := [(.zero, .put "k" "v" []), (.zero, .put "l" "w" [])]

set_option maxRecDepth 20000 in
theorem get_serveAll_apart :
    openAt "c" 0 0 .zero {} = .ok emptyCache ∧ emptyCache.entries = [] ∧
      (∀ other ∈ putKeys apartPuts, unitFile other = unitFile "k" → other = "k") ∧
      ((emptyCache.serveAll apartPuts).get .zero "k").1 = some (Bytes.ofString "v") ∧
      lastPut 0 (fun k => k = "k") apartPuts = some (Bytes.ofString "v") ∧
      ∀ now, Assoc.has (Bytes.ofString "k") ((emptyCache.serveAll apartPuts).serve now (.delete "l")).entries = true →
        ∀ later, (((emptyCache.serveAll apartPuts).serve now (.delete "l")).get later "k").1 =
          ((emptyCache.serveAll apartPuts).get later "k").1 := by
  have hplain : ∀ other ∈ putKeys apartPuts, other.length ≤ 100 ∧ other.all isNameByte = true := by decide
  have hfiles : ∀ other ∈ putKeys apartPuts, unitFile other = unitFile "k" → other = "k" :=
    fun other hother heq => eq_of_unitFile (hplain other hother) (by decide) heq
  have hget : ((emptyCache.serveAll apartPuts).get .zero "k").1 = some (Bytes.ofString "v") := by cbv
  obtain ⟨hgives, hleaves⟩ := (get_serveAll openAt_emptyCache rfl apartPuts "k").2 hfiles
  refine ⟨openAt_emptyCache, rfl, hfiles, hget, hgives _ _ hget, fun now => hleaves now (.delete "l") ?_ ?_⟩
  · rintro ⟨⟩
  · rintro other data deps ⟨⟩

/-- Two keys that share a file. -/
def sharedPuts : List (Instant × Request) := [(.zero, .put "a/b" "1" []), (.zero, .put "a:b" "2" [])]

set_option maxRecDepth 20000 in
/-- Under a key one gets what was put under another key that shares its file. -/
theorem get_serveAll_shared :
    openAt "c" 0 0 .zero {} = .ok emptyCache ∧
      ((emptyCache.serveAll sharedPuts).get .zero "a/b").1 = some (Bytes.ofString "2") ∧
      lastPut 0 (fun k => k = "a/b") sharedPuts = some (Bytes.ofString "1") := by
  have hget : ((emptyCache.serveAll sharedPuts).get .zero "a/b").1 = some (Bytes.ofString "2") := by cbv
  exact ⟨openAt_emptyCache, hget, by decide +kernel⟩

end Stencil.UnitCache
