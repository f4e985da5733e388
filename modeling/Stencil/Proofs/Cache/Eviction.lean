import Mathlib.Data.List.Sort
import Stencil.Proofs.Cache.Accounting
import Stencil.Proofs.Text.Order

/-! # Making room

When a unit needs room, the ones that were used least recently go, and no more of them than it takes
(`put_evicts`). The loop that takes them away may look through the units in any order (`Evicts`), and in another one
each time: what it finds depends on the times of use only (`oldest_of_perm`). -/

namespace Stencil.UnitCache

/-! ### The order of use -/

/-- Units one after another as they were used, no two at the same time. -/
def InUseOrder (es : Assoc Bytes CacheEntry) : Prop :=
  es.Pairwise fun a b => a.2.lastAccess.nanos < b.2.lastAccess.nanos

/-- Whether a unit was used no later than another one. -/
def UsedBefore (a b : Bytes × CacheEntry) : Prop := a.2.lastAccess.nanos ≤ b.2.lastAccess.nanos

instance : DecidableRel UsedBefore := fun a b => Int.decLe a.2.lastAccess.nanos b.2.lastAccess.nanos

instance : Std.Total UsedBefore := ⟨fun a b => Int.le_total a.2.lastAccess.nanos b.2.lastAccess.nanos⟩

instance : IsTrans (Bytes × CacheEntry) UsedBefore := ⟨fun _ _ _ => Int.le_trans⟩

/-- The units from the least recently used one on. -/
def byUse (entries : Assoc Bytes CacheEntry) : Assoc Bytes CacheEntry := entries.insertionSort UsedBefore

theorem perm_byUse (entries : Assoc Bytes CacheEntry) : (byUse entries).Perm entries := List.perm_insertionSort _ entries

theorem inUseOrder_byUse {entries : Assoc Bytes CacheEntry}
    (h : (entries.map fun e => e.2.lastAccess.nanos).Nodup) : InUseOrder (byUse entries) := by
  have hle : (byUse entries).Pairwise UsedBefore := List.pairwise_insertionSort UsedBefore entries
  have hne : (byUse entries).Pairwise fun a b => a.2.lastAccess.nanos ≠ b.2.lastAccess.nanos :=
    List.pairwise_map.mp (((perm_byUse entries).map _).nodup_iff.mpr h)
  exact hle.imp₂ (fun a b hle hne => Int.lt_iff_le_and_ne.mpr ⟨hle, hne⟩) hne

/-- Looking through units finds one that was used no later than any of them. -/
theorem foldl_earlier_least {m : Bytes × CacheEntry} {es : Assoc Bytes CacheEntry} (hm : m.1 ≠ [])
    (hes : ∀ e ∈ es, e.1 ≠ []) :
    ∃ x ∈ m :: es, es.foldl earlier (m.1, m.2.lastAccess) = (x.1, x.2.lastAccess) ∧
      ∀ y ∈ m :: es, x.2.lastAccess.nanos ≤ y.2.lastAccess.nanos := by
  induction es generalizing m with
  | nil => exact ⟨m, List.mem_singleton_self m, rfl, fun y hy => List.mem_singleton.mp hy ▸ Int.le_refl _⟩
  | cons e es ih =>
    obtain ⟨he, hes⟩ := List.forall_mem_cons.mp hes
    rw [List.foldl_cons]
    by_cases hearlier : e.2.lastAccess.nanos < m.2.lastAccess.nanos
    · have hfound : earlier (m.1, m.2.lastAccess) e = (e.1, e.2.lastAccess) := if_pos (.inr hearlier)
      obtain ⟨x, hx, hfold, hleast⟩ := ih he hes
      refine ⟨x, List.mem_cons_of_mem m hx, by rw [hfound, hfold], List.forall_mem_cons.mpr ⟨?_, hleast⟩⟩
      exact Int.le_trans (hleast e List.mem_cons_self) (Int.le_of_lt hearlier)
    · have hfound : earlier (m.1, m.2.lastAccess) e = (m.1, m.2.lastAccess) := if_neg (by simp [hm, hearlier])
      obtain ⟨x, hx, hfold, hleast⟩ := ih hm hes
      obtain ⟨hxm, hleast⟩ := List.forall_mem_cons.mp hleast
      refine ⟨x, ?_, by rw [hfound, hfold], List.forall_mem_cons.mpr ⟨hxm, List.forall_mem_cons.mpr ⟨?_, hleast⟩⟩⟩
      · rcases List.mem_cons.mp hx with rfl | hx
        · exact List.mem_cons_self
        · exact List.mem_cons_of_mem m (List.mem_cons_of_mem e hx)
      · exact Int.le_trans hxm (Int.not_lt.mp hearlier)

/-- In whichever order units are looked through, the least recently used one is found. -/
theorem oldest_of_perm {listing es : Assoc Bytes CacheEntry} {e : Bytes × CacheEntry} (hlisting : listing.Perm (e :: es))
    (hnames : ∀ x ∈ e :: es, x.1 ≠ []) (horder : InUseOrder (e :: es)) : oldest listing = e.1 := by
  cases listing with
  | nil => cases hlisting.nil_eq
  | cons m rest =>
    have hnamed : ∀ x ∈ m :: rest, x.1 ≠ [] := fun x hx => hnames x (hlisting.mem_iff.mp hx)
    obtain ⟨hm, hrest⟩ := List.forall_mem_cons.mp hnamed
    obtain ⟨x, hx, hfold, hleast⟩ := foldl_earlier_least hm hrest
    have hfirst : earlier ([], .zero) m = (m.1, m.2.lastAccess) := if_pos (.inl rfl)
    have hxe : x = e := by
      rcases List.mem_cons.mp (hlisting.mem_iff.mp hx) with hxe | hlater
      · exact hxe
      · have hlt := (List.pairwise_cons.mp horder).1 x hlater
        exact absurd (hleast e (hlisting.mem_iff.mpr List.mem_cons_self)) (Int.not_le.mpr hlt)
    rw [oldest, List.foldl_cons, hfirst, hfold, hxe]

/-! ### The loop -/

/-- Units with `needed` more bytes stay within a bound, as far as the counter of their sizes tells. -/
def Fits (maxSize needed : Int) (units : Assoc Bytes CacheEntry) : Prop := wrap (sizesOf units + needed) ≤ maxSize

/-- As long as everything together is a number of 64 bits, the counter tells the sum. -/
theorem fits_iff {maxSize needed : Int} {units : Assoc Bytes CacheEntry} (hsizes : ∀ e ∈ units, 0 ≤ e.2.size)
    (hneeded : 0 ≤ needed) (hsum : sizesOf units + needed < wordLimit) :
    Fits maxSize needed units ↔ sizesOf units + needed ≤ maxSize := by
  have hnonneg := sizesOf_nonneg hsizes
  rw [Fits, wrap_eq_self (by omega) hsum]

/-- A cache whose units are `units` in the order of their use, and whose counter tells their sizes. -/
structure Holds (c : UnitCache) (units : Assoc Bytes CacheEntry) : Prop where
  perm : units.Perm c.entries
  order : InUseOrder units
  keys : (Assoc.keys units).Nodup
  names : ∀ e ∈ units, e.1 ≠ []
  total : c.stats.totalSize = wrap (sizesOf units)

section
variable {now : Instant} {needed : Int} {c c' : UnitCache} {units : Assoc Bytes CacheEntry}

theorem Holds.isRoomy_iff (h : Holds c units) : c.IsRoomy needed ↔ Fits c.maxSize needed units ∨ units = [] := by
  rw [IsRoomy, h.total, wrap_wrap_add, Fits]
  exact or_congr_right ⟨fun hnil => (hnil ▸ h.perm).eq_nil, fun hnil => (hnil ▸ h.perm).nil_eq.symm⟩

theorem Holds.oldest_eq {e : Bytes × CacheEntry} (h : Holds c (e :: units)) {listing : Assoc Bytes CacheEntry}
    (hlisting : listing.Perm c.entries) : oldest listing = e.1 :=
  oldest_of_perm (hlisting.trans h.perm.symm) h.names h.order

/-- A turn of the loop takes the first unit away. -/
theorem Holds.evictUnit {e : Bytes × CacheEntry} (h : Holds c (e :: units)) : Holds (c.evictUnit now e.1) units := by
  obtain ⟨hfresh, hkeys⟩ := List.nodup_cons.mp h.keys
  have hget : Assoc.get? e.1 c.entries = some e.2 :=
    Assoc.get?_of_mem ((h.perm.map _).nodup_iff.mp h.keys) (h.perm.mem_iff.mp List.mem_cons_self)
  have herase : Assoc.erase e.1 (e :: units) = units := by
    rw [Assoc.erase, List.filter_cons_of_neg (by simp), ← Assoc.erase,
      Assoc.erase_of_none (Assoc.get?_eq_none_iff.mpr hfresh)]
  refine ⟨?_, (List.pairwise_cons.mp h.order).2, hkeys, (List.forall_mem_cons.mp h.names).2, ?_⟩
  · change units.Perm (c.drop now e.1).entries
    rw [entries_drop, ← herase]
    exact h.perm.filter _
  · change (c.drop now e.1).stats.totalSize = _
    rw [drop_of_some hget]
    change wrap (c.stats.totalSize - e.2.size) = _
    rw [h.total, wrap_wrap_sub, sizesOf_cons, Int.add_comm, Int.add_sub_cancel]

theorem maxSize_evictUnit (key : Bytes) : (c.evictUnit now key).maxSize = c.maxSize :=
  (sameBounds_of_changes (changes_drop now key)).maxSize

theorem evictions_evictUnit (key : Bytes) : (c.evictUnit now key).stats.evictions = c.stats.evictions + 1 := by
  change (c.drop now key).stats.evictions + 1 = _
  cases hget : Assoc.get? key c.entries with
  | none => rw [drop_eq_self hget]
  | some e => rw [drop_of_some hget]

/-- The loop takes units away from the least recently used one on, until what is left fits or nothing is left, and not
one more. -/
theorem Evicts.holds {n : Nat} (h : Evicts now needed n c c') (hc : Holds c units) :
    n ≤ units.length ∧ Holds c' (units.drop n) ∧ c'.stats.evictions = c.stats.evictions + n ∧
      (Fits c.maxSize needed (units.drop n) ∨ units.drop n = []) ∧
      ∀ m < n, ¬(Fits c.maxSize needed (units.drop m) ∨ units.drop m = []) := by
  induction h generalizing units with
  | stop hroomy =>
    exact ⟨Nat.zero_le _, hc, rfl, hc.isRoomy_iff.mp hroomy, fun m hm => absurd hm (Nat.not_lt_zero m)⟩
  | @turn n c c' listing hfull hlisting _ ih =>
    rw [hc.isRoomy_iff] at hfull
    cases units with
    | nil => exact absurd (.inr rfl) hfull
    | cons e units =>
      rw [hc.oldest_eq hlisting] at ih
      obtain ⟨hn, hc', hevictions, hfits, hleast⟩ := ih hc.evictUnit
      rw [maxSize_evictUnit] at hfits hleast
      refine ⟨Nat.succ_le_succ hn, hc', ?_, hfits, fun m hm => ?_⟩
      · rw [hevictions, evictions_evictUnit]
        omega
      · cases m with
        | zero => exact hfull
        | succ m => exact hleast m (Nat.lt_of_succ_lt_succ hm)

/-- All ways of looking through the units lead to the same end. -/
theorem Evicts.unique {n m : Nat} {a b : UnitCache} (h : Evicts now needed n c a) (h' : Evicts now needed m c b)
    (hc : Holds c units) : m = n ∧ b = a := by
  induction h generalizing units m b with
  | stop hroomy =>
    cases h' with
    | stop => exact ⟨rfl, rfl⟩
    | turn hfull => exact absurd hroomy hfull
  | turn hfull hlisting _ ih =>
    cases h' with
    | stop hroomy => exact absurd hroomy hfull
    | turn _ hlisting' rest' =>
      cases units with
      | nil => exact absurd (hc.isRoomy_iff.mpr (.inr rfl)) hfull
      | cons e units =>
        rw [hc.oldest_eq hlisting] at ih
        rw [hc.oldest_eq hlisting'] at rest'
        obtain ⟨rfl, rfl⟩ := ih rest' hc.evictUnit
        exact ⟨rfl, rfl⟩

/-! ### Putting a unit -/

/-- The units that may have to go for a unit that is put, from the least recently used one on. -/
def others (c : UnitCache) (key : Bytes) : Assoc Bytes CacheEntry := byUse (Assoc.erase key c.entries)

theorem holds_drop {key : Bytes} (hkeys : (Assoc.keys c.entries).Nodup)
    (htotal : c.stats.totalSize = wrap (sizesOf c.entries)) (hnames : ∀ e ∈ c.entries, e.1 ≠ [])
    (huses : (c.entries.map fun e => e.2.lastAccess.nanos).Nodup) : Holds (c.drop now key) (c.others key) := by
  have hperm : (c.others key).Perm (Assoc.erase key c.entries) := perm_byUse _
  have hsizes : sizesOf (c.others key) = sizesOf (Assoc.erase key c.entries) := sizesOf_perm hperm
  refine ⟨?_, inUseOrder_byUse ?_, ?_, fun e he => ?_, ?_⟩
  · rw [entries_drop]
    exact hperm
  · exact (List.filter_sublist.map _).nodup huses
  · exact (hperm.map _).nodup_iff.mpr (Assoc.nodup_keys_erase key hkeys)
  · exact hnames e (List.mem_filter.mp (hperm.mem_iff.mp he)).1
  · rw [hsizes]
    cases hget : Assoc.get? key c.entries with
    | none => rw [drop_eq_self hget, Assoc.erase_of_none hget, htotal]
    | some e =>
      rw [drop_of_some hget, sizesOf_erase hkeys hget]
      change wrap (c.stats.totalSize - e.size) = _
      rw [htotal, wrap_wrap_sub]

theorem maxSize_drop (key : Bytes) : (c.drop now key).maxSize = c.maxSize :=
  (sameBounds_of_changes (changes_drop now key)).maxSize

theorem evictions_drop (key : Bytes) : (c.drop now key).stats.evictions = c.stats.evictions := by
  cases hget : Assoc.get? key c.entries with
  | none => rw [drop_eq_self hget]
  | some e => rw [drop_of_some hget]

theorem evicts_cleared (hmax : 0 < c.maxSize) (now : Instant) (key data : Bytes) :
    ∃ n, Evicts now data.length n (c.drop now key) (c.cleared now key data) := by
  rw [cleared, makeRoom, if_neg (by rw [maxSize_drop]; omega)]
  exact exists_evicts now data.length (Nat.le_refl _)

/-- The index after a unit is put has that unit next to those for which there was room. -/
theorem put_stored {key data : Bytes} (hsize : (data.length : Int) ≤ c.maxSize) (deps : List Bytes) {files : FileTree}
    (hwrite : (c.cleared now key data).files.write ((c.cleared now key data).pathOf (unitFile key)) data = .ok files) :
    (c.put now key data deps).2.entries = Assoc.insert key (entryOf now key data deps) (c.cleared now key data).entries ∧
      (c.put now key data deps).2.stats.evictions = (c.cleared now key data).stats.evictions := by
  rcases put_cases c now key data deps with ⟨hover, -⟩ | ⟨-, _, _, hfailed, -⟩ | ⟨-, files', -, hput⟩
  · exact absurd hsize (Int.not_le.mpr hover.2)
  · rw [hwrite] at hfailed
    cases hfailed
  · rw [hput, stats_saveIndex, entries_saveIndex]
    exact ⟨rfl, rfl⟩

/-- What is found among the units once the first of them are gone. -/
theorem get?_drop_of_perm {entries units : Assoc Bytes CacheEntry} (hperm : units.Perm entries)
    (hkeys : (Assoc.keys entries).Nodup) (n : Nat) (key : Bytes) :
    Assoc.get? key (units.drop n) =
      if key ∈ Assoc.keys (units.take n) then none else Assoc.get? key entries := by
  have hunits : (Assoc.keys (units.take n ++ units.drop n)).Nodup := by
    rw [List.take_append_drop]
    exact (hperm.map _).nodup_iff.mpr hkeys
  rw [Assoc.keys, List.map_append, List.nodup_append] at hunits
  have hsame : Assoc.get? key entries = Assoc.get? key (units.take n ++ units.drop n) := by
    rw [List.take_append_drop]
    exact Assoc.get?_perm hkeys hperm.symm key
  split
  · rename_i htaken
    exact Assoc.get?_eq_none_iff.mpr fun hleft => hunits.2.2 key htaken key hleft rfl
  · rename_i hkept
    rw [hsame, Assoc.get?_append, Assoc.get?_eq_none_iff.mpr hkept, Option.none_or]

/-- A unit that is put takes the place of the one that was kept under its key, and the fewest others go, from the least
recently used one on, with which the rest and the new unit fit. All that is left stays as it is, and the loop that takes
units away comes to this end in whichever order it looks through them. -/
theorem put_evicts (hkeys : (Assoc.keys c.entries).Nodup) (htotal : c.stats.totalSize = wrap (sizesOf c.entries))
    (hmax : 0 < c.maxSize) (hnames : ∀ e ∈ c.entries, e.1 ≠ [])
    (huses : (c.entries.map fun e => e.2.lastAccess.nanos).Nodup) {key data : Bytes}
    (hsize : (data.length : Int) ≤ c.maxSize) (deps : List Bytes) {files : FileTree}
    (hwrite : (c.cleared now key data).files.write ((c.cleared now key data).pathOf (unitFile key)) data = .ok files) :
    ∃ n ≤ (c.others key).length,
      Fits c.maxSize data.length ((c.others key).drop n) ∧
      (∀ m < n, ¬Fits c.maxSize data.length ((c.others key).drop m)) ∧
      (∀ other, Assoc.get? other (c.put now key data deps).2.entries =
        if other = key then some (entryOf now key data deps)
        else if other ∈ Assoc.keys ((c.others key).take n) then none
        else Assoc.get? other c.entries) ∧
      (c.put now key data deps).2.stats.evictions = c.stats.evictions + n ∧
      Evicts now data.length n (c.drop now key) (c.cleared now key data) ∧
      (∀ m c', Evicts now data.length m (c.drop now key) c' → m = n ∧ c' = c.cleared now key data) ∧
      ((∀ e ∈ c.entries, 0 ≤ e.2.size) → sizesOf c.entries + data.length < wordLimit →
        ∀ m, Fits c.maxSize data.length ((c.others key).drop m) ↔
          sizesOf ((c.others key).drop m) + data.length ≤ c.maxSize) := by
  have hdropped : Holds (c.drop now key) (c.others key) := holds_drop hkeys htotal hnames huses
  have hperm : (c.others key).Perm (Assoc.erase key c.entries) := perm_byUse _
  obtain ⟨hentries, hevictions⟩ := put_stored hsize deps hwrite
  obtain ⟨n, hloop⟩ := evicts_cleared hmax now key data
  obtain ⟨hn, hcleared, hcount, hfits, hleast⟩ := hloop.holds hdropped
  rw [maxSize_drop] at hfits hleast
  -- a unit within the bound fits where nothing else is left
  have hnil : ∀ {m : Nat}, (c.others key).drop m = [] → Fits c.maxSize data.length ((c.others key).drop m) := by
    intro m hm
    rw [Fits, hm]
    exact Int.le_trans (wrap_le (by simp [sizesOf])) (by simpa [sizesOf] using hsize)
  refine ⟨n, hn, hfits.elim id hnil, fun m hm hfits => hleast m hm (.inl hfits), fun other => ?_, ?_, hloop,
    fun m c' h => hloop.unique h hdropped, fun hsizes hsum m => ?_⟩
  · rw [hentries]
    split
    · rename_i hother
      rw [hother, Assoc.get?_insert_self]
    · rename_i hother
      rw [Assoc.get?_insert_ne hother, ← Assoc.get?_perm hcleared.keys hcleared.perm,
        get?_drop_of_perm hperm (Assoc.nodup_keys_erase key hkeys), Assoc.get?_erase_ne hother]
  · rw [hevictions, hcount, evictions_drop]
  · have hothers : ∀ e ∈ c.others key, 0 ≤ e.2.size := fun e he =>
      hsizes e (List.mem_filter.mp (hperm.mem_iff.mp he)).1
    have hle : sizesOf ((c.others key).drop m) ≤ sizesOf c.entries := by
      have hall : sizesOf (c.others key) ≤ sizesOf c.entries :=
        (sizesOf_perm hperm).trans_le (sizesOf_filter_le hsizes _)
      have htaken := sizesOf_nonneg (fun e he => hothers e (List.mem_of_mem_take he) : ∀ e ∈ (c.others key).take m, _)
      have hsplit := sizesOf_append ((c.others key).take m) ((c.others key).drop m)
      rw [List.take_append_drop] at hsplit
      omega
    exact fits_iff (fun e he => hothers e (List.mem_of_mem_drop he)) (Int.natCast_nonneg _) (by omega)

end

/-- A unit of a size, used at a time. -/
def unitUsedAt (size nanos : Int) : CacheEntry := { size, lastAccess := { nanos } }

/-- A full cache for four bytes. -/
def fullCache : UnitCache where
  dir := "c"
  maxSize := 4
  index := { entries := [("a", unitUsedAt 1 3), ("b", unitUsedAt 2 1), ("d", unitUsedAt 1 2)] }
  stats := { totalSize := 4, entryCount := 3 }
  files := { nodes := [(["c"], .directory), (["c", "units"], .directory)] }

/-- For three bytes two of the three units go: the one that was used first and the one after it. -/
theorem put_evicts_fullCache :
    ((Assoc.keys fullCache.entries).Nodup ∧ fullCache.stats.totalSize = wrap (sizesOf fullCache.entries) ∧
      0 < fullCache.maxSize ∧ (∀ e ∈ fullCache.entries, e.1 ≠ []) ∧
      (fullCache.entries.map fun e => e.2.lastAccess.nanos).Nodup ∧
      (("xyz" : Bytes).length : Int) ≤ fullCache.maxSize) ∧
    ∃ files, (fullCache.cleared .zero "e" "xyz").files.write
        ((fullCache.cleared .zero "e" "xyz").pathOf (unitFile "e")) "xyz" = .ok files ∧
      (fullCache.put .zero "e" "xyz" []).2.stats.evictions = 2 ∧
      Assoc.keys ((fullCache.others "e").take 2) = (["b", "d"] : List Bytes) ∧
      ∀ other, Assoc.get? other (fullCache.put .zero "e" "xyz" []).2.entries =
        if other = "e" then some (entryOf .zero "e" "xyz" []) else if other ∈ (["b", "d"] : List Bytes) then none
        else Assoc.get? other fullCache.entries := by
  have hkeys : (Assoc.keys fullCache.entries).Nodup := by decide
  have htotal : fullCache.stats.totalSize = wrap (sizesOf fullCache.entries) := by decide
  have hnames : ∀ e ∈ fullCache.entries, e.1 ≠ [] := by decide
  have huses : (fullCache.entries.map fun e => e.2.lastAccess.nanos).Nodup := by decide
  have hsize : (("xyz" : Bytes).length : Int) ≤ fullCache.maxSize := by decide
  have hothers : fullCache.others "e" =
      ([("b", unitUsedAt 2 1), ("d", unitUsedAt 1 2), ("a", unitUsedAt 1 3)] : Assoc Bytes CacheEntry) := by
    decide +kernel
  have hwritten : ((fullCache.cleared .zero "e" "xyz").files.write
      ((fullCache.cleared .zero "e" "xyz").pathOf (unitFile "e")) "xyz").toOption.isSome = true := by decide +kernel
  cases hwrite : (fullCache.cleared .zero "e" "xyz").files.write
      ((fullCache.cleared .zero "e" "xyz").pathOf (unitFile "e")) "xyz" with
  | error e =>
    rw [hwrite] at hwritten
    cases hwritten
  | ok files =>
    obtain ⟨n, hn, hfits, hleast, hentries, hevictions, -⟩ :=
      put_evicts hkeys htotal (by decide) hnames huses hsize [] hwrite
    rw [hothers] at hn hfits hleast hentries
    have htwo : n = 2 := by
      refine Nat.le_antisymm (Nat.not_lt.mp fun hlt => hleast 2 hlt (by unfold Fits; decide)) (Nat.not_lt.mp fun hlt => ?_)
      interval_cases n
      · exact absurd hfits (by unfold Fits; decide)
      · exact absurd hfits (by unfold Fits; decide)
    subst htwo
    rw [hothers]
    exact ⟨⟨hkeys, htotal, by decide, hnames, huses, hsize⟩, files, rfl, hevictions, rfl, hentries⟩

/-- A saved index with two units that are as large as numbers of 64 bits go. -/
def hugeTree : FileTree where
  nodes := [(["c"], .directory), (["c", "index.json"], .file
    ("\x7b\"version\":\"sigil-units-1\",\"entries\":\x7b" ++
      "\"a\":\x7b\"size\":9223372036854775807,\"last_access\":\"2025-01-01T00:00:00Z\"\x7d," ++
      "\"b\":\x7b\"size\":9223372036854775807,\"last_access\":\"2025-01-02T00:00:00Z\"\x7d\x7d\x7d"))]

/-- Beside units whose sizes are together no number of 64 bits there is room for another one, though nothing of what is
kept fits. -/
theorem not_put_evicts :
    ∃ c files, openAt "c" 100 0 .zero hugeTree = .ok c ∧ (Assoc.keys c.entries).Nodup ∧ 0 < c.maxSize ∧
      (∀ e ∈ c.entries, e.1 ≠ []) ∧ (c.entries.map fun e => e.2.lastAccess.nanos).Nodup ∧
      (c.cleared .zero "d" "x").files.write ((c.cleared .zero "d" "x").pathOf (unitFile "d")) "x" = .ok files ∧
      (∀ m < 2, c.maxSize < sizesOf ((c.others "d").drop m) + 1) ∧
      (c.put .zero "d" "x" []).2.stats.evictions = c.stats.evictions ∧
      Assoc.keys (c.put .zero "d" "x" []).2.entries = (["a", "b", "d"] : List Bytes) := by
  have hread : ((openAt "c" 100 0 .zero hugeTree).toOption.any fun c =>
      decide (c.maxSize = 100 ∧ Assoc.keys c.entries = (["a", "b"] : List Bytes) ∧
        (c.entries.map fun e => e.2.lastAccess.nanos).Nodup ∧
        (∀ m < 2, c.maxSize < sizesOf ((c.others "d").drop m) + 1) ∧
        (c.cleared .zero "d" "x").stats.evictions = c.stats.evictions ∧
        (c.cleared .zero "d" "x").entries = c.entries ∧
        ((c.cleared .zero "d" "x").files.write
          ((c.cleared .zero "d" "x").pathOf (unitFile "d")) "x").toOption.isSome)) = true := by
    decide +kernel
  cases hopen : openAt "c" 100 0 .zero hugeTree with
  | error e =>
    rw [hopen] at hread
    cases hread
  | ok c =>
    rw [hopen] at hread
    obtain ⟨hmax, hkeys, huses, hlarge, hevictions, hentries, hwritten⟩ := of_decide_eq_true hread
    cases hwrite : (c.cleared .zero "d" "x").files.write ((c.cleared .zero "d" "x").pathOf (unitFile "d")) "x" with
    | error e =>
      rw [hwrite] at hwritten
      cases hwritten
    | ok files =>
      obtain ⟨hstored, hcount⟩ := put_stored (hmax ▸ by decide) [] hwrite
      have hfresh : Assoc.get? ("d" : Bytes) c.entries = none := Assoc.get?_eq_none_iff.mpr (hkeys ▸ by decide)
      refine ⟨c, files, rfl, hkeys ▸ by decide, hmax ▸ by decide, fun e he hnil => ?_, huses, hwrite, hlarge,
        hcount.trans hevictions, ?_⟩
      · have hmem : e.1 ∈ Assoc.keys c.entries := List.mem_map_of_mem he
        rw [hkeys, hnil] at hmem
        exact absurd hmem (by decide)
      · rw [hstored, hentries, Assoc.insert_of_none _ hfresh, Assoc.keys, List.map_append]
        exact congrArg (· ++ _) hkeys

end Stencil.UnitCache
