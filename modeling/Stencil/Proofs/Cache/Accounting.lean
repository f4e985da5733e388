import Mathlib
import Stencil.Proofs.Cache.Changes

/-! # The counters of a cache

The counters of a cache agree with its entries (`Accounted`): every change of a cache keeps that, however the files
may change that it lives among, and so does a unit that is stored. As the total size is a number of 64 bits, it is
the sum of the sizes as long as that sum is one, too. -/

namespace Stencil

/-! ### Wrapping around -/

theorem wrap_wrap_add (a b : Int) : wrap (wrap a + b) = wrap (a + b) := Int.bmod_add_bmod

theorem wrap_wrap_sub (a b : Int) : wrap (wrap a - b) = wrap (a - b) := Int.bmod_sub_bmod

theorem wrap_le {n : Int} (h : 0 ≤ n) : wrap n ≤ n := by
  unfold wrap Int.bmod wordCount
  simp only
  split
  · omega
  · omega

namespace UnitCache

/-- The sizes of the entries of an index together. -/
def sizesOf : Assoc Bytes CacheEntry → Int
  | [] => 0
  | e :: es => e.2.size + sizesOf es

@[simp] theorem sizesOf_cons (e : Bytes × CacheEntry) (es : Assoc Bytes CacheEntry) :
    sizesOf (e :: es) = e.2.size + sizesOf es := rfl

theorem sizesOf_append (a b : Assoc Bytes CacheEntry) : sizesOf (a ++ b) = sizesOf a + sizesOf b := by
  induction a with
  | nil => exact (Int.zero_add _).symm
  | cons e a ih => rw [List.cons_append, sizesOf_cons, sizesOf_cons, ih, Int.add_assoc]

theorem sizesOf_perm {a b : Assoc Bytes CacheEntry} (h : a.Perm b) : sizesOf a = sizesOf b := by
  induction h with
  | nil => rfl
  | cons e _ ih => rw [sizesOf_cons, sizesOf_cons, ih]
  | swap e e' es => simp only [sizesOf_cons, Int.add_left_comm]
  | trans _ _ ih ih' => exact ih.trans ih'

theorem sizesOf_nonneg {entries : Assoc Bytes CacheEntry} (h : ∀ e ∈ entries, 0 ≤ e.2.size) : 0 ≤ sizesOf entries := by
  induction entries with
  | nil => exact Int.le_refl 0
  | cons e es ih =>
    obtain ⟨he, hes⟩ := List.forall_mem_cons.mp h
    have := ih hes
    rw [sizesOf_cons]
    omega

theorem sizesOf_filter_le {entries : Assoc Bytes CacheEntry} (h : ∀ e ∈ entries, 0 ≤ e.2.size)
    (keep : Bytes × CacheEntry → Bool) : sizesOf (entries.filter keep) ≤ sizesOf entries := by
  induction entries with
  | nil => exact Int.le_refl 0
  | cons e es ih =>
    obtain ⟨he, hes⟩ := List.forall_mem_cons.mp h
    have := ih hes
    rw [List.filter_cons]
    split
    · rw [sizesOf_cons, sizesOf_cons]
      omega
    · rw [sizesOf_cons]
      omega

theorem sizesOf_erase {entries : Assoc Bytes CacheEntry} (hkeys : (Assoc.keys entries).Nodup) {key : Bytes}
    {e : CacheEntry} (hget : Assoc.get? key entries = some e) :
    sizesOf (Assoc.erase key entries) = sizesOf entries - e.size := by
  induction entries with
  | nil => cases hget
  | cons x es ih =>
    obtain ⟨k, v⟩ := x
    obtain ⟨hk, hkeys⟩ := List.nodup_cons.mp hkeys
    rw [Assoc.get?] at hget
    split at hget
    · rename_i hkey
      cases hget
      subst hkey
      have hfresh : Assoc.get? k es = none := Assoc.get?_eq_none_iff.mpr hk
      rw [Assoc.erase, List.filter_cons_of_neg (by simp), ← Assoc.erase, Assoc.erase_of_none hfresh, sizesOf_cons]
      simp only
      omega
    · rename_i hkey
      rw [Assoc.erase, List.filter_cons_of_pos (by simp [hkey]), sizesOf_cons, sizesOf_cons, ← Assoc.erase,
        ih hkeys hget]
      exact (Int.add_sub_assoc _ _ _).symm

theorem sizesOf_insert_of_some {entries : Assoc Bytes CacheEntry} {key : Bytes} {old e : CacheEntry}
    (hget : Assoc.get? key entries = some old) (hsize : e.size = old.size) :
    sizesOf (Assoc.insert key e entries) = sizesOf entries := by
  induction entries with
  | nil => cases hget
  | cons x es ih =>
    obtain ⟨k, v⟩ := x
    rw [Assoc.get?] at hget
    rw [Assoc.insert]
    split
    · rename_i hkey
      rw [if_pos hkey] at hget
      cases hget
      rw [sizesOf_cons, sizesOf_cons, hsize]
    · rename_i hkey
      rw [if_neg hkey] at hget
      rw [sizesOf_cons, sizesOf_cons, ih hget]

theorem length_insert_of_some {entries : Assoc Bytes CacheEntry} {key : Bytes} {old : CacheEntry} (e : CacheEntry)
    (hget : Assoc.get? key entries = some old) : (Assoc.insert key e entries).length = entries.length := by
  have hkeys := congrArg List.length (Assoc.keys_insert_of_some e hget)
  rwa [Assoc.keys, List.length_map, Assoc.keys, List.length_map] at hkeys

/-! ### The invariant -/

/-- The counters agree with the entries, of which there is one for each key. -/
structure Accounted (c : UnitCache) : Prop where
  keys : (Assoc.keys c.entries).Nodup
  sizes : ∀ e ∈ c.entries, 0 ≤ e.2.size
  count : c.stats.entryCount = c.entries.length
  total : c.stats.totalSize = wrap (sizesOf c.entries)

section
variable {now : Instant} {c c' : UnitCache}

theorem Accounted.drop (h : Accounted c) {key : Bytes} {e : CacheEntry} (hget : Assoc.get? key c.entries = some e) :
    Accounted (c.drop now key) := by
  rw [drop_of_some hget]
  refine ⟨Assoc.nodup_keys_erase key h.keys, fun x hx => h.sizes x (List.mem_filter.mp hx).1, rfl, ?_⟩
  change wrap (c.stats.totalSize - e.size) = wrap (sizesOf (Assoc.erase key c.entries))
  rw [h.total, wrap_wrap_sub, sizesOf_erase h.keys hget]

theorem Accounted.touch (h : Accounted c) {key : Bytes} {e : CacheEntry} (hget : Assoc.get? key c.entries = some e) :
    Accounted { c with index.entries := Assoc.insert key { e with lastAccess := now } c.entries } where
  keys := Assoc.nodup_keys_insert key _ h.keys
  sizes := by
    intro x hx
    rcases Assoc.mem_insert_cases hx with hx | rfl
    · exact h.sizes x hx
    · exact h.sizes (key, e) (Assoc.mem_of_get? hget)
  count := h.count.trans (length_insert_of_some _ hget).symm
  total := by
    have hsum := sizesOf_insert_of_some (e := { e with lastAccess := now }) hget rfl
    exact h.total.trans (congrArg wrap hsum.symm)

theorem Accounted.change (hchange : Change now c c') (h : Accounted c) : Accounted c' := by
  cases hchange with
  | count => exact ⟨h.keys, h.sizes, h.count, h.total⟩
  | touch hget => exact h.touch hget
  | drop hget => exact h.drop hget
  | save => exact ⟨h.keys, h.sizes, h.count, h.total⟩

/-- No change makes the entries larger together. -/
theorem sizesOf_change (hchange : Change now c c') (h : Accounted c) : sizesOf c'.entries ≤ sizesOf c.entries := by
  cases hchange with
  | count => exact Int.le_refl _
  | touch hget => exact Int.le_of_eq (sizesOf_insert_of_some hget rfl)
  | drop hget =>
    have hsize := h.sizes _ (Assoc.mem_of_get? hget)
    rw [entries_drop, sizesOf_erase h.keys hget]
    simp only at hsize
    omega
  | save => exact Int.le_refl _

theorem Accounted.changes (hchanges : Changes now c c') (h : Accounted c) :
    Accounted c' ∧ sizesOf c'.entries ≤ sizesOf c.entries := by
  induction hchanges with
  | refl => exact ⟨h, Int.le_refl _⟩
  | tail _ hlast ih => exact ⟨ih.1.change hlast, Int.le_trans (sizesOf_change hlast ih.1) ih.2⟩

theorem Accounted.withUnit (h : Accounted c) {key : Bytes} (hget : Assoc.get? key c.entries = none) (data : Bytes)
    (deps : List Bytes) (files : FileTree) : Accounted (c.withUnit now key data deps files) where
  keys := Assoc.nodup_keys_insert key _ h.keys
  sizes := by
    intro x hx
    rcases Assoc.mem_insert_cases hx with hx | rfl
    · exact h.sizes x hx
    · exact Int.natCast_nonneg _
  count := rfl
  total := by
    change wrap (c.stats.totalSize + data.length) = wrap (sizesOf (Assoc.insert key _ c.entries))
    rw [h.total, wrap_wrap_add, Assoc.insert_of_none _ hget, sizesOf_append]
    rfl

theorem Accounted.put (h : Accounted c) (key data : Bytes) (deps : List Bytes) :
    Accounted (c.put now key data deps).2 := by
  have hcleared := (h.changes (changes_cleared now c key data)).1
  rcases put_cases c now key data deps with ⟨-, e, hput⟩ | ⟨-, -, e, -, hput⟩ | ⟨-, files, -, hput⟩
  · rw [hput]
    exact h
  · rw [hput]
    exact hcleared
  · rw [hput]
    exact ((hcleared.withUnit (get?_cleared c key data) data deps files).changes (changes_saveIndex now _)).1

theorem Accounted.clear (h : Accounted c) :
    Accounted (c.clear now).2 ∧ sizesOf (c.clear now).2.entries ≤ sizesOf c.entries := by
  rcases clear_cases c now with ⟨e, hclear⟩ | ⟨files, e, -, hclear⟩ | ⟨files, hclear⟩
  · rw [hclear]
    exact ⟨h, Int.le_refl _⟩
  · rw [hclear]
    exact ⟨⟨h.keys, h.sizes, h.count, h.total⟩, Int.le_refl _⟩
  · have hfresh : Accounted (c.fresh now files) := ⟨List.nodup_nil, List.forall_mem_nil _, rfl, rfl⟩
    obtain ⟨hsaved, hle⟩ := hfresh.changes (changes_saveIndex now _)
    rw [hclear]
    exact ⟨hsaved, Int.le_trans hle (sizesOf_nonneg h.sizes)⟩

/-- A request that puts no unit keeps the counters right and makes the entries no larger together. -/
theorem Accounted.serve_of_ne_put (h : Accounted c) (now : Instant) {r : Request}
    (hr : ∀ key data deps, r ≠ .put key data deps) :
    Accounted (c.serve now r) ∧ sizesOf (c.serve now r).entries ≤ sizesOf c.entries := by
  by_cases hclear : r = .clear
  · rw [hclear]
    exact h.clear
  · exact h.changes (changes_serve now c hr hclear)

theorem Accounted.serve (h : Accounted c) (r : Request) : Accounted (c.serve now r) := by
  cases r with
  | put key data deps => exact h.put key data deps
  | _ => exact (h.serve_of_ne_put now fun _ _ _ => Request.noConfusion).1

/-- The total size is the sum of the sizes, as long as this is a number of 64 bits. -/
theorem Accounted.total_eq (h : Accounted c) (hsum : sizesOf c.entries < wordLimit) :
    c.stats.totalSize = sizesOf c.entries := by
  have hnonneg := sizesOf_nonneg h.sizes
  rw [h.total, wrap_eq_self (by omega) hsum]

/-! ### Room for a unit -/

theorem fst_foldl_earlier (found : Bytes × Instant) (es : Assoc Bytes CacheEntry) :
    (es.foldl earlier found).1 = found.1 ∨ (es.foldl earlier found).1 ∈ Assoc.keys es := by
  induction es generalizing found with
  | nil => exact .inl rfl
  | cons e es ih =>
    have hfirst : (earlier found e).1 = found.1 ∨ (earlier found e).1 = e.1 := by
      unfold earlier
      split
      · exact .inr rfl
      · exact .inl rfl
    rw [List.foldl_cons, Assoc.keys, List.map_cons, List.mem_cons]
    rcases ih (earlier found e) with h | h
    · rw [h]
      exact hfirst.imp_right .inl
    · exact .inr (.inr h)

theorem oldest_mem_keys {entries : Assoc Bytes CacheEntry} (h : entries ≠ []) : oldest entries ∈ Assoc.keys entries := by
  cases entries with
  | nil => exact absurd rfl h
  | cons e es =>
    have hfirst : earlier ([], .zero) e = (e.1, e.2.lastAccess) := if_pos (.inl rfl)
    rw [oldest, List.foldl_cons, hfirst, Assoc.keys, List.map_cons, List.mem_cons]
    exact fst_foldl_earlier _ es

theorem length_erase_lt {key : Bytes} {entries : Assoc Bytes CacheEntry} (h : key ∈ Assoc.keys entries) :
    (Assoc.erase key entries).length < entries.length := by
  obtain ⟨e, he, heq⟩ := List.mem_map.mp h
  exact List.length_filter_lt_length_iff_exists.mpr ⟨e, he, by simp [heq]⟩

/-- How the loop that makes room goes when each turn looks through the units in any order: how many units go, and what
is left. -/
inductive Evicts (now : Instant) (needed : Int) : Nat → UnitCache → UnitCache → Prop
  | stop {c : UnitCache} (hroomy : c.IsRoomy needed) : Evicts now needed 0 c c
  | turn {n : Nat} {c c' : UnitCache} {listing : Assoc Bytes CacheEntry} (hfull : ¬c.IsRoomy needed)
      (hlisting : listing.Perm c.entries) (rest : Evicts now needed n (c.evictUnit now (oldest listing)) c') :
      Evicts now needed (n + 1) c c'

theorem Evicts.isRoomy {needed : Int} {n : Nat} (h : Evicts now needed n c c') : c'.IsRoomy needed := by
  induction h with
  | stop hroomy => exact hroomy
  | turn _ _ _ ih => exact ih

/-- Each turn leaves one unit less, so with as many turns as there are units the loop comes to its end. -/
theorem exists_evicts (now : Instant) (needed : Int) {k : Nat} (hk : c.entries.length ≤ k) :
    ∃ n, Evicts now needed n c (evict now needed k c) := by
  induction k generalizing c with
  | zero => exact ⟨0, .stop (.inr (List.eq_nil_of_length_eq_zero (Nat.le_zero.mp hk)))⟩
  | succ k ih =>
    rw [evict]
    split
    · rename_i hroomy
      exact ⟨0, .stop hroomy⟩
    · rename_i hfull
      have hne : c.entries ≠ [] := fun hnil => hfull (.inr hnil)
      have hshorter : (c.evictUnit now (oldest c.entries)).entries.length < c.entries.length := by
        change (c.drop now (oldest c.entries)).entries.length < _
        rw [entries_drop]
        exact length_erase_lt (oldest_mem_keys hne)
      obtain ⟨n, hn⟩ := ih (c := c.evictUnit now (oldest c.entries)) (by omega)
      exact ⟨n + 1, .turn hfull (.refl _) hn⟩

/-- Taking away as many units as there are ends with room or with no unit. -/
theorem evict_room (now : Instant) (needed : Int) {n : Nat} (hn : c.entries.length ≤ n) :
    (evict now needed n c).IsRoomy needed := by
  obtain ⟨m, hm⟩ := exists_evicts now needed hn
  exact hm.isRoomy

theorem stats_saveIndex (c : UnitCache) : c.saveIndex.2.stats = c.stats := by
  unfold saveIndex
  split
  · rfl
  split
  · rfl
  · rfl

theorem entries_saveIndex (c : UnitCache) : c.saveIndex.2.entries = c.entries := by
  unfold saveIndex
  split
  · rfl
  split
  · rfl
  · rfl

theorem stats_delete (c : UnitCache) (key : Bytes) : (c.delete now key).2.stats = (c.drop now key).stats := by
  unfold delete
  split
  · exact stats_saveIndex _
  · rename_i hhas
    rw [drop_eq_self (by simpa [Assoc.has] using hhas)]

theorem total_cleared_le (h : Accounted c) {key data : Bytes} (hmax : 0 < c.maxSize) (hsize : ¬c.IsOversized data) :
    wrap ((c.cleared now key data).stats.totalSize + data.length) ≤ c.maxSize := by
  have hkept : (c.drop now key).maxSize = c.maxSize := (sameBounds_of_changes (changes_drop now key)).maxSize
  have hcleared : (c.cleared now key data).maxSize = c.maxSize :=
    (sameBounds_of_changes (changes_cleared now c key data)).maxSize
  have hroom : c.cleared now key data = evict now data.length (c.drop now key).entries.length (c.drop now key) := by
    rw [cleared, makeRoom, if_neg (by omega)]
  rcases evict_room (c := c.drop now key) now data.length (Nat.le_refl _) with hfits | hempty
  · rwa [← hroom, hcleared] at hfits
  · rw [← hroom] at hempty
    have htotal := (h.changes (changes_cleared now c key data)).1.total
    have hlength : (data.length : Int) ≤ c.maxSize := Int.not_lt.mp fun hlt => hsize ⟨hmax, hlt⟩
    rw [htotal, hempty, wrap_wrap_add]
    exact Int.le_trans (wrap_le (by simp [sizesOf])) (by simpa [sizesOf] using hlength)

/-- A unit that is put leaves the total size within the bound. -/
theorem total_put_le (h : Accounted c) {key data : Bytes} {deps : List Bytes} (hmax : 0 < c.maxSize)
    (hput : (c.put now key data deps).1 = .ok ()) : (c.put now key data deps).2.stats.totalSize ≤ c.maxSize := by
  rcases put_cases c now key data deps with ⟨-, e, heq⟩ | ⟨-, -, e, -, heq⟩ | ⟨hsize, files, -, heq⟩
  · rw [heq] at hput
    cases hput
  · rw [heq] at hput
    cases hput
  · rw [heq, stats_saveIndex]
    exact total_cleared_le h hmax hsize

end

/-! ### Opening -/

theorem keeps_of_foldlM {α β : Type} {P : α → Prop} {f : α → β → Option α}
    (hstep : ∀ a x b, f a x = some b → P a → P b) {xs : List β} {a b : α} (h : xs.foldlM f a = some b) (ha : P a) :
    P b := by
  induction xs generalizing a with
  | nil =>
    cases h
    exact ha
  | cons x xs ih =>
    rw [List.foldlM_cons] at h
    obtain ⟨next, hnext, h⟩ := Option.bind_eq_some_iff.mp h
    exact ih h (hstep a x next hnext ha)

theorem nodup_of_readTable {α : Type} {readValue : Json → Option α} {old t : Assoc Bytes α} {j : Json}
    (h : Json.readTable readValue old j = some t) (hold : (Assoc.keys old).Nodup) : (Assoc.keys t).Nodup := by
  cases j with
  | object members =>
    refine keeps_of_foldlM (P := fun t => (Assoc.keys t).Nodup) ?_ h hold
    intro a m b hnext ha
    obtain ⟨v, -, rfl⟩ := Option.map_eq_some_iff.mp hnext
    exact Assoc.nodup_keys_insert m.1 v ha
  | null =>
    cases h
    exact List.nodup_nil
  | _ => cases h

theorem nodup_of_setStored {stored stored' : Bytes × CacheIndex} {name : Bytes} {j : Json}
    (h : CacheIndex.setStored stored name j = some stored') (hstored : (Assoc.keys stored.2.entries).Nodup) :
    (Assoc.keys stored'.2.entries).Nodup := by
  obtain ⟨version, i⟩ := stored
  unfold CacheIndex.setStored at h
  simp only at h
  split at h
  · obtain ⟨v, -, rfl⟩ := Option.map_eq_some_iff.mp h
    exact hstored
  split at h
  · obtain ⟨entries, hread, rfl⟩ := Option.map_eq_some_iff.mp h
    exact nodup_of_readTable hread hstored
  split at h
  · obtain ⟨updated, -, rfl⟩ := Option.map_eq_some_iff.mp h
    exact hstored
  · cases h
    exact hstored

/-- An index that is read has one entry for each key. -/
theorem nodup_of_decode {data : Bytes} {i : CacheIndex} (h : CacheIndex.decode data = some i) :
    (Assoc.keys i.entries).Nodup := by
  unfold CacheIndex.decode at h
  obtain ⟨j, -, h⟩ := Option.bind_eq_some_iff.mp h
  obtain ⟨⟨version, index⟩, hread, h⟩ := Option.bind_eq_some_iff.mp h
  simp only at h
  split at h
  · cases h
    cases j with
    | object members =>
      exact keeps_of_foldlM (P := fun stored : Bytes × CacheIndex => (Assoc.keys stored.2.entries).Nodup)
        (fun _ _ _ hnext ha => nodup_of_setStored hnext ha) hread List.nodup_nil
    | null =>
      cases hread
      exact List.nodup_nil
    | _ => cases hread
  · cases h

theorem sizeSum_eq (i : CacheIndex) : sizeSum i = wrap (sizesOf i.entries) := by
  have hfold : ∀ (es : Assoc Bytes CacheEntry) (total : Int),
      es.foldl (fun total e => wrap (total + e.2.size)) (wrap total) = wrap (total + sizesOf es) := by
    intro es
    induction es with
    | nil =>
      intro total
      rw [List.foldl_nil, sizesOf, Int.add_zero]
    | cons e es ih =>
      intro total
      rw [List.foldl_cons, wrap_wrap_add, ih, sizesOf_cons, Int.add_assoc]
  have h := hfold i.entries 0
  rwa [Int.zero_add] at h

theorem accounted_of_openAt {dir : Bytes} {maxSize maxAge : Int} {now : Instant} {files : FileTree} {c : UnitCache}
    (hopen : openAt dir maxSize maxAge now files = .ok c) (hsizes : ∀ e ∈ c.entries, 0 ≤ e.2.size) : Accounted c := by
  unfold openAt at hopen
  split at hopen
  · cases hopen
  · rename_i made _
    cases hopen
    refine ⟨?_, hsizes, rfl, sizeSum_eq _⟩
    unfold entries
    simp only
    cases hsaved : (made.read (indexPath dir)).toOption.bind CacheIndex.decode with
    | none => exact List.nodup_nil
    | some i =>
      obtain ⟨data, -, hdecode⟩ := Option.bind_eq_some_iff.mp hsaved
      exact nodup_of_decode hdecode

/-! ### Reachable states -/

/-- The states of a cache: it was opened on what was saved, requests were served, and its files may have changed
in between. -/
inductive Reachable : UnitCache → Prop
  | opened {dir : Bytes} {maxSize maxAge : Int} {now : Instant} {files : FileTree} {c : UnitCache}
      (hopen : openAt dir maxSize maxAge now files = .ok c) (hsizes : ∀ e ∈ c.entries, 0 ≤ e.2.size) : Reachable c
  | served {c : UnitCache} (now : Instant) (r : Request) (h : Reachable c) : Reachable (c.serve now r)
  | disturbed {c : UnitCache} (files : FileTree) (h : Reachable c) : Reachable { c with files }

theorem Reachable.accounted {c : UnitCache} (h : Reachable c) : Accounted c := by
  induction h with
  | opened hopen hsizes => exact accounted_of_openAt hopen hsizes
  | served now r _ ih => exact ih.serve r
  | disturbed files _ ih => exact ⟨ih.keys, ih.sizes, ih.count, ih.total⟩

/-- What the counters tell about a cache: there are as many entries as they say, the total size is the sum of their
sizes as a number of 64 bits, only a unit that is put makes it larger, and it stays within the bound. A unit that is
larger than the bound changes nothing. -/
theorem Reachable.counters {c : UnitCache} (h : Reachable c) :
    (Assoc.keys c.entries).Nodup ∧ c.stats.entryCount = c.entries.length ∧
      c.stats.totalSize = wrap (sizesOf c.entries) ∧
      (sizesOf c.entries < wordLimit → c.stats.totalSize = sizesOf c.entries ∧
        ∀ now r, (∀ key data deps, r ≠ .put key data deps) → (c.serve now r).stats.totalSize ≤ c.stats.totalSize) ∧
      (0 < c.maxSize → ∀ now key data deps,
        ((c.put now key data deps).1 = .ok () → (c.put now key data deps).2.stats.totalSize ≤ c.maxSize) ∧
        (c.maxSize < (data.length : Int) → ∃ e, c.put now key data deps = (.error e, c))) := by
  have hc := h.accounted
  refine ⟨hc.keys, hc.count, hc.total, fun hsum => ⟨hc.total_eq hsum, ?_⟩, fun hmax now key data deps => ⟨?_, ?_⟩⟩
  · intro now r hr
    obtain ⟨hc', hle⟩ := hc.serve_of_ne_put now hr
    rw [hc.total_eq hsum, hc'.total_eq (Int.lt_of_le_of_lt hle hsum)]
    exact hle
  · exact total_put_le hc hmax
  · intro hsize
    rcases put_cases c now key data deps with ⟨-, hput⟩ | ⟨hfits, -⟩ | ⟨hfits, -⟩
    · exact hput
    · exact absurd ⟨hmax, hsize⟩ hfits
    · exact absurd ⟨hmax, hsize⟩ hfits

/-- A cache for four bytes, opened where there is nothing. -/
def smallCache : UnitCache where
  dir := "c"
  maxSize := 4
  files := { nodes := [(["c"], .directory), (["c", "units"], .directory)] }

/-- The third unit takes the place of the first, and the second is deleted. -/
def usage : List Request := [.put "a" "xx" [], .put "b" "yy" [], .put "d" "z" [], .delete "b"]

/-- The same cache after that use, with one request after another. -/
def usedCache : UnitCache := usage.zipIdx.foldl (fun c r => c.serve (Instant.zero.later r.2) r.1) smallCache

set_option maxRecDepth 40000 in
theorem counters_usedCache :
    Reachable usedCache ∧ Assoc.keys usedCache.entries = (["d"] : List Bytes) ∧ usedCache.stats.evictions = 1 ∧
      usedCache.stats.entryCount = usedCache.entries.length ∧ usedCache.stats.totalSize = 1 ∧
      (∀ now, (usedCache.serve now (.delete "d")).stats.totalSize ≤ 1) ∧
      (∀ now key data deps, (usedCache.put now key data deps).1 = .ok () →
        (usedCache.put now key data deps).2.stats.totalSize ≤ 4) ∧
      ∀ now key deps, ∃ e, usedCache.put now key "abcde" deps = (.error e, usedCache) := by
  have hopen : openAt "c" 4 0 .zero {} = .ok smallCache := by cbv
  have hused : Reachable usedCache := List.foldlRecOn usage.zipIdx _ (.opened hopen (List.forall_mem_nil _))
    fun _ hc r _ => .served _ r.1 hc
  have hstate : (Assoc.keys usedCache.entries, usedCache.stats.evictions, sizesOf usedCache.entries, usedCache.maxSize) =
      ((["d"] : List Bytes), 1, 1, 4) := by cbv
  simp only [Prod.mk.injEq] at hstate
  obtain ⟨hkeys, hevictions, hsizes, hmax⟩ := hstate
  obtain ⟨-, hcount, -, hsum, hput⟩ := Reachable.counters hused
  obtain ⟨htotal, hother⟩ := hsum (hsizes ▸ by decide)
  rw [hsizes] at htotal
  rw [hmax] at hput
  have hdelete : ∀ key data deps, Request.delete "d" ≠ .put key data deps := by
    intro key data deps h
    cases h
  exact ⟨hused, hkeys, hevictions, hcount, htotal, fun now => htotal ▸ hother now (.delete "d") hdelete,
    fun now key data deps => (hput (by decide) now key data deps).1,
    fun now key deps => (hput (by decide) now key "abcde" deps).2 (by decide)⟩

/-- A saved index with two entries that are as large as numbers of 64 bits go. -/
def overflowTree : FileTree where
  nodes := [(["c"], .directory), (["c", "index.json"], .file
    ("\x7b\"version\":\"sigil-units-1\",\"entries\":\x7b\"a\":\x7b\"size\":9223372036854775807\x7d," ++
      "\"b\":\x7b\"size\":9223372036854775807\x7d\x7d\x7d"))]

/-- The total size of two such entries wraps around, and grows when one of them is taken away. -/
theorem total_overflows :
    ∃ c, openAt "c" 0 0 .zero overflowTree = .ok c ∧ Reachable c ∧ sizesOf c.entries = 18446744073709551614 ∧
      c.stats.totalSize = -2 ∧ (c.serve .zero (.delete "a")).stats.totalSize = 9223372036854775807 := by
  have hread : (openAt "c" 0 0 .zero overflowTree).toOption.map (fun c =>
      (c.entries.all (0 ≤ ·.2.size), sizesOf c.entries, c.stats.totalSize,
        (c.drop .zero "a").stats.totalSize)) =
      some (true, 18446744073709551614, -2, 9223372036854775807) := by
    decide +kernel
  cases hopen : openAt "c" 0 0 .zero overflowTree with
  | error e =>
    rw [hopen] at hread
    cases hread
  | ok c =>
    rw [hopen] at hread
    obtain ⟨hsizes, hread⟩ := Prod.mk.inj (Option.some.inj hread)
    obtain ⟨hsum, hread⟩ := Prod.mk.inj hread
    obtain ⟨htotal, hdropped⟩ := Prod.mk.inj hread
    have hopened : Reachable c := .opened hopen fun e he => of_decide_eq_true (List.all_eq_true.mp hsizes e he)
    refine ⟨c, rfl, hopened, hsum, htotal, ?_⟩
    rw [serve, stats_delete]
    exact hdropped

end UnitCache

end Stencil
