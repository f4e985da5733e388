import Mathlib.Logic.Relation
import Stencil.Cache.Basic
import Stencil.Proofs.Maps

/-! # How a cache changes

Whatever is asked of a cache, it changes in a few ways only (`Change`), apart from a unit that is stored and from
all of them being taken away. So what each of these changes keeps is kept by requests (`changes_serve`); the other
outcomes are told apart by `put_cases` and `clear_cases`. -/

namespace Stencil.UnitCache

/-- What is asked of an open cache. -/
inductive Request where
  | get (key : Bytes)
  | put (key data : Bytes) (deps : List Bytes)
  | delete (key : Bytes)
  | invalidate (path : Bytes)
  | clear

def serve (c : UnitCache) (now : Instant) : Request → UnitCache
  | .get key => (c.get now key).2
  | .put key data deps => (c.put now key data deps).2
  | .delete key => (c.delete now key).2
  | .invalidate path => (c.invalidate now path).2
  | .clear => (c.clear now).2

/-- A change of a cache: one unit is used or taken away, or something is written down. -/
inductive Change (now : Instant) : UnitCache → UnitCache → Prop
  | count {c : UnitCache} (hits misses evictions : Nat) :
      Change now c { c with stats := { c.stats with hits, misses, evictions } }
  | touch {c : UnitCache} {key : Bytes} {e : CacheEntry} (hget : Assoc.get? key c.entries = some e) :
      Change now c { c with index.entries := Assoc.insert key { e with lastAccess := now } c.entries }
  | drop {c : UnitCache} {key : Bytes} {e : CacheEntry} (hget : Assoc.get? key c.entries = some e) :
      Change now c (c.drop now key)
  | save {c : UnitCache} {text : Bytes} {files : FileTree} (hwrite : c.files.write (indexPath c.dir) text = .ok files) :
      Change now c { c with files }

/-- Some changes one after another. -/
abbrev Changes (now : Instant) : UnitCache → UnitCache → Prop := Relation.ReflTransGen (Change now)

section
variable {now : Instant} {c c' : UnitCache}

theorem Changes.keeps {P : UnitCache → Prop} (hchange : ∀ {a b : UnitCache}, Change now a b → P a → P b)
    (h : Changes now c c') (hc : P c) : P c' := by
  induction h with
  | refl => exact hc
  | tail _ hlast ih => exact hchange hlast ih

/-! ### The entry that is dropped -/

theorem drop_eq_self {key : Bytes} (h : Assoc.get? key c.entries = none) : c.drop now key = c := by
  rw [drop, h]

theorem drop_of_some {key : Bytes} {e : CacheEntry} (h : Assoc.get? key c.entries = some e) :
    c.drop now key = { c with
      index := { entries := Assoc.erase key c.entries, updated := now }
      files := c.files.remove (c.pathOf e.file)
      stats.totalSize := wrap (c.stats.totalSize - e.size)
      stats.entryCount := (Assoc.erase key c.entries).length } := by
  rw [drop, h]

theorem entries_drop (key : Bytes) : (c.drop now key).entries = Assoc.erase key c.entries := by
  cases h : Assoc.get? key c.entries with
  | none =>
    rw [drop_eq_self h, Assoc.erase_of_none h]
  | some e => rw [drop_of_some h]

theorem changes_drop (now : Instant) (key : Bytes) : Changes now c (c.drop now key) := by
  cases h : Assoc.get? key c.entries with
  | none => rw [drop_eq_self h]
  | some e => exact .single (.drop h)

/-- Where a cache lives and what its bounds are does not change. -/
structure SameBounds (c c' : UnitCache) : Prop where
  dir : c'.dir = c.dir
  maxSize : c'.maxSize = c.maxSize
  maxAge : c'.maxAge = c.maxAge

theorem sameBounds_of_changes (h : Changes now c c') : SameBounds c c' := by
  refine h.keeps (P := SameBounds c) ?_ ⟨rfl, rfl, rfl⟩
  intro a b hchange ha
  cases hchange with
  | drop hget =>
    rw [drop_of_some hget]
    exact ⟨ha.dir, ha.maxSize, ha.maxAge⟩
  | _ => exact ⟨ha.dir, ha.maxSize, ha.maxAge⟩

/-- An entry was there before a change, and names the same file. -/
theorem entry_of_change (hchange : Change now c c') {key : Bytes} {e' : CacheEntry}
    (hget' : Assoc.get? key c'.entries = some e') :
    ∃ e, Assoc.get? key c.entries = some e ∧ e'.created = e.created ∧ e'.file = e.file := by
  cases hchange with
  | count => exact ⟨e', hget', rfl, rfl⟩
  | @touch other e hget =>
    by_cases hkey : key = other
    · subst hkey
      obtain rfl := Option.some.inj (hget'.symm.trans (Assoc.get?_insert_self ..))
      exact ⟨e, hget, rfl, rfl⟩
    · exact ⟨e', (Assoc.get?_insert_ne hkey _ _).symm.trans hget', rfl, rfl⟩
  | @drop other e hget =>
    rw [entries_drop] at hget'
    by_cases hkey : key = other
    · rw [hkey, Assoc.get?_erase_self] at hget'
      cases hget'
    · exact ⟨e', (Assoc.get?_erase_ne hkey _).symm.trans hget', rfl, rfl⟩
  | save => exact ⟨e', hget', rfl, rfl⟩

theorem get?_of_changes {key : Bytes} (hchanges : Changes now c c') (h : Assoc.get? key c.entries = none) :
    Assoc.get? key c'.entries = none := by
  refine hchanges.keeps (P := fun c => Assoc.get? key c.entries = none) ?_ h
  intro a b hchange ha
  cases hb : Assoc.get? key b.entries with
  | none => rfl
  | some e' =>
    obtain ⟨e, hget, -⟩ := entry_of_change hchange hb
    rw [ha] at hget
    cases hget

/-! ### Requests -/

theorem changes_saveIndex (now : Instant) (c : UnitCache) : Changes now c c.saveIndex.2 := by
  unfold saveIndex
  split
  · exact .refl
  split
  · exact .refl
  · rename_i hwrite
    exact .single (.save hwrite)

theorem changes_countMiss (now : Instant) (c : UnitCache) : Changes now c c.countMiss := .single (.count _ _ _)

theorem changes_get (now : Instant) (c : UnitCache) (key : Bytes) : Changes now c (c.get now key).2 := by
  unfold get
  split
  · exact changes_countMiss now c
  rename_i e hget
  split
  · exact (changes_drop now key).trans (changes_countMiss now _)
  split
  · exact (changes_drop now key).trans (changes_countMiss now _)
  · exact .tail (.single (.touch hget)) (.count _ _ _)

theorem changes_evict (now : Instant) (needed : Int) (n : Nat) (c : UnitCache) :
    Changes now c (evict now needed n c) := by
  induction n generalizing c with
  | zero => exact .refl
  | succ n ih =>
    rw [evict]
    split
    · exact .refl
    · exact ((changes_drop now _).tail (.count _ _ _)).trans (ih _)

theorem changes_makeRoom (now : Instant) (needed : Int) (c : UnitCache) : Changes now c (c.makeRoom now needed) := by
  unfold makeRoom
  split
  · exact .refl
  · exact changes_evict now needed _ c

theorem changes_delete (now : Instant) (c : UnitCache) (key : Bytes) : Changes now c (c.delete now key).2 := by
  unfold delete
  split
  · exact (changes_drop now key).trans (changes_saveIndex now _)
  · exact .refl

theorem changes_foldl_drop (now : Instant) (keys : List Bytes) (c : UnitCache) :
    Changes now c (keys.foldl (drop now) c) := by
  induction keys generalizing c with
  | nil => exact .refl
  | cons key keys ih => exact (changes_drop now key).trans (ih _)

theorem changes_invalidate (now : Instant) (c : UnitCache) (path : Bytes) :
    Changes now c (c.invalidate now path).2 := by
  unfold invalidate
  simp only
  split
  · exact .refl
  · exact (changes_foldl_drop now _ c).trans (changes_saveIndex now _)

/-- A request that neither puts a unit nor takes all of them away. -/
theorem changes_serve (now : Instant) (c : UnitCache) {r : Request} (hput : ∀ key data deps, r ≠ .put key data deps)
    (hclear : r ≠ .clear) : Changes now c (c.serve now r) := by
  cases r with
  | get key => exact changes_get now c key
  | put key data deps => exact absurd rfl (hput key data deps)
  | delete key => exact changes_delete now c key
  | invalidate path => exact changes_invalidate now c path
  | clear => exact absurd rfl hclear

/-! ### Taking every unit away -/

/-- A cache that starts anew among some files. -/
def fresh (c : UnitCache) (now : Instant) (files : FileTree) : UnitCache :=
  { c with files, index := { updated := now }, stats := {} }

/-- The files are not taken away, or there is no directory for new ones, or the cache starts anew. -/
theorem clear_cases (c : UnitCache) (now : Instant) :
    (∃ e, c.clear now = (.error e, c)) ∨
    (∃ files e, c.files.removeAll (unitsPath c.dir) = .ok files ∧ c.clear now = (.error e, { c with files })) ∨
    ∃ files, c.clear now = (c.fresh now files).saveIndex := by
  unfold clear
  split
  · exact .inl ⟨_, rfl⟩
  rename_i files hremove
  split
  · exact .inr (.inl ⟨files, _, hremove, rfl⟩)
  · exact .inr (.inr ⟨_, rfl⟩)

/-! ### Putting a unit -/

/-- The unit is larger than the whole cache may be. -/
def IsOversized (c : UnitCache) (data : Bytes) : Prop := 0 < c.maxSize ∧ c.maxSize < data.length

/-- The cache with room for a unit that is put. -/
def cleared (c : UnitCache) (now : Instant) (key data : Bytes) : UnitCache :=
  (c.drop now key).makeRoom now data.length

/-- The entry of a unit that is put. -/
def entryOf (now : Instant) (key data : Bytes) (deps : List Bytes) : CacheEntry where
  key := key
  file := unitFile key
  size := data.length
  created := now
  lastAccess := now
  deps := deps

/-- The cache with a unit whose file was written. -/
def withUnit (c : UnitCache) (now : Instant) (key data : Bytes) (deps : List Bytes) (files : FileTree) : UnitCache :=
  { c with
    index := { entries := Assoc.insert key (entryOf now key data deps) c.entries, updated := now }
    files
    stats.totalSize := wrap (c.stats.totalSize + data.length)
    stats.entryCount := (Assoc.insert key (entryOf now key data deps) c.entries).length }

theorem changes_cleared (now : Instant) (c : UnitCache) (key data : Bytes) : Changes now c (c.cleared now key data) :=
  (changes_drop now key).trans (changes_makeRoom now _ _)

/-- A unit is refused, or its file cannot be written, or it is stored. -/
theorem put_cases (c : UnitCache) (now : Instant) (key data : Bytes) (deps : List Bytes) :
    (c.IsOversized data ∧ ∃ e, c.put now key data deps = (.error e, c)) ∨
    (¬c.IsOversized data ∧ ∃ problem e,
      (c.cleared now key data).files.write ((c.cleared now key data).pathOf (unitFile key)) data = .error problem ∧
      c.put now key data deps = (.error e, c.cleared now key data)) ∨
    (¬c.IsOversized data ∧ ∃ files,
      (c.cleared now key data).files.write ((c.cleared now key data).pathOf (unitFile key)) data = .ok files ∧
      c.put now key data deps = ((c.cleared now key data).withUnit now key data deps files).saveIndex) := by
  unfold put
  simp only
  split
  · rename_i hsize
    exact .inl ⟨hsize, _, rfl⟩
  · rename_i hsize
    cases hwrite : (c.cleared now key data).files.write ((c.cleared now key data).pathOf (unitFile key)) data with
    | error problem =>
      unfold cleared at hwrite ⊢
      rw [hwrite]
      exact .inr (.inl ⟨hsize, problem, _, rfl, rfl⟩)
    | ok files =>
      unfold cleared at hwrite ⊢
      rw [hwrite]
      exact .inr (.inr ⟨hsize, files, rfl, rfl⟩)

theorem get?_cleared (c : UnitCache) (key data : Bytes) : Assoc.get? key (c.cleared now key data).entries = none := by
  refine get?_of_changes (changes_makeRoom now _ _) ?_
  rw [entries_drop, Assoc.get?_erase_self]

theorem sameBounds_serve (c : UnitCache) (now : Instant) (r : Request) : SameBounds c (c.serve now r) := by
  cases r with
  | put key data deps =>
    rw [serve]
    rcases put_cases c now key data deps with ⟨-, e, hput⟩ | ⟨-, -, e, -, hput⟩ | ⟨-, files, -, hput⟩
    · rw [hput]
      exact ⟨rfl, rfl, rfl⟩
    · rw [hput]
      exact sameBounds_of_changes (changes_cleared now c key data)
    · rw [hput]
      have hcleared := sameBounds_of_changes (changes_cleared now c key data)
      have hsaved := sameBounds_of_changes
        (changes_saveIndex now ((c.cleared now key data).withUnit now key data deps files))
      exact ⟨hsaved.dir.trans hcleared.dir, hsaved.maxSize.trans hcleared.maxSize, hsaved.maxAge.trans hcleared.maxAge⟩
  | clear =>
    rw [serve]
    rcases clear_cases c now with ⟨e, hclear⟩ | ⟨files, e, -, hclear⟩ | ⟨files, hclear⟩
    · rw [hclear]
      exact ⟨rfl, rfl, rfl⟩
    · rw [hclear]
      exact ⟨rfl, rfl, rfl⟩
    · rw [hclear]
      have hsaved := sameBounds_of_changes (changes_saveIndex now (c.fresh now files))
      exact ⟨hsaved.dir, hsaved.maxSize, hsaved.maxAge⟩
  | get key => exact sameBounds_of_changes (changes_get now c key)
  | delete key => exact sameBounds_of_changes (changes_delete now c key)
  | invalidate path => exact sameBounds_of_changes (changes_invalidate now c path)

end

end Stencil.UnitCache
