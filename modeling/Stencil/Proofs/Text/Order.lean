import Mathlib.Data.List.Basic
import Stencil.Build.Manifest
import Stencil.Proofs.Maps

/-! # The order of texts

Texts are in a total order, so a list of texts, and a table that binds each name once, have one sorted form
(`Assoc.sorted_congr`). -/

namespace Stencil

namespace Bytes

theorem le_total : ∀ a b : Bytes, (le a b || le b a) = true
  | [], _ => rfl
  | _ :: _, [] => rfl
  | a :: as, b :: bs => by
    have ih := le_total as bs
    simp only [le, UInt8.lt_iff_toNat_lt]
    grind

theorem le_trans : ∀ a b c : Bytes, le a b = true → le b c = true → le a c = true
  | [], _, _, _, _ => rfl
  | _ :: _, [], _, h, _ => nomatch h
  | _ :: _, _ :: _, [], _, h => nomatch h
  | a :: as, b :: bs, c :: cs, h, h' => by
    have ih := le_trans as bs cs
    simp only [le, UInt8.lt_iff_toNat_lt] at h h' ⊢
    grind

theorem le_antisymm : ∀ a b : Bytes, le a b = true → le b a = true → a = b
  | [], [], _, _ => rfl
  | [], _ :: _, _, h => nomatch h
  | _ :: _, [], h, _ => nomatch h
  | a :: as, b :: bs, h, h' => by
    have ih := le_antisymm as bs
    have hbyte : a.toNat = b.toNat → a = b := UInt8.toNat_inj.mp
    simp only [le, UInt8.lt_iff_toNat_lt] at h h'
    grind

theorem pairwise_sort (xs : List Bytes) : (sort xs).Pairwise fun a b => le a b = true :=
  List.pairwise_mergeSort le_trans le_total xs

theorem mem_sort {a : Bytes} {xs : List Bytes} : a ∈ sort xs ↔ a ∈ xs := (List.mergeSort_perm xs le).mem_iff

theorem nodup_sort {xs : List Bytes} (h : xs.Nodup) : (sort xs).Nodup := (List.mergeSort_perm xs le).nodup_iff.mpr h

/-- Texts in order, each once, are determined by which they are. -/
theorem eq_of_pairwise_le {xs ys : List Bytes} (hxs : xs.Pairwise fun a b => le a b = true)
    (hys : ys.Pairwise fun a b => le a b = true) (hnodup : xs.Nodup) (hnodup' : ys.Nodup) (h : ∀ a, a ∈ xs ↔ a ∈ ys) :
    xs = ys :=
  ((List.perm_ext_iff_of_nodup hnodup hnodup').mpr h).eq_of_pairwise (fun a b _ _ => le_antisymm a b) hxs hys

end Bytes

namespace Assoc

variable {α β : Type} [DecidableEq α]

theorem get?_of_mem {key : α} {value : β} {m : Assoc α β} (hkeys : (keys m).Nodup) (h : (key, value) ∈ m) :
    get? key m = some value := by
  induction m with
  | nil => cases h
  | cons e m ih =>
    obtain ⟨k, v⟩ := e
    rw [keys, List.map_cons, List.nodup_cons] at hkeys
    rw [get?]
    rcases List.mem_cons.mp h with heq | h
    · cases heq
      exact if_pos rfl
    · have hne : k ≠ key := by
        rintro rfl
        exact hkeys.1 (List.mem_map_of_mem (f := (·.1)) h)
      rw [if_neg hne]
      exact ih hkeys.2 h

/-- Tables with the same bindings find the same. -/
theorem get?_perm {m m' : Assoc α β} (hkeys : (keys m).Nodup) (h : m.Perm m') (key : α) : get? key m = get? key m' := by
  cases hget : get? key m with
  | none =>
    rw [get?_eq_none_iff] at hget
    exact (get?_eq_none_iff.mpr fun hmem => hget ((h.map _).mem_iff.mpr hmem)).symm
  | some v =>
    have hmem : (key, v) ∈ m' := h.mem_iff.mp (mem_of_get? hget)
    exact (get?_of_mem ((h.map _).nodup_iff.mp hkeys) hmem).symm

omit [DecidableEq α] in
theorem nodup_of_keys {m : Assoc α β} (h : (keys m).Nodup) : m.Nodup := by
  rw [keys, List.Nodup, List.pairwise_map] at h
  exact h.imp fun hne heq => hne (congrArg _ heq)

/-- Tables that bind each name once and find the same have the same bindings. -/
theorem perm_of_get? {m m' : Assoc α β} (hkeys : (keys m).Nodup) (hkeys' : (keys m').Nodup)
    (h : ∀ key, get? key m = get? key m') : m.Perm m' := by
  refine (List.perm_ext_iff_of_nodup (nodup_of_keys hkeys) (nodup_of_keys hkeys')).mpr fun e =>
    ⟨fun he => ?_, fun he => ?_⟩
  · exact mem_of_get? ((h e.1).symm.trans (get?_of_mem hkeys he))
  · exact mem_of_get? ((h e.1).trans (get?_of_mem hkeys' he))

/-! ### Sorted tables -/

theorem perm_sorted (m : Assoc Bytes β) : (sorted m).Perm m := List.mergeSort_perm m _

theorem pairwise_sorted (m : Assoc Bytes β) : (sorted m).Pairwise fun a b => Bytes.le a.1 b.1 = true :=
  List.pairwise_mergeSort (fun a b c => Bytes.le_trans a.1 b.1 c.1) (fun a b => Bytes.le_total a.1 b.1) m

theorem sorted_of_pairwise {m : Assoc Bytes β} (h : m.Pairwise fun a b => Bytes.le a.1 b.1 = true) : sorted m = m :=
  List.mergeSort_of_pairwise h

theorem nodup_keys_sorted {m : Assoc Bytes β} (h : (keys m).Nodup) : (keys (sorted m)).Nodup :=
  ((perm_sorted m).map _).nodup_iff.mpr h

/-- The sorted form of a table depends only on its bindings. -/
theorem sorted_congr {m m' : Assoc Bytes β} (hkeys : (keys m).Nodup) (h : m.Perm m') : sorted m = sorted m' := by
  have hperm : (sorted m).Perm (sorted m') := ((perm_sorted m).trans h).trans (perm_sorted m').symm
  refine hperm.eq_of_pairwise (fun a b ha hb hab hba => ?_) (pairwise_sorted m) (pairwise_sorted m')
  -- bindings of one name are one binding, since the name is bound once
  obtain ⟨k, v⟩ := a
  obtain ⟨k', v'⟩ := b
  obtain rfl : k = k' := Bytes.le_antisymm k k' hab hba
  have hv := get?_of_mem hkeys ((perm_sorted m).mem_iff.mp ha)
  have hv' := get?_of_mem hkeys (h.mem_iff.mpr ((perm_sorted m').mem_iff.mp hb))
  rw [hv] at hv'
  rw [Option.some.inj hv']

end Assoc

end Stencil
