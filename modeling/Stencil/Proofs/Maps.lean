import Stencil.Assoc

/-! # Maps

What bindings a map has after it was changed, and that keys that are bound once stay so. -/

namespace Stencil.Assoc

variable {α β γ δ : Type} [DecidableEq α]

theorem mem_insert_cases {key : α} {value : β} {e : α × β} : ∀ {m : Assoc α β}, e ∈ insert key value m →
    e ∈ m ∨ e = (key, value)
  | [], h => .inr (List.mem_singleton.mp h)
  | (k, v) :: rest, h => by
    rw [insert] at h
    split at h
    · exact (List.mem_cons.mp h).elim .inr fun h => .inl (List.mem_cons_of_mem _ h)
    · rcases List.mem_cons.mp h with rfl | h
      · exact .inl List.mem_cons_self
      · exact (mem_insert_cases h).imp_left (List.mem_cons_of_mem _)

theorem mem_of_get? {key : α} {value : β} : ∀ {m : Assoc α β}, get? key m = some value → (key, value) ∈ m
  | (k, v) :: rest, h => by
    rw [get?] at h
    split at h
    · rename_i hkey
      cases h
      exact hkey ▸ List.mem_cons_self
    · exact List.mem_cons_of_mem _ (mem_of_get? h)

theorem get?_map (f : β → γ) (key : α) : ∀ m : Assoc α β, get? key (m.map fun e => (e.1, f e.2)) = (get? key m).map f
  | [] => rfl
  | (k, v) :: rest => by
    by_cases h : k = key
    · simp [get?, h]
    · simp only [List.map_cons, get?, h, if_false]
      exact get?_map f key rest

/-- Bindings that are kept or dropped by their keys. -/
theorem get?_filterMap (keep : α → Option δ) (f : δ → β → γ) (key : α) : ∀ m : Assoc α β,
    get? key (m.filterMap fun e => (keep e.1).map fun n => (e.1, f n e.2)) =
      (keep key).bind fun n => (get? key m).map (f n)
  | [] => by cases keep key <;> rfl
  | (k, v) :: rest => by
    have ih := get?_filterMap keep f key rest
    by_cases h : k = key
    · subst h
      cases hk : keep k with
      | none => simpa [hk] using ih
      | some n => simp [hk, get?]
    · cases hk : keep k with
      | none => simpa [hk, get?, h] using ih
      | some n => simpa [hk, get?, h] using ih

theorem has_insert (key other : α) (value : β) (m : Assoc α β) :
    has other (insert key value m) = (decide (other = key) || has other m) := by
  by_cases h : other = key
  · simp [has, h]
  · simp [has, get?_insert_ne h, h]

theorem get?_append (key : α) (a b : Assoc α β) : get? key (a ++ b) = (get? key a).or (get? key b) := by
  induction a with
  | nil => rfl
  | cons e a ih =>
    obtain ⟨k, v⟩ := e
    rw [List.cons_append, get?, get?]
    split
    · rfl
    · exact ih

/-! ### Erasing -/

@[simp] theorem get?_erase_self (key : α) (m : Assoc α β) : get? key (erase key m) = none := by
  induction m with
  | nil => rfl
  | cons e m ih =>
    obtain ⟨k, v⟩ := e
    by_cases h : k = key
    · rw [erase, List.filter_cons_of_neg (by simp [h])]
      exact ih
    · rw [erase, List.filter_cons_of_pos (by simp [h]), get?, if_neg h]
      exact ih

theorem get?_erase_ne {key other : α} (h : other ≠ key) (m : Assoc α β) : get? other (erase key m) = get? other m := by
  induction m with
  | nil => rfl
  | cons e m ih =>
    obtain ⟨k, v⟩ := e
    by_cases hk : k = key
    · rw [erase, List.filter_cons_of_neg (by simp [hk]), get?, if_neg (fun hother => h (hother.symm.trans hk))]
      exact ih
    · rw [erase, List.filter_cons_of_pos (by simp [hk]), get?, get?]
      split
      · rfl
      · exact ih

theorem get?_eq_none_iff {key : α} {m : Assoc α β} : get? key m = none ↔ key ∉ keys m := by
  induction m with
  | nil => simp [get?, keys]
  | cons e m ih =>
    obtain ⟨k, v⟩ := e
    rw [get?, keys, List.map_cons, List.mem_cons]
    split
    · rename_i hk
      simp [hk]
    · rename_i hk
      rw [ih, keys]
      simp [Ne.symm hk]

theorem erase_of_none {key : α} {m : Assoc α β} (h : get? key m = none) : erase key m = m := by
  refine List.filter_eq_self.mpr fun e he => ?_
  have hne : e.1 ≠ key := by
    rintro rfl
    exact get?_eq_none_iff.mp h (List.mem_map.mpr ⟨e, he, rfl⟩)
  simpa using hne

/-! ### Keys -/

theorem insert_of_none {key : α} (value : β) {m : Assoc α β} (h : get? key m = none) :
    insert key value m = m ++ [(key, value)] := by
  induction m with
  | nil => rfl
  | cons e m ih =>
    obtain ⟨k, v⟩ := e
    rw [get?] at h
    split at h
    · cases h
    · rename_i hk
      rw [insert, if_neg hk, ih h]
      rfl

theorem keys_insert_of_some {key : α} {old : β} (value : β) {m : Assoc α β} (h : get? key m = some old) :
    keys (insert key value m) = keys m := by
  induction m with
  | nil => cases h
  | cons e m ih =>
    obtain ⟨k, v⟩ := e
    rw [get?] at h
    rw [insert]
    split
    · rename_i hk
      simp [keys, hk]
    · rename_i hk
      rw [if_neg hk] at h
      simpa [keys] using ih h

theorem mem_keys_insert {key other : α} {value : β} {m : Assoc α β} :
    other ∈ keys (insert key value m) ↔ other = key ∨ other ∈ keys m := by
  cases hget : get? key m with
  | none =>
    rw [insert_of_none value hget, keys, List.map_append, List.mem_append, or_comm]
    exact or_congr_left List.mem_singleton
  | some old =>
    rw [keys_insert_of_some value hget]
    exact (or_iff_right_of_imp fun heq => heq ▸ List.mem_map_of_mem (f := (·.1)) (mem_of_get? hget)).symm

theorem nodup_keys_insert (key : α) (value : β) {m : Assoc α β} (h : (keys m).Nodup) :
    (keys (insert key value m)).Nodup := by
  cases hget : get? key m with
  | none =>
    have hfresh := get?_eq_none_iff.mp hget
    rw [insert_of_none value hget, keys, List.map_append, List.nodup_append]
    refine ⟨h, List.pairwise_singleton _ _, ?_⟩
    intro k hk k' hk' heq
    obtain rfl : k' = key := List.mem_singleton.mp hk'
    exact hfresh (heq ▸ hk)
  | some old => rwa [keys_insert_of_some value hget]

theorem nodup_keys_erase (key : α) {m : Assoc α β} (h : (keys m).Nodup) : (keys (erase key m)).Nodup :=
  (List.filter_sublist.map _).nodup h

end Stencil.Assoc
