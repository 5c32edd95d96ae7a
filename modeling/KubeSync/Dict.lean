import Mathlib.Data.List.Nodup

/-! # Dictionaries

A dictionary as the list of its items, each with a key, in the order in which the keys came.

* `setItem` replaces the item of its key in its place, or appends it; `update` sets the items of
  another dictionary one after the other.
* `mem_update`, `has_update`: the items and the keys of an update, and `mem_updates`, `has_updates`
  of several ones.
* `nodup_update`: the keys stay different.  `update_of_nodup`: items with new keys are appended. -/

namespace Dict

variable {α κ : Type*}

/-- The key is in the dictionary. -/
def Has (key : α → κ) (d : List α) (k : κ) : Prop := ∃ x ∈ d, key x = k

theorem has_iff {key : α → κ} {d : List α} {k : κ} : Has key d k ↔ k ∈ d.map key :=
  List.mem_map.symm

variable [DecidableEq κ]

/-- `d[key(x)] = x`. -/
def setItem (key : α → κ) (d : List α) (x : α) : List α :=
  if ∃ y ∈ d, key y = key x then d.map fun y => if key y = key x then x else y else d ++ [x]

/-- `d.update(items)`. -/
def update (key : α → κ) (d items : List α) : List α := items.foldl (setItem key) d

variable {key : α → κ} {d items : List α} {x y : α} {k : κ}

theorem setItem_of_not_has (h : ¬ Has key d (key x)) : setItem key d x = d ++ [x] := if_neg h

theorem mem_setItem (h : x ∈ setItem key d y) : x ∈ d ∨ x = y := by
  unfold setItem at h
  split at h
  · obtain ⟨z, hz, rfl⟩ := List.mem_map.mp h
    split
    · exact .inr rfl
    · exact .inl hz
  · rcases List.mem_append.mp h with h | h
    · exact .inl h
    · exact .inr (List.mem_singleton.mp h)

/-- The keys of the items that a replacement leaves. -/
theorem map_key_setItem (h : Has key d (key x)) : (setItem key d x).map key = d.map key := by
  have hset : setItem key d x = d.map fun y => if key y = key x then x else y := if_pos h
  rw [hset, List.map_map]
  refine List.map_congr_left fun y _ => ?_
  dsimp only [Function.comp]
  split
  · exact Eq.symm ‹_›
  · rfl

theorem has_setItem : Has key (setItem key d x) k ↔ Has key d k ∨ key x = k := by
  by_cases hold : Has key d (key x)
  · rw [has_iff, map_key_setItem hold, ← has_iff]
    refine (or_iff_left_of_imp ?_).symm
    rintro rfl
    exact hold
  · rw [setItem_of_not_has hold, has_iff, List.map_append, List.mem_append, ← has_iff,
      List.map_singleton, List.mem_singleton, eq_comm]

theorem nodup_setItem (h : (d.map key).Nodup) : ((setItem key d x).map key).Nodup := by
  by_cases hold : Has key d (key x)
  · rwa [map_key_setItem hold]
  · rw [setItem_of_not_has hold, List.map_append, List.map_singleton, ← List.concat_eq_append]
    exact h.concat fun hmem => hold (has_iff.mpr hmem)

theorem mem_update (h : x ∈ update key d items) : x ∈ d ∨ x ∈ items := by
  unfold update at h
  induction items generalizing d with
  | nil => exact .inl h
  | cons y items ih =>
      rcases ih h with h | h
      · rcases mem_setItem h with h | rfl
        · exact .inl h
        · exact .inr List.mem_cons_self
      · exact .inr (List.mem_cons_of_mem _ h)

theorem has_update : Has key (update key d items) k ↔ Has key d k ∨ Has key items k := by
  unfold update
  induction items generalizing d with
  | nil => simp [Has]
  | cons y items ih =>
      have hcons : Has key (y :: items) k ↔ key y = k ∨ Has key items k :=
        List.exists_mem_cons_iff ..
      rw [List.foldl_cons, ih, has_setItem, hcons, or_assoc]

theorem nodup_update (h : (d.map key).Nodup) : ((update key d items).map key).Nodup := by
  unfold update
  induction items generalizing d with
  | nil => exact h
  | cons y items ih => exact ih (nodup_setItem h)

theorem update_of_nodup (h : ((d ++ items).map key).Nodup) : update key d items = d ++ items := by
  unfold update
  induction items generalizing d with
  | nil => simp
  | cons y items ih =>
      have hnew : ¬ Has key d (key y) := by
        rintro ⟨z, hz, heq⟩
        rw [List.map_append, List.nodup_append] at h
        exact h.2.2 _ (List.mem_map_of_mem hz) _ (List.mem_map_of_mem List.mem_cons_self) heq
      rw [List.foldl_cons, setItem_of_not_has hnew, ih (by simpa using h)]
      simp

section updates

variable {β : Type*} {f : β → List α} {bs : List β}

/-- The items of a dictionary that is made of several. -/
theorem mem_updates (h : x ∈ bs.foldl (fun d b => update key d (f b)) d) :
    x ∈ d ∨ ∃ b ∈ bs, x ∈ f b := by
  induction bs generalizing d with
  | nil => exact .inl h
  | cons b bs ih =>
      rcases ih h with h | ⟨c, hc, h⟩
      · rcases mem_update h with h | h
        · exact .inl h
        · exact .inr ⟨b, List.mem_cons_self, h⟩
      · exact .inr ⟨c, List.mem_cons_of_mem b hc, h⟩

theorem has_updates {b : β} (hb : b ∈ bs) (h : Has key (f b) k) :
    Has key (bs.foldl (fun d b => update key d (f b)) d) k := by
  have hkeep : ∀ (bs : List β) (d : List α), Has key d k →
      Has key (bs.foldl (fun d b => update key d (f b)) d) k := by
    intro bs
    induction bs with
    | nil => exact fun d h => h
    | cons c bs ih => exact fun d h => ih _ (has_update.mpr (.inl h))
  induction bs generalizing d with
  | nil => cases hb
  | cons c bs ih =>
      rcases List.mem_cons.mp hb with rfl | hb
      · exact hkeep bs _ (has_update.mpr (.inr h))
      · exact ih hb

end updates

end Dict
