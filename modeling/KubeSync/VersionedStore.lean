import Mathlib.Data.List.Pairwise
import Mathlib.Logic.Function.Basic

/-! # Versioned stores with lagging readers

A store keeps, for every key, the list of its writes with their version numbers, newest first;
a deletion is a write of nothing.  Versions come from one counter, so that a version number
determines the value it was written with; the two fields `le_rev` and `sorted` carry this.

* `seen s lag k` is what a reader sees whose copy is `lag` writes behind, `current` the newest
  value;
* `write` replaces the value of a key and leaves the store alone when nothing changes;
* `modify s k n f` is the optimistic update: it applies `f` when the version `n` is still current
  and fails otherwise.

`modify_seen` is the rule for a read-modify-write cycle: whatever the lag of the read was, an
accepted update was computed from the current value. -/

namespace Versioned

/-- The writes of every key, newest first, with the versions they were given. -/
structure Store (κ α : Type*) where
  rev : ℕ
  log : κ → List (ℕ × Option α)
  le_rev : ∀ k, ∀ e ∈ log k, e.1 ≤ rev
  sorted : ∀ k, (log k).Pairwise fun e e' => e'.1 < e.1

namespace Store
variable {κ α : Type*}

/-- The store in which nothing was written. -/
def empty : Store κ α where
  rev := 0
  log _ := []
  le_rev _ _ h := by cases h
  sorted _ := List.Pairwise.nil

/-- The copy of `k` held by a reader that is `lag` writes behind. -/
def seen (s : Store κ α) (lag : ℕ) (k : κ) : Option (ℕ × α) :=
  match (s.log k)[lag]? with
  | some (n, some v) => some (n, v)
  | _ => none

def current (s : Store κ α) (k : κ) : Option (ℕ × α) := s.seen 0 k

def value (s : Store κ α) (k : κ) : Option α := (s.current k).map Prod.snd

variable [DecidableEq κ]

/-- Record the write of `v` to `k` under a new version. -/
def push (s : Store κ α) (k : κ) (v : Option α) : Store κ α where
  rev := s.rev + 1
  log := Function.update s.log k ((s.rev + 1, v) :: s.log k)
  le_rev k' e he := by
    by_cases hk : k' = k
    · subst hk
      rw [Function.update_self] at he
      rcases List.mem_cons.mp he with rfl | he
      · exact Nat.le_refl _
      · exact Nat.le_succ_of_le (s.le_rev k' e he)
    · rw [Function.update_of_ne hk] at he
      exact Nat.le_succ_of_le (s.le_rev k' e he)
  sorted k' := by
    by_cases hk : k' = k
    · subst hk
      rw [Function.update_self]
      exact List.pairwise_cons.mpr ⟨fun e he => Nat.lt_succ_of_le (s.le_rev k' e he), s.sorted k'⟩
    · rw [Function.update_of_ne hk]
      exact s.sorted k'

/-- Replace the value of `k`; writing the value it has is no write. -/
def write [DecidableEq α] (s : Store κ α) (k : κ) (v : α) : Store κ α :=
  if s.value k = some v then s else s.push k (some v)

def remove (s : Store κ α) (k : κ) : Store κ α := s.push k none

/-- Apply `f` to the value of `k`, provided the version `n` is still current. -/
def modify [DecidableEq α] (s : Store κ α) (k : κ) (n : ℕ) (f : α → α) : Option (Store κ α) :=
  match s.current k with
  | some (m, v) => if m = n then some (s.write k (f v)) else none
  | none => none

/-! ### Reading after a write -/

@[simp] theorem value_push_self (s : Store κ α) (k : κ) (v : Option α) :
    (s.push k v).value k = v := by
  unfold value current seen push
  simp only [Function.update_self, List.getElem?_cons_zero]
  cases v <;> rfl

theorem value_push_of_ne (s : Store κ α) {k k' : κ} (v : Option α) (h : k' ≠ k) :
    (s.push k v).value k' = s.value k' := by
  unfold value current seen push
  simp only [Function.update_of_ne h]

@[simp] theorem value_write_self [DecidableEq α] (s : Store κ α) (k : κ) (v : α) :
    (s.write k v).value k = some v := by
  unfold write
  split
  · assumption
  · exact value_push_self s k (some v)

theorem value_write_of_ne [DecidableEq α] (s : Store κ α) {k k' : κ} (v : α) (h : k' ≠ k) :
    (s.write k v).value k' = s.value k' := by
  unfold write
  split
  · rfl
  · exact value_push_of_ne s (some v) h

/-- A write changes nothing exactly when the value was there already. -/
theorem write_eq_self_iff [DecidableEq α] (s : Store κ α) (k : κ) (v : α) :
    s.write k v = s ↔ s.value k = some v := by
  unfold write
  split
  · rename_i h
    exact iff_of_true rfl h
  · rename_i h
    refine iff_of_false (fun he => ?_) h
    have hrev : s.rev + 1 = s.rev := congrArg rev he
    omega

theorem rev_le_write [DecidableEq α] (s : Store κ α) (k : κ) (v : α) :
    s.rev ≤ (s.write k v).rev := by
  unfold write
  split
  · exact Nat.le_refl _
  · exact Nat.le_succ _

theorem rev_write_of_ne [DecidableEq α] (s : Store κ α) (k : κ) (v : α) (h : s.write k v ≠ s) :
    (s.write k v).rev = s.rev + 1 := by
  unfold write at h ⊢
  split
  · rename_i hv
    exact absurd (if_pos hv) h
  · rfl

theorem value_remove_of_ne (s : Store κ α) {k k' : κ} (h : k' ≠ k) :
    (s.remove k).value k' = s.value k' := value_push_of_ne s none h

/-! ### Read-modify-write -/

omit [DecidableEq κ] in
theorem getElem?_of_seen {s : Store κ α} {lag : ℕ} {k : κ} {n : ℕ} {v : α}
    (h : s.seen lag k = some (n, v)) : (s.log k)[lag]? = some (n, some v) := by
  unfold seen at h
  split at h
  · rename_i he
    cases h
    exact he
  · cases h

omit [DecidableEq κ] in
theorem mem_log_of_seen {s : Store κ α} {lag : ℕ} {k : κ} {n : ℕ} {v : α}
    (h : s.seen lag k = some (n, v)) : (n, some v) ∈ s.log k :=
  List.mem_of_getElem? (getElem?_of_seen h)

omit [DecidableEq κ] in
/-- A version determines the value written with it. -/
theorem eq_of_version {s : Store κ α} {k : κ} {n : ℕ} {v w : Option α} (hv : (n, v) ∈ s.log k)
    (hw : (n, w) ∈ s.log k) : v = w := by
  have hp : (s.log k).Pairwise fun e e' => e.1 ≠ e'.1 :=
    (s.sorted k).imp fun h => Nat.ne_of_gt h
  have hsymm : Std.Symm fun e e' : ℕ × Option α => e.1 ≠ e'.1 := ⟨fun _ _ h => h.symm⟩
  by_contra hne
  have hvw : (n, v) ≠ (n, w) := fun he => hne (Prod.mk.inj he).2
  exact hp.forall hv hw hvw rfl

omit [DecidableEq κ] in
/-- A reader that has the current version is not behind. -/
theorem lag_eq_zero {s : Store κ α} {lag : ℕ} {k : κ} {n : ℕ} {v w : α}
    (h : s.seen lag k = some (n, v)) (hc : s.current k = some (n, w)) : lag = 0 := by
  have hl := getElem?_of_seen h
  have h0 := getElem?_of_seen hc
  by_contra hne
  obtain ⟨hlt, hl⟩ := List.getElem?_eq_some_iff.mp hl
  obtain ⟨hlt0, h0⟩ := List.getElem?_eq_some_iff.mp h0
  have hp := List.pairwise_iff_getElem.mp (s.sorted k) 0 lag hlt0 hlt (Nat.pos_of_ne_zero hne)
  rw [h0, hl] at hp
  exact Nat.lt_irrefl n hp

variable [DecidableEq α]

theorem modify_eq_some {s s' : Store κ α} {k : κ} {n : ℕ} {f : α → α} :
    s.modify k n f = some s' ↔ ∃ v, s.current k = some (n, v) ∧ s' = s.write k (f v) := by
  unfold modify
  constructor
  · intro h
    split at h
    · rename_i m v hc
      split at h
      · rename_i hm
        exact ⟨v, by rw [hc, hm], (Option.some.inj h).symm⟩
      · cases h
    · cases h
  · rintro ⟨v, hc, rfl⟩
    rw [hc]
    exact if_pos rfl

theorem modify_isSome (s : Store κ α) (k : κ) (n : ℕ) (f : α → α) :
    (s.modify k n f).isSome = (s.current k).any fun c => c.1 = n := by
  unfold modify
  rcases s.current k with _ | ⟨m, v⟩
  · rfl
  · by_cases hm : m = n <;> simp [hm]

/-- **No lost update.**  An accepted update was computed from the current value, however far the
copy it was computed from could have been behind. -/
theorem modify_seen {s s' : Store κ α} {lag : ℕ} {k : κ} {n : ℕ} {v : α} {f : α → α}
    (hr : s.seen lag k = some (n, v)) (hm : s.modify k n f = some s') :
    s.value k = some v ∧ s' = s.write k (f v) := by
  obtain ⟨w, hc, rfl⟩ := modify_eq_some.mp hm
  have hw : some w = some v := eq_of_version (mem_log_of_seen hc) (mem_log_of_seen hr)
  obtain rfl := Option.some.inj hw
  refine ⟨?_, rfl⟩
  unfold value
  rw [hc]
  rfl

end Store
end Versioned
