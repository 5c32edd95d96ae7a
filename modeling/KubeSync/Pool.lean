import Mathlib.Algebra.GroupWithZero.Nat
import Mathlib.Data.List.Basic

/-! # Pools of processes

A pool is a list of process records known by their position.  A step of one process replaces its
record (`List.set`), a spawn appends one.

* `forall_set`, `exists_set`: what all, or some, processes satisfy after a replacement;
* `Solo P l`: at most one process of the pool satisfies `P`.  It survives every replacement that
  does not make the process satisfy `P` anew, and every spawn into a pool where no process
  does. -/

namespace Pool

variable {α : Type*} {P : α → Prop} {l : List α} {i : ℕ} {old new : α}

theorem forall_set (h : ∀ x ∈ l, P x) (hn : P new) : ∀ x ∈ l.set i new, P x := by
  intro x hx
  rcases List.mem_or_eq_of_mem_set hx with hx | rfl
  · exact h x hx
  · exact hn

theorem forall_append (h : ∀ x ∈ l, P x) (hn : P new) : ∀ x ∈ l ++ [new], P x := by
  intro x hx
  rcases List.mem_append.mp hx with hx | hx
  · exact h x hx
  · rw [List.mem_singleton.mp hx]
    exact hn

theorem exists_set (hi : l[i]? = some old) (hp : P old → P new) (h : ∃ x ∈ l, P x) :
    ∃ x ∈ l.set i new, P x := by
  obtain ⟨x, hx, hP⟩ := h
  obtain ⟨j, hj⟩ := List.getElem?_of_mem hx
  by_cases hij : i = j
  · subst hij
    have he : old = x := Option.some.inj (hi.symm.trans hj)
    refine ⟨new, List.mem_of_getElem? (i := i) ?_, hp (he ▸ hP)⟩
    rw [List.getElem?_set_self (List.getElem?_eq_some_iff.mp hi).1]
  · refine ⟨x, List.mem_of_getElem? (i := j) ?_, hP⟩
    rw [List.getElem?_set_ne hij, hj]

theorem exists_set_new (hi : l[i]? = some old) (hn : P new) : ∃ x ∈ l.set i new, P x := by
  refine ⟨new, List.mem_of_getElem? (i := i) ?_, hn⟩
  rw [List.getElem?_set_self (List.getElem?_eq_some_iff.mp hi).1]

theorem exists_append (h : ∃ x ∈ l, P x) : ∃ x ∈ l ++ [new], P x := by
  obtain ⟨x, hx, hP⟩ := h
  exact ⟨x, List.mem_append_left _ hx, hP⟩

/-- The processes after a replacement: the new one, and the others. -/
theorem mem_set_cases {x : α} (h : x ∈ l.set i new) : x = new ∨ ∃ j, i ≠ j ∧ l[j]? = some x := by
  obtain ⟨j, hj⟩ := List.getElem?_of_mem h
  by_cases hij : i = j
  · subst hij
    have hlt := (List.getElem?_eq_some_iff.mp hj).1
    rw [List.length_set] at hlt
    rw [List.getElem?_set_self hlt] at hj
    exact .inl (Option.some.inj hj).symm
  · rw [List.getElem?_set_ne hij] at hj
    exact .inr ⟨j, hij, hj⟩

/-- A replacement that an observation does not see. -/
theorem map_set_of_eq {β : Type*} {f : α → β} (hi : l[i]? = some old) (h : f new = f old) :
    (l.set i new).map f = l.map f := by
  obtain ⟨hlt, hget⟩ := List.getElem?_eq_some_iff.mp hi
  have hlt' : i < (l.map f).length := by rwa [List.length_map]
  have hget' : (l.map f)[i] = f old := by rw [List.getElem_map, hget]
  rw [List.map_set, h, ← hget', List.set_getElem_self]

/-- At most one process satisfies `P`. -/
def Solo (P : α → Prop) (l : List α) : Prop :=
  ∀ (i j : ℕ) (x y : α), l[i]? = some x → l[j]? = some y → P x → P y → i = j

theorem solo_of_none (h : ∀ x ∈ l, ¬ P x) : Solo P l :=
  fun _ _ x _ hx _ hP _ => absurd hP (h x (List.mem_of_getElem? hx))

theorem solo_set_of_none (h : ∀ x ∈ l, ¬ P x) : Solo P (l.set i new) := by
  have only : ∀ (j : ℕ) (x : α), (l.set i new)[j]? = some x → P x → j = i := by
    intro j x hj hx
    by_contra hne
    rw [List.getElem?_set_ne (Ne.symm hne)] at hj
    exact h x (List.mem_of_getElem? hj) hx
  intro j k x y hj hk hx hy
  rw [only j x hj hx, only k y hk hy]

theorem Solo.set (h : Solo P l) (hi : l[i]? = some old) (hp : P new → P old) :
    Solo P (l.set i new) := by
  have back : ∀ (j : ℕ) (x : α), (l.set i new)[j]? = some x → P x → ∃ y, l[j]? = some y ∧ P y := by
    intro j x hj hx
    by_cases hij : i = j
    · subst hij
      rw [List.getElem?_set_self (List.getElem?_eq_some_iff.mp hi).1] at hj
      obtain rfl := Option.some.inj hj
      exact ⟨old, hi, hp hx⟩
    · rw [List.getElem?_set_ne hij] at hj
      exact ⟨x, hj, hx⟩
  intro j k x y hj hk hx hy
  obtain ⟨x', hj', hx'⟩ := back j x hj hx
  obtain ⟨y', hk', hy'⟩ := back k y hk hy
  exact h j k x' y' hj' hk' hx' hy'

theorem Solo.append (h : ∀ x ∈ l, ¬ P x) : Solo P (l ++ [new]) := by
  have last : ∀ (j : ℕ) (x : α), (l ++ [new])[j]? = some x → P x → j = l.length := by
    intro j x hj hx
    rcases Nat.lt_trichotomy j l.length with hlt | heq | hgt
    · rw [List.getElem?_append_left hlt] at hj
      exact absurd hx (h x (List.mem_of_getElem? hj))
    · exact heq
    · have hlt := (List.getElem?_eq_some_iff.mp hj).1
      rw [List.length_append, List.length_singleton] at hlt
      omega
  intro j k x y hj hk hx hy
  rw [last j x hj hx, last k y hk hy]

theorem Solo.append_not (h : Solo P l) (hn : ¬ P new) : Solo P (l ++ [new]) := by
  have old : ∀ (j : ℕ) (x : α), (l ++ [new])[j]? = some x → P x → l[j]? = some x := by
    intro j x hj hx
    by_cases hlt : j < l.length
    · rwa [List.getElem?_append_left hlt] at hj
    · rw [List.getElem?_append_right (Nat.le_of_not_lt hlt)] at hj
      have hmem := List.mem_of_getElem? hj
      rw [List.mem_singleton.mp hmem] at hx
      exact absurd hx hn
  intro j k x y hj hk hx hy
  exact h j k x y (old j x hj hx) (old k y hk hy) hx hy

/-- Where one process satisfies `P`, a replacement of it leaves no other that does. -/
theorem Solo.others (h : Solo P l) (hi : l[i]? = some old) (ho : P old) :
    ∀ x ∈ l.set i new, x = new ∨ ¬ P x := by
  intro x hx
  obtain rfl | ⟨j, hij, hj⟩ := mem_set_cases hx
  · exact .inl rfl
  · exact .inr fun hP => hij (h i j old x hi hj ho hP)

/-- What a partial observation collects where only one process can have any. -/
theorem filterMap_of_one {β : Type*} {f : α → Option β} (hi : l[i]? = some old)
    (h : ∀ (j : ℕ) (x : α), l[j]? = some x → j ≠ i → f x = none) :
    l.filterMap f = (f old).toList := by
  induction l generalizing i with
  | nil => cases hi
  | cons a l ih =>
      cases i with
      | zero =>
          obtain rfl := Option.some.inj hi
          have hnil : l.filterMap f = [] := by
            rw [List.filterMap_eq_nil_iff]
            intro x hx
            obtain ⟨j, hj⟩ := List.getElem?_of_mem hx
            exact h (j + 1) x hj (by omega)
          rw [List.filterMap_cons, hnil]
          cases f a <;> rfl
      | succ i =>
          have ha : f a = none := h 0 a rfl (by omega)
          rw [List.filterMap_cons_none ha]
          exact ih hi fun j x hj hne => h (j + 1) x hj (by omega)

/-- How a replacement changes the number of processes with a property. -/
theorem countP_set (p : α → Bool) (hi : l[i]? = some old) :
    (l.set i new).countP p + (p old).toNat = l.countP p + (p new).toNat := by
  induction l generalizing i with
  | nil => cases hi
  | cons a l ih =>
      cases i with
      | zero =>
          obtain rfl := Option.some.inj hi
          rw [List.set_cons_zero, List.countP_cons, List.countP_cons]
          cases p a <;> cases p new <;> simp
      | succ i =>
          have ih' := ih hi
          rw [List.set_cons_succ, List.countP_cons, List.countP_cons]
          omega

/-- How a replacement changes the sum of a weight. -/
theorem sum_set (f : α → ℕ) (hi : l[i]? = some old) :
    ((l.set i new).map f).sum + f old = (l.map f).sum + f new := by
  induction l generalizing i with
  | nil => cases hi
  | cons a l ih =>
      cases i with
      | zero =>
          obtain rfl := Option.some.inj hi
          simp only [List.set_cons_zero, List.map_cons, List.sum_cons]
          omega
      | succ i =>
          have ih' := ih hi
          simp only [List.set_cons_succ, List.map_cons, List.sum_cons]
          omega

/-- Two properties that cover a third are at least as frequent. -/
theorem countP_le_add {p q r : α → Bool} (h : ∀ x, p x = true → q x = true ∨ r x = true)
    (l : List α) : l.countP p ≤ l.countP q + l.countP r := by
  induction l with
  | nil => exact Nat.zero_le _
  | cons a l ih =>
      rw [List.countP_cons, List.countP_cons, List.countP_cons]
      cases hp : p a with
      | false =>
          simp only [Bool.false_eq_true, if_false]
          omega
      | true =>
          rcases h a hp with hq | hr
          · simp only [hq, if_true]
            omega
          · simp only [hr, if_true]
            omega

theorem Solo.countP_le [DecidablePred P] (h : Solo P l) : l.countP (fun x => decide (P x)) ≤ 1 := by
  induction l with
  | nil => exact Nat.zero_le 1
  | cons a l ih =>
      have htail : Solo P l := by
        intro j k x y hj hk hx hy
        have := h (j + 1) (k + 1) x y hj hk hx hy
        omega
      rw [List.countP_cons]
      by_cases ha : P a
      · have hnone : l.countP (fun x => decide (P x)) = 0 := by
          rw [List.countP_eq_zero]
          intro x hx
          obtain ⟨j, hj⟩ := List.getElem?_of_mem hx
          intro hP
          have := h 0 (j + 1) a x rfl hj ha (of_decide_eq_true hP)
          omega
        simp [hnone, ha]
      · rw [if_neg (by simpa using ha)]
        exact ih htail

end Pool
