import Mathlib.Data.List.Basic
import Mathlib.Logic.Function.Basic

/-! # Sequences of edits of a keyed map

An edit sets one key of a map to a value or erases it; `exec` carries out a list of edits in
order.  The value of a key afterwards is the old one if no edit concerns it (`exec_of_notMem`),
and does not depend on the map before otherwise (`exec_congr`); it is the value that the edits of
the key agree on, if they do (`exec_of_mem`). -/

namespace Edits

variable {κ α : Type*} [DecidableEq κ]

/-- Carry out the edits `es` on the map `c`, in order. -/
def exec (c : κ → Option α) (es : List (κ × Option α)) : κ → Option α :=
  es.foldl (fun c e => Function.update c e.1 e.2) c

theorem exec_cons (c : κ → Option α) (e : κ × Option α) (es : List (κ × Option α)) :
    exec c (e :: es) = exec (Function.update c e.1 e.2) es := rfl

theorem exec_of_notMem {c : κ → Option α} {es : List (κ × Option α)} {k : κ}
    (h : ∀ e ∈ es, e.1 ≠ k) : exec c es k = c k := by
  induction es generalizing c with
  | nil => rfl
  | cons e es ih =>
      rw [exec_cons, ih fun e' he' => h e' (List.mem_cons_of_mem _ he')]
      exact Function.update_of_ne (h e List.mem_cons_self).symm e.2 c

/-- If all edits of a key agree, it has the value they give it. -/
theorem exec_of_mem {c : κ → Option α} {es : List (κ × Option α)} {k : κ} {v : Option α}
    (h : (k, v) ∈ es) (hv : ∀ e ∈ es, e.1 = k → e.2 = v) : exec c es k = v := by
  induction es generalizing c with
  | nil => cases h
  | cons e es ih =>
      rw [exec_cons]
      by_cases hes : (k, v) ∈ es
      · exact ih hes fun e' he' => hv e' (List.mem_cons_of_mem _ he')
      · obtain rfl : (k, v) = e := (List.mem_cons.mp h).resolve_right hes
        have hes' : ∀ e' ∈ es, e'.1 ≠ k := by
          intro e' he' hk
          have hv' := hv e' (List.mem_cons_of_mem _ he') hk
          exact hes (by rw [← hk, ← hv']; exact he')
        rw [exec_of_notMem hes', Function.update_self]

/-- The value of an edited key does not depend on the map before. -/
theorem exec_congr {c c' : κ → Option α} {es : List (κ × Option α)} {k : κ}
    (h : ∃ e ∈ es, e.1 = k) : exec c es k = exec c' es k := by
  induction es generalizing c c' with
  | nil =>
      obtain ⟨e, he, -⟩ := h
      cases he
  | cons e es ih =>
      rw [exec_cons, exec_cons]
      by_cases hes : ∃ e' ∈ es, e'.1 = k
      · exact ih hes
      · have hes' : ∀ e' ∈ es, e'.1 ≠ k := fun e' he' hk => hes ⟨e', he', hk⟩
        obtain ⟨e', he', rfl⟩ := h
        rcases List.mem_cons.mp he' with rfl | he'
        · rw [exec_of_notMem hes', exec_of_notMem hes', Function.update_self, Function.update_self]
        · exact absurd rfl (hes' e' he')

/-- A value found afterwards was there before or was set by an edit. -/
theorem exec_eq_some {c : κ → Option α} {es : List (κ × Option α)} {k : κ} {v : α}
    (h : exec c es k = some v) : c k = some v ∨ (k, some v) ∈ es := by
  induction es generalizing c with
  | nil => exact .inl h
  | cons e es ih =>
      rw [exec_cons] at h
      rcases ih h with hc | hes
      · by_cases hk : k = e.1
        · subst hk
          rw [Function.update_self] at hc
          exact .inr (hc ▸ List.mem_cons_self)
        · rw [Function.update_of_ne hk] at hc
          exact .inl hc
      · exact .inr (List.mem_cons_of_mem _ hes)

end Edits
