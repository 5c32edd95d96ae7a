import Mathlib.Data.List.Basic

/-! # The latest event of a history

A history is a list of events, oldest first.  `Latest P t v₀ h v` says that `v` is the value `t x`
of the last event `x` of `h` that satisfies `P`, and `v₀` when there is none.  Whether an event
counts may depend on what came before it, so `P` is a relation between the history up to an event
and the event.

The two rules `Latest.hit` and `Latest.miss` extend a history by one event.

`Since A B h` says that an event of `h` satisfies `A`, and that this event and all later ones
satisfy `B`; `since_concat` is its rule for one more event. -/

namespace History

variable {α β : Type*}

/-- No event of `h` satisfies `P`, where `before` came before `h`. -/
def Never (P : List α → α → Prop) (before h : List α) : Prop :=
  ∀ pre x post, h = pre ++ x :: post → ¬ P (before ++ pre) x

/-- `v` is the value of the last event of `h` that satisfies `P`, and `v₀` if there is none. -/
def Latest (P : List α → α → Prop) (t : α → β) (v₀ : β) (h : List α) (v : β) : Prop :=
  (∃ pre x post, h = pre ++ x :: post ∧ P pre x ∧ Never P (pre ++ [x]) post ∧ v = t x) ∨
    Never P [] h ∧ v = v₀

variable {P : List α → α → Prop} {t : α → β} {v₀ v : β} {before h : List α} {x : α}

theorem never_nil (P : List α → α → Prop) (before : List α) : Never P before [] := by
  intro pre x post he
  cases pre <;> cases he

theorem Never.concat (hn : Never P before h) (hx : ¬ P (before ++ h) x) :
    Never P before (h ++ [x]) := by
  intro pre y post he
  rcases List.eq_nil_or_concat post with rfl | ⟨post', z, rfl⟩
  · have he' : h ++ [x] = pre ++ [y] := he
    obtain ⟨rfl, hxy⟩ := List.append_inj' he' rfl
    obtain rfl := List.singleton_inj.mp hxy
    exact hx
  · have he' : h ++ [x] = (pre ++ y :: post') ++ [z] := by
      rw [he, List.concat_eq_append, List.append_assoc, List.cons_append]
    exact hn pre y post' (List.append_inj' he' rfl).1

theorem Latest.nil (P : List α → α → Prop) (t : α → β) (v₀ : β) : Latest P t v₀ [] v₀ :=
  .inr ⟨never_nil P [], rfl⟩

/-- The new event counts. -/
theorem Latest.hit (hx : P h x) : Latest P t v₀ (h ++ [x]) (t x) :=
  .inl ⟨h, x, [], rfl, hx, never_nil P _, rfl⟩

/-- The new event does not count. -/
theorem Latest.miss (hl : Latest P t v₀ h v) (hx : ¬ P h x) : Latest P t v₀ (h ++ [x]) v := by
  rcases hl with ⟨pre, y, post, rfl, hy, hn, rfl⟩ | ⟨hn, rfl⟩
  · refine .inl ⟨pre, y, post ++ [x], ?_, hy, hn.concat ?_, rfl⟩
    · rw [List.append_assoc, List.cons_append]
    · rw [List.append_assoc]
      exact hx
  · exact .inr ⟨hn.concat hx, rfl⟩

/-- The new event counts or not. -/
theorem Latest.concat [Decidable (P h x)] (hl : Latest P t v₀ h v) :
    Latest P t v₀ (h ++ [x]) (if P h x then t x else v) := by
  split
  · exact .hit ‹_›
  · exact hl.miss ‹_›

/-! ### Since an event -/

/-- An event satisfies `A`, and from it on all satisfy `B`. -/
def Since (A B : α → Prop) (h : List α) : Prop :=
  ∃ pre x post, h = pre ++ x :: post ∧ A x ∧ ∀ y ∈ x :: post, B y

variable {A B : α → Prop}

theorem not_since_nil : ¬ Since A B [] := by
  rintro ⟨pre, x, post, he, -⟩
  cases pre <;> cases he

theorem since_concat : Since A B (h ++ [x]) ↔ B x ∧ (A x ∨ Since A B h) := by
  constructor
  · rintro ⟨pre, y, post, he, hy, hall⟩
    rcases List.eq_nil_or_concat post with rfl | ⟨post', z, rfl⟩
    · obtain ⟨-, hxy⟩ := List.append_inj' he rfl
      obtain rfl := List.singleton_inj.mp hxy
      exact ⟨hall x List.mem_cons_self, .inl hy⟩
    · have he' : h ++ [x] = (pre ++ y :: post') ++ [z] := by
        rw [he, List.concat_eq_append, List.append_assoc, List.cons_append]
      obtain ⟨rfl, hxz⟩ := List.append_inj' he' rfl
      obtain rfl := List.singleton_inj.mp hxz
      rw [List.concat_eq_append, ← List.cons_append] at hall
      refine ⟨hall x (by simp), .inr ⟨pre, y, post', rfl, hy, fun w hw => hall w ?_⟩⟩
      exact List.mem_append_left _ hw
  · rintro ⟨hx, hA | ⟨pre, y, post, rfl, hy, hall⟩⟩
    · refine ⟨h, x, [], rfl, hA, fun y hy => ?_⟩
      rw [List.mem_singleton.mp hy]
      exact hx
    · refine ⟨pre, y, post ++ [x], by simp, hy, fun w hw => ?_⟩
      rw [← List.cons_append] at hw
      rcases List.mem_append.mp hw with hw | hw
      · exact hall w hw
      · rw [List.mem_singleton.mp hw]
        exact hx

end History
