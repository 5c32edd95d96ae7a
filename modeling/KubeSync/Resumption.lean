import Mathlib.Logic.IsEmpty.Basic

/-! # Programs as trees of operations

`Prog E R α` is a sequential program over the operations `E`: it returns a value (`ret`), or
performs an operation `e` and continues with the answer of type `R e` (`op`).  The answers come
from outside, so the tree is the program together with every way its environment can behave.
An operation without an answer (`R e` empty) ends the program where it stands.

* `Ends p tr o` lists the complete runs of `p`: `tr` is the sequence of operations with their
  answers, `o` the returned value, or `none` for a run that ends at an operation without an
  answer;
* `ends_bind` splits a run of `p >>= f` into a run of `p` and a run of `f`;
* `exists_ends`: every program has a complete run, whatever it has left to do;
* `Obeys ok next Q p s`: a monitor that follows `p` from the state `s` accepts every operation, and
  `Q` holds of the value that `p` returns and the state of the monitor. -/

inductive Prog (E : Type) (R : E → Type) (α : Type) where
  | ret (a : α)
  | op (e : E) (k : R e → Prog E R α)

namespace Prog

variable {E : Type} {R : E → Type} {α β : Type}

def bind : Prog E R α → (α → Prog E R β) → Prog E R β
  | .ret a, f => f a
  | .op e k, f => .op e fun r => (k r).bind f

instance : Monad (Prog E R) where
  pure := .ret
  bind := Prog.bind

/-- Perform one operation and return its answer. -/
def call (e : E) : Prog E R (R e) := .op e .ret

@[simp] theorem ret_bind (a : α) (f : α → Prog E R β) : (Prog.ret a >>= f) = f a := rfl

@[simp] theorem op_bind (e : E) (k : R e → Prog E R α) (f : α → Prog E R β) :
    (Prog.op e k >>= f) = .op e fun r => k r >>= f := rfl

/-- An operation with the answer it got. -/
abbrev Event (E : Type) (R : E → Type) := (e : E) × R e

/-- The complete runs of a program. -/
inductive Ends : Prog E R α → List (Event E R) → Option α → Prop
  | ret (a : α) : Ends (.ret a) [] (some a)
  | stop (e : E) (k : R e → Prog E R α) : IsEmpty (R e) → Ends (.op e k) [] none
  | op {e : E} {k : R e → Prog E R α} {tr : List (Event E R)} {o : Option α} (r : R e) :
      Ends (k r) tr o → Ends (.op e k) (⟨e, r⟩ :: tr) o

theorem ends_ret {a : α} {tr : List (Event E R)} {o : Option α} :
    Ends (.ret a) tr o ↔ tr = [] ∧ o = some a := by
  constructor
  · intro h; cases h; exact ⟨rfl, rfl⟩
  · rintro ⟨rfl, rfl⟩; exact .ret a

theorem ends_op {e : E} [he : Nonempty (R e)] {k : R e → Prog E R α} {tr : List (Event E R)}
    {o : Option α} :
    Ends (.op e k) tr o ↔ ∃ r tr', tr = ⟨e, r⟩ :: tr' ∧ Ends (k r) tr' o := by
  constructor
  · intro h
    cases h with
    | stop _ _ hempty => exact (not_isEmpty_of_nonempty _ hempty).elim
    | op r h => exact ⟨r, _, rfl, h⟩
  · rintro ⟨r, tr', rfl, h⟩
    exact .op r h

theorem ends_call_bind {e : E} [Nonempty (R e)] {f : R e → Prog E R α} {tr : List (Event E R)}
    {o : Option α} :
    Ends (call e >>= f) tr o ↔ ∃ r tr', tr = ⟨e, r⟩ :: tr' ∧ Ends (f r) tr' o := ends_op

theorem ends_stop {e : E} [he : IsEmpty (R e)] {k : R e → Prog E R α} {tr : List (Event E R)}
    {o : Option α} : Ends (.op e k) tr o ↔ tr = [] ∧ o = none := by
  constructor
  · intro h
    cases h with
    | stop _ _ _ => exact ⟨rfl, rfl⟩
    | op r _ => exact (he.false r).elim
  · rintro ⟨rfl, rfl⟩
    exact .stop e k he

/-- A run of `p >>= f` is a run of `p` to a value followed by a run of `f`, or a run of `p` that
ends without one. -/
theorem ends_bind {p : Prog E R α} {f : α → Prog E R β} {tr : List (Event E R)} {o : Option β} :
    Ends (p >>= f) tr o ↔
      (∃ tr₁ a tr₂, tr = tr₁ ++ tr₂ ∧ Ends p tr₁ (some a) ∧ Ends (f a) tr₂ o) ∨
      (o = none ∧ Ends p tr none) := by
  induction p generalizing tr with
  | ret a =>
      rw [ret_bind]
      constructor
      · exact fun h => .inl ⟨[], a, tr, rfl, .ret a, h⟩
      · rintro (⟨tr₁, b, tr₂, rfl, h₁, h₂⟩ | ⟨_, h⟩)
        · obtain ⟨rfl, hb⟩ := ends_ret.mp h₁
          obtain rfl := Option.some.inj hb
          exact h₂
        · cases h
  | op e k ih =>
      rw [op_bind]
      constructor
      · intro h
        cases h with
        | stop _ _ he => exact .inr ⟨rfl, .stop e k he⟩
        | op r h =>
            rcases (ih r).mp h with ⟨tr₁, a, tr₂, rfl, h₁, h₂⟩ | ⟨ho, h₁⟩
            · exact .inl ⟨⟨e, r⟩ :: tr₁, a, tr₂, rfl, .op r h₁, h₂⟩
            · exact .inr ⟨ho, .op r h₁⟩
      · rintro (⟨tr₁, a, tr₂, rfl, h₁, h₂⟩ | ⟨rfl, h⟩)
        · cases h₁ with
          | op r h₁ => exact .op r ((ih r).mpr (.inl ⟨_, a, tr₂, rfl, h₁, h₂⟩))
        · cases h with
          | stop _ _ he => exact .stop e _ he
          | op r h => exact .op r ((ih r).mpr (.inr ⟨rfl, h⟩))

/-- Every program has a complete run. -/
theorem exists_ends (p : Prog E R α) : ∃ tr o, Ends p tr o := by
  induction p with
  | ret a => exact ⟨[], some a, .ret a⟩
  | op e k ih =>
      rcases isEmpty_or_nonempty (R e) with he | ⟨⟨r⟩⟩
      · exact ⟨[], none, .stop e k he⟩
      · obtain ⟨tr, o, h⟩ := ih r
        exact ⟨⟨e, r⟩ :: tr, o, .op r h⟩

/-! ### Monitors -/

variable {σ : Type*} {ok : σ → E → Prop} {next : σ → (e : E) → R e → Option σ}

/-- A monitor accepts every operation of the program: `ok s e` says that it accepts `e` in the state
`s`, and `next s e r` is its state behind the answer `r`, or `none` for an answer that is not
considered. -/
def Obeys (ok : σ → E → Prop) (next : σ → (e : E) → R e → Option σ) (Q : α → σ → Prop) :
    Prog E R α → σ → Prop
  | .ret a, s => Q a s
  | .op e k, s => ok s e ∧ ∀ r s', next s e r = some s' → Obeys ok next Q (k r) s'

theorem obeys_bind {p : Prog E R α} {f : α → Prog E R β} {Q : β → σ → Prop} {s : σ} :
    Obeys ok next Q (p >>= f) s ↔
      Obeys ok next (fun a s' => Obeys ok next Q (f a) s') p s := by
  induction p generalizing s with
  | ret a => rfl
  | op e k ih =>
      refine and_congr_right fun _ => ?_
      exact forall_congr' fun r => forall_congr' fun s' => imp_congr_right fun _ => ih r

theorem Obeys.mono {p : Prog E R α} {Q Q' : α → σ → Prop} {s : σ} (h : Obeys ok next Q p s)
    (hq : ∀ a s', Q a s' → Q' a s') : Obeys ok next Q' p s := by
  induction p generalizing s with
  | ret a => exact hq a s h
  | op e k ih => exact ⟨h.1, fun r s' hs => ih r (h.2 r s' hs)⟩

end Prog
