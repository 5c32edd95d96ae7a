import Mathlib.Data.List.Basic

/-! # Partial-step transition systems

A system is a partial step function `step : σ → ℓ → Option σ`: the label says which party
moves and what its environment answers, and `none` says that the move is not enabled.

* `run step s ls` follows the labels `ls` from `s`, and `Reach step s s'` says that some labels lead
  from `s` to `s'`;
* `Along step C s ls` says that every step taken by that run meets the condition `C` in the
  state in which it is taken;
* `check step c s ls` decides this for a computable condition;
* `Always step P s ls` says that every state of that run, `s` included, satisfies `P`;
* `run_frame` says what a run leaves alone, and `split_last` finds the last label that does not;
* `watch step note` is the system with a record of its labels, for conditions on the past, and
  `collect step out` is what the steps of a run put out;
* `run_invariant` is the induction rule: an invariant kept by every step that meets `C` holds
  at the end of every run all of whose steps meet `C`.  A run of the whole system is the case
  `C := fun _ _ => True` (`run_invariant'`). -/

namespace Lts

variable {σ ℓ : Type*}

/-- Follow the labels `ls` from `s`. -/
def run (step : σ → ℓ → Option σ) : σ → List ℓ → Option σ
  | s, [] => some s
  | s, l :: ls => (step s l).bind fun s' => run step s' ls

/-- Every step of the run of `ls` from `s` meets `C` in the state where it is taken. -/
def Along (step : σ → ℓ → Option σ) (C : σ → ℓ → Prop) : σ → List ℓ → Prop
  | _, [] => True
  | s, l :: ls => C s l ∧ ∀ s', step s l = some s' → Along step C s' ls

/-- Evaluate the condition `c` along the run of `ls` from `s`. -/
def check (step : σ → ℓ → Option σ) (c : σ → ℓ → Bool) : σ → List ℓ → Bool
  | _, [] => true
  | s, l :: ls => c s l && (step s l).all fun s' => check step c s' ls

/-- Every state reached by the run of `ls` from `s` satisfies `P`. -/
def Always (step : σ → ℓ → Option σ) (P : σ → Prop) : σ → List ℓ → Prop
  | s, [] => P s
  | s, l :: ls => P s ∧ ∀ s', step s l = some s' → Always step P s' ls

variable {step : σ → ℓ → Option σ} {C D : σ → ℓ → Prop}

@[simp] theorem run_nil (s : σ) : run step s [] = some s := rfl

theorem run_cons {s s' : σ} {l : ℓ} {ls : List ℓ} :
    run step s (l :: ls) = some s' ↔ ∃ s₁, step s l = some s₁ ∧ run step s₁ ls = some s' := by
  simp only [run, Option.bind_eq_some_iff]

theorem run_append_iff {s s₂ : σ} {ls ls' : List ℓ} :
    run step s (ls ++ ls') = some s₂ ↔
      ∃ s₁, run step s ls = some s₁ ∧ run step s₁ ls' = some s₂ := by
  induction ls generalizing s with
  | nil =>
      constructor
      · exact fun h => ⟨s, rfl, h⟩
      · rintro ⟨s₁, h, h'⟩
        obtain rfl := Option.some.inj h
        exact h'
  | cons l ls ih =>
      constructor
      · intro h
        obtain ⟨t, ht, hr⟩ := run_cons.mp h
        obtain ⟨s₁, h₁, h₂⟩ := ih.mp hr
        exact ⟨s₁, run_cons.mpr ⟨t, ht, h₁⟩, h₂⟩
      · rintro ⟨s₁, h₁, h₂⟩
        obtain ⟨t, ht, hr⟩ := run_cons.mp h₁
        exact run_cons.mpr ⟨t, ht, ih.mpr ⟨s₁, hr, h₂⟩⟩

theorem run_append {s s₁ s₂ : σ} {ls ls' : List ℓ} (h : run step s ls = some s₁)
    (h' : run step s₁ ls' = some s₂) : run step s (ls ++ ls') = some s₂ :=
  run_append_iff.mpr ⟨s₁, h, h'⟩

/-- The part of the state that only some labels touch is as before in a run without them. -/
theorem run_frame {β : Type*} {part : σ → β} {T : ℓ → Prop}
    (hstep : ∀ s l s', step s l = some s' → ¬ T l → part s' = part s) {s s' : σ} {ls : List ℓ}
    (h : run step s ls = some s') (hls : ∀ l ∈ ls, ¬ T l) : part s' = part s := by
  induction ls generalizing s with
  | nil => rw [Option.some.inj h]
  | cons l ls ih =>
      obtain ⟨t, ht, hr⟩ := run_cons.mp h
      have htail := ih hr fun k hk => hls k (List.mem_cons_of_mem l hk)
      exact htail.trans (hstep s l t ht (hls l List.mem_cons_self))

/-- Labels split at the last one that touches, if there is one. -/
theorem split_last (T : ℓ → Prop) (ls : List ℓ) :
    (∀ l ∈ ls, ¬ T l) ∨
      ∃ pre l post, ls = pre ++ l :: post ∧ T l ∧ ∀ k ∈ post, ¬ T k := by
  induction ls with
  | nil => exact .inl fun l hl => absurd hl List.not_mem_nil
  | cons l ls ih =>
      rcases ih with hnone | ⟨pre, k, post, rfl, hk, hpost⟩
      · by_cases hl : T l
        · exact .inr ⟨[], l, ls, rfl, hl, hnone⟩
        · exact .inl (List.forall_mem_cons.mpr ⟨hl, hnone⟩)
      · exact .inr ⟨l :: pre, k, post, rfl, hk, hpost⟩

/-- `s'` is reached from `s` by some run. -/
def Reach (step : σ → ℓ → Option σ) (s s' : σ) : Prop := ∃ ls, run step s ls = some s'

theorem Reach.refl (s : σ) : Reach step s s := ⟨[], rfl⟩

theorem Reach.trans {s s₁ s₂ : σ} (h : Reach step s s₁) (h' : Reach step s₁ s₂) :
    Reach step s s₂ := by
  obtain ⟨ls, hr⟩ := h
  obtain ⟨ls', hr'⟩ := h'
  exact ⟨ls ++ ls', run_append hr hr'⟩

theorem Reach.single {s s' : σ} (l : ℓ) (h : step s l = some s') : Reach step s s' :=
  ⟨[l], run_cons.mpr ⟨s', h, rfl⟩⟩

theorem along_append {s : σ} {ls ls' : List ℓ} :
    Along step C s (ls ++ ls') ↔
      Along step C s ls ∧ ∀ s₁, run step s ls = some s₁ → Along step C s₁ ls' := by
  induction ls generalizing s with
  | nil =>
      constructor
      · intro h
        refine ⟨trivial, fun s₁ h₁ => ?_⟩
        obtain rfl := Option.some.inj h₁
        exact h
      · rintro ⟨-, h⟩
        exact h s rfl
  | cons k ls ih =>
      constructor
      · rintro ⟨hk, hrest⟩
        refine ⟨⟨hk, fun s' hs' => (ih.mp (hrest s' hs')).1⟩, fun s₁ h₁ => ?_⟩
        obtain ⟨s', hs', hr⟩ := run_cons.mp h₁
        exact (ih.mp (hrest s' hs')).2 s₁ hr
      · rintro ⟨⟨hk, hrest⟩, hlast⟩
        refine ⟨hk, fun s' hs' => ih.mpr ⟨hrest s' hs', fun s₁ h₁ => ?_⟩⟩
        exact hlast s₁ (run_cons.mpr ⟨s', hs', h₁⟩)

theorem along_concat {s : σ} {l : ℓ} {ls : List ℓ} :
    Along step C s (ls ++ [l]) ↔
      Along step C s ls ∧ ∀ s₁, run step s ls = some s₁ → C s₁ l := by
  rw [along_append]
  refine and_congr_right fun _ => forall_congr' fun s₁ => imp_congr_right fun _ => ?_
  exact and_iff_left fun _ _ => trivial

theorem along_of_check {c : σ → ℓ → Bool} {s : σ} {ls : List ℓ} (h : check step c s ls = true) :
    Along step (fun s l => c s l = true) s ls := by
  induction ls generalizing s with
  | nil => trivial
  | cons l ls ih =>
      unfold check at h
      rw [Bool.and_eq_true] at h
      refine ⟨h.1, fun s' hs' => ih ?_⟩
      have h₂ := h.2
      rw [hs'] at h₂
      exact h₂

theorem Along.mono (h : ∀ s l, C s l → D s l) {s : σ} {ls : List ℓ} (hs : Along step C s ls) :
    Along step D s ls := by
  induction ls generalizing s with
  | nil => trivial
  | cons l ls ih => exact ⟨h s l hs.1, fun s' hs' => ih (hs.2 s' hs')⟩

theorem along_congr (h : ∀ s l, C s l ↔ D s l) {s : σ} {ls : List ℓ} :
    Along step C s ls ↔ Along step D s ls :=
  ⟨Along.mono fun s l => (h s l).mp, Along.mono fun s l => (h s l).mpr⟩

theorem Along.and {s : σ} {ls : List ℓ} (hC : Along step C s ls) (hD : Along step D s ls) :
    Along step (fun s l => C s l ∧ D s l) s ls := by
  induction ls generalizing s with
  | nil => trivial
  | cons l ls ih => exact ⟨⟨hC.1, hD.1⟩, fun s' hs' => ih (hC.2 s' hs') (hD.2 s' hs')⟩

/-- **Invariant rule.**  What every step meeting `C` keeps holds at the end of every run whose
steps all meet `C`. -/
theorem run_invariant {Inv : σ → Prop}
    (hstep : ∀ s l s', Inv s → C s l → step s l = some s' → Inv s') {s s' : σ} {ls : List ℓ}
    (hi : Inv s) (hc : Along step C s ls) (hr : run step s ls = some s') : Inv s' := by
  induction ls generalizing s with
  | nil =>
      obtain rfl := Option.some.inj hr
      exact hi
  | cons l ls ih =>
      obtain ⟨s₁, hs, hr⟩ := run_cons.mp hr
      exact ih (hstep s l s₁ hi hc.1 hs) (hc.2 s₁ hs) hr

/-- Along a run whose steps meet `C`, an invariant of these steps may be used in every step. -/
theorem Along.of_invariant {Inv : σ → Prop}
    (hstep : ∀ s l s', Inv s → C s l → step s l = some s' → Inv s')
    (hD : ∀ s l, Inv s → C s l → D s l) {s : σ} {ls : List ℓ} (hi : Inv s)
    (hc : Along step C s ls) : Along step D s ls := by
  induction ls generalizing s with
  | nil => trivial
  | cons l ls ih =>
      exact ⟨hD s l hi hc.1, fun s' hs' => ih (hstep s l s' hi hc.1 hs') (hc.2 s' hs')⟩

/-- What the invariant implies holds throughout a run whose steps all meet `C`. -/
theorem Always.of_along {Inv P : σ → Prop}
    (hstep : ∀ s l s', Inv s → C s l → step s l = some s' → Inv s') (hP : ∀ s, Inv s → P s)
    {s : σ} {ls : List ℓ} (hi : Inv s) (hc : Along step C s ls) : Always step P s ls := by
  induction ls generalizing s with
  | nil => exact hP s hi
  | cons l ls ih =>
      exact ⟨hP s hi, fun s' hs' => ih (hstep s l s' hi hc.1 hs') (hc.2 s' hs')⟩

/-- A condition on the labels alone. -/
theorem along_of_labels {P : ℓ → Prop} (s : σ) {ls : List ℓ} (h : ∀ l ∈ ls, P l) :
    Along step (fun _ l => P l) s ls := by
  induction ls generalizing s with
  | nil => trivial
  | cons l ls ih =>
      exact ⟨h l List.mem_cons_self, fun s' _ => ih s' fun l hl => h l (List.mem_cons_of_mem _ hl)⟩

/-- The invariant rule for all runs. -/
theorem run_invariant' {Inv : σ → Prop}
    (hstep : ∀ s l s', Inv s → step s l = some s' → Inv s') {s s' : σ} {ls : List ℓ}
    (hi : Inv s) (hr : run step s ls = some s') : Inv s' :=
  run_invariant (fun s l s' h _ => hstep s l s' h) hi (along_of_labels s fun _ _ => trivial) hr

/-- **Simulation.**  If every step from related states is matched by steps of another system, or by
none, so is every run. -/
theorem run_simulates {τ m : Type*} {step' : τ → m → Option τ} {R : σ → τ → Prop}
    (hstep : ∀ s l s' u, R s u → step s l = some s' → ∃ u', Reach step' u u' ∧ R s' u') {s s' : σ}
    {u : τ} {ls : List ℓ} (hR : R s u) (hr : run step s ls = some s') :
    ∃ u', Reach step' u u' ∧ R s' u' := by
  induction ls generalizing s u with
  | nil =>
      obtain rfl := Option.some.inj hr
      exact ⟨u, .refl u, hR⟩
  | cons l ls ih =>
      obtain ⟨s₁, hs, hr⟩ := run_cons.mp hr
      obtain ⟨u₁, hu, hR₁⟩ := hstep s l s₁ u hR hs
      obtain ⟨u', hu', hR'⟩ := ih hR₁ hr
      exact ⟨u', hu.trans hu', hR'⟩

/-- **Exact conditions.**  If `C` decides, at the steps where `P` and the invariant `I` hold,
whether `P` holds after the step, then `P` holds throughout a run exactly when it holds at its start
and every step meets `C`. -/
theorem always_iff_along_of_enabled {I P : σ → Prop} {s : σ} {ls : List ℓ}
    (hinv : ∀ l ∈ ls, ∀ s s', I s → step s l = some s' → I s')
    (hstep : ∀ l ∈ ls, ∀ s s', I s → P s → step s l = some s' → (P s' ↔ C s l))
    (hnone : ∀ l ∈ ls, ∀ s, step s l = none → C s l) (hi : I s) :
    Always step P s ls ↔ P s ∧ Along step C s ls := by
  induction ls generalizing s with
  | nil => exact (and_iff_left trivial).symm
  | cons l ls ih =>
      have ih' : ∀ {s'}, I s' → (Always step P s' ls ↔ P s' ∧ Along step C s' ls) :=
        ih (fun l hl => hinv l (List.mem_cons_of_mem _ hl))
          (fun l hl => hstep l (List.mem_cons_of_mem _ hl))
          (fun l hl => hnone l (List.mem_cons_of_mem _ hl))
      refine and_congr_right fun hp => ?_
      cases hs : step s l with
      | none =>
          refine iff_of_true nofun ⟨hnone l List.mem_cons_self s hs, fun s' hs' => ?_⟩
          cases hs.symm.trans hs'
      | some s₁ =>
          have hi₁ := hinv l List.mem_cons_self s s₁ hi hs
          have hiff := hstep l List.mem_cons_self s s₁ hi hp hs
          constructor
          · intro hrest
            have h₁ := (ih' hi₁).mp (hrest s₁ rfl)
            refine ⟨hiff.mp h₁.1, fun s' hs' => ?_⟩
            obtain rfl := Option.some.inj (hs.symm.trans hs')
            exact h₁.2
          · rintro ⟨hc, hrest⟩ s' hs'
            obtain rfl := Option.some.inj hs'
            exact (ih' hi₁).mpr ⟨hiff.mpr hc, hrest s₁ hs⟩

/-- Exact conditions where every step is enabled. -/
theorem always_iff_along_of_invariant {I P : σ → Prop} {s : σ} {ls : List ℓ}
    (hinv : ∀ l ∈ ls, ∀ s s', I s → step s l = some s' → I s')
    (hstep : ∀ l ∈ ls, ∀ s s', I s → P s → step s l = some s' → (P s' ↔ C s l))
    (htotal : ∀ l ∈ ls, ∀ s, ∃ s', step s l = some s') (hi : I s) :
    Always step P s ls ↔ P s ∧ Along step C s ls := by
  refine always_iff_along_of_enabled hinv hstep (fun l hl s hs => ?_) hi
  obtain ⟨s', hs'⟩ := htotal l hl s
  cases hs.symm.trans hs'

/-- Exact conditions without an invariant. -/
theorem always_iff_along {P : σ → Prop} {s : σ} {ls : List ℓ}
    (hstep : ∀ l ∈ ls, ∀ s s', P s → step s l = some s' → (P s' ↔ C s l))
    (htotal : ∀ l ∈ ls, ∀ s, ∃ s', step s l = some s') :
    Always step P s ls ↔ P s ∧ Along step C s ls :=
  always_iff_along_of_invariant (I := fun _ => True) (fun _ _ _ _ _ _ => trivial)
    (fun l hl s s' _ => hstep l hl s s') htotal trivial

/-! ### History -/

section Watch

variable {τ : Type*}

end Watch

section Collect

variable {α : Type*} {out : σ → ℓ → List α}

/-- What the steps of a run put out, in their order. -/
def collect (step : σ → ℓ → Option σ) (out : σ → ℓ → List α) : σ → List ℓ → List α
  | _, [] => []
  | s, l :: ls =>
      match step s l with
      | some s' => out s l ++ collect step out s' ls
      | none => []

theorem collect_cons {s s' : σ} {l : ℓ} (h : step s l = some s') (ls : List ℓ) :
    collect step out s (l :: ls) = out s l ++ collect step out s' ls := by
  rw [collect, h]

end Collect

end Lts
