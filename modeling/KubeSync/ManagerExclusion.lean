import KubeSync.Lts
import KubeSync.ManagerReconcile

/-! # One active Manager for a namespace

`Reconcile` looks for another active Manager before it deploys anything and writes its own phase
last.  `OneActive` says that at most one Manager has the phase Succeeded, and `always_oneActive_iff`
gives the exact condition on a run: a reconcile that completes saw every other active Manager in its
list. -/

namespace KubeSync.ManagerController

open Versioned (Store)

variable {r : Reconciler} {s s' : State} {req : String} {env : Env}

/-- The Manager `a` has the phase Succeeded. -/
def Active (s : State) (a : String) : Prop :=
  ∃ m, s.managers.value a = some m ∧ m.phase = .succeeded

theorem active_of_seen {a : String} {n : ℕ} {m : Manager}
    (h : s.managers.seen 0 a = some (n, m)) (hp : m.phase = .succeeded) : Active s a :=
  ⟨m, by rw [Store.value, Store.current, h]; rfl, hp⟩

def OneActive (s : State) : Prop := ∀ a b, Active s a → Active s b → a = b

theorem OneActive.mono (h : OneActive s) (hm : ∀ a, Active s' a → Active s a) : OneActive s' :=
  fun a b ha hb => h a b (hm a ha) (hm b hb)

theorem active_congr (h : s'.managers = s.managers) (a : String) : Active s' a ↔ Active s a := by
  unfold Active
  rw [h]

/-- A write that sets the phase of `req` to Succeeded adds `req` to the active ones. -/
theorem active_of_write {m : Manager} (hm : m.phase = .succeeded)
    (h : s'.managers = s.managers.write req m) (a : String) :
    Active s' a ↔ a = req ∨ Active s a := by
  unfold Active
  rw [h]
  by_cases ha : a = req
  · subst ha
    simp [hm]
  · simp [s.managers.value_write_of_ne m ha, ha]

/-- The condition on a step: a reconcile that completes has every other active Manager in its
list. -/
def ShowsActive (r : Reconciler) (s : State) : Label → Prop
  | .reconcile req env =>
      (∃ n m b, Completes r s req env n m b) → ∀ a, a ≠ req → Active s a → a ∈ listed s env req
  | _ => True

theorem mem_listed {a : String} : a ∈ listed s env req ↔
    a ∈ s.names ∧ ∃ n m, s.managers.seen (env.lagOf req a) a = some (n, m) ∧
      m.phase = .succeeded := by
  unfold listed
  rw [List.mem_filter, Option.any_eq_true]
  constructor
  · rintro ⟨hn, ⟨n, m⟩, hs, hp⟩
    exact ⟨hn, n, m, hs, of_decide_eq_true hp⟩
  · rintro ⟨hn, n, m, hs, hp⟩
    exact ⟨hn, (n, m), hs, decide_eq_true hp⟩

theorem firstListed_of_mem {a : String} (h : a ∈ listed s env req) :
    ∃ b, firstListed s env req = some b ∧ b ∈ listed s env req := by
  unfold firstListed
  have hlen : 0 < (listed s env req).length := List.length_pos_of_mem h
  have hlt := Nat.mod_lt env.order hlen
  refine ⟨(listed s env req)[env.order % (listed s env req).length], ?_, List.getElem_mem hlt⟩
  exact List.getElem?_eq_getElem hlt

theorem active_of_apply {name ns uid : String} {spec : ManagerSpec}
    (h : step r s (.apply name ns uid spec) = some s') {a : String} (ha : Active s' a) :
    Active s a := by
  dsimp only [step] at h
  obtain ⟨m, hm, hp⟩ := ha
  cases hv : s.managers.value name with
  | some old =>
      rw [hv] at h
      cases h
      by_cases hne : a = name
      · subst hne
        rw [State.write, Store.value_write_self] at hm
        cases hm
        exact ⟨old, hv, hp⟩
      · rw [State.write, s.managers.value_write_of_ne _ hne] at hm
        exact ⟨m, hm, hp⟩
  | none =>
      rw [hv] at h
      cases h
      by_cases hne : a = name
      · subst hne
        rw [State.write, Store.value_write_self] at hm
        cases hm
        cases hp
      · rw [State.write, s.managers.value_write_of_ne _ hne] at hm
        exact ⟨m, hm, hp⟩

theorem active_of_delete {name : String} (h : step r s (.delete name) = some s') {a : String}
    (ha : Active s' a) : Active s a := by
  dsimp only [step] at h
  cases hv : s.managers.value name with
  | none =>
      rw [hv] at h
      cases h
      exact ha
  | some old =>
      rw [hv] at h
      cases h
      obtain ⟨m, hm, hp⟩ := ha
      by_cases hne : a = name
      · subst hne
        have hgone : (s.managers.remove a).value a = none := s.managers.value_push_self a none
        cases hgone.symm.trans hm
      · rw [State.remove, s.managers.value_remove_of_ne hne] at hm
        exact ⟨m, hm, hp⟩

/-- A reconcile that completes and lists another Manager that is active was itself active. -/
theorem Completes.active {n : ℕ} {m : Manager} {b : Reconciler.Built}
    (h : Completes r s req env n m b) {a : String} (ha : a ∈ listed s env req) :
    Active s req := by
  obtain ⟨a', hfirst, ha'⟩ := firstListed_of_mem ha
  obtain rfl := h.first a' hfirst
  obtain ⟨-, k, m', hseen, hphase⟩ := mem_listed.mp ha'
  have hlag : env.lagOf a' a' = 0 := by
    unfold Env.lagOf
    rw [if_pos rfl, Store.lag_eq_zero h.seen h.current, Nat.min_zero]
  rw [hlag] at hseen
  exact active_of_seen hseen hphase

theorem step_oneActive_iff {l : Label} (h : OneActive s) (hs : step r s l = some s') :
    OneActive s' ↔ ShowsActive r s l := by
  cases l with
  | apply name ns uid spec =>
      exact iff_of_true (h.mono fun a => active_of_apply hs) trivial
  | delete name => exact iff_of_true (h.mono fun a => active_of_delete hs) trivial
  | reconcile req env =>
      obtain rfl := Option.some.inj hs
      rcases reconcile_managers r s req env with ⟨n, m, b, hc, hm⟩ | ⟨hno, hm⟩
      · have hact := active_of_write rfl hm
        constructor
        · intro h' _ a hne ha
          exact absurd (h' a req ((hact a).mpr (.inr ha)) ((hact req).mpr (.inl rfl))) hne
        · intro hshow
          have hno : ∀ a, Active s a → a = req := by
            intro a ha
            by_contra hne
            have hlist := hshow ⟨n, m, b, hc⟩ a hne ha
            exact hne (h a req ha (hc.active hlist))
          have honly : ∀ a, Active (reconcile r s req env).1 a → a = req := fun a ha =>
            ((hact a).mp ha).elim id (hno a)
          intro a a' ha ha'
          rw [honly a ha, honly a' ha']
      · refine iff_of_true (h.mono fun a => (active_congr hm a).mp) ?_
        rintro ⟨n, m, b, hc⟩
        exact absurd hc (hno n m b)

theorem step_total (r : Reconciler) (s : State) (l : Label) : ∃ s', step r s l = some s' := by
  cases l with
  | apply name ns uid spec =>
      dsimp only [step]
      cases s.managers.value name <;> exact ⟨_, rfl⟩
  | delete name =>
      dsimp only [step]
      cases s.managers.value name <;> exact ⟨_, rfl⟩
  | reconcile req env => exact ⟨_, rfl⟩

/-- **When a namespace has one active manager.**  Over every order of creations, deletions and
reconciles, with a cache that lags as it likes, at most one Manager has the phase Succeeded in
every state exactly when that was so at the start and every reconcile that completes saw, in its
list, each other Manager that was active at that moment. -/
theorem always_oneActive_iff (r : Reconciler) (s : State) (ls : List Label) :
    Lts.Always (step r) OneActive s ls ↔ OneActive s ∧ Lts.Along (step r) (ShowsActive r) s ls :=
  Lts.always_iff_along (fun _ _ _ _ h hs => step_oneActive_iff h hs)
    fun l _ s => step_total r s l

/-- A controller that knows an image for its Managers. -/
def withImage : Reconciler where
  config := {}
  managerImage := "kubesync/manager:latest"
  gvk := .ok ("mirror.redrock.team/v1beta1", "Manager")
  parseQuantity s := .ok s

/-- Two Managers, `main` and `spare`, have been created and `main` is active. -/
def mainActive : List Label :=
  [.apply "main" "mirrors" "u1" {}, .apply "spare" "mirrors" "u2" {}, .reconcile "main" {}]

/-- The cache behind `List` still has `main` as it was before its phase was written: both Managers
become active. -/
theorem stale_list_two_active : ∃ s,
    Lts.run (step withImage) State.empty
        (mainActive ++ [.reconcile "spare" { listLag := fun _ => 1 }]) = some s ∧
      Active s "main" ∧ Active s "spare" :=
  ⟨_, rfl, ⟨_, rfl, rfl⟩, _, rfl, rfl⟩

end KubeSync.ManagerController
