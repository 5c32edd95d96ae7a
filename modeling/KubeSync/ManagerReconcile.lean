import KubeSync.ManagerController

/-! # What a reconcile of a Manager does

`reconcile_cases` is the inversion of a reconcile: it stops before it has changed anything, or it
passes its check for other Managers (`Passes`) and makes its calls.  The calls are made in order up
to the first one that fails and is not ignored; `execCalls_some`, `execCalls_of_ne` and
`execCalls_of_made` say what they leave in the cluster, and `reconcile_managers` what a reconcile
does to the Managers: nothing, or it writes the phase of its own (`Completes`). -/

namespace KubeSync.ManagerController

open Versioned (Store)

variable {r : Reconciler} {s s' : State} {req : String} {env : Env}

/-- The reconcile of `req` read the copy `m` as version `n`, passed the check for other Managers and
built `b`. -/
structure Passes (r : Reconciler) (s : State) (req : String) (env : Env) (n : ℕ) (m : Manager)
    (b : Reconciler.Built) : Prop where
  get : env.fails .get = false
  seen : s.managers.seen env.lag req = some (n, m)
  list : env.fails .list = false
  first : ∀ a, firstListed s env req = some a → a = req
  build : r.build req m = .ok b

theorem reconcile_of_passes {n : ℕ} {m : Manager} {b : Reconciler.Built}
    (h : Passes r s req env n m b) : reconcile r s req env = finish s req n b env := by
  have hfirst : (firstListed s env req).any (fun a => a ≠ req) = false := by
    cases hf : firstListed s env req with
    | none => rfl
    | some a => simp [h.first a hf]
  unfold reconcile
  simp only [h.get, h.seen, h.list, hfirst, h.build, Bool.false_eq_true, if_false]

theorem reconcile_cases (r : Reconciler) (s : State) (req : String) (env : Env) :
    ((∀ n m b, ¬ Passes r s req env n m b) ∧ (reconcile r s req env).1 = s) ∨
      ∃ n m b, Passes r s req env n m b := by
  by_cases hp : ∃ n m b, Passes r s req env n m b
  · exact .inr hp
  · refine .inl ⟨fun n m b h => hp ⟨n, m, b, h⟩, ?_⟩
    unfold reconcile
    split
    · rfl
    · rename_i hget
      split
      · rfl
      · rename_i n m hseen
        split
        · rfl
        · rename_i hlist
          split
          · rfl
          · rename_i hfirst
            split
            · rfl
            · rename_i b hb
              refine absurd ⟨n, m, b, ?_⟩ hp
              refine ⟨by simpa using hget, hseen, by simpa using hlist, fun a ha => ?_, hb⟩
              rw [ha] at hfirst
              simpa using hfirst

/-- The calls go through exactly when only ignored ones fail. -/
theorem execCalls_ok {c : Cluster} {calls : List Call} :
    (execCalls env c calls).2 = true ↔
      ∀ k ∈ calls, env.fails k.call = true → k.ignored = true := by
  induction calls generalizing c with
  | nil => simp [execCalls]
  | cons k calls ih =>
      unfold execCalls
      by_cases hf : env.fails k.call = true
      · by_cases hi : k.ignored = true
        · simp [hf, hi, ih]
        · simp [hf, hi]
      · simp [hf, ih]

/-- An object that is there after the calls was there before, or a call that was made applied
it. -/
theorem execCalls_some {c : Cluster} {calls : List Call} {key : Key} {o : Object}
    (h : (execCalls env c calls).1 key = some o) :
    c key = some o ∨ ∃ k ∈ calls, k.key = key ∧ k.value = some o ∧ env.fails k.call = false := by
  induction calls generalizing c with
  | nil => exact .inl h
  | cons k calls ih =>
      have hrest : ∀ {c}, (execCalls env c calls).1 key = some o →
          c key = some o ∨ ∃ k' ∈ k :: calls, k'.key = key ∧ k'.value = some o ∧
            env.fails k'.call = false := fun h =>
        (ih h).imp_right fun ⟨k', hk', hkey⟩ => ⟨k', List.mem_cons_of_mem _ hk', hkey⟩
      unfold execCalls at h
      split at h
      · split at h
        · exact hrest h
        · exact .inl h
      · rename_i hf
        rcases hrest h with hc | hmade
        · by_cases hk : key = k.key
          · rw [hk, Function.update_self] at hc
            exact .inr ⟨k, List.mem_cons_self, hk.symm, hc, by simpa using hf⟩
          · rw [Function.update_of_ne hk] at hc
            exact .inl hc
        · exact .inr hmade

/-- Keys that no call is about keep their objects. -/
theorem execCalls_of_ne {c : Cluster} {calls : List Call} {key : Key}
    (h : ∀ k ∈ calls, k.key ≠ key) : (execCalls env c calls).1 key = c key := by
  induction calls generalizing c with
  | nil => rfl
  | cons k calls ih =>
      have hk : key ≠ k.key := (h k List.mem_cons_self).symm
      have ih' := fun c => @ih c fun j hj => h j (List.mem_cons_of_mem _ hj)
      unfold execCalls
      split
      · split
        · exact ih' c
        · rfl
      · rw [ih', Function.update_of_ne hk]

/-- A call that is made, and that no later call is about, has its effect. -/
theorem execCalls_of_made {c : Cluster} {k : Call} (pre post : List Call)
    (hpre : ∀ j ∈ pre, env.fails j.call = true → j.ignored = true)
    (hk : env.fails k.call = false) (hpost : ∀ j ∈ post, j.key ≠ k.key) :
    (execCalls env c (pre ++ k :: post)).1 k.key = k.value := by
  induction pre generalizing c with
  | nil =>
      rw [List.nil_append, execCalls, hk, if_neg Bool.false_ne_true, execCalls_of_ne hpost,
        Function.update_self]
  | cons j pre ih =>
      have ih' := fun c => @ih c fun i hi => hpre i (List.mem_cons_of_mem _ hi)
      rw [List.cons_append, execCalls]
      split
      · rename_i hf
        rw [if_pos (hpre j List.mem_cons_self hf)]
        exact ih' c
      · exact ih' _

/-- Nothing is done behind a call that fails. -/
theorem execCalls_append_of_stop {c : Cluster} {pre : List Call} (post : List Call)
    (h : ∃ j ∈ pre, env.fails j.call = true ∧ j.ignored = false) :
    execCalls env c (pre ++ post) = execCalls env c pre := by
  induction pre generalizing c with
  | nil => simp at h
  | cons k pre ih =>
      rw [List.cons_append, execCalls, execCalls]
      by_cases hk : env.fails k.call = true ∧ k.ignored = false
      · simp [hk.1, hk.2]
      · obtain ⟨j, hj, hstop⟩ := h
        rcases List.mem_cons.mp hj with rfl | hj
        · exact absurd hstop hk
        · simp only [ih ⟨j, hj, hstop⟩]

theorem Passes.unique {n n' : ℕ} {m m' : Manager} {b b' : Reconciler.Built}
    (h : Passes r s req env n m b) (h' : Passes r s req env n' m' b') :
    n = n' ∧ m = m' ∧ b = b' := by
  have hseen := h.seen
  rw [h'.seen] at hseen
  cases hseen
  have hb := h.build
  rw [h'.build] at hb
  cases hb
  exact ⟨rfl, rfl, rfl⟩

/-- The reconcile goes through to its end: it has a workload to deploy, no call fails but possibly
the deletion of the other kind, and the version it read is current. -/
structure Completes (r : Reconciler) (s : State) (req : String) (env : Env) (n : ℕ) (m : Manager)
    (b : Reconciler.Built) : Prop extends Passes r s req env n m b where
  app : b.app.isSome = true
  calls : ∀ c, c ≠ .deleteOther → env.fails c = false
  current : s.managers.current req = some (n, m)

theorem calls_ignored {b : Reconciler.Built} {k : Call} (h : k ∈ b.calls req) :
    k.call ≠ .status ∧ (k.ignored = true ↔ k.call = .deleteOther) := by
  unfold Reconciler.Built.calls Reconciler.Built.access at h
  cases happ : b.app with
  | none =>
      rw [happ] at h
      simp only [List.append_nil, List.mem_cons, List.not_mem_nil, or_false] at h
      rcases h with rfl | rfl | rfl <;> simp [applyCall]
  | some app =>
      rw [happ] at h
      simp only [List.cons_append, List.nil_append, List.mem_cons, List.not_mem_nil,
        or_false] at h
      rcases h with rfl | rfl | rfl | rfl | rfl | rfl | rfl <;> simp [applyCall]

/-- If the calls go through with a workload, then none of them fails but possibly the deletion. -/
theorem calls_of_ok {b : Reconciler.Built} (happ : b.app.isSome = true)
    (hok : ∀ k ∈ b.calls req, env.fails k.call = true → k.ignored = true) (c : ApiCall)
    (hc : c ∈ [ApiCall.serviceAccount, .role, .roleBinding, .app, .service, .ingress]) :
    env.fails c = false := by
  obtain ⟨app, happ⟩ := Option.isSome_iff_exists.mp happ
  have hmem : ∃ k ∈ b.calls req, k.call = c ∧ k.ignored = false := by
    unfold Reconciler.Built.calls Reconciler.Built.access
    rw [happ]
    simp only [List.mem_cons, List.not_mem_nil, or_false] at hc
    rcases hc with rfl | rfl | rfl | rfl | rfl | rfl <;> simp [applyCall]
  obtain ⟨k, hk, rfl, hi⟩ := hmem
  by_contra hf
  have := hok k hk (by simpa using hf)
  rw [hi] at this
  cases this

theorem updatePhase_cases (s : State) (req : String) (n : ℕ) (phase : DeployPhase) :
    (∃ m, s.managers.current req = some (n, m) ∧
        s.updatePhase req n phase = some (s.write req { m with phase })) ∨
      (∀ m, s.managers.current req ≠ some (n, m)) ∧ s.updatePhase req n phase = none := by
  unfold State.updatePhase
  cases hc : s.managers.current req with
  | none => exact .inr ⟨fun m h => (by cases h), rfl⟩
  | some c =>
      obtain ⟨k, m⟩ := c
      by_cases hk : k = n
      · subst hk
        exact .inl ⟨m, rfl, if_pos rfl⟩
      · refine .inr ⟨fun m' h => ?_, if_neg hk⟩
        cases h
        exact hk rfl

/-- **The phase is written exactly by the reconciles that complete.** -/
theorem reconcile_managers (r : Reconciler) (s : State) (req : String) (env : Env) :
    (∃ n m b, Completes r s req env n m b ∧
        (reconcile r s req env).1.managers =
          s.managers.write req { m with phase := .succeeded }) ∨
      (∀ n m b, ¬ Completes r s req env n m b) ∧
        (reconcile r s req env).1.managers = s.managers := by
  rcases reconcile_cases r s req env with ⟨hn, hs⟩ | ⟨n, m, b, hp⟩
  · exact .inr ⟨fun n m b h => hn n m b h.toPasses, by rw [hs]⟩
  · rw [reconcile_of_passes hp]
    have hno : ∀ {P : Prop}, (Completes r s req env n m b → P) → ¬ P →
        ∀ n' m' b', ¬ Completes r s req env n' m' b' := by
      intro P h hP n' m' b' h'
      obtain ⟨rfl, rfl, rfl⟩ := hp.unique h'.toPasses
      exact hP (h h')
    have hok : (execCalls env s.objects (b.calls req)).2 = true ↔ _ := execCalls_ok
    unfold finish
    generalize execCalls env s.objects (b.calls req) = x at hok
    obtain ⟨objects, ok⟩ := x
    dsimp only at hok ⊢
    split
    · rename_i hfalse
      refine .inr ⟨hno (fun h => hok.mpr fun k hk hf => ?_) (by simp [hfalse]), rfl⟩
      by_contra hi
      have hne : k.call ≠ .deleteOther := fun hd => hi ((calls_ignored hk).2.mpr hd)
      rw [h.calls k.call hne] at hf
      cases hf
    · rename_i htrue
      have hcalls := hok.mp (by simpa using htrue)
      split
      · rename_i hnone
        exact .inr ⟨hno (fun h => h.app) (by simpa using hnone), rfl⟩
      · rename_i happ
        have happ' : b.app.isSome = true := by simpa [Option.isSome_iff_ne_none] using happ
        split
        · rename_i hst
          exact .inr ⟨hno (fun h => h.calls .status (by decide)) (by simp [hst]), rfl⟩
        · rename_i hst
          rcases updatePhase_cases { s with objects } req n .succeeded with
            ⟨m', hcur, hu⟩ | ⟨hcur, hu⟩
          · rw [hu]
            have hm : m' = m := by
              have hnew : (n, some m') ∈ s.managers.log req := Store.mem_log_of_seen hcur
              exact Option.some.inj (Store.eq_of_version hnew (Store.mem_log_of_seen hp.seen))
            subst hm
            refine .inl ⟨n, m', b, ⟨hp, happ', fun c hc => ?_, hcur⟩, rfl⟩
            cases c with
            | get => exact hp.get
            | list => exact hp.list
            | status => simpa using hst
            | deleteOther => exact absurd rfl hc
            | serviceAccount | role | roleBinding | app | service | ingress =>
                exact calls_of_ok happ' hcalls _ (by simp)
          · rw [hu]
            exact .inr ⟨hno (fun h => h.current) (hcur m), rfl⟩

end KubeSync.ManagerController
