import KubeSync.ControllerIsolation

/-! # The cluster and the history of a Job

When the objects of a Job depend on the versions of the Job that were reconciled before the last
one.  The PersistentVolumeClaim is left out throughout: it is never deleted.

* Reconcile of the last version decides every object that it touches (`Edits.exec_congr`).  If it
  applies a Deployment, it touches everything the Job can have, apart from the front ConfigMap of
  a Job without front end (`touches_ownKeys`).
* Otherwise some object of an earlier version stays (`not_historyFree`): the last version fails or
  is skipped, or its delete path misses the Service, which has another name.
* `historyFree_iff` puts the two together. -/

namespace KubeSync.Controller

open Reconciler

variable {r : Reconciler} {job : Job} {managers ms : List String} {manager : String}

/-- `j` is a version of the Job `job`. -/
def SameJob (j job : Job) : Prop := j.name = job.name ∧ j.ns = job.ns ∧ j.uid = job.uid

/-- Whatever versions of the Job were reconciled before `job`, the same objects exist after it. -/
def HistoryFree (r : Reconciler) (managers : List String) (job : Job) : Prop :=
  ∀ js js' : List Job, (∀ j ∈ js, SameJob j job) → (∀ j ∈ js', SameJob j job) → ∀ key : Key,
    key.1 ≠ .persistentVolumeClaim →
      history r managers (js ++ [job]) key = history r managers (js' ++ [job]) key

theorem history_concat (js : List Job) :
    history r managers (js ++ [job]) = r.after managers (history r managers js) job := by
  unfold history
  rw [List.foldl_append]
  rfl

theorem exec_of_notMem {c : Cluster} {as : List Action} {key : Key}
    (h : ∀ a ∈ as, a.key ≠ key) : c.exec as key = c key := by
  refine Edits.exec_of_notMem fun e he => ?_
  obtain ⟨a, hm, rfl⟩ := List.mem_map.mp he
  rw [Action.edit_fst]
  exact h a hm

/-! ### The apply path decides everything -/

theorem touches_ownKeys {b : Built} {app : Deployment} (hb : r.build job manager = .ok b)
    (ha : b.app = some app) (hf : b.disableFront = false ∨ renders r = false) {key : Key}
    (hk : key ∈ ownKeys r job.name) (hp : key.1 ≠ .persistentVolumeClaim) :
    ∃ a ∈ b.actions job, a.key = key := by
  obtain ⟨hd, hfront, -, happ, hs, hsm⟩ := build_eq_ok.mp hb
  rw [ha] at happ
  have hin : ∀ a ∈ b.applies app, a ∈ b.actions job := by
    intro a hm
    unfold Built.actions
    simp [ha, hm]
  obtain ⟨kind, n⟩ := key
  cases kind with
  | persistentVolumeClaim => exact absurd rfl hp
  | service =>
      obtain rfl := mem_ownKeys_service hk
      refine ⟨.apply (.service b.svc), hin _ (by simp [Built.applies]), ?_⟩
      exact Prod.ext rfl (mem_ownKeys_service (desiredService_owns hs).2)
  | deployment =>
      obtain rfl := mem_ownKeys_bareKind hk (by decide) (by decide)
      refine ⟨.apply (.deployment app), hin _ (by simp [Built.applies]), ?_⟩
      exact Prod.ext rfl
        (mem_ownKeys_bareKind (desiredDeployment_owns happ).2 (by simp [Object.kind])
          (by simp [Object.kind]))
  | ingress =>
      obtain rfl := mem_ownKeys_bareKind hk (by decide) (by decide)
      rcases buildFront_ok hfront with ⟨hdis, -⟩ | ⟨hen, ig, hig, hi, -⟩
      · refine ⟨.delete .ingress job.name, ?_, rfl⟩
        unfold Built.actions
        simp [hd, hdis]
      · refine ⟨.apply (.ingress ig), hin _ (by simp [Built.applies, hd, hen, hig]), ?_⟩
        exact Prod.ext rfl
          (mem_ownKeys_bareKind (desiredIngress_owns hi).2 (by simp [Object.kind])
            (by simp [Object.kind]))
  | configMap =>
      have hr : renders r = true := by
        by_contra hr
        simp [ownKeys, hr] at hk
      obtain rfl := mem_ownKeys_configMap hk
      have hen : b.disableFront = false := hf.resolve_right (by simp [hr])
      obtain ⟨cm, hbcm, hcm⟩ := frontCM_of_renders hr hb hen
      refine ⟨.apply (.configMap cm), hin _ (by simp [Built.applies, hen, hbcm]), ?_⟩
      exact Prod.ext rfl (mem_ownKeys_configMap (desiredFrontConfigmap_owns hcm).2)
  | serviceMonitor =>
      have hm : r.config.enableMetric = true := by
        by_contra hm
        simp [ownKeys, hm] at hk
      obtain rfl := mem_ownKeys_bareKind hk (by decide) (by decide)
      refine ⟨.apply (.serviceMonitor (desiredServiceMonitor job)),
        hin _ (by simp [Built.applies, hsm, hm]), rfl⟩

theorem historyFree_of_build {b : Built} {app : Deployment} (hs : skips job = false)
    (hb : r.build job manager = .ok b) (ha : b.app = some app)
    (hf : b.disableFront = false ∨ renders r = false) : HistoryFree r (manager :: ms) job := by
  intro js js' hjs hjs' key hp
  rw [history_concat, history_concat, after_of_ok (reconcile_of_build hs hb),
    after_of_ok (reconcile_of_build hs hb)]
  by_cases ht : ∃ a ∈ b.actions job, a.key = key
  · obtain ⟨a, hm, rfl⟩ := ht
    exact Edits.exec_congr ⟨a.edit, List.mem_map.mpr ⟨a, hm, rfl⟩, Action.edit_fst a⟩
  · have hnone : ∀ js'' : List Job, (∀ j ∈ js'', SameJob j job) →
        history r (manager :: ms) js'' key = none := by
      intro js'' hsame
      by_contra hne
      obtain ⟨o, ho⟩ := Option.ne_none_iff_exists'.mp hne
      have hnames : ∀ j ∈ js'', j.name ∈ ({job.name} : Set String) := fun j hj => (hsame j hj).1
      obtain ⟨k, rfl, ⟨-, hkey⟩, rfl⟩ := history_labelled hnames key o ho
      exact ht (touches_ownKeys hb ha hf hkey hp)
    have hout : ∀ a ∈ b.actions job, a.key ≠ key := fun a hm hk => ht ⟨a, hm, hk⟩
    rw [exec_of_notMem hout, exec_of_notMem hout, hnone js hjs, hnone js' hjs']

/-! ### What stays behind otherwise -/

/-- An object of an earlier version that Reconcile of the last one leaves alone. -/
theorem not_historyFree {j : Job} {o : Object} (hj : SameJob j job)
    (ho : r.after managers (fun _ => none) j o.key = some o)
    (hp : o.kind ≠ .persistentVolumeClaim)
    (hkeep : ∀ c, r.after managers c job o.key = c o.key) : ¬HistoryFree r managers job := by
  intro h
  have hjs : ∀ j' ∈ [j], SameJob j' job := by
    intro j' hj'
    rw [List.mem_singleton.mp hj']
    exact hj
  have heq := h [] [j] (by intro j' hj'; cases hj') hjs o.key hp
  rw [history_concat, history_concat, hkeep, hkeep] at heq
  have ho' : history r managers [j] o.key = some o := ho
  rw [ho'] at heq
  cases heq

section leftovers

variable (hg : r.gvk.isOk = true) (hq : r.Parses "50Gi")

include hg hq in
/-- An earlier version leaves a Deployment and a Service. -/
theorem exists_workerObjects (manager : String) (ms : List String) (job : Job) :
    ∃ j svc app, SameJob j job ∧
      r.after (manager :: ms) (fun _ => none) j (Object.key (.service svc)) =
        some (.service svc) ∧
      svc.metadata.name = serviceName job.name ∧
      r.after (manager :: ms) (fun _ => none) j (Object.key (.deployment app)) =
        some (.deployment app) := by
  have hdep : r.Deploys { job with spec := workerSpec, status := {} } :=
    deploys_workerSpec hg hq rfl (by simp)
  obtain ⟨-, b, app, hb, ha⟩ := (deploys_iff manager).mp hdep
  refine ⟨{ job with spec := workerSpec, status := {} }, b.svc, app, ⟨rfl, rfl, rfl⟩, ?_,
    mem_ownKeys_service (desiredService_owns (build_eq_ok.mp hb).2.2.2.2.1).2, ?_⟩
  · have hm : Action.apply (.service b.svc) ∈
        b.actions { job with spec := workerSpec, status := {} } := by
      unfold Built.actions Built.applies
      simp [ha]
    exact after_applied rfl hb hm fun a => eq_apply_of_key ha hm (by simp [Object.kind])
  · have hm : Action.apply (.deployment app) ∈
        b.actions { job with spec := workerSpec, status := {} } := by
      unfold Built.actions Built.applies
      simp [ha]
    exact after_applied rfl hb hm fun a => eq_apply_of_key ha hm (by simp [Object.kind])

include hg hq in
/-- If the configuration renders a front ConfigMap, an earlier version leaves one. -/
theorem exists_frontConfigmap (hr : renders r = true) (manager : String) (ms : List String)
    (job : Job) :
    ∃ j cm, SameJob j job ∧
      r.after (manager :: ms) (fun _ => none) j (Object.key (.configMap cm)) =
        some (.configMap cm) := by
  have hdep : r.Deploys { job with spec := frontSpec, status := {} } :=
    deploys_frontSpec hg hq hr rfl
  obtain ⟨-, b, app, hb, ha⟩ := (deploys_iff manager).mp hdep
  have hd : b.disableFront = false := (build_eq_ok.mp hb).1.trans (disableFront_frontSpec rfl)
  obtain ⟨cm, hcm, -⟩ := frontCM_of_renders hr hb hd
  have hm : Action.apply (.configMap cm) ∈
      b.actions { job with spec := frontSpec, status := {} } := by
    unfold Built.actions Built.applies
    simp [ha, hd, hcm]
  exact ⟨{ job with spec := frontSpec, status := {} }, cm, ⟨rfl, rfl, rfl⟩,
    after_applied rfl hb hm fun a => eq_apply_of_key ha hm (by simp [Object.kind])⟩

/-- Without a front end the apply path concerns no ConfigMap. -/
theorem key_ne_configMap {b : Built} {app : Deployment} (ha : b.app = some app)
    (hd : b.disableFront = true) (n : String) : ∀ a ∈ b.actions job, a.key ≠ (.configMap, n) := by
  intro a hm hk
  have hkind : a.key.1 = .configMap := congrArg Prod.fst hk
  unfold Built.actions Built.applies at hm
  rw [ha, hd] at hm
  simp only [List.mem_append, List.mem_singleton, if_true, List.append_nil, Option.mem_toList,
    Option.map_eq_some_iff] at hm
  rcases hm with (rfl | (rfl | rfl) | ⟨sm, -, rfl⟩) | rfl <;> cases hkind

/-- The delete path concerns the Service with the name of the Job only. -/
theorem key_ne_service {b : Built} (ha : b.app = none) :
    ∀ a ∈ b.actions job, a.key ≠ (.service, serviceName job.name) := by
  intro a hm hk
  unfold Built.actions at hm
  rw [ha] at hm
  simp only [deletes, List.mem_append, List.mem_cons, List.not_mem_nil, or_false,
    List.mem_ite_nil_right] at hm
  rcases hm with (rfl | rfl | rfl | rfl | rfl | rfl) | ⟨-, rfl⟩
  case inl.inr.inr.inl => exact serviceName_ne job.name (Prod.mk.inj hk).2.symm
  all_goals cases congrArg Prod.fst hk

include hg hq in
/-- A last version that is not deployed leaves an object of an earlier one. -/
theorem not_historyFree_of_not_deploys (hnd : ¬r.Deploys job) :
    ¬HistoryFree r (manager :: ms) job := by
  obtain ⟨j, svc, app, hj, hsvc, hname, hdep⟩ := exists_workerObjects hg hq manager ms job
  cases hrec : r.reconcile (manager :: ms) job with
  | error e =>
      exact not_historyFree hj hdep (by simp [Object.kind]) fun c => by rw [after_of_error hrec]
  | ok as =>
      have hkey : Object.key (.service svc) = (.service, serviceName job.name) :=
        Prod.ext rfl hname
      refine not_historyFree hj hsvc (by simp [Object.kind]) fun c => ?_
      rw [after_of_ok hrec, hkey]
      rw [reconcile_cons] at hrec
      split at hrec
      · cases hrec
        rfl
      · rename_i hs
        obtain ⟨b, hb, h⟩ := bind_eq_ok.mp hrec
        cases h
        refine exec_of_notMem (key_ne_service ?_)
        by_contra ha
        obtain ⟨app', ha⟩ := Option.ne_none_iff_exists'.mp ha
        exact hnd ((deploys_iff manager).mpr ⟨Bool.not_eq_true _ ▸ hs, b, app', hb, ha⟩)

include hg hq in
/-- **Independence of the history.**  The objects of a Job are determined by its last version
exactly when Reconcile deploys that version, with its front end or under a configuration without a
front ConfigMap. -/
theorem historyFree_iff :
    HistoryFree r (manager :: ms) job ↔
      r.Deploys job ∧ ((r.checkRsyncFront job).disableFront = false ∨ renders r = false) := by
  constructor
  · intro h
    have hdep : r.Deploys job := by
      by_contra hnd
      exact not_historyFree_of_not_deploys hg hq hnd h
    refine ⟨hdep, ?_⟩
    obtain ⟨hs, b, app, hb, ha⟩ := (deploys_iff manager).mp hdep
    by_contra hf
    rw [not_or, Bool.not_eq_false, Bool.not_eq_false] at hf
    obtain ⟨j, cm, hj, hcm⟩ := exists_frontConfigmap hg hq hf.2 manager ms job
    refine not_historyFree hj hcm (by simp [Object.kind]) (fun c => ?_) h
    rw [after_of_ok (reconcile_of_build hs hb)]
    exact exec_of_notMem (key_ne_configMap ha ((build_eq_ok.mp hb).1.trans hf.1) _)
  · rintro ⟨hdep, hf⟩
    obtain ⟨hs, b, app, hb, ha⟩ := (deploys_iff manager).mp hdep
    rw [← (build_eq_ok.mp hb).1] at hf
    exact historyFree_of_build hs hb ha hf

end leftovers

theorem historyFree_mirror : HistoryFree plainReconciler ["manager"] (mirrorOf "debian") :=
  (historyFree_iff (by decide) (by decide)).mpr ⟨by decide, .inr rfl⟩

/-- A job that was deployed and is then disabled keeps its Service; one that was disabled from the
start has none. -/
theorem disabled_job_keeps_service :
    (∃ o, history plainReconciler ["manager"]
      ([mirrorOf "debian"] ++ [{ mirrorOf "debian" with status := { status := .disabled } }])
        (.service, "mirror-debian") = some o) ∧
    history plainReconciler ["manager"]
      ([] ++ [{ mirrorOf "debian" with status := { status := .disabled } }])
        (.service, "mirror-debian") = none :=
  ⟨⟨_, rfl⟩, rfl⟩

end KubeSync.Controller
