import Mathlib.Data.Set.Basic
import KubeSync.ControllerNames

/-! # Jobs in one namespace

The cluster as it is left by any sequence of Reconcile calls for Jobs of one namespace.

* `history_labelled` is the invariant: every object that exists is one that its Job can own.
* `after_applied` and `after_deleted` say what a Reconcile leaves behind when it takes its apply
  path and its delete path.
* `isolated_iff`: reconciling one Job leaves the objects of all others alone, in every run, exactly
  when no name in use is another one with the Service prefix or, if the configuration yields a
  front ConfigMap, with its suffix. -/

namespace KubeSync.Controller

open Reconciler

variable {r : Reconciler} {job : Job} {managers ms : List String} {manager : String}

/-! ### Keys -/

theorem mem_ownKeys_bare {kind : Kind} {j k : String} (h : (kind, j) ∈ ownKeys r k) :
    j = k ∨ j = serviceName k ∨ renders r = true ∧ j = k ++ "-front" := by
  unfold ownKeys at h
  simp only [List.mem_append, List.mem_cons, List.not_mem_nil, or_false, Prod.mk.injEq] at h
  rcases h with ((⟨-, h⟩ | ⟨-, h⟩ | ⟨-, h⟩ | ⟨-, h⟩) | h) | h
  · exact .inl h
  · exact .inr (.inl h)
  · exact .inl h
  · exact .inl h
  · split at h
    · rename_i hr
      exact .inr (.inr ⟨hr, (Prod.mk.inj (List.mem_singleton.mp h)).2⟩)
    · cases h
  · split at h
    · exact .inl (Prod.mk.inj (List.mem_singleton.mp h)).2
    · cases h

/-- Objects of different Jobs have different keys. -/
theorem ownKeys_inj {key : Key} {j k : String} (hj : key ∈ ownKeys r j) (hk : key ∈ ownKeys r k) :
    j = k := by
  obtain ⟨kind, n⟩ := key
  unfold ownKeys serviceName at hj hk
  cases kind with
  | service =>
      simp at hj hk
      exact String.append_right_inj "mirror-" |>.mp (hj.symm.trans hk)
  | configMap =>
      simp at hj hk
      exact String.append_left_inj "-front" |>.mp (hj.2.symm.trans hk.2)
  | deployment | ingress | persistentVolumeClaim =>
      simp at hj hk
      exact hj.symm.trans hk
  | serviceMonitor =>
      simp at hj hk
      exact hj.2.symm.trans hk.2

/-! ### Runs -/

/-- The cluster after reconciling the Jobs `js` one after the other, from an empty cluster. -/
def history (r : Reconciler) (managers : List String) (js : List Job) : Cluster :=
  js.foldl (r.after managers) fun _ => none

/-- Every object is one of those that a Job with a name from `names` can have. -/
def Labelled (r : Reconciler) (names : Set String) (c : Cluster) : Prop :=
  ∀ key o, c key = some o → ∃ k ∈ names, Owns r k o ∧ o.key = key

theorem after_of_ok {c : Cluster} {as : List Action} (h : r.reconcile managers job = .ok as) :
    r.after managers c job = c.exec as := by
  unfold after
  rw [h]

theorem after_of_error {c : Cluster} {e : Halt} (h : r.reconcile managers job = .error e) :
    r.after managers c job = c := by
  unfold after
  rw [h]

/-- A value found after a Reconcile was there before or is one of the Job's own objects. -/
theorem after_eq_some {c : Cluster} {key : Key} {o : Object}
    (h : r.after managers c job key = some o) :
    c key = some o ∨ Owns r job.name o ∧ o.key = key := by
  cases has : r.reconcile managers job with
  | error e =>
      rw [after_of_error has] at h
      exact .inl h
  | ok as =>
      rw [after_of_ok has] at h
      rcases Edits.exec_eq_some h with hc | hm
      · exact .inl hc
      · obtain ⟨a, ha, he⟩ := List.mem_map.mp hm
        rcases reconcile_mem has ha with ⟨o', rfl, ho⟩ | ⟨kind, rfl, -⟩
        · obtain ⟨hk, hv⟩ := Prod.mk.inj he
          obtain rfl := Option.some.inj hv
          exact .inr ⟨ho, hk⟩
        · cases he

theorem after_labelled {names : Set String} {c : Cluster} (hj : job.name ∈ names)
    (hc : Labelled r names c) : Labelled r names (r.after managers c job) := by
  intro key o ho
  rcases after_eq_some ho with ho | ho
  · exact hc key o ho
  · exact ⟨job.name, hj, ho⟩

theorem foldl_labelled {names : Set String} {js : List Job} {c : Cluster}
    (hjs : ∀ j ∈ js, j.name ∈ names) (hc : Labelled r names c) :
    Labelled r names (js.foldl (r.after managers) c) := by
  induction js generalizing c with
  | nil => exact hc
  | cons j js ih =>
      refine ih (fun j' hj' => hjs j' (List.mem_cons_of_mem _ hj')) ?_
      exact after_labelled (hjs j List.mem_cons_self) hc

theorem history_labelled {names : Set String} {js : List Job} (hjs : ∀ j ∈ js, j.name ∈ names) :
    Labelled r names (history r managers js) :=
  foldl_labelled hjs fun _ _ h => by cases h

/-- A key that no call touches keeps its object. -/
theorem after_of_untouched {c : Cluster} {key : Key}
    (h : ∀ a, Touches r job.name a → a.key ≠ key) : r.after managers c job key = c key := by
  cases has : r.reconcile managers job with
  | error e => rw [after_of_error has]
  | ok as =>
      rw [after_of_ok has]
      refine Edits.exec_of_notMem fun e he => ?_
      obtain ⟨a, ha, rfl⟩ := List.mem_map.mp he
      rw [Action.edit_fst]
      exact h a (reconcile_mem has ha)

/-! ### The two paths of Reconcile -/

/-- The apply path leaves every object it applies, if no other call concerns the same kind. -/
theorem after_applied {b : Built} {c : Cluster} {o : Object} (hs : skips job = false)
    (hb : r.build job manager = .ok b) (ho : Action.apply o ∈ b.actions job)
    (hk : ∀ a ∈ b.actions job, a.key = o.key → a = .apply o) :
    r.after (manager :: ms) c job o.key = some o := by
  rw [after_of_ok (reconcile_of_build hs hb)]
  refine Edits.exec_of_mem (List.mem_map.mpr ⟨_, ho, rfl⟩) fun e he hek => ?_
  obtain ⟨a, ha, rfl⟩ := List.mem_map.mp he
  rw [Action.edit_fst] at hek
  rw [hk a ha hek]
  rfl

theorem eq_apply_of_key {b : Built} {app : Deployment} (ha : b.app = some app) {o : Object}
    (ho : Action.apply o ∈ b.actions job) (hi : o.kind ≠ .ingress) {a : Action}
    (hm : a ∈ b.actions job) (hk : a.key = o.key) : a = .apply o := by
  have hkind : a.key.1 = o.key.1 := congrArg Prod.fst hk
  unfold Built.actions Built.applies at ho hm
  rw [ha] at ho hm
  simp only [List.mem_append, List.mem_singleton, List.mem_ite_nil_left, List.mem_ite_nil_right,
    Option.mem_toList, Option.map_eq_some_iff] at ho hm
  rcases hm with (rfl | ((rfl | ⟨-, ⟨ig, -, rfl⟩ | ⟨cm, hcm, rfl⟩⟩) | rfl) | ⟨sm, hsm, rfl⟩) |
      ⟨-, rfl⟩ <;>
    rcases ho with (ho | ((ho | ⟨-, ⟨ig', -, ho⟩ | ⟨cm', hcm', ho⟩⟩) | ho) | ⟨sm', hsm', ho⟩) |
      ⟨-, ho⟩ <;>
    cases ho <;> simp_all [Action.key, Object.key, Object.kind]

/-- The delete path erases the objects with the name of the Job, except the volume. -/
theorem after_deleted {b : Built} {c : Cluster} (hs : skips job = false)
    (hb : r.build job manager = .ok b) (ha : b.app = none) {kind : Kind}
    (hk : kind ≠ .persistentVolumeClaim) :
    r.after (manager :: ms) c job (kind, job.name) = none := by
  rw [after_of_ok (reconcile_of_build hs hb)]
  have hact : b.actions job = [.apply (.persistentVolumeClaim b.pvc)] ++ deletes job ++
      if b.disableFront then [.delete .ingress job.name] else [] := by
    unfold Built.actions
    rw [ha]
  rw [hact]
  refine Edits.exec_of_mem ?_ ?_
  · cases kind <;> first | exact absurd rfl hk | simp [deletes, Action.edit]
  · intro e he hek
    obtain ⟨a, ham, rfl⟩ := List.mem_map.mp he
    cases a with
    | delete => rfl
    | apply o =>
        have ho : o = .persistentVolumeClaim b.pvc := by
          simp [deletes] at ham
          exact ham
        subst ho
        exact absurd (congrArg Prod.fst hek).symm hk

/-! ### Jobs that can be built under every configuration -/

section builds

variable (hg : r.gvk.isOk = true) (hq : r.Parses "50Gi")

/-- The spec of a Job with a worker and without a front end. -/
def workerSpec : JobSpec :=
  { config := { upstream := "rsync://up/" }
    deploy := { image := "worker", disableFront := "true" }
    volume := { size := "50Gi" } }

/-- The spec of a Job with a worker and a front end. -/
def frontSpec : JobSpec :=
  { config := { upstream := "rsync://up/" }
    deploy := { image := "worker", frontMode := "caddy" }
    volume := { size := "50Gi" } }

/-- The spec of a Job that has no container while it is disabled. -/
def idleSpec : JobSpec :=
  { deploy := { disableFront := "true", disableRsync := "true" }, volume := { size := "50Gi" } }

include hg hq in
theorem deploys_workerSpec (hspec : job.spec = workerSpec) (hs : job.status.status ≠ .disabled) :
    r.Deploys job := by
  unfold Deploys Prepared WorkerBuilds HasContainer checkRsyncFront skips workerImage
  rw [hspec]
  simp [workerSpec, hg, hq, hs, orElse, parseBool]

theorem disableFront_frontSpec (hspec : job.spec = frontSpec) :
    (r.checkRsyncFront job).disableFront = false := by
  unfold checkRsyncFront
  rw [hspec]
  simp [frontSpec, orElse, parseBool]

include hg hq in
theorem deploys_frontSpec (hr : renders r = true) (hspec : job.spec = frontSpec) :
    r.Deploys job := by
  have hc : r.getFrontConfig.isOk = true := by
    unfold renders at hr
    cases hf : r.getFrontConfig with
    | error e =>
        rw [hf] at hr
        cases hr
    | ok s => rfl
  have hd : (r.checkRsyncFront job).disableFront = false := disableFront_frontSpec hspec
  refine ⟨?_, ⟨hg, fun _ => getFrontConfig_isOk.mp hc, ?_⟩, fun _ => ?_, .inr (.inl hd)⟩
  · unfold skips
    rw [hspec]
    rfl
  · rw [hspec]
    exact ⟨hq, fun _ => hq⟩
  · unfold WorkerBuilds
    rw [hspec]
    simp [frontSpec]

include hg hq in
/-- A disabled Job with the third spec takes the delete path. -/
theorem build_idleSpec (hspec : job.spec = idleSpec) (hs : job.status.status = .disabled) :
    ∃ b, r.build job manager = .ok b ∧ b.app = none := by
  have hd : (r.checkRsyncFront job).disableFront = true ∧
      (r.checkRsyncFront job).disableRsync = true := by
    unfold checkRsyncFront
    rw [hspec]
    simp [idleSpec, parseBool]
  have hp : r.Prepared job := by
    unfold Prepared
    rw [hd.1, hspec]
    exact ⟨hg, nofun, hq, fun _ => hq⟩
  obtain ⟨b, hb⟩ := isOk_iff.mp ((build_isOk manager).mpr ⟨hp, fun h => absurd hs h⟩)
  refine ⟨b, hb, ?_⟩
  by_contra ha
  have hc := (app_isSome hb).mp (Option.isSome_iff_ne_none.mpr ha)
  unfold HasContainer at hc
  rw [hd.1, hd.2] at hc
  simp [hs] at hc

end builds

/-! ### Isolation -/

/-- In every run over Jobs with names from `names`, Reconcile of one of them leaves every object
that is labelled with another one as it is. -/
def Isolated (r : Reconciler) (managers : List String) (names : Set String) : Prop :=
  ∀ js : List Job, (∀ j ∈ js, j.name ∈ names) → ∀ job : Job, job.name ∈ names →
    ∀ key o, history r managers js key = some o → jobOf o ≠ some job.name →
      r.after managers (history r managers js) job key = some o

theorem isolated_of_names {names : Set String}
    (h : ∀ j ∈ names, ∀ k ∈ names, j ≠ serviceName k ∧ (renders r = true → j ≠ k ++ "-front")) :
    Isolated r managers names := by
  intro js hjs job hjob key o ho hne
  obtain ⟨k, hk, ⟨hlabel, hkey⟩, rfl⟩ := history_labelled hjs key o ho
  have hjk : job.name ≠ k := fun hjk => hne (hlabel.trans (congrArg some hjk.symm))
  rw [after_of_untouched, ho]
  rintro a (⟨o', rfl, -, hkey'⟩ | ⟨kind, rfl, -⟩) ha
  · have ha' : o'.key = o.key := ha
    rw [ha'] at hkey'
    exact hjk (ownKeys_inj hkey' hkey)
  · have ha' : (kind, job.name) = o.key := ha
    rw [← ha'] at hkey
    rcases mem_ownKeys_bare hkey with hb | hb | ⟨hr, hb⟩
    · exact hjk hb
    · exact (h job.name hjob k hk).1 hb
    · exact (h job.name hjob k hk).2 hr hb

section names

variable {names : Set String} (hg : r.gvk.isOk = true) (hq : r.Parses "50Gi")

include hg hq in
/-- An object whose key is a kind with the name of another Job does not survive that Job's delete
path. -/
theorem not_isolated_of_key {o : Object} {kind : Kind} {j : String} (hjob : job.name ∈ names)
    (hj : j ∈ names) (hjk : job.name ≠ j)
    (ho : r.after (manager :: ms) (fun _ => none) job o.key = some o)
    (hl : jobOf o = some job.name) (hk : o.key = (kind, j))
    (hkind : kind ≠ .persistentVolumeClaim) : ¬Isolated r (manager :: ms) names := by
  intro h
  have hjs : ∀ j' ∈ [job], j'.name ∈ names := by
    intro j' hj'
    rw [List.mem_singleton.mp hj']
    exact hjob
  have hne : jobOf o ≠ some j := by
    rw [hl]
    exact fun he => hjk (Option.some.inj he)
  obtain ⟨b, hb, ha⟩ : ∃ b,
      r.build { name := j, spec := idleSpec, status := { status := .disabled } } manager = .ok b ∧
        b.app = none := build_idleSpec hg hq rfl rfl
  have hkept := h [job] hjs { name := j, spec := idleSpec, status := { status := .disabled } } hj
    o.key o ho hne
  rw [hk, after_deleted rfl hb ha hkind] at hkept
  cases hkept

include hg hq in
/-- **Isolation of Jobs.** -/
theorem isolated_iff :
    Isolated r (manager :: ms) names ↔
      ∀ j ∈ names, ∀ k ∈ names, j ≠ serviceName k ∧ (renders r = true → j ≠ k ++ "-front") := by
  refine ⟨fun h j hj k hk => ⟨?_, ?_⟩, isolated_of_names⟩
  · rintro rfl
    have hdep : r.Deploys { name := k, spec := workerSpec } :=
      deploys_workerSpec hg hq rfl (by simp)
    obtain ⟨-, b, app, hb, ha⟩ := (deploys_iff manager).mp hdep
    have hm : Action.apply (.service b.svc) ∈ b.actions { name := k, spec := workerSpec } := by
      unfold Built.actions Built.applies
      simp [ha]
    have ho := desiredService_owns (build_eq_ok.mp hb).2.2.2.2.1
    have hkey : (Object.service b.svc).key = (.service, serviceName k) :=
      Prod.ext rfl (mem_ownKeys_service ho.2)
    exact not_isolated_of_key hg hq hk hj (serviceName_ne k).symm
      (after_applied rfl hb hm fun a => eq_apply_of_key ha hm (by simp [Object.kind])) ho.1 hkey
      (by decide) h
  · rintro hr rfl
    have hdep : r.Deploys { name := k, spec := frontSpec } :=
      deploys_frontSpec hg hq hr rfl
    obtain ⟨-, b, app, hb, ha⟩ := (deploys_iff manager).mp hdep
    have hd : b.disableFront = false :=
      (build_eq_ok.mp hb).1.trans (disableFront_frontSpec rfl)
    obtain ⟨cm, hcm, hc⟩ := frontCM_of_renders hr hb hd
    have hm : Action.apply (.configMap cm) ∈ b.actions { name := k, spec := frontSpec } := by
      unfold Built.actions Built.applies
      simp [ha, hd, hcm]
    have ho := desiredFrontConfigmap_owns hc
    have hkey : (Object.configMap cm).key = (.configMap, k ++ "-front") :=
      Prod.ext rfl (mem_ownKeys_configMap ho.2)
    exact not_isolated_of_key hg hq hk hj (ne_append (by decide))
      (after_applied rfl hb hm fun a => eq_apply_of_key ha hm (by simp [Object.kind])) ho.1 hkey
      (by decide) h

end names

theorem isolated_debian_ubuntu :
    Isolated plainReconciler ["manager"] {"debian", "ubuntu"} := by
  refine (isolated_iff (by decide) (by decide)).mpr ?_
  rintro j (rfl | rfl) k (rfl | rfl) <;> decide

/-- Disabling the job `mirror-debian` deletes the Service of the job `debian`. -/
theorem disabled_job_deletes_service :
    ∃ o, history plainReconciler ["manager"] [mirrorOf "debian"] (.service, "mirror-debian") =
        some o ∧
      jobOf o = some "debian" ∧
      plainReconciler.after ["manager"] (history plainReconciler ["manager"] [mirrorOf "debian"])
        { mirrorOf "mirror-debian" with status := { status := .disabled } }
        (.service, "mirror-debian") = none :=
  ⟨_, rfl, rfl, rfl⟩

end KubeSync.Controller
