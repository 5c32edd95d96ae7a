import KubeSync.ControllerBuilds
import KubeSync.Manager

/-! # The names of a Job's objects

Which objects a Reconcile touches, for every Job and every configuration.

* `ownKeys r n` are the objects that a Job named `n` can have: all of them are called `n` except
  the Service `mirror-n` and the front ConfigMap `n-front`.  `reconcile_mem` says that Reconcile
  applies only objects from this list, labelled with the name of the Job, while its delete path
  uses the bare name for every kind.
* `dialsServices_iff`: the manager dials the bare name, which is no Job's own Service. -/

namespace KubeSync.Controller

open Reconciler

variable {r : Reconciler} {job : Job} {managers : List String} {manager : String}

/-- The job that an object is labelled with. -/
def jobOf (o : Object) : Option String := o.metadata.labels.lookup "app.kubernetes.io/app"

theorem lookup_getCommonLabels (n : String) :
    (getCommonLabels n).lookup "app.kubernetes.io/app" = some n := rfl

/-- The configuration yields a front ConfigMap. -/
def renders (r : Reconciler) : Bool :=
  match r.getFrontConfig with
  | .ok s => s ≠ ""
  | .error _ => false

/-- The objects that a Job named `n` can have. -/
def ownKeys (r : Reconciler) (n : String) : List Key :=
  [(.persistentVolumeClaim, n), (.service, serviceName n), (.ingress, n), (.deployment, n)] ++
    (if renders r then [(.configMap, n ++ "-front")] else []) ++
    (if r.config.enableMetric then [(.serviceMonitor, n)] else [])

/-- An object that Reconcile of a Job named `n` may apply. -/
def Owns (r : Reconciler) (n : String) (o : Object) : Prop :=
  jobOf o = some n ∧ o.key ∈ ownKeys r n

/-! ### What the builders name -/

theorem setControllerReference_ok {m m' : ObjectMeta}
    (h : r.setControllerReference job m = .ok m') : m'.name = m.name ∧ m'.labels = m.labels := by
  unfold setControllerReference at h
  split at h
  · cases h
  · cases h
    exact ⟨rfl, rfl⟩

theorem owns_of_metadata {o : Object} {name : String} {annotations : List (String × String)}
    (hm : r.setControllerReference job (metaOf job name annotations) = .ok o.metadata)
    (hk : (o.kind, name) ∈ ownKeys r job.name) : Owns r job.name o := by
  obtain ⟨hn, hl⟩ := setControllerReference_ok hm
  refine ⟨?_, ?_⟩
  · unfold jobOf
    rw [hl]
    exact lookup_getCommonLabels job.name
  · unfold Object.key
    rw [hn]
    exact hk

theorem desiredIngress_owns {ig : Ingress} (h : r.desiredIngress job = .ok ig) :
    Owns r job.name (.ingress ig) := by
  obtain ⟨m, hm, h⟩ := bind_eq_ok.mp h
  cases h
  exact owns_of_metadata hm (by simp [ownKeys, Object.kind])

theorem desiredPersistentVolumeClaim_owns {pvc : PersistentVolumeClaim}
    (h : r.desiredPersistentVolumeClaim job = .ok pvc) :
    Owns r job.name (.persistentVolumeClaim pvc) := by
  obtain ⟨storage, -, h⟩ := bind_eq_ok.mp h
  obtain ⟨m, hm, h⟩ := bind_eq_ok.mp h
  cases h
  exact owns_of_metadata hm (by simp [ownKeys, Object.kind])

theorem desiredService_owns {svc : Service} (h : r.desiredService job = .ok svc) :
    Owns r job.name (.service svc) := by
  obtain ⟨m, hm, h⟩ := bind_eq_ok.mp h
  cases h
  exact owns_of_metadata hm (by simp [ownKeys, Object.kind])

theorem desiredDeployment_owns {cm : Option ConfigMap} {app : Deployment}
    (h : r.desiredDeployment job manager cm = .ok (some app)) :
    Owns r job.name (.deployment app) := by
  obtain ⟨worker, -, h⟩ := bind_eq_ok.mp h
  unfold deploymentOf at h
  split at h
  · cases h
  · obtain ⟨m, hm, h⟩ := bind_eq_ok.mp h
    cases h
    exact owns_of_metadata hm (by simp [ownKeys, Object.kind])

theorem desiredFrontConfigmap_owns {cm : ConfigMap}
    (h : r.desiredFrontConfigmap job = .ok (some cm)) : Owns r job.name (.configMap cm) := by
  obtain ⟨s, hs, h⟩ := bind_eq_ok.mp h
  split at h
  · cases h
  · rename_i hne
    cases h
    have hr : renders r = true := by
      unfold renders
      rw [hs]
      exact decide_eq_true hne
    refine ⟨lookup_getCommonLabels job.name, ?_⟩
    show (Kind.configMap, job.name ++ "-front") ∈ _
    simp [ownKeys, hr]

theorem desiredFrontConfigmap_of_renders (hr : renders r = true) (job : Job) :
    ∃ cm, r.desiredFrontConfigmap job = .ok (some cm) := by
  unfold renders at hr
  split at hr
  · rename_i s hs
    exact ⟨_, bind_eq_ok.mpr ⟨s, hs, if_neg (of_decide_eq_true hr)⟩⟩
  · cases hr

/-! ### What Reconcile touches -/

/-- A front end that is enabled has the ConfigMap that the configuration yields. -/
theorem frontCM_of_renders {b : Built} (hr : renders r = true) (hb : r.build job manager = .ok b)
    (hd : b.disableFront = false) :
    ∃ cm, b.frontCM = some cm ∧ r.desiredFrontConfigmap job = .ok (some cm) := by
  obtain ⟨hdf, hf, -⟩ := build_eq_ok.mp hb
  obtain ⟨cm, hcm⟩ := desiredFrontConfigmap_of_renders hr job
  rcases buildFront_ok hf with ⟨hdis, -⟩ | ⟨-, ig, -, -, hc⟩
  · rw [← hdf, hd] at hdis
    cases hdis
  · exact ⟨cm, Except.ok.inj (hc.symm.trans hcm), hcm⟩

/-- The calls that Reconcile may make for a Job named `n`. -/
def Touches (r : Reconciler) (n : String) (a : Action) : Prop :=
  (∃ o, a = .apply o ∧ Owns r n o) ∨
    ∃ kind, a = .delete kind n ∧ kind ≠ .persistentVolumeClaim

theorem applies_touches {b : Built} {app : Deployment} (h : r.build job manager = .ok b)
    (ha : b.app = some app) {a : Action} (hm : a ∈ b.applies app) : Touches r job.name a := by
  obtain ⟨hd, hf, -, happ, hs, hsm⟩ := build_eq_ok.mp h
  rw [ha] at happ
  left
  unfold Built.applies at hm
  simp only [List.mem_append, List.mem_singleton] at hm
  rcases hm with ((rfl | hm) | rfl) | hm
  · exact ⟨_, rfl, desiredService_owns hs⟩
  · split at hm
    · cases hm
    · rename_i hdf
      rcases buildFront_ok hf with ⟨hdf', -⟩ | ⟨-, ig, hig, hi, hc⟩
      · exact absurd (hd.trans hdf') hdf
      · rw [hig] at hm
        rcases List.mem_append.mp hm with hm | hm
        · obtain rfl := List.mem_singleton.mp hm
          exact ⟨_, rfl, desiredIngress_owns hi⟩
        · cases hcm : b.frontCM with
          | none =>
              rw [hcm] at hm
              cases hm
          | some cm =>
              rw [hcm] at hm hc
              obtain rfl := List.mem_singleton.mp hm
              exact ⟨_, rfl, desiredFrontConfigmap_owns hc⟩
  · exact ⟨_, rfl, desiredDeployment_owns happ⟩
  · rw [hsm] at hm
    split at hm
    · rename_i hmetric
      obtain rfl := List.mem_singleton.mp hm
      refine ⟨_, rfl, lookup_getCommonLabels job.name, ?_⟩
      show (Kind.serviceMonitor, job.name) ∈ _
      simp [ownKeys, hmetric]
    · cases hm

/-- **What Reconcile touches**, whatever the Job and the configuration. -/
theorem reconcile_mem {as : List Action} (h : r.reconcile managers job = .ok as) {a : Action}
    (hm : a ∈ as) : Touches r job.name a := by
  unfold reconcile at h
  split at h
  · cases h
  · split at h
    · cases h
      cases hm
    · obtain ⟨b, hb, h⟩ := bind_eq_ok.mp h
      cases h
      unfold Built.actions at hm
      simp only [List.mem_append, List.mem_singleton] at hm
      rcases hm with (rfl | hm) | hm
      · exact .inl ⟨_, rfl, desiredPersistentVolumeClaim_owns (build_eq_ok.mp hb).2.2.1⟩
      · split at hm
        · rename_i app ha
          exact applies_touches hb ha hm
        · right
          simp only [deletes, List.mem_cons, List.not_mem_nil, or_false] at hm
          rcases hm with rfl | rfl | rfl | rfl | rfl <;> exact ⟨_, rfl, by decide⟩
      · split at hm
        · obtain rfl := List.mem_singleton.mp hm
          exact .inr ⟨_, rfl, by decide⟩
        · cases hm

theorem serviceName_ne (n : String) : serviceName n ≠ n := by
  intro h
  have hl := congrArg String.length h
  unfold serviceName at hl
  rw [String.length_append] at hl
  have hp : "mirror-".length = 7 := rfl
  omega

theorem mem_ownKeys_bareKind {kind : Kind} {n m : String} (h : (kind, m) ∈ ownKeys r n)
    (hs : kind ≠ .service) (hc : kind ≠ .configMap) : m = n := by
  cases kind with
  | service => exact absurd rfl hs
  | configMap => exact absurd rfl hc
  | serviceMonitor =>
      simp [ownKeys] at h
      exact h.2
  | deployment | ingress | persistentVolumeClaim =>
      simp [ownKeys] at h
      exact h

theorem mem_ownKeys_service {n m : String} (h : (Kind.service, m) ∈ ownKeys r n) :
    m = serviceName n := by
  simp [ownKeys] at h
  exact h

theorem ne_append {s t : String} (h : t ≠ "") : s ≠ s ++ t := by
  intro heq
  have hlist : s.toList ++ [] = s.toList ++ t.toList := by
    rw [List.append_nil, ← String.toList_append, ← heq]
  exact h (String.toList_inj.mp (List.append_cancel_left hlist).symm)

theorem mem_ownKeys_configMap {n m : String} (h : (Kind.configMap, m) ∈ ownKeys r n) :
    m = n ++ "-front" := by
  simp [ownKeys] at h
  exact h.2

/-! ### Dialling a worker -/

theorem Desires.service_name {svc : Service} (h : Desires r managers job (.service svc)) :
    svc.metadata.name = serviceName job.name := by
  obtain ⟨as, has, hm⟩ := h
  rcases reconcile_mem has hm with ⟨o, ho, -, hk⟩ | ⟨kind, hd, -⟩
  · cases ho
    exact mem_ownKeys_service hk
  · cases hd

/-- For every Job, the hosts that the manager dials are its Service, and no other Job's. -/
def DialsServices (r : Reconciler) (managers : List String) (jobs : List Job) : Prop :=
  ∀ j ∈ jobs,
    (∀ svc, Desires r managers j (.service svc) →
      (Manager.commandUrl j.name).host = svc.metadata.name ∧
        (Manager.logUrl j.name).host = svc.metadata.name) ∧
    ∀ k ∈ jobs, k.name ≠ j.name → ∀ svc, Desires r managers k (.service svc) →
      (Manager.commandUrl j.name).host ≠ svc.metadata.name ∧
        (Manager.logUrl j.name).host ≠ svc.metadata.name

theorem DialsServices.not_desires {jobs : List Job} (h : DialsServices r managers jobs)
    (hj : job ∈ jobs) (svc : Service) : ¬Desires r managers job (.service svc) := by
  intro hs
  have hhost : job.name = svc.metadata.name := ((h job hj).1 svc hs).1
  rw [hs.service_name] at hhost
  exact serviceName_ne job.name hhost.symm

/-- The manager dials the name of the Job, which is never the name of its Service. -/
theorem dialsServices_iff (r : Reconciler) (managers : List String) (jobs : List Job) :
    DialsServices r managers jobs ↔ managers = [] ∨ ∀ j ∈ jobs, ¬r.Deploys j := by
  cases managers with
  | nil =>
      have hn : ∀ j svc, ¬Desires r [] j (.service svc) := by
        rintro j svc ⟨as, has, -⟩
        cases has
      exact iff_of_true
        (fun j _ => ⟨fun svc hs => absurd hs (hn j svc), fun k _ _ svc hs => absurd hs (hn k svc)⟩)
        (.inl rfl)
  | cons manager ms =>
      constructor
      · intro h
        refine .inr fun j hj hd => ?_
        obtain ⟨svc, hs⟩ := desires_service_iff.mpr hd
        exact h.not_desires hj svc hs
      · intro h
        have hd := h.resolve_left nofun
        have hn : ∀ j ∈ jobs, ∀ svc, ¬Desires r (manager :: ms) j (.service svc) :=
          fun j hj svc hs => hd j hj (desires_service_iff.mp ⟨svc, hs⟩)
        exact fun j hj =>
          ⟨fun svc hs => absurd hs (hn j hj svc), fun k hk _ svc hs => absurd hs (hn k hk svc)⟩

/-- A reconciler with the default configuration and a worker image. -/
def plainReconciler : Reconciler :=
  { config := { workerImage := "worker" }
    gvk := .ok ("mirror.redrock.team/v1beta1", "Job")
    parseQuantity := fun s => if s = "50Gi" then .ok s else .error "quantities must match"
    compact := .ok }

def mirrorOf (name : String) : Job :=
  { name, spec := { config := { upstream := "rsync://up/" }, volume := { size := "50Gi" } } }

/-- A command for the job `mirror-debian` is sent to the worker of the job `debian`, and one for
`debian` is sent to no worker. -/
theorem command_reaches_other_job :
    (∃ svc, Desires plainReconciler ["manager"] (mirrorOf "debian") (.service svc) ∧
      (Manager.commandUrl "mirror-debian").host = svc.metadata.name ∧
      (Manager.commandUrl "debian").host ≠ svc.metadata.name) ∧
    ∃ svc, Desires plainReconciler ["manager"] (mirrorOf "mirror-debian") (.service svc) ∧
      (Manager.commandUrl "mirror-debian").host ≠ svc.metadata.name ∧
      (Manager.commandUrl "debian").host ≠ svc.metadata.name :=
  ⟨⟨_, ⟨_, rfl, .tail _ (.head _)⟩, rfl, by decide⟩,
    ⟨_, ⟨_, rfl, .tail _ (.head _)⟩, by decide, by decide⟩⟩

end KubeSync.Controller
