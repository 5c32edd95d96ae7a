import KubeSync.Controller

/-! # When the builders succeed

Which Jobs `Reconcile` deploys, read off the Job, the configuration and the library functions.

* `Prepared`, `WorkerBuilds` and `HasContainer` are conditions on the texts of a Job: the first is
  about the front end and the volume, the other two about the containers of the Deployment.
* `build_isOk` says that they decide whether a build succeeds, and `app_isSome` whether it has a
  Deployment.  `deploys_iff` puts them together.
* `Desires r managers job o`: Reconcile of `job` applies the object `o`. -/

namespace KubeSync.Controller

namespace Reconciler

variable (r : Reconciler)

/-- The text is a quantity. -/
def Parses (s : String) : Prop := (r.parseQuantity s).isOk = true

/-- The builders before that of the Deployment succeed. -/
def Prepared (job : Job) : Prop :=
  r.gvk.isOk = true ∧
    ((r.checkRsyncFront job).disableFront = false → r.config.frontConfig ≠ "" →
      (r.compact r.config.frontConfig).isOk = true) ∧
    r.Parses job.spec.volume.size ∧ (job.spec.volume.size = "" → r.Parses "50Gi")

/-- The worker's container can be built: the Job has an upstream and its limits are quantities. -/
def WorkerBuilds (job : Job) : Prop :=
  job.spec.config.upstream ≠ "" ∧
    (job.spec.deploy.memoryLimit ≠ "" → r.Parses job.spec.deploy.memoryLimit) ∧
    (job.spec.deploy.cpuLimit ≠ "" → r.Parses job.spec.deploy.cpuLimit)

/-- Some container is left: a worker with an image, the front end or the rsync daemon. -/
def HasContainer (job : Job) : Prop :=
  job.status.status ≠ .disabled ∧ r.workerImage job ≠ "" ∨
    (r.checkRsyncFront job).disableFront = false ∨ (r.checkRsyncFront job).disableRsync = false

/-- Reconcile deploys the Job. -/
def Deploys (job : Job) : Prop :=
  skips job = false ∧ r.Prepared job ∧ (job.status.status ≠ .disabled → r.WorkerBuilds job) ∧
    r.HasContainer job

instance (s : String) : Decidable (r.Parses s) := inferInstanceAs (Decidable (_ = _))

instance (job : Job) : Decidable (r.Prepared job) := inferInstanceAs (Decidable (_ ∧ _))

instance (job : Job) : Decidable (r.WorkerBuilds job) := inferInstanceAs (Decidable (_ ∧ _))

instance (job : Job) : Decidable (r.HasContainer job) := inferInstanceAs (Decidable (_ ∨ _))

instance (job : Job) : Decidable (r.Deploys job) := inferInstanceAs (Decidable (_ ∧ _))

end Reconciler

open Reconciler

variable {r : Reconciler} {job : Job} {manager : String} {ms : List String}

/-! ### Success of a computation -/

theorem isOk_iff {ε α : Type} {x : Except ε α} : x.isOk = true ↔ ∃ a, x = .ok a := by
  cases x with
  | error e => exact iff_of_false nofun nofun
  | ok a => exact iff_of_true rfl ⟨a, rfl⟩

theorem isOk_bind {α β : Type} {x : Except Halt α} {f : α → Except Halt β} :
    (x >>= f).isOk = true ↔ ∃ a, x = .ok a ∧ (f a).isOk = true := by
  cases x with
  | error e => exact iff_of_false nofun nofun
  | ok a => exact ⟨fun h => ⟨a, rfl, h⟩, by rintro ⟨_, ⟨⟩, h⟩; exact h⟩

/-- A computation whose continuation succeeds on every value or on none. -/
theorem isOk_bind_of_iff {α β : Type} {x : Except Halt α} {f : α → Except Halt β} {P : Prop}
    (h : ∀ a, x = .ok a → ((f a).isOk = true ↔ P)) :
    (x >>= f).isOk = true ↔ x.isOk = true ∧ P := by
  rw [isOk_bind, isOk_iff]
  constructor
  · rintro ⟨a, ha, hf⟩
    exact ⟨⟨a, ha⟩, (h a ha).mp hf⟩
  · rintro ⟨⟨a, ha⟩, hp⟩
    exact ⟨a, ha, (h a ha).mpr hp⟩

theorem isOk_bind_pure {α β : Type} {x : Except Halt α} {g : α → β} :
    (x >>= fun a => pure (g a)).isOk = true ↔ x.isOk = true := by
  cases x <;> exact Iff.rfl

/-! ### The builders one by one -/

theorem mustParse_isOk {s : String} : (r.mustParse s).isOk = true ↔ r.Parses s := by
  unfold mustParse Parses
  cases r.parseQuantity s <;> exact Iff.rfl

theorem setControllerReference_isOk {m : ObjectMeta} :
    (r.setControllerReference job m).isOk = true ↔ r.gvk.isOk = true := by
  unfold setControllerReference
  cases r.gvk <;> exact Iff.rfl

theorem storageSize_isOk :
    (r.storageSize job).isOk = true ↔
      r.Parses job.spec.volume.size ∧ (job.spec.volume.size = "" → r.Parses "50Gi") := by
  unfold storageSize
  rw [← mustParse_isOk]
  refine isOk_bind_of_iff fun q _ => ?_
  by_cases hs : job.spec.volume.size = ""
  · rw [if_pos hs, mustParse_isOk]
    exact ⟨fun h _ => h, fun h => h hs⟩
  · rw [if_neg hs]
    exact iff_of_true rfl fun h => absurd h hs

theorem desiredPersistentVolumeClaim_isOk :
    (r.desiredPersistentVolumeClaim job).isOk = true ↔
      (r.storageSize job).isOk = true ∧ r.gvk.isOk = true :=
  isOk_bind_of_iff fun _ _ => isOk_bind_pure.trans setControllerReference_isOk

theorem desiredService_isOk : (r.desiredService job).isOk = true ↔ r.gvk.isOk = true :=
  isOk_bind_pure.trans setControllerReference_isOk

theorem desiredIngress_isOk (job : Job) :
    (r.desiredIngress job).isOk = true ↔ r.gvk.isOk = true :=
  isOk_bind_pure.trans setControllerReference_isOk

theorem getFrontConfig_isOk :
    r.getFrontConfig.isOk = true ↔
      (r.config.frontConfig ≠ "" → (r.compact r.config.frontConfig).isOk = true) := by
  unfold getFrontConfig
  by_cases hf : r.config.frontConfig = ""
  · rw [if_pos hf]
    exact iff_of_true rfl fun h => absurd hf h
  · rw [if_neg hf, imp_iff_right hf]
    cases r.compact r.config.frontConfig <;> exact Iff.rfl

theorem desiredFrontConfigmap_isOk :
    (r.desiredFrontConfigmap job).isOk = true ↔ r.getFrontConfig.isOk = true := by
  unfold desiredFrontConfigmap
  rw [isOk_bind_of_iff (P := True), and_true]
  intro s _
  split <;> exact iff_of_true rfl trivial

theorem buildFront_isOk :
    (r.buildFront job).isOk = true ↔
      ((r.checkRsyncFront job).disableFront = false →
        r.gvk.isOk = true ∧ r.getFrontConfig.isOk = true) := by
  unfold buildFront
  split
  · rename_i hd
    rw [hd]
    exact iff_of_true rfl nofun
  · rename_i hd
    rw [imp_iff_right (Bool.not_eq_true _ ▸ hd), ← desiredIngress_isOk job]
    exact isOk_bind_of_iff fun _ _ => isOk_bind_pure.trans desiredFrontConfigmap_isOk

theorem limit_isOk (resource text : String) :
    (r.limit resource text).isOk = true ↔ (text ≠ "" → r.Parses text) := by
  unfold limit
  split
  · rename_i ht
    rw [imp_iff_right ht]
    exact isOk_bind_pure.trans mustParse_isOk
  · rename_i ht
    exact iff_of_true rfl fun h => absurd h ht

theorem workerLimits_isOk :
    (r.workerLimits job).isOk = true ↔
      (job.spec.deploy.memoryLimit ≠ "" → r.Parses job.spec.deploy.memoryLimit) ∧
        (job.spec.deploy.cpuLimit ≠ "" → r.Parses job.spec.deploy.cpuLimit) := by
  unfold workerLimits
  split
  · rw [← limit_isOk "limits.memory", ← limit_isOk "limits.cpu"]
    exact isOk_bind_of_iff fun _ _ => isOk_bind_pure
  · rename_i hn
    rw [not_or] at hn
    exact iff_of_true rfl ⟨fun h => absurd h hn.1, fun h => absurd h hn.2⟩

theorem workerContainer_isOk (manager : String) :
    (r.workerContainer job manager).isOk = true ↔ r.WorkerBuilds job := by
  unfold workerContainer WorkerBuilds
  split
  · rename_i hu
    exact iff_of_false nofun fun h => h.1 hu
  · rename_i hu
    rw [and_iff_right hu, ← workerLimits_isOk, isOk_bind_of_iff (P := True), and_true]
    intro limits _
    split <;> exact iff_of_true rfl trivial

theorem workerContainer_eq_nil {cs : List Container} (h : r.workerContainer job manager = .ok cs) :
    cs = [] ↔ r.workerImage job = "" := by
  unfold workerContainer at h
  split at h
  · cases h
  · obtain ⟨limits, -, h⟩ := bind_eq_ok.mp h
    split at h <;> cases h
    · rename_i hi
      exact iff_of_true rfl hi
    · rename_i hi
      exact iff_of_false nofun hi

theorem worker_isOk (manager : String) :
    (r.worker job manager).isOk = true ↔ (job.status.status ≠ .disabled → r.WorkerBuilds job) := by
  unfold worker
  split
  · rename_i hs
    rw [imp_iff_right hs]
    exact workerContainer_isOk manager
  · rename_i hs
    exact iff_of_true rfl fun h => absurd h hs

theorem worker_ne_nil {cs : List Container} (h : r.worker job manager = .ok cs) :
    cs ≠ [] ↔ job.status.status ≠ .disabled ∧ r.workerImage job ≠ "" := by
  unfold worker at h
  split at h
  · rename_i hs
    rw [and_iff_right hs, ne_eq, workerContainer_eq_nil h]
  · rename_i hs
    cases h
    exact iff_of_false (· rfl) fun h => hs h.1

theorem servers_ne_nil (cm : Option ConfigMap) :
    r.servers job cm ≠ [] ↔ (r.checkRsyncFront job).disableFront = false ∨
      (r.checkRsyncFront job).disableRsync = false := by
  unfold servers
  cases (r.checkRsyncFront job).disableFront <;> cases (r.checkRsyncFront job).disableRsync <;>
    simp

theorem deploymentOf_isOk (hg : r.gvk.isOk = true) {cm : Option ConfigMap} {cs : List Container} :
    (r.deploymentOf job cm cs).isOk = true := by
  unfold deploymentOf
  split
  · rfl
  · exact (isOk_bind_pure.trans setControllerReference_isOk).mpr hg

theorem deploymentOf_isSome {cm : Option ConfigMap} {cs : List Container} {app : Option Deployment}
    (h : r.deploymentOf job cm cs = .ok app) : app.isSome = true ↔ cs ≠ [] := by
  unfold deploymentOf at h
  split at h
  · rename_i hcs
    cases h
    exact iff_of_false nofun (· (List.isEmpty_iff.mp hcs))
  · rename_i hcs
    obtain ⟨m, -, h⟩ := bind_eq_ok.mp h
    cases h
    exact iff_of_true rfl fun hn => hcs (List.isEmpty_iff.mpr hn)

theorem desiredDeployment_isOk (hg : r.gvk.isOk = true) (cm : Option ConfigMap) :
    (r.desiredDeployment job manager cm).isOk = true ↔ (r.worker job manager).isOk = true := by
  unfold desiredDeployment
  rw [isOk_bind_of_iff (P := True), and_true]
  exact fun cs _ => iff_of_true (deploymentOf_isOk hg) trivial

theorem desiredDeployment_isSome {cm : Option ConfigMap} {app : Option Deployment}
    (h : r.desiredDeployment job manager cm = .ok app) :
    app.isSome = true ↔ r.HasContainer job := by
  obtain ⟨cs, hw, h⟩ := bind_eq_ok.mp h
  unfold HasContainer
  rw [deploymentOf_isSome h, ne_eq, List.append_eq_nil_iff, not_and_or, ← worker_ne_nil hw,
    ← servers_ne_nil cm]

/-! ### The whole build -/

/-- The parts of a successful build. -/
theorem build_eq_ok {b : Built} :
    r.build job manager = .ok b ↔
      b.disableFront = (r.checkRsyncFront job).disableFront ∧
        r.buildFront job = .ok (b.ig, b.frontCM) ∧
        r.desiredPersistentVolumeClaim job = .ok b.pvc ∧
        r.desiredDeployment job manager b.frontCM = .ok b.app ∧
        r.desiredService job = .ok b.svc ∧
        b.sm = if r.config.enableMetric then some (desiredServiceMonitor job) else none := by
  constructor
  · intro h
    obtain ⟨⟨ig, cm⟩, hf, h⟩ := bind_eq_ok.mp h
    obtain ⟨pvc, hp, h⟩ := bind_eq_ok.mp h
    obtain ⟨app, ha, h⟩ := bind_eq_ok.mp h
    obtain ⟨svc, hs, h⟩ := bind_eq_ok.mp h
    cases h
    exact ⟨rfl, hf, hp, ha, hs, rfl⟩
  · rintro ⟨hd, hf, hp, ha, hs, hsm⟩
    obtain ⟨disableFront, ig, cm, pvc, app, svc, sm⟩ := b
    simp only at hd hf hp ha hs hsm
    subst hd hsm
    refine bind_eq_ok.mpr ⟨(ig, cm), hf, bind_eq_ok.mpr ⟨pvc, hp, ?_⟩⟩
    exact bind_eq_ok.mpr ⟨app, ha, bind_eq_ok.mpr ⟨svc, hs, rfl⟩⟩

/-- Without a front end neither of its objects is built; with it there is an Ingress. -/
theorem buildFront_ok {ig : Option Ingress} {cm : Option ConfigMap}
    (h : r.buildFront job = .ok (ig, cm)) :
    (r.checkRsyncFront job).disableFront = true ∧ ig = none ∧ cm = none ∨
      (r.checkRsyncFront job).disableFront = false ∧
        ∃ ig', ig = some ig' ∧ r.desiredIngress job = .ok ig' ∧
          r.desiredFrontConfigmap job = .ok cm := by
  unfold buildFront at h
  split at h
  · rename_i hd
    cases h
    exact .inl ⟨hd, rfl, rfl⟩
  · rename_i hd
    obtain ⟨ig', hi, h⟩ := bind_eq_ok.mp h
    obtain ⟨cm', hc, h⟩ := bind_eq_ok.mp h
    cases h
    exact .inr ⟨Bool.not_eq_true _ ▸ hd, ig', rfl, hi, hc⟩

theorem prepared_iff :
    r.Prepared job ↔ (r.buildFront job).isOk = true ∧
      (r.desiredPersistentVolumeClaim job).isOk = true := by
  rw [buildFront_isOk, desiredPersistentVolumeClaim_isOk, storageSize_isOk, getFrontConfig_isOk]
  unfold Prepared
  constructor
  · rintro ⟨hg, hf, hsize⟩
    exact ⟨fun hd => ⟨hg, hf hd⟩, hsize, hg⟩
  · rintro ⟨hf, hsize, hg⟩
    exact ⟨hg, fun hd => (hf hd).2, hsize⟩

/-- When a build succeeds. -/
theorem build_isOk (manager : String) :
    (r.build job manager).isOk = true ↔
      r.Prepared job ∧ (job.status.status ≠ .disabled → r.WorkerBuilds job) := by
  rw [prepared_iff, and_assoc, ← worker_isOk manager]
  refine isOk_bind_of_iff fun front _ => isOk_bind_of_iff fun pvc hp => ?_
  have hg : r.gvk.isOk = true :=
    (desiredPersistentVolumeClaim_isOk.mp (isOk_iff.mpr ⟨pvc, hp⟩)).2
  rw [← desiredDeployment_isOk hg front.2, isOk_bind_of_iff (P := True), and_true]
  exact fun app _ => iff_of_true (isOk_bind_pure.mpr (desiredService_isOk.mpr hg)) trivial

theorem app_isSome {b : Built} (h : r.build job manager = .ok b) :
    b.app.isSome = true ↔ r.HasContainer job :=
  desiredDeployment_isSome (build_eq_ok.mp h).2.2.2.1

/-- Reconcile deploys a Job when it builds a Deployment. -/
theorem deploys_iff (manager : String) :
    r.Deploys job ↔
      skips job = false ∧ ∃ b app, r.build job manager = .ok b ∧ b.app = some app := by
  refine and_congr_right fun _ => ?_
  rw [← and_assoc, ← build_isOk manager, isOk_iff]
  constructor
  · rintro ⟨⟨b, hb⟩, hc⟩
    obtain ⟨app, ha⟩ := Option.isSome_iff_exists.mp ((app_isSome hb).mpr hc)
    exact ⟨b, app, hb, ha⟩
  · rintro ⟨b, app, hb, ha⟩
    exact ⟨⟨b, hb⟩, (app_isSome hb).mp (by rw [ha]; rfl)⟩

theorem reconcile_cons (manager : String) (ms : List String) (job : Job) :
    r.reconcile (manager :: ms) job =
      if skips job then .ok [] else r.build job manager >>= fun b => pure (b.actions job) := rfl

theorem reconcile_of_build {b : Built} (hs : skips job = false)
    (hb : r.build job manager = .ok b) :
    r.reconcile (manager :: ms) job = .ok (b.actions job) := by
  rw [reconcile_cons, hs, hb]
  rfl

/-! ### Desired objects -/

/-- Reconcile of `job` applies `o`. -/
def Desires (r : Reconciler) (managers : List String) (job : Job) (o : Object) : Prop :=
  ∃ as, r.reconcile managers job = .ok as ∧ Action.apply o ∈ as

theorem Desires.build {o : Object} (h : Desires r (manager :: ms) job o) :
    skips job = false ∧ ∃ b, r.build job manager = .ok b ∧ Action.apply o ∈ b.actions job := by
  obtain ⟨as, has, hm⟩ := h
  rw [reconcile_cons] at has
  split at has
  · cases has
    cases hm
  · rename_i hs
    obtain ⟨b, hb, h⟩ := bind_eq_ok.mp has
    cases h
    exact ⟨Bool.not_eq_true _ ▸ hs, b, hb, hm⟩

theorem desires_of_build {b : Built} {o : Object} (hs : skips job = false)
    (hb : r.build job manager = .ok b) (hm : Action.apply o ∈ b.actions job) :
    Desires r (manager :: ms) job o := ⟨_, reconcile_of_build hs hb, hm⟩

/-- A Service is desired for the Jobs that are deployed. -/
theorem desires_service_iff :
    (∃ svc, Desires r (manager :: ms) job (.service svc)) ↔ r.Deploys job := by
  rw [deploys_iff manager]
  constructor
  · rintro ⟨svc, hd⟩
    obtain ⟨hs, b, hb, hm⟩ := hd.build
    refine ⟨hs, b, ?_⟩
    cases ha : b.app with
    | none => simp [Built.actions, ha, deletes] at hm
    | some app => exact ⟨app, hb, rfl⟩
  · rintro ⟨hs, b, app, hb, ha⟩
    exact ⟨b.svc, desires_of_build hs hb (by simp [Built.actions, Built.applies, ha])⟩

end KubeSync.Controller
