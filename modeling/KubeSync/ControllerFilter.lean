import Mathlib.Logic.Relation
import KubeSync.ControllerIsolation

/-! # The event filter

`SetupWithManager` drops the update events that leave the generation of a Job unchanged, that is,
the changes of its status.

* `Versions old new`: the API server turns `old` into `new` by changes of the status and of the
  spec, and counts the latter in the generation.
* Of all builders only the one of the worker's container reads the status, and only whether the
  Job is disabled (`reconcile_withStatus`).  `filtered_desires_iff` says when that makes a
  difference. -/

namespace KubeSync.Controller

open Reconciler

variable {r : Reconciler} {job : Job} {managers ms : List String} {manager : String}

/-- The predicate for update events: whether the event is passed on. -/
def updateFunc (old new : Job) : Bool := old.generation != new.generation

/-- One change of a Job in the API server. -/
inductive Change : Job → Job → Prop
  | status (job : Job) (status : JobStatus) : Change job { job with status }
  | spec (job : Job) (spec : JobSpec) (h : spec ≠ job.spec) :
      Change job { job with spec, generation := job.generation + 1 }

/-- A version of a Job and a later one. -/
def Versions : Job → Job → Prop := Relation.ReflTransGen Change

theorem Versions.generation_le {old new : Job} (h : Versions old new) :
    old.generation ≤ new.generation := by
  induction h with
  | refl => exact Nat.le_refl _
  | tail _ hc ih =>
      cases hc with
      | status => exact ih
      | spec => exact Nat.le_succ_of_le ih

/-- An event that is dropped changes the status alone. -/
theorem Versions.eq_of_filtered {old new : Job} (h : Versions old new)
    (hf : updateFunc old new = false) : new = { old with status := new.status } := by
  have hgen : old.generation = new.generation := by simpa [updateFunc] using hf
  clear hf
  induction h with
  | refl => rfl
  | @tail job _ hv hc ih =>
      cases hc with
      | status st => rw [ih hgen]
      | spec spec hne =>
          have hle := Versions.generation_le hv
          have hgen' : old.generation = job.generation + 1 := hgen
          omega

/-- Whether the Job is disabled makes a difference: the builders before the Deployment succeed, and
that of the worker's container fails or yields a container. -/
def WorkerMatters (r : Reconciler) (job : Job) : Prop :=
  skips job = false ∧ r.Prepared job ∧ (r.WorkerBuilds job → r.workerImage job ≠ "")

/-! ### What reads the status -/

theorem worker_withStatus (job : Job) (st : JobStatus) (manager : String) :
    r.worker { job with status := st } manager =
      if st.status ≠ .disabled then r.workerContainer job manager else .ok [] := rfl

/-- The status enters Reconcile through the worker's container only. -/
theorem reconcile_withStatus {st st' : JobStatus}
    (h : r.worker { job with status := st } manager =
      r.worker { job with status := st' } manager) :
    r.reconcile (manager :: ms) { job with status := st } =
      r.reconcile (manager :: ms) { job with status := st' } := by
  rw [reconcile_cons, reconcile_cons]
  unfold build desiredDeployment
  rw [h]
  rfl

theorem deploymentOf_containers {cm : Option ConfigMap} {cs : List Container} {app : Deployment}
    (h : r.deploymentOf job cm cs = .ok (some app)) : app.pod.containers = cs := by
  unfold deploymentOf at h
  split at h
  · cases h
  · obtain ⟨m, -, h⟩ := bind_eq_ok.mp h
    cases h
    rfl

theorem workerContainer_ne_ok_nil (manager : String) :
    r.workerContainer job manager ≠ .ok [] ↔ (r.WorkerBuilds job → r.workerImage job ≠ "") := by
  rw [← workerContainer_isOk manager]
  cases hc : r.workerContainer job manager with
  | error e => exact iff_of_true nofun nofun
  | ok cs =>
      rw [imp_iff_right (show (Except.ok cs : Except Halt _).isOk = true from rfl), ne_eq, ne_eq,
        Except.ok.injEq, workerContainer_eq_nil hc]

/-- Reconcile desires nothing unless the builders before the Deployment succeed. -/
theorem Desires.workerMatters {st : JobStatus} {o : Object}
    (h : Desires r (manager :: ms) { job with status := st } o)
    (hw : r.WorkerBuilds job → r.workerImage job ≠ "") : WorkerMatters r job := by
  obtain ⟨hs, b, hb, -⟩ := h.build
  exact ⟨hs, ((build_isOk manager).mp (isOk_iff.mpr ⟨b, hb⟩)).1, hw⟩

theorem app_of_apply {b : Built} {app : Deployment}
    (h : Action.apply (.deployment app) ∈ b.actions job) : b.app = some app := by
  unfold Built.actions Built.applies deletes at h
  cases ha : b.app with
  | none => simp [ha] at h
  | some app' =>
      simp [ha] at h
      rw [h]

/-! ### Disabled and enabled versions -/

theorem containers_of_build {b : Built} {app : Deployment} (hb : r.build job manager = .ok b)
    (ha : b.app = some app) :
    ∃ cs, r.worker job manager = .ok cs ∧ app.pod.containers = cs ++ r.servers job b.frontCM := by
  have happ := (build_eq_ok.mp hb).2.2.2.1
  rw [ha] at happ
  obtain ⟨cs, hw, happ⟩ := bind_eq_ok.mp happ
  exact ⟨cs, hw, deploymentOf_containers happ⟩

/-- Where the worker matters, the disabled and the enabled version desire different objects. -/
theorem desires_differ (job : Job) (st st' : JobStatus) (hd : st.status = .disabled)
    (he : st'.status ≠ .disabled) (hw : WorkerMatters r job) :
    ¬∀ o, Desires r (manager :: ms) { job with status := st } o ↔
      Desires r (manager :: ms) { job with status := st' } o := by
  obtain ⟨hs, hp, hi⟩ := hw
  intro h
  by_cases hwb : r.WorkerBuilds job
  · have hdep : r.Deploys { job with status := st' } := ⟨hs, hp, fun _ => hwb, .inl ⟨he, hi hwb⟩⟩
    obtain ⟨-, b, app, hb, ha⟩ := (deploys_iff manager).mp hdep
    have hm : Action.apply (.deployment app) ∈ b.actions { job with status := st' } := by
      unfold Built.actions Built.applies
      simp [ha]
    obtain ⟨-, b', hb', hm'⟩ := ((h _).mpr (desires_of_build hs hb hm)).build
    obtain ⟨cs, hcs, hc⟩ := containers_of_build hb ha
    obtain ⟨cs', hcs', hc'⟩ := containers_of_build hb' (app_of_apply hm')
    have hcm : b.frontCM = b'.frontCM :=
      (Prod.mk.inj (Except.ok.inj
        ((build_eq_ok.mp hb).2.1.symm.trans (build_eq_ok.mp hb').2.1))).2
    have hworker : cs ≠ [] := (worker_ne_nil hcs).mpr ⟨he, hi hwb⟩
    have hnone : cs' = [] := by
      by_contra hne
      exact ((worker_ne_nil hcs').mp hne).1 hd
    rw [hc, hcm, hnone] at hc'
    exact hworker (List.append_cancel_right hc')
  · obtain ⟨b, hb⟩ : ∃ b, r.build { job with status := st } manager = .ok b :=
      isOk_iff.mp ((build_isOk manager).mpr ⟨hp, fun hn => absurd hd hn⟩)
    have hm : Action.apply (.persistentVolumeClaim b.pvc) ∈
        b.actions { job with status := st } := by
      unfold Built.actions
      simp
    obtain ⟨-, b', hb', -⟩ := ((h _).mp (desires_of_build hs hb hm)).build
    exact hwb (((build_isOk manager).mp (isOk_iff.mpr ⟨b', hb'⟩)).2 he)

/-- **The event filter.**  A dropped event is irrelevant exactly when the Job is disabled both
before and after it, or neither, or the worker does not matter. -/
theorem filtered_desires_iff {old new : Job} (hv : Versions old new)
    (hf : updateFunc old new = false) :
    (∀ o, Desires r (manager :: ms) old o ↔ Desires r (manager :: ms) new o) ↔
      (old.status.status = .disabled ↔ new.status.status = .disabled) ∨
        ¬WorkerMatters r old := by
  have hnew := hv.eq_of_filtered hf
  generalize new.status = st at hnew
  subst hnew
  show (∀ o, Desires r (manager :: ms) { old with status := old.status } o ↔ _) ↔
    (_ ↔ st.status = .disabled) ∨ _
  constructor
  · intro h
    by_contra hn
    rw [not_or, not_not] at hn
    by_cases hd : old.status.status = .disabled
    · have he : st.status ≠ .disabled := fun he => hn.1 (iff_of_true hd he)
      exact desires_differ old _ _ hd he hn.2 h
    · have he : st.status = .disabled := by
        by_contra he
        exact hn.1 (iff_of_false hd he)
      exact desires_differ old _ _ he hd hn.2 fun o => (h o).symm
  · intro h o
    by_cases hw : r.worker { old with status := old.status } manager =
        r.worker { old with status := st } manager
    · unfold Desires
      rw [reconcile_withStatus hw]
    · have hm : ¬WorkerMatters r old := by
        refine h.resolve_left fun hiff => hw ?_
        rw [worker_withStatus, worker_withStatus]
        simp only [ne_eq, hiff]
      have hc : r.WorkerBuilds old → r.workerImage old ≠ "" := by
        refine (workerContainer_ne_ok_nil manager).mp fun hc => ?_
        rw [worker_withStatus, worker_withStatus, hc, ite_self, ite_self] at hw
        exact hw rfl
      exact iff_of_false (fun hd => hm (hd.workerMatters hc)) fun hd => hm (hd.workerMatters hc)

/-- The Job `debian` with the given status. -/
def debianWith (status : SyncStatus) : Job := { mirrorOf "debian" with status := { status } }

theorem debianWith_versions (old new : SyncStatus) : Versions (debianWith old) (debianWith new) :=
  Relation.ReflTransGen.single (Change.status (debianWith old) { status := new })

theorem filtered_report_desires_same :
    {o | Desires plainReconciler ["manager"] (debianWith .syncing) o} =
      {o | Desires plainReconciler ["manager"] (debianWith .success) o} :=
  Set.ext ((filtered_desires_iff (debianWith_versions .syncing .success) rfl).mpr
    (.inl (iff_of_false (by decide) (by decide))))

/-- Disabling a job is dropped by the filter, although the disabled job has no Deployment. -/
theorem filtered_disable_desires_other :
    Versions (debianWith .success) (debianWith .disabled) ∧
      updateFunc (debianWith .success) (debianWith .disabled) = false ∧
      ¬∀ o, Desires plainReconciler ["manager"] (debianWith .success) o ↔
        Desires plainReconciler ["manager"] (debianWith .disabled) o := by
  refine ⟨debianWith_versions _ _, rfl, fun h => ?_⟩
  have hw : WorkerMatters plainReconciler (mirrorOf "debian") :=
    ⟨rfl, by decide, fun _ => by decide⟩
  exact desires_differ (mirrorOf "debian") { status := .disabled } { status := .success } rfl
    (by decide) hw fun o => (h o).symm

end KubeSync.Controller
