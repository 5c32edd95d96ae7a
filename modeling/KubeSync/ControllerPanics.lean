import KubeSync.ControllerNames
import KubeSync.ManagerController

/-! # When Reconcile panics

`resource.MustParse` panics on a text that is no quantity.  Both controllers call it on texts that
a user has written, so that `Reconcile` may end in a panic, which is neither a result nor an error.

* `Returns x` says that a builder ends with a value or an error; `returns_bind` composes it.
* `Quantities` is the condition on a Job, `ManagerQuantities` that on a Manager, under which all
  the texts that `MustParse` gets are quantities; a `Reconcile` that ends earlier asks for
  nothing. -/

namespace KubeSync.Controller

/-- The computation ends with a value or an error. -/
def Returns {α : Type} (x : Except Halt α) : Prop := ∀ text, x ≠ .error (.panic text)

section Returns

variable {α β : Type}

theorem returns_ok (a : α) : Returns (.ok a : Except Halt α) := nofun

theorem returns_error (text : String) : Returns (.error (.error text) : Except Halt α) := nofun

theorem not_returns_panic (text : String) : ¬ Returns (.error (.panic text) : Except Halt α) :=
  fun h => h text rfl

/-- A sequence returns when its first part does and, with the value of that, its second. -/
theorem returns_bind {x : Except Halt α} {f : α → Except Halt β} :
    Returns (x >>= f) ↔ Returns x ∧ ∀ a, x = .ok a → Returns (f a) := by
  cases x with
  | ok a =>
      constructor
      · intro h
        refine ⟨returns_ok a, fun a' ha => ?_⟩
        cases ha
        exact h
      · rintro ⟨-, h⟩
        exact h a rfl
  | error e =>
      constructor
      · intro h
        exact ⟨fun text he => h text (by cases he; rfl), nofun⟩
      · rintro ⟨h, -⟩ text he
        cases he
        exact h text rfl

theorem returns_bind_pure {x : Except Halt α} {g : α → β} :
    Returns (x >>= fun a => pure (g a)) ↔ Returns x := by
  rw [returns_bind]
  exact and_iff_left fun a _ => returns_ok (g a)

/-- A sequence whose second part returns on every value or on none. -/
theorem returns_bind_of_iff {x : Except Halt α} {f : α → Except Halt β} {P : Prop}
    (hx : Returns x) (h : ∀ a, x = .ok a → (Returns (f a) ↔ P)) :
    Returns (x >>= f) ↔ (x.isOk = true → P) := by
  rw [returns_bind, isOk_iff]
  constructor
  · rintro ⟨-, hf⟩ ⟨a, ha⟩
    exact (h a ha).mp (hf a ha)
  · intro hp
    exact ⟨hx, fun a ha => (h a ha).mpr (hp ⟨a, ha⟩)⟩

end Returns

/-! ### The job controller -/

namespace Reconciler

variable (r : Reconciler)

/-- The front end's objects can be built. -/
def FrontBuilds (job : Job) : Prop :=
  (r.checkRsyncFront job).disableFront = false →
    r.gvk.isOk = true ∧
      (r.config.frontConfig ≠ "" → (r.compact r.config.frontConfig).isOk = true)

/-- The limits that are set are quantities. -/
def LimitsParse (deploy : DeployConfig) : Prop :=
  (deploy.memoryLimit ≠ "" → r.Parses deploy.memoryLimit) ∧
    (deploy.cpuLimit ≠ "" → r.Parses deploy.cpuLimit)

/-- What `Reconcile` of a Job gives to `MustParse` are quantities: the size of the volume, also
when it is empty, and for a job with a worker its limits. -/
def Quantities (managers : List String) (job : Job) : Prop :=
  managers ≠ [] → skips job = false → r.FrontBuilds job →
    (r.Parses job.spec.volume.size ∧ (job.spec.volume.size = "" → r.Parses "50Gi")) ∧
      (r.gvk.isOk = true → job.status.status ≠ .disabled → job.spec.config.upstream ≠ "" →
        r.LimitsParse job.spec.deploy.toDeployConfig)

end Reconciler

open Reconciler

section Job

variable {r : Reconciler} {job : Job} {manager : String}

theorem mustParse_returns {s : String} : Returns (r.mustParse s) ↔ r.Parses s := by
  unfold mustParse Parses
  cases r.parseQuantity s with
  | ok q => exact iff_of_true (returns_ok q) rfl
  | error e => exact iff_of_false (not_returns_panic _) nofun

theorem setControllerReference_returns (m : ObjectMeta) :
    Returns (r.setControllerReference job m) := by
  unfold setControllerReference
  cases r.gvk with
  | ok gvk => exact returns_ok _
  | error e => exact returns_error e

theorem storageSize_returns :
    Returns (r.storageSize job) ↔
      r.Parses job.spec.volume.size ∧ (job.spec.volume.size = "" → r.Parses "50Gi") := by
  unfold storageSize
  rw [returns_bind, mustParse_returns]
  refine and_congr_right fun hp => ?_
  obtain ⟨q, hq⟩ := isOk_iff.mp (mustParse_isOk.mpr hp)
  rw [hq]
  by_cases hs : job.spec.volume.size = ""
  · simp only [hs, if_true, Except.ok.injEq, forall_eq', mustParse_returns, forall_const]
  · refine iff_of_true (fun a _ => ?_) fun h => absurd h hs
    rw [if_neg hs]
    exact returns_ok a

theorem desiredPersistentVolumeClaim_returns :
    Returns (r.desiredPersistentVolumeClaim job) ↔ Returns (r.storageSize job) := by
  unfold desiredPersistentVolumeClaim
  rw [returns_bind]
  refine and_iff_left fun storage _ => ?_
  exact returns_bind_pure.mpr (setControllerReference_returns _)

theorem desiredService_returns : Returns (r.desiredService job) :=
  returns_bind_pure.mpr (setControllerReference_returns _)

theorem desiredIngress_returns : Returns (r.desiredIngress job) :=
  returns_bind_pure.mpr (setControllerReference_returns _)

theorem getFrontConfig_returns : Returns r.getFrontConfig := by
  unfold getFrontConfig
  split
  · exact returns_ok ""
  · cases r.compact r.config.frontConfig with
    | ok s => exact returns_ok s
    | error e => exact returns_error e

theorem desiredFrontConfigmap_returns : Returns (r.desiredFrontConfigmap job) := by
  unfold desiredFrontConfigmap
  refine returns_bind.mpr ⟨getFrontConfig_returns, fun s _ => ?_⟩
  split
  · exact returns_ok none
  · exact returns_ok _

theorem buildFront_returns : Returns (r.buildFront job) := by
  unfold buildFront
  split
  · exact returns_ok _
  · refine returns_bind.mpr ⟨desiredIngress_returns, fun ig _ => ?_⟩
    exact returns_bind_pure.mpr desiredFrontConfigmap_returns

theorem buildFront_isOk_iff : (r.buildFront job).isOk = true ↔ r.FrontBuilds job := by
  rw [buildFront_isOk, getFrontConfig_isOk]
  rfl

theorem limit_returns (resource text : String) :
    Returns (r.limit resource text) ↔ (text ≠ "" → r.Parses text) := by
  unfold limit
  split
  · rename_i ht
    rw [returns_bind_pure, mustParse_returns, imp_iff_right ht]
  · rename_i ht
    exact iff_of_true (returns_ok []) fun h => absurd h ht

theorem workerLimits_returns :
    Returns (r.workerLimits job) ↔ r.LimitsParse job.spec.deploy.toDeployConfig := by
  unfold workerLimits LimitsParse
  split
  · rw [returns_bind, limit_returns]
    refine and_congr_right fun hm => ?_
    obtain ⟨memory, he⟩ := isOk_iff.mp ((limit_isOk "limits.memory" _).mpr hm)
    rw [he, ← limit_returns "limits.cpu"]
    simp only [Except.ok.injEq, forall_eq', returns_bind_pure]
  · rename_i hn
    rw [not_or] at hn
    exact iff_of_true (returns_ok none) ⟨fun h => absurd h hn.1, fun h => absurd h hn.2⟩

theorem worker_returns :
    Returns (r.worker job manager) ↔
      (job.status.status ≠ .disabled → job.spec.config.upstream ≠ "" →
        r.LimitsParse job.spec.deploy.toDeployConfig) := by
  unfold worker
  split
  · rename_i hs
    rw [imp_iff_right hs]
    unfold workerContainer
    split
    · rename_i hu
      exact iff_of_true (returns_error _) fun h => absurd hu h
    · rename_i hu
      rw [imp_iff_right hu, returns_bind, workerLimits_returns]
      refine and_iff_left fun limits _ => ?_
      split
      · exact returns_ok []
      · exact returns_ok _
  · rename_i hs
    exact iff_of_true (returns_ok []) fun h => absurd h hs

theorem deploymentOf_returns (cm : Option ConfigMap) (cs : List Container) :
    Returns (r.deploymentOf job cm cs) := by
  unfold deploymentOf
  split
  · exact returns_ok none
  · exact returns_bind_pure.mpr (setControllerReference_returns _)

theorem desiredDeployment_returns (cm : Option ConfigMap) :
    Returns (r.desiredDeployment job manager cm) ↔ Returns (r.worker job manager) := by
  unfold desiredDeployment
  rw [returns_bind]
  exact and_iff_left fun cs _ => deploymentOf_returns cm _

theorem build_returns :
    Returns (r.build job manager) ↔
      (r.FrontBuilds job → Returns (r.storageSize job) ∧
        (r.gvk.isOk = true → Returns (r.worker job manager))) := by
  rw [← buildFront_isOk_iff]
  refine returns_bind_of_iff buildFront_returns fun front _ => ?_
  rw [returns_bind, desiredPersistentVolumeClaim_returns]
  refine and_congr_right fun hs => ?_
  have hok : r.gvk.isOk = true ↔ ∃ pvc, r.desiredPersistentVolumeClaim job = .ok pvc := by
    rw [← isOk_iff, desiredPersistentVolumeClaim_isOk, storageSize_isOk]
    exact (and_iff_right (storageSize_returns.mp hs)).symm
  rw [hok]
  have hrest : ∀ pvc : PersistentVolumeClaim, Returns (r.desiredDeployment job manager front.2 >>=
      fun app => r.desiredService job >>= fun svc => pure (f := Except Halt)
        ({ disableFront := (r.checkRsyncFront job).disableFront, ig := front.1
           frontCM := front.2, pvc, app, svc
           sm := if r.config.enableMetric then some (desiredServiceMonitor job) else none } :
          Built)) ↔ Returns (r.worker job manager) := by
    intro pvc
    rw [returns_bind, desiredDeployment_returns]
    exact and_iff_left fun app _ => returns_bind_pure.mpr desiredService_returns
  constructor
  · rintro h ⟨pvc, hp⟩
    exact (hrest pvc).mp (h pvc hp)
  · intro h pvc hp
    exact (hrest pvc).mpr (h ⟨pvc, hp⟩)

theorem job_reconcile_returns {managers : List String} :
    Returns (r.reconcile managers job) ↔ r.Quantities managers job := by
  unfold Quantities
  cases managers with
  | nil => exact iff_of_true (returns_error _) fun h => absurd rfl h
  | cons manager ms =>
      rw [imp_iff_right (List.cons_ne_nil manager ms), reconcile_cons]
      split
      · rename_i hs
        rw [hs]
        exact iff_of_true (returns_ok []) nofun
      · rename_i hs
        rw [imp_iff_right (Bool.not_eq_true _ ▸ hs), returns_bind_pure, build_returns,
          storageSize_returns, worker_returns]

end Job

end KubeSync.Controller

/-! ### The manager controller -/

namespace KubeSync.ManagerController

open Controller

/-- The library functions of the manager controller as the job controller has them. -/
def Reconciler.library (r : Reconciler) : Controller.Reconciler :=
  { config := r.config, gvk := r.gvk, parseQuantity := r.parseQuantity, compact := .ok }

/-- The reconcile of `req` reads the copy `m`, passes its check for other Managers and comes to its
builders. -/
structure Reaches (s : State) (req : String) (env : Env) (m : Manager) : Prop where
  get : env.fails .get = false
  seen : ∃ n, s.managers.seen env.lag req = some (n, m)
  list : env.fails .list = false
  first : (firstListed s env req).any (fun a => a ≠ req) = false

/-- What `Reconcile` of the request `req` gives to `MustParse` are quantities: the limits of a
Manager for which an image is known. -/
def ManagerQuantities (r : Reconciler) (s : State) (req : String) (env : Env) : Prop :=
  ∀ m, Reaches s req env m → r.gvk.isOk = true → r.image m ≠ "" →
    r.library.LimitsParse m.spec.deploy

variable {r : Reconciler} {name : String} {m : Manager}

theorem metaOf_returns (owner name : String) (m : Manager) (ann : List (String × String)) :
    Returns (r.metaOf owner m name ann) := by
  unfold Reconciler.metaOf
  cases r.gvk with
  | ok gvk => exact returns_ok _
  | error e => exact returns_error e

theorem metaOf_isOk (owner name : String) (m : Manager) (ann : List (String × String)) :
    (r.metaOf owner m name ann).isOk = true ↔ r.gvk.isOk = true := by
  unfold Reconciler.metaOf
  cases r.gvk <;> exact Iff.rfl

/-- Both controllers read limits alike. -/
theorem limits_eq (m : Manager) :
    r.limits m =
      r.library.workerLimits
        { name := "", spec := { deploy := { toDeployConfig := m.spec.deploy } } } := rfl

theorem desiredDeployment_returns :
    Returns (r.desiredDeployment name m) ↔
      (r.image m ≠ "" → r.library.LimitsParse m.spec.deploy) := by
  unfold Reconciler.desiredDeployment
  split
  · rename_i hi
    exact iff_of_true (returns_ok none) fun h => absurd hi h
  · rename_i hi
    rw [imp_iff_right hi, returns_bind, limits_eq, workerLimits_returns]
    refine and_iff_left fun limits _ => ?_
    cases Reconciler.workloadKind m.spec.deployType with
    | none => exact returns_ok none
    | some kind => exact returns_bind_pure.mpr (metaOf_returns name name m [])

theorem build_returns :
    Returns (r.build name m) ↔
      (r.gvk.isOk = true → r.image m ≠ "" → r.library.LimitsParse m.spec.deploy) := by
  have hsa : Returns (r.desiredSA name m) := returns_bind_pure.mpr (metaOf_returns _ _ _ _)
  have hrole : Returns (r.desiredRole name m) := returns_bind_pure.mpr (metaOf_returns _ _ _ _)
  have hrb : Returns (r.desiredRoleBinding name m) :=
    returns_bind_pure.mpr (metaOf_returns _ _ _ _)
  have hsvc : Returns (r.desiredService name m) := returns_bind_pure.mpr (metaOf_returns _ _ _ _)
  have hig : Returns (r.desiredIngress name m) := returns_bind_pure.mpr (metaOf_returns _ _ _ _)
  have hsaOk : (r.desiredSA name m).isOk = true ↔ r.gvk.isOk = true :=
    isOk_bind_pure.trans (metaOf_isOk _ _ _ _)
  have hroleOk : (r.desiredRole name m).isOk = true ↔ r.gvk.isOk = true :=
    isOk_bind_pure.trans (metaOf_isOk _ _ _ _)
  have hrbOk : (r.desiredRoleBinding name m).isOk = true ↔ r.gvk.isOk = true :=
    isOk_bind_pure.trans (metaOf_isOk _ _ _ _)
  rw [← (desiredDeployment_returns : Returns (r.desiredDeployment name m) ↔ _)]
  unfold Reconciler.build
  -- the three objects before the workload are built or fail together
  have hlast : ∀ (sa : ServiceAccount) (role : Role) (rb : RoleBinding),
      Returns (r.desiredDeployment name m >>= fun app => r.desiredService name m >>= fun svc =>
        r.desiredIngress name m >>= fun ig => pure (f := Except Halt)
          ({ sa, role, rb, app, svc, ig } : Reconciler.Built)) ↔
        Returns (r.desiredDeployment name m) := by
    intro sa role rb
    rw [returns_bind]
    refine and_iff_left fun app _ => returns_bind.mpr ⟨hsvc, fun svc _ => ?_⟩
    exact returns_bind_pure.mpr hig
  rw [returns_bind_of_iff hsa fun sa _ => returns_bind_of_iff hrole fun role _ =>
    returns_bind_of_iff hrb fun rb _ => hlast sa role rb, hsaOk, hroleOk, hrbOk]
  constructor
  · intro h hg
    exact h hg hg hg
  · intro h hg _ _
    exact h hg

theorem finish_returns (s : State) (req : String) (n : ℕ) (b : Reconciler.Built) (env : Env) :
    Returns (finish s req n b env).2 := by
  unfold finish
  dsimp only
  split
  · exact returns_error _
  · split
    · exact returns_ok ()
    · split
      · exact returns_error _
      · split
        · exact returns_ok ()
        · exact returns_error _

theorem manager_reconcile_returns (s : State) (req : String) (env : Env) :
    Returns (reconcile r s req env).2 ↔ ManagerQuantities r s req env := by
  unfold reconcile
  split
  · rename_i hget
    refine iff_of_true (returns_error _) fun m h => ?_
    cases hget.symm.trans h.get
  · rename_i hget
    split
    · rename_i hseen
      refine iff_of_true (returns_ok ()) fun m h => ?_
      obtain ⟨n, hs⟩ := h.seen
      rw [hseen] at hs
      cases hs
    · rename_i n m hseen
      split
      · rename_i hlist
        refine iff_of_true (returns_error _) fun m h => ?_
        cases hlist.symm.trans h.list
      · rename_i hlist
        split
        · rename_i hfirst
          refine iff_of_true (returns_error _) fun m h => ?_
          cases hfirst.symm.trans h.first
        · rename_i hfirst
          have hbuild : Returns (r.build req m) ↔ ManagerQuantities r s req env := by
            rw [build_returns]
            constructor
            · intro h m' hm
              obtain ⟨n', hs⟩ := hm.seen
              obtain ⟨rfl, rfl⟩ := Prod.mk.inj (Option.some.inj (hseen.symm.trans hs))
              exact h
            · intro h
              exact h m ⟨Bool.not_eq_true _ ▸ hget, ⟨n, hseen⟩, Bool.not_eq_true _ ▸ hlist,
                Bool.not_eq_true _ ▸ hfirst⟩
          rw [← hbuild]
          split
          · rename_i h hb
            rw [hb]
            exact ⟨fun hr text he => hr text (by cases he; rfl),
              fun hr text he => hr text (by cases he; rfl)⟩
          · rename_i b hb
            rw [hb]
            exact iff_of_true (finish_returns s req n b env) (returns_ok b)

end KubeSync.ManagerController

namespace KubeSync.Controller

open ManagerController (ManagerQuantities)

/-- **Reconcile returns.**  Both controllers end with a result or an error exactly when the texts
that they give to `MustParse` are quantities. -/
theorem reconcile_returns_iff (r : Reconciler) (managers : List String) (job : Job)
    (r' : ManagerController.Reconciler) (s : ManagerController.State) (req : String)
    (env : ManagerController.Env) :
    (Returns (r.reconcile managers job) ↔ r.Quantities managers job) ∧
      (Returns (ManagerController.reconcile r' s req env).2 ↔ ManagerQuantities r' s req env) :=
  ⟨job_reconcile_returns, ManagerController.manager_reconcile_returns s req env⟩

/-- The default of the size replaces an empty text that was parsed before. -/
theorem empty_size_panics :
    ¬ Returns (plainReconciler.reconcile ["manager"]
      { name := "debian", spec := { config := { upstream := "rsync://up/" } } }) :=
  fun h => h "cannot parse '': quantities must match" rfl

end KubeSync.Controller
