import KubeSync.Controller
import KubeSync.VersionedStore

/-! # The manager controller

`internal/controller/manager_helper.go` builds the objects of a Manager, and
`manager_controller.go` applies them in `Reconcile`.

* The Managers of the namespace live in the API server, a versioned store; the name of a Manager is
  its key.  `Get` and `List` are answered by a cache that may be any number of writes behind, and
  the final `Status().Update` is refused when the version that was read is no longer current.
* `List` returns the Managers whose copy in the cache has the phase Succeeded, in no particular
  order; `Reconcile` looks at the first of them.  The cache does not go back between `Get` and
  `List`.
* Every API call may fail.  A failing call changes nothing and ends `Reconcile`, except that of the
  deletion of the other kind of workload, whose error is ignored.
* Reconciles run one at a time, so that one of them is one step; a Manager that is created, changed
  or deleted between its reads and its writes is the same as a read that lags.
* The garbage collection of the objects of a deleted Manager is left out. -/

namespace KubeSync.ManagerController

open Controller (Halt Config orElse)
open Controller.Reconciler (probe mergeAnnotations)
open Versioned (Store)

/-- `v1beta1.DeployType`. -/
inductive DeployType where
  | deployment
  | daemonSet
  | other (s : String)
deriving DecidableEq, Repr

/-- `v1beta1.DeployPhase`. -/
inductive DeployPhase where
  | pending
  | succeeded
  | failed
  | other (s : String)
deriving DecidableEq, Repr

/-- `v1beta1.ManagerSpec`. -/
structure ManagerSpec where
  deployType : DeployType := .other ""
  deploy : DeployConfig := {}
  ingress : IngressConfig := {}
deriving DecidableEq, Repr

/-- `v1beta1.Manager` without its name. -/
structure Manager where
  ns : String := ""
  uid : String := ""
  spec : ManagerSpec := {}
  phase : DeployPhase := .other ""
deriving DecidableEq, Repr

/-! ### The objects of a Manager -/

structure ServiceAccount where
  metadata : ObjectMeta
deriving DecidableEq, Repr

/-- `rbacv1.PolicyRule`. -/
structure PolicyRule where
  apiGroups : List String
  resources : List String
  verbs : List String
deriving DecidableEq, Repr

structure Role where
  metadata : ObjectMeta
  rules : List PolicyRule
deriving DecidableEq, Repr

/-- `rbacv1.RoleBinding` with its only subject. -/
structure RoleBinding where
  metadata : ObjectMeta
  subjectKind : String
  subjectName : String
  roleGroup : String
  roleKind : String
  roleName : String
deriving DecidableEq, Repr

/-- `appsv1.Deployment` or `appsv1.DaemonSet`. -/
structure Workload where
  metadata : ObjectMeta
  matchLabels : List (String × String)
  templateLabels : List (String × String)
  serviceAccountName : String
  pod : PodSpec
deriving DecidableEq, Repr

inductive Kind where
  | serviceAccount
  | role
  | roleBinding
  | deployment
  | daemonSet
  | service
  | ingress
deriving DecidableEq, Repr

inductive Object where
  | serviceAccount (o : ServiceAccount)
  | role (o : Role)
  | roleBinding (o : RoleBinding)
  | deployment (o : Workload)
  | daemonSet (o : Workload)
  | service (o : Service)
  | ingress (o : Ingress)
deriving DecidableEq, Repr

abbrev Key := Kind × String

def Object.key : Object → Key
  | .serviceAccount o => (.serviceAccount, o.metadata.name)
  | .role o => (.role, o.metadata.name)
  | .roleBinding o => (.roleBinding, o.metadata.name)
  | .deployment o => (.deployment, o.metadata.name)
  | .daemonSet o => (.daemonSet, o.metadata.name)
  | .service o => (.service, o.metadata.name)
  | .ingress o => (.ingress, o.metadata.name)

abbrev Cluster := Key → Option Object

/-! ### The builders -/

def managerPort : ℕ := 3000

def apiGroup : String := "mirror.redrock.team"

/-- `ManagerReconciler` with the library functions it calls. -/
structure Reconciler where
  config : Config
  managerImage : String
  /-- The API version and the kind that the scheme has for a Manager. -/
  gvk : Except String (String × String)
  /-- `resource.ParseQuantity`: the canonical text of a quantity. -/
  parseQuantity : String → Except String String

namespace Reconciler

variable (r : Reconciler)

def labels (name : String) : List (String × String) := [("manager", name)]

/-- The metadata of an object called `name` of the Manager `owner`, with the owner reference that
`ctrl.SetControllerReference` sets. -/
def metaOf (owner : String) (m : Manager) (name : String) (annotations : List (String × String)) :
    Except Halt ObjectMeta :=
  match r.gvk with
  | .error e => .error (.error e)
  | .ok (apiVersion, kind) =>
      .ok
        { name, ns := m.ns, labels := labels owner, annotations
          ownerReferences :=
            [{ apiVersion, kind, name := owner, uid := m.uid, controller := true,
               blockOwnerDeletion := true }] }

def desiredSA (name : String) (m : Manager) : Except Halt ServiceAccount := do
  let metadata ← r.metaOf name m (name ++ "-sa") []
  pure { metadata }

/-- The rules for one resource and its status. -/
def rulesFor (resource : String) : List PolicyRule :=
  [{ apiGroups := [apiGroup], resources := [resource]
     verbs := ["create", "delete", "get", "list", "patch", "update", "watch"] },
   { apiGroups := [apiGroup], resources := [resource ++ "/status"]
     verbs := ["get", "patch", "update"] }]

def desiredRole (name : String) (m : Manager) : Except Halt Role := do
  let metadata ← r.metaOf name m (name ++ "-role") []
  pure { metadata, rules := rulesFor "jobs" ++ rulesFor "announcements" ++ rulesFor "files" }

def desiredRoleBinding (name : String) (m : Manager) : Except Halt RoleBinding := do
  let metadata ← r.metaOf name m name []
  pure
    { metadata, subjectKind := "ServiceAccount", subjectName := name ++ "-sa"
      roleGroup := "rbac.authorization.k8s.io", roleKind := "Role", roleName := name ++ "-role" }

/-- `resource.MustParse`. -/
def mustParse (s : String) : Except Halt String :=
  match r.parseQuantity s with
  | .ok q => .ok q
  | .error e => .error (.panic ("cannot parse '" ++ s ++ "': " ++ e))

/-- A resource limit, parsed only when it is set. -/
def limit (resource text : String) : Except Halt (List (String × String)) :=
  if text ≠ "" then do
    let q ← r.mustParse text
    pure [(resource, q)]
  else pure []

def limits (m : Manager) : Except Halt (Option (List (String × String))) :=
  if m.spec.deploy.memoryLimit ≠ "" ∨ m.spec.deploy.cpuLimit ≠ "" then do
    let memory ← r.limit "limits.memory" m.spec.deploy.memoryLimit
    let cpu ← r.limit "limits.cpu" m.spec.deploy.cpuLimit
    pure (some (memory ++ cpu))
  else pure none

def image (m : Manager) : String := orElse m.spec.deploy.image r.managerImage

def container (name : String) (m : Manager) (limits : Option (List (String × String))) :
    Container :=
  { name
    image := r.image m
    imagePullPolicy := orElse m.spec.deploy.imagePullPolicy r.config.pullPolicy
    env :=
      [{ name := "NAMESPACE", valueFrom := some "fieldRef: metadata.namespace" },
        { name := "ADDR", value := ":" ++ toString managerPort }] ++ m.spec.deploy.env
    livenessProbe := probe managerPort
    readinessProbe := probe managerPort
    volumeMounts := []
    ports := [{ containerPort := managerPort, name := "api", protocol := "TCP" }]
    limits }

def pullSecrets (m : Manager) : Option (List String) :=
  match m.spec.deploy.imagePullSecrets with
  | some secrets => some secrets
  | none => if r.config.pullSecret ≠ "" then some [r.config.pullSecret] else none

def workload (name : String) (m : Manager) (limits : Option (List (String × String)))
    (metadata : ObjectMeta) : Workload :=
  { metadata
    matchLabels := labels name
    templateLabels := labels name
    serviceAccountName := name ++ "-sa"
    pod :=
      { enableServiceLinks := false
        containers := [r.container name m limits]
        volumes := []
        imagePullSecrets := r.pullSecrets m
        nodeName := m.spec.deploy.nodeName
        affinity := m.spec.deploy.affinity
        tolerations := m.spec.deploy.tolerations } }

/-- The constructor of the workload for a deploy type, a Deployment when none is set. -/
def workloadKind : DeployType → Option (Workload → Object)
  | .deployment => some .deployment
  | .daemonSet => some .daemonSet
  | .other s => if s = "" then some .deployment else none

/-- No workload when no image is known or the deploy type is not; the limits are parsed before the
deploy type is looked at. -/
def desiredDeployment (name : String) (m : Manager) : Except Halt (Option Object) :=
  if r.image m = "" then .ok none
  else do
    let limits ← r.limits m
    match workloadKind m.spec.deployType with
    | none => pure none
    | some kind => do
        let metadata ← r.metaOf name m name []
        pure (some (kind (r.workload name m limits metadata)))

def desiredService (name : String) (m : Manager) : Except Halt Service := do
  let metadata ← r.metaOf name m name []
  pure
    { metadata
      ports := [{ name := "api", port := managerPort, protocol := "TCP", targetPort := "api" }]
      selector := labels name
      type := "ClusterIP" }

def desiredIngress (name : String) (m : Manager) : Except Halt Ingress := do
  let cfg := r.config
  let ing := m.spec.ingress
  let metadata ← r.metaOf name m name (mergeAnnotations cfg.frontAnn ing.annotations)
  let path (path : String) : IngressPath :=
    { path, pathType := "Exact", serviceName := name, servicePort := "api" }
  pure
    { metadata
      ingressClassName :=
        if cfg.frontClass ≠ "" ∨ ing.ingressClass ≠ "" then
          some (orElse ing.ingressClass cfg.frontClass)
        else none
      tlsSecrets :=
        if cfg.frontTLS ≠ "" ∨ ing.tlsSecret ≠ "" then [orElse ing.tlsSecret cfg.frontTLS] else []
      host := orElse ing.host cfg.frontHost
      paths :=
        [path "/api/mirrors", path "/api/news", path "/api/files", path "/api/mirrorz.json"] }

/-- What `Reconcile` has built before its first call that changes the cluster. -/
structure Built where
  sa : ServiceAccount
  role : Role
  rb : RoleBinding
  app : Option Object
  svc : Service
  ig : Ingress

def build (name : String) (m : Manager) : Except Halt Built := do
  let sa ← r.desiredSA name m
  let role ← r.desiredRole name m
  let rb ← r.desiredRoleBinding name m
  let app ← r.desiredDeployment name m
  let svc ← r.desiredService name m
  let ig ← r.desiredIngress name m
  pure { sa, role, rb, app, svc, ig }

end Reconciler

/-! ### The namespace -/

/-- The Managers and the objects of a namespace.  `names` are the names that `List` goes
through. -/
structure State where
  managers : Store String Manager
  names : List String
  objects : Cluster
  known : ∀ a m, managers.value a = some m → a ∈ names

def State.empty : State where
  managers := Store.empty
  names := []
  objects _ := none
  known _ _ h := by cases h

/-- Store the Manager `m` as `name`. -/
def State.write (s : State) (name : String) (m : Manager) : State where
  managers := s.managers.write name m
  names := s.names.insert name
  objects := s.objects
  known a v h := by
    by_cases ha : a = name
    · rw [ha]
      exact List.mem_insert_self
    · rw [s.managers.value_write_of_ne m ha] at h
      exact List.mem_insert_of_mem (s.known a v h)

def State.remove (s : State) (name : String) : State where
  managers := s.managers.remove name
  names := s.names
  objects := s.objects
  known a v h := by
    by_cases ha : a = name
    · rw [ha, Store.remove, Store.value_push_self] at h
      cases h
    · rw [s.managers.value_remove_of_ne ha] at h
      exact s.known a v h

/-- `Status().Update` for the copy of `name` that was read as version `n`. -/
def State.updatePhase (s : State) (name : String) (n : ℕ) (phase : DeployPhase) : Option State :=
  match s.managers.current name with
  | some (k, m) => if k = n then some (s.write name { m with phase }) else none
  | none => none

/-- The API calls of `Reconcile`; `deleteOther` is the read and the deletion of a workload of the
other kind. -/
inductive ApiCall where
  | get
  | list
  | serviceAccount
  | role
  | roleBinding
  | deleteOther
  | app
  | service
  | ingress
  | status
deriving DecidableEq, Repr

/-- What one reconcile gets from outside: how far the cache is behind, in which order `List`
returns its items, and which calls fail. -/
structure Env where
  lag : ℕ := 0
  listLag : String → ℕ := fun _ => 0
  order : ℕ := 0
  fails : ApiCall → Bool := fun _ => false
  err : String := ""

/-- How far `List` is behind for `a` in the reconcile of `req`. -/
def Env.lagOf (env : Env) (req a : String) : ℕ :=
  if a = req then min (env.listLag a) env.lag else env.listLag a

/-- The items of `List`: the names of the Managers that the cache shows with the phase
Succeeded. -/
def listed (s : State) (env : Env) (req : String) : List String :=
  s.names.filter fun a =>
    (s.managers.seen (env.lagOf req a) a).any fun c => c.2.phase = .succeeded

/-- `managerList.Items[0]`. -/
def firstListed (s : State) (env : Env) (req : String) : Option String :=
  (listed s env req)[env.order % (listed s env req).length]?

/-! ### Reconcile -/

/-- A call that changes the cluster. -/
structure Call where
  call : ApiCall
  key : Key
  value : Option Object
  ignored : Bool := false

def applyCall (call : ApiCall) (o : Object) : Call := { call, key := o.key, value := some o }

/-- The kind of workload that is removed before `o` is applied. -/
def otherKind : Object → Kind
  | .deployment _ => .daemonSet
  | _ => .deployment

/-- The calls that give the Manager its rights. -/
def Reconciler.Built.access (b : Reconciler.Built) : List Call :=
  [applyCall .serviceAccount (.serviceAccount b.sa), applyCall .role (.role b.role),
    applyCall .roleBinding (.roleBinding b.rb)]

/-- The calls of `Reconcile` from the first apply on; without a workload it returns after the
third. -/
def Reconciler.Built.calls (b : Reconciler.Built) (name : String) : List Call :=
  b.access ++
    match b.app with
    | none => []
    | some app =>
        [{ call := .deleteOther, key := (otherKind app, name), value := none, ignored := true },
          applyCall .app app, applyCall .service (.service b.svc),
          applyCall .ingress (.ingress b.ig)]

/-- Make the calls up to the first one that fails; returns whether they were all made. -/
def execCalls (env : Env) : Cluster → List Call → Cluster × Bool
  | c, [] => (c, true)
  | c, call :: calls =>
      if env.fails call.call then
        if call.ignored then execCalls env c calls else (c, false)
      else execCalls env (Function.update c call.key call.value) calls

/-- `Reconcile` behind its builders: `n` is the version of the Manager that was read. -/
def finish (s : State) (req : String) (n : ℕ) (b : Reconciler.Built) (env : Env) :
    State × Except Halt Unit :=
  let (objects, ok) := execCalls env s.objects (b.calls req)
  let s' := { s with objects }
  if ok = false then (s', .error (.error env.err))
  else if b.app.isNone then (s', .ok ())
  else if env.fails .status then (s', .error (.error env.err))
  else
    match s'.updatePhase req n .succeeded with
    | some s'' => (s'', .ok ())
    | none => (s', .error (.error env.err))

/-- `Reconcile` for the request `req`. -/
def reconcile (r : Reconciler) (s : State) (req : String) (env : Env) :
    State × Except Halt Unit :=
  if env.fails .get then (s, .error (.error env.err))
  else
    match s.managers.seen env.lag req with
    | none => (s, .ok ())
    | some (n, manager) =>
        if env.fails .list then (s, .error (.error env.err))
        else if (firstListed s env req).any fun a => a ≠ req then
          (s, .error (.error "already have one active manager in this namespace"))
        else
          match r.build req manager with
          | .error h => (s, .error h)
          | .ok b => finish s req n b env

/-- What happens in the namespace: a Manager is created or its spec is set, a Manager is deleted,
a Manager is reconciled. -/
inductive Label where
  | apply (name ns uid : String) (spec : ManagerSpec)
  | delete (name : String)
  | reconcile (req : String) (env : Env)

def step (r : Reconciler) (s : State) : Label → Option State
  | .apply name ns uid spec =>
      match s.managers.value name with
      | some m => some (s.write name { m with spec })
      | none => some (s.write name { ns, uid, spec })
  | .delete name =>
      match s.managers.value name with
      | some _ => some (s.remove name)
      | none => some s
  | .reconcile req env => some (reconcile r s req env).1

end KubeSync.ManagerController
