import KubeSync.Objects

/-! # The job controller

`internal/controller/job_helper.go` builds the objects of a Job, and `job_controller.go` applies
them in `Reconcile`.

* A builder returns its object, an error, or panics (`resource.MustParse` on a text that is no
  quantity); the first failure ends `Reconcile` before it has made an API call that changes
  anything.
* `resource.ParseQuantity`, `json.Compact` and the scheme are fields of `Reconciler`; nothing is
  assumed about them here.
* `Reconcile` never uses what its reads of Deployments and Ingresses return except to delete what
  it has read, so that its effect on the cluster is a list of actions that depends on the Job, the
  configuration and the name of the active manager alone. -/

namespace KubeSync.Controller

/-- `Config`: the controller's settings that concern Jobs. -/
structure Config where
  workerImage : String := ""
  pullPolicy : String := ""
  pullSecret : String := ""
  storageClass : String := ""
  accessMode : String := ""
  frontMode : String := ""
  frontImage : String := ""
  rsyncImage : String := ""
  frontCmd : String := ""
  frontConfig : String := ""
  rsyncCmd : String := ""
  frontHost : String := ""
  frontTLS : String := ""
  frontClass : String := ""
  frontAnn : List (String × String) := []
  enableMetric : Bool := false
  debug : Bool := false

/-- `JobReconciler` with the library functions it calls. -/
structure Reconciler where
  config : Config
  /-- The API version and the kind that the scheme has for a Job. -/
  gvk : Except String (String × String)
  /-- `resource.ParseQuantity`: the canonical text of a quantity. -/
  parseQuantity : String → Except String String
  /-- `json.Compact`. -/
  compact : String → Except String String

/-- How a builder fails. -/
inductive Halt where
  | error (text : String)
  | panic (text : String)
deriving DecidableEq, Repr

theorem bind_eq_ok {ε α β : Type} {x : Except ε α} {f : α → Except ε β} {b : β} :
    (x >>= f) = .ok b ↔ ∃ a, x = .ok a ∧ f a = .ok b := by
  cases x with
  | error e => exact ⟨(by intro h; cases h), (by rintro ⟨a, h, -⟩; cases h)⟩
  | ok a =>
      constructor
      · intro h
        exact ⟨a, rfl, h⟩
      · rintro ⟨a', h, hf⟩
        cases h
        exact hf

/-! ### Helpers -/

def apiPort : ℕ := 6000
def frontPort : ℕ := 80
def rsyncPort : ℕ := 873
def metricPort : ℕ := 2019

def getCommonLabels (jobName : String) : List (String × String) :=
  [("app.kubernetes.io/app", jobName), ("app.kubernetes.io/component", "mirror"),
    ("app.kubernetes.io/managed-by", "kubesync")]

def serviceName (jobName : String) : String := "mirror-" ++ jobName

/-- `strconv.ParseBool`. -/
def parseBool (s : String) : Option Bool :=
  if s ∈ ["1", "t", "T", "TRUE", "true", "True"] then some true
  else if s ∈ ["0", "f", "F", "FALSE", "false", "False"] then some false
  else none

/-- `strings.Split(s, " ")`. -/
def splitSpaces (s : String) : List String := (s.toList.splitOn ' ').map String.ofList

/-- The first of two texts unless it is empty. -/
def orElse (s default : String) : String := if s ≠ "" then s else default

theorem orElse_of_ne {s t : String} (h : s ≠ "") : orElse s t = s := if_pos h

@[simp] theorem orElse_empty (t : String) : orElse "" t = t := if_neg (not_not.mpr rfl)

theorem orElse_of_empty (s : String) : orElse s "" = s := by
  by_cases h : s = ""
  · rw [h, orElse_empty]
  · exact orElse_of_ne h

/-- The metadata of an object of `job`. -/
def metaOf (job : Job) (name : String) (annotations : List (String × String)) : ObjectMeta :=
  { name, ns := job.ns, labels := getCommonLabels job.name, annotations }

namespace Reconciler

variable (r : Reconciler)

/-- `resource.MustParse`. -/
def mustParse (s : String) : Except Halt String :=
  match r.parseQuantity s with
  | .ok q => .ok q
  | .error e => .error (.panic ("cannot parse '" ++ s ++ "': " ++ e))

/-- `ctrl.SetControllerReference` for an object without owners. -/
def setControllerReference (job : Job) (m : ObjectMeta) : Except Halt ObjectMeta :=
  match r.gvk with
  | .error e => .error (.error e)
  | .ok (apiVersion, kind) =>
      .ok { m with
        ownerReferences :=
          [{ apiVersion, kind, name := job.name, uid := job.uid, controller := true,
             blockOwnerDeletion := true }] }

def getFrontConfig : Except Halt String :=
  if r.config.frontConfig = "" then .ok ""
  else
    match r.compact r.config.frontConfig with
    | .error e => .error (.error e)
    | .ok s => .ok s

/-- The results of `checkRsyncFront`. -/
structure RsyncFront where
  disableFront : Bool
  disableRsync : Bool
  frontCmd : List String
  rsyncCmd : List String
  frontMode : String
  frontImage : String
  rsyncImage : String

/-- The command of the Job, or else of the configuration, split at blanks. -/
def commandOf (job config : String) : List String :=
  if job ≠ "" then splitSpaces job else if config ≠ "" then splitSpaces config else []

def checkRsyncFront (job : Job) : RsyncFront :=
  let frontMode := orElse job.spec.deploy.frontMode r.config.frontMode
  let rsyncImage := orElse job.spec.deploy.rsyncImage r.config.rsyncImage
  { frontCmd := commandOf job.spec.deploy.frontCmd r.config.frontCmd
    rsyncCmd := commandOf job.spec.deploy.rsyncCmd r.config.rsyncCmd
    disableFront := frontMode = "" || (parseBool job.spec.deploy.disableFront).getD false
    disableRsync := rsyncImage = "" || (parseBool job.spec.deploy.disableRsync).getD false
    frontMode
    frontImage :=
      if frontMode ≠ "" ∧ r.config.frontImage = "" then frontMode ++ ":latest"
      else r.config.frontImage
    rsyncImage }

/-! ### The builders -/

/-- The size is parsed before the default replaces an empty one. -/
def storageSize (job : Job) : Except Halt String := do
  let size ← r.mustParse job.spec.volume.size
  if job.spec.volume.size = "" then r.mustParse "50Gi" else pure size

def desiredPersistentVolumeClaim (job : Job) : Except Halt PersistentVolumeClaim := do
  let storage ← r.storageSize job
  let accessModes :=
    [orElse job.spec.volume.accessMode (orElse r.config.accessMode "ReadWriteOnce")]
  let storageClassName :=
    match job.spec.volume.storageClass with
    | some c => some c
    | none => if r.config.storageClass ≠ "" then some r.config.storageClass else none
  let metadata ← r.setControllerReference job (metaOf job job.name [])
  pure { metadata, storage, accessModes, storageClassName }

def desiredFrontConfigmap (job : Job) : Except Halt (Option ConfigMap) := do
  let caddyConfig ← r.getFrontConfig
  if caddyConfig = "" then pure none
  else
    pure (some
      { metadata := metaOf job (job.name ++ "-front") [], data := [("frontConfig", caddyConfig)] })

def probe (port : ℕ) : Probe :=
  { port, initialDelaySeconds := 10, timeoutSeconds := 5, periodSeconds := 30,
    successThreshold := 1, failureThreshold := 5 }

/-- The mount of the data volume, which every container has. -/
def dataMount (job : Job) : VolumeMount :=
  { name := job.name, mountPath := "/data/" ++ job.name }

def pullPolicy (job : Job) : String :=
  orElse job.spec.deploy.imagePullPolicy (orElse r.config.pullPolicy "IfNotPresent")

def workerEnv (job : Job) (manager : String) : List EnvVar :=
  let c := job.spec.config
  [{ name := "NAME", value := job.name },
    { name := "PROVIDER", value := c.provider },
    { name := "UPSTREAM", value := c.upstream },
    { name := "MIRROR_PATH", value := c.mirrorPath },
    { name := "CONCURRENT", value := toString c.concurrent },
    { name := "INTERVAL", value := toString c.interval },
    { name := "RETRY", value := toString c.retry },
    { name := "TIMEOUT", value := toString c.timeout },
    { name := "COMMAND", value := c.command },
    { name := "FAIL_ON_MATCH", value := c.failOnMatch },
    { name := "SIZE_PATTERN", value := c.sizePattern },
    { name := "IPV6", value := c.ipv6Only },
    { name := "IPV4", value := c.ipv4Only },
    { name := "EXCLUDE_FILE", value := c.excludeFile },
    { name := "RSYNC_OPTIONS", value := c.rsyncOptions },
    { name := "STAGE1_PROFILE", value := c.stage1Profile },
    { name := "EXEC_ON_SUCCESS", value := c.execOnSuccess },
    { name := "EXEC_ON_FAILURE", value := c.execOnFailure },
    { name := "API", value := "http://" ++ manager ++ ":3000" },
    { name := "ADDR", value := ":" ++ toString apiPort }] ++
  job.spec.deploy.env ++ c.additionEnvs ++
  if c.debug ≠ "" ∨ r.config.debug then [{ name := "DEBUG", value := "true" }] else []

/-- A resource limit, parsed only when it is set. -/
def limit (resource text : String) : Except Halt (List (String × String)) :=
  if text ≠ "" then do
    let q ← r.mustParse text
    pure [(resource, q)]
  else pure []

def workerLimits (job : Job) : Except Halt (Option (List (String × String))) :=
  if job.spec.deploy.memoryLimit ≠ "" ∨ job.spec.deploy.cpuLimit ≠ "" then do
    let memory ← r.limit "limits.memory" job.spec.deploy.memoryLimit
    let cpu ← r.limit "limits.cpu" job.spec.deploy.cpuLimit
    pure (some (memory ++ cpu))
  else pure none

def workerImage (job : Job) : String := orElse job.spec.deploy.image r.config.workerImage

/-- The worker's container, left out when no image is known for it. -/
def workerContainer (job : Job) (manager : String) : Except Halt (List Container) :=
  if job.spec.config.upstream = "" then .error (.error "upstream not set")
  else do
    let limits ← r.workerLimits job
    if r.workerImage job = "" then pure []
    else
      pure
        [{ name := job.name
           image := r.workerImage job
           imagePullPolicy := r.pullPolicy job
           env := r.workerEnv job manager
           livenessProbe := probe apiPort
           readinessProbe := probe apiPort
           volumeMounts := [dataMount job]
           ports := [{ containerPort := apiPort, name := "api", protocol := "TCP" }]
           limits }]

/-- A disabled job has no worker. -/
def worker (job : Job) (manager : String) : Except Halt (List Container) :=
  if job.status.status ≠ .disabled then r.workerContainer job manager else .ok []

def frontContainer (job : Job) (frontCM : Option ConfigMap) : Container :=
  { name := job.name ++ "-front"
    image := (r.checkRsyncFront job).frontImage
    imagePullPolicy := r.pullPolicy job
    env := [{ name := "JOB_NAME", value := job.name }]
    livenessProbe := probe frontPort
    readinessProbe := probe frontPort
    volumeMounts := dataMount job ::
      match frontCM with
      | some cm =>
          [{ name := cm.metadata.name, subPath := "frontConfig",
             mountPath := "/etc/frontConfig" }]
      | none => []
    ports := { containerPort := frontPort, name := "front", protocol := "TCP" } ::
      if r.config.enableMetric then
        [{ containerPort := metricPort, name := "metrics", protocol := "TCP" }]
      else []
    command := (r.checkRsyncFront job).frontCmd }

def rsyncContainer (job : Job) : Container :=
  { name := job.name ++ "-rsync"
    image := (r.checkRsyncFront job).rsyncImage
    imagePullPolicy := r.pullPolicy job
    livenessProbe := probe rsyncPort
    readinessProbe := probe rsyncPort
    volumeMounts := [dataMount job]
    ports := [{ containerPort := rsyncPort, name := "rsync", protocol := "TCP" }]
    command := (r.checkRsyncFront job).rsyncCmd }

/-- The containers of the front end and of the rsync daemon. -/
def servers (job : Job) (frontCM : Option ConfigMap) : List Container :=
  (if (r.checkRsyncFront job).disableFront then [] else [r.frontContainer job frontCM]) ++
    if (r.checkRsyncFront job).disableRsync then [] else [r.rsyncContainer job]

def volumes (job : Job) (frontCM : Option ConfigMap) : List Volume :=
  { name := job.name, source := .persistentVolumeClaim job.name } ::
    match (r.checkRsyncFront job).disableFront, frontCM with
    | false, some cm => [{ name := cm.metadata.name, source := .configMap cm.metadata.name }]
    | _, _ => []

def pullSecrets (job : Job) : Option (List String) :=
  match job.spec.deploy.imagePullSecrets with
  | some secrets => some secrets
  | none => if r.config.pullSecret ≠ "" then some [r.config.pullSecret] else none

def deployment (job : Job) (frontCM : Option ConfigMap) (containers : List Container)
    (metadata : ObjectMeta) : Deployment :=
  { metadata
    matchLabels := getCommonLabels job.name
    templateLabels := getCommonLabels job.name
    pod :=
      { enableServiceLinks := false
        containers
        volumes := r.volumes job frontCM
        imagePullSecrets := r.pullSecrets job
        nodeName := job.spec.deploy.nodeName
        affinity := job.spec.deploy.affinity
        tolerations := job.spec.deploy.tolerations } }

/-- The Deployment with the given containers, `none` when there are none. -/
def deploymentOf (job : Job) (frontCM : Option ConfigMap) (containers : List Container) :
    Except Halt (Option Deployment) :=
  if containers.isEmpty then .ok none
  else do
    let metadata ← r.setControllerReference job (metaOf job job.name [])
    pure (some (r.deployment job frontCM containers metadata))

def desiredDeployment (job : Job) (manager : String) (frontCM : Option ConfigMap) :
    Except Halt (Option Deployment) := do
  let worker ← r.worker job manager
  r.deploymentOf job frontCM (worker ++ r.servers job frontCM)

def desiredService (job : Job) : Except Halt Service := do
  let metadata ← r.setControllerReference job (metaOf job (serviceName job.name) [])
  let port (name : String) (port : ℕ) : ServicePort :=
    { name, port, protocol := "TCP", targetPort := name }
  pure
    { metadata
      ports := [port "api" apiPort] ++
        (if (r.checkRsyncFront job).disableFront then [] else [port "front" frontPort]) ++
        (if (r.checkRsyncFront job).disableRsync then [] else [port "rsync" rsyncPort]) ++
        (if r.config.enableMetric then [port "metrics" metricPort] else [])
      selector := getCommonLabels job.name
      type := "ClusterIP" }

/-- The entries of `changes` replace those of `base` with the same key. -/
def mergeAnnotations (base changes : List (String × String)) : List (String × String) :=
  base.filter (fun a => changes.all fun b => b.1 ≠ a.1) ++ changes

def desiredIngress (job : Job) : Except Halt Ingress := do
  let cfg := r.config
  let ing := job.spec.ingress
  let annotations := mergeAnnotations cfg.frontAnn ing.annotations
  let metadata ← r.setControllerReference job (metaOf job job.name annotations)
  pure
    { metadata
      ingressClassName :=
        if cfg.frontClass ≠ "" ∨ ing.ingressClass ≠ "" then
          some (orElse ing.ingressClass cfg.frontClass)
        else none
      tlsSecrets :=
        if cfg.frontTLS ≠ "" ∨ ing.tlsSecret ≠ "" then [orElse ing.tlsSecret cfg.frontTLS] else []
      host := orElse ing.host cfg.frontHost
      paths :=
        [{ path := "/" ++ job.name, pathType := "Prefix", serviceName := serviceName job.name,
           servicePort := "front" }] }

def desiredServiceMonitor (job : Job) : ServiceMonitor :=
  { metadata := metaOf job job.name []
    jobLabel := "job"
    matchNames := [job.ns]
    matchLabels := getCommonLabels job.name
    endpoints := [{ port := "metrics", path := "/" }] }

/-! ### Reconcile -/

/-- What `Reconcile` has built before it makes the first call that changes the cluster. -/
structure Built where
  disableFront : Bool
  ig : Option Ingress
  frontCM : Option ConfigMap
  pvc : PersistentVolumeClaim
  app : Option Deployment
  svc : Service
  sm : Option ServiceMonitor

/-- The objects for the front end, built only when it is enabled. -/
def buildFront (job : Job) : Except Halt (Option Ingress × Option ConfigMap) :=
  if (r.checkRsyncFront job).disableFront then .ok (none, none)
  else do
    let ig ← r.desiredIngress job
    let frontCM ← r.desiredFrontConfigmap job
    pure (some ig, frontCM)

def build (job : Job) (manager : String) : Except Halt Built := do
  let (ig, frontCM) ← r.buildFront job
  let pvc ← r.desiredPersistentVolumeClaim job
  let app ← r.desiredDeployment job manager frontCM
  let svc ← r.desiredService job
  let sm := if r.config.enableMetric then some (desiredServiceMonitor job) else none
  pure
    { disableFront := (r.checkRsyncFront job).disableFront, ig, frontCM, pvc, app, svc, sm }

/-- The apply path. -/
def Built.applies (b : Built) (app : Deployment) : List Action :=
  [.apply (.service b.svc)] ++
    (if b.disableFront then []
     else (b.ig.map fun ig => Action.apply (.ingress ig)).toList ++
       (b.frontCM.map fun cm => Action.apply (.configMap cm)).toList) ++
    [.apply (.deployment app)] ++ (b.sm.map fun sm => Action.apply (.serviceMonitor sm)).toList

/-- The delete path. -/
def deletes (job : Job) : List Action :=
  [.delete .ingress job.name, .delete .service job.name, .delete .deployment job.name,
    .delete .configMap job.name, .delete .serviceMonitor job.name]

/-- The calls of `Reconcile` from the first apply on. -/
def Built.actions (b : Built) (job : Job) : List Action :=
  [.apply (.persistentVolumeClaim b.pvc)] ++
    (match b.app with
     | some app => b.applies app
     | none => deletes job) ++
    if b.disableFront then [.delete .ingress job.name] else []

/-- Jobs of another type than mirror are left alone. -/
def skips (job : Job) : Bool :=
  decide (job.spec.config.type ≠ .other "" ∧ job.spec.config.type ≠ .mirror)

/-- The effect of `Reconcile` on the cluster, all API calls succeeding: the calls it makes, or the
failure it ends with.  `managers` are the names of the active managers of the namespace. -/
def reconcile (managers : List String) (job : Job) : Except Halt (List Action) :=
  match managers with
  | [] => .error (.error "no active manager in this namespace")
  | manager :: _ =>
      if skips job then .ok []
      else do
        let b ← r.build job manager
        pure (b.actions job)

/-- The status that `Reconcile` stores at its end. -/
def reconciledStatus (job : Job) : JobStatus :=
  if job.status.status = .other "" then { job.status with status := .created } else job.status

/-- The cluster after `Reconcile`. -/
def after (managers : List String) (c : Cluster) (job : Job) : Cluster :=
  match r.reconcile managers job with
  | .ok actions => c.exec actions
  | .error _ => c

end Reconciler
end KubeSync.Controller
