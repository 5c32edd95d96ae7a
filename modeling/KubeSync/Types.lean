import Mathlib.Algebra.Group.Int.Defs
import Mathlib.Algebra.Group.Nat.Defs
import Mathlib.Data.Int.Basic

/-! # The API types

The Job resource (`api/v1beta1`) and the command message (`internal/types.go`).

* Go's string enumerations become inductive types with a constructor `other` for every text that
  is not one of the declared constants; the zero value of the Go type is `other ""`.
* `int64` fields are integers and `uint64` fields natural numbers; where the code computes with
  them, `wrapInt64` is its arithmetic.
* Kubernetes values that the code only copies (affinities, tolerations, environment sources) are
  kept as their serialised text. -/

namespace KubeSync

/-- `int64` arithmetic. -/
def wrapInt64 (z : ℤ) : ℤ := (z + 2 ^ 63) % 2 ^ 64 - 2 ^ 63

/-- `v1beta1.SyncStatus`. -/
inductive SyncStatus where
  | none
  | failed
  | success
  | syncing
  | preSyncing
  | paused
  | disabled
  | cached
  | created
  | other (s : String)
deriving DecidableEq, Repr

/-- `v1beta1.MirrorType`. -/
inductive MirrorType where
  | mirror
  | proxy
  | git
  | external
  | other (s : String)
deriving DecidableEq, Repr

/-- `v1beta1.JobStatus`. -/
structure JobStatus where
  status : SyncStatus := .other ""
  lastUpdate : ℤ := 0
  lastStarted : ℤ := 0
  lastEnded : ℤ := 0
  scheduled : ℤ := 0
  upstream : String := ""
  size : ℕ := 0
  errorMsg : String := ""
  lastOnline : ℤ := 0
  lastRegister : ℤ := 0
deriving DecidableEq, Repr

/-! ### The spec of a Job -/

/-- `corev1.EnvVar`. -/
structure EnvVar where
  name : String
  value : String := ""
  valueFrom : Option String := .none
deriving DecidableEq, Repr

/-- `v1beta1.JobConfig`. -/
structure JobConfig where
  aliasName : String := ""
  desc : String := ""
  url : String := ""
  helpUrl : String := ""
  type : MirrorType := .other ""
  upstream : String := ""
  provider : String := ""
  mirrorPath : String := ""
  command : String := ""
  concurrent : ℤ := 0
  interval : ℤ := 0
  retry : ℤ := 0
  timeout : ℤ := 0
  failOnMatch : String := ""
  ipv6Only : String := ""
  ipv4Only : String := ""
  excludeFile : String := ""
  rsyncOptions : String := ""
  stage1Profile : String := ""
  execOnSuccess : String := ""
  execOnFailure : String := ""
  sizePattern : String := ""
  additionEnvs : List EnvVar := []
  debug : String := ""
deriving DecidableEq, Repr

/-- `v1beta1.DeployConfig`.  A nil slice or pointer is `none`. -/
structure DeployConfig where
  image : String := ""
  env : List EnvVar := []
  imagePullPolicy : String := ""
  imagePullSecrets : Option (List String) := .none
  nodeName : String := ""
  affinity : Option String := .none
  tolerations : Option (List String) := .none
  cpuLimit : String := ""
  memoryLimit : String := ""
deriving DecidableEq, Repr

/-- `v1beta1.JobDeploy`. -/
structure JobDeploy extends DeployConfig where
  disableFront : String := ""
  frontMode : String := ""
  frontImage : String := ""
  frontCmd : String := ""
  disableRsync : String := ""
  rsyncImage : String := ""
  rsyncCmd : String := ""
deriving DecidableEq, Repr

/-- `v1beta1.PVConfig`. -/
structure PVConfig where
  size : String := ""
  storageClass : Option String := .none
  accessMode : String := ""
deriving DecidableEq, Repr

/-- `v1beta1.IngressConfig`; the annotations are an association list without repeated keys. -/
structure IngressConfig where
  ingressClass : String := ""
  tlsSecret : String := ""
  host : String := ""
  annotations : List (String × String) := []
deriving DecidableEq, Repr

/-- `v1beta1.JobSpec`. -/
structure JobSpec where
  config : JobConfig := {}
  deploy : JobDeploy := {}
  volume : PVConfig := {}
  ingress : IngressConfig := {}
deriving DecidableEq, Repr

/-- `v1beta1.Job`: the metadata that the code or the API server reads, the spec and the status. -/
structure Job where
  name : String
  ns : String := ""
  uid : String := ""
  generation : ℕ := 1
  spec : JobSpec := {}
  status : JobStatus := {}
deriving DecidableEq, Repr

/-! ### Commands -/

/-- `internal.CmdVerb`. -/
inductive CmdVerb where
  | start
  | stop
  | restart
  | ping
  | update
deriving DecidableEq, Repr

/-- `internal.ClientCmd`. -/
structure ClientCmd where
  cmd : CmdVerb
  force : Bool := false
deriving DecidableEq, Repr

end KubeSync
