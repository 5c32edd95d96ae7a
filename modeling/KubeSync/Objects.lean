import KubeSync.Types
import KubeSync.Edits

/-! # The objects of the cluster

The Kubernetes objects that the job controller applies, with the fields it sets, and the cluster
as a map from kinds and names to objects.

* The kind and the API version of an object are its Lean type; the model has one namespace, so
  that an object is identified by its kind and its name.
* String maps (labels, annotations, data, limits) are association lists without repeated keys.
* A parsed quantity is kept as its canonical text. -/

namespace KubeSync

/-! ### Metadata -/

/-- `metav1.OwnerReference`. -/
structure OwnerReference where
  apiVersion : String
  kind : String
  name : String
  uid : String
  controller : Bool
  blockOwnerDeletion : Bool
deriving DecidableEq, Repr

/-- `metav1.ObjectMeta`. -/
structure ObjectMeta where
  name : String
  ns : String
  labels : List (String × String)
  annotations : List (String × String) := []
  ownerReferences : List OwnerReference := []
deriving DecidableEq, Repr

/-! ### Pods -/

/-- `corev1.Probe` with a TCP check of `port`. -/
structure Probe where
  port : ℕ
  initialDelaySeconds : ℕ
  timeoutSeconds : ℕ
  periodSeconds : ℕ
  successThreshold : ℕ
  failureThreshold : ℕ
deriving DecidableEq, Repr

structure VolumeMount where
  name : String
  mountPath : String
  subPath : String := ""
deriving DecidableEq, Repr

structure ContainerPort where
  containerPort : ℕ
  name : String
  protocol : String
deriving DecidableEq, Repr

/-- `corev1.Container`; `limits` is the list of resource limits, `none` when none are set. -/
structure Container where
  name : String
  image : String
  imagePullPolicy : String
  env : List EnvVar := []
  livenessProbe : Probe
  readinessProbe : Probe
  volumeMounts : List VolumeMount
  ports : List ContainerPort
  command : List String := []
  limits : Option (List (String × String)) := none
deriving DecidableEq, Repr

inductive VolumeSource where
  | persistentVolumeClaim (claimName : String)
  | configMap (name : String)
deriving DecidableEq, Repr

structure Volume where
  name : String
  source : VolumeSource
deriving DecidableEq, Repr

/-- `corev1.PodSpec`. -/
structure PodSpec where
  enableServiceLinks : Bool
  containers : List Container
  volumes : List Volume
  imagePullSecrets : Option (List String) := none
  nodeName : String := ""
  affinity : Option String := none
  tolerations : Option (List String) := none
deriving DecidableEq, Repr

/-! ### The kinds -/

/-- `appsv1.Deployment`. -/
structure Deployment where
  metadata : ObjectMeta
  matchLabels : List (String × String)
  templateLabels : List (String × String)
  pod : PodSpec
deriving DecidableEq, Repr

structure ServicePort where
  name : String
  port : ℕ
  protocol : String
  targetPort : String
deriving DecidableEq, Repr

/-- `corev1.Service`. -/
structure Service where
  metadata : ObjectMeta
  ports : List ServicePort
  selector : List (String × String)
  type : String
deriving DecidableEq, Repr

structure IngressPath where
  path : String
  pathType : String
  serviceName : String
  servicePort : String
deriving DecidableEq, Repr

/-- `networkingv1.Ingress` with its single rule. -/
structure Ingress where
  metadata : ObjectMeta
  ingressClassName : Option String
  tlsSecrets : List String
  host : String
  paths : List IngressPath
deriving DecidableEq, Repr

/-- `corev1.ConfigMap`. -/
structure ConfigMap where
  metadata : ObjectMeta
  data : List (String × String)
deriving DecidableEq, Repr

/-- `corev1.PersistentVolumeClaim`. -/
structure PersistentVolumeClaim where
  metadata : ObjectMeta
  storage : String
  accessModes : List String
  storageClassName : Option String
deriving DecidableEq, Repr

structure Endpoint where
  port : String
  path : String
deriving DecidableEq, Repr

/-- `monitoringv1.ServiceMonitor`. -/
structure ServiceMonitor where
  metadata : ObjectMeta
  jobLabel : String
  matchNames : List String
  matchLabels : List (String × String)
  endpoints : List Endpoint
deriving DecidableEq, Repr

/-! ### The cluster -/

inductive Kind where
  | deployment
  | service
  | ingress
  | configMap
  | persistentVolumeClaim
  | serviceMonitor
deriving DecidableEq, Repr

inductive Object where
  | deployment (o : Deployment)
  | service (o : Service)
  | ingress (o : Ingress)
  | configMap (o : ConfigMap)
  | persistentVolumeClaim (o : PersistentVolumeClaim)
  | serviceMonitor (o : ServiceMonitor)
deriving DecidableEq, Repr

def Object.kind : Object → Kind
  | .deployment _ => .deployment
  | .service _ => .service
  | .ingress _ => .ingress
  | .configMap _ => .configMap
  | .persistentVolumeClaim _ => .persistentVolumeClaim
  | .serviceMonitor _ => .serviceMonitor

def Object.metadata : Object → ObjectMeta
  | .deployment o => o.metadata
  | .service o => o.metadata
  | .ingress o => o.metadata
  | .configMap o => o.metadata
  | .persistentVolumeClaim o => o.metadata
  | .serviceMonitor o => o.metadata

/-- What identifies an object. -/
abbrev Key := Kind × String

def Object.key (o : Object) : Key := (o.kind, o.metadata.name)

/-- The objects that exist. -/
abbrev Cluster := Key → Option Object

/-- An API call that changes the cluster: server-side apply, which sets an object to its desired
value, or a deletion, which is without effect when there is no such object. -/
inductive Action where
  | apply (o : Object)
  | delete (kind : Kind) (name : String)
deriving DecidableEq, Repr

def Action.key : Action → Key
  | .apply o => o.key
  | .delete kind name => (kind, name)

def Action.edit : Action → Key × Option Object
  | .apply o => (o.key, some o)
  | .delete kind name => ((kind, name), none)

@[simp] theorem Action.edit_fst (a : Action) : a.edit.1 = a.key := by
  cases a <;> rfl

def Cluster.exec (c : Cluster) (as : List Action) : Cluster := Edits.exec c (as.map Action.edit)

end KubeSync
