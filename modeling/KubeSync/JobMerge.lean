import KubeSync.Float64
import KubeSync.Manager

/-! # Changes of a job's spec

`createJob` (`manager/server.go`) changes the spec of a known job by way of JSON: the stored spec is
written and read into maps, the maps of the body are laid over them (`handleMerge`), and the result
is written and read into a spec again.

* The fields of a spec are listed by `Key`, with the names and the kinds of their JSON tags
  (`api/v1beta1/job_types.go`, `manager_types.go`).  A spec is a function of its keys (`field`,
  `ofFields`).
* Values of Kubernetes types stand for their JSON texts, which `encoding/json` reads back.  The
  names in a body are those of the fields; `encoding/json` would also take them in another case.
* A number that is read into a map is a double-precision number, and is written with the fewest
  digits (`Float64`).
* Two values of a field are not told apart where the same is written for them.  `client.Patch` sends
  the spec as it is written, so that an empty list is no different from none. -/

namespace KubeSync.JobMerge

/-! ### The fields of a spec -/

inductive ConfigKey where
  | aliasName | desc | url | helpUrl | type | upstream | provider | mirrorPath | command
  | concurrent | interval | retry | timeout | failOnMatch | ipv6Only | ipv4Only | excludeFile
  | rsyncOptions | stage1Profile | execOnSuccess | execOnFailure | sizePattern | additionEnvs
  | debug
deriving DecidableEq, Repr

inductive DeployKey where
  | image | env | imagePullPolicy | imagePullSecrets | nodeName | affinity | tolerations
  | cpuLimit | memoryLimit | disableFront | frontMode | frontImage | frontCmd | disableRsync
  | rsyncImage | rsyncCmd
deriving DecidableEq, Repr

inductive VolumeKey where
  | size | storageClass | accessMode
deriving DecidableEq, Repr

inductive IngressKey where
  | ingressClass | tlsSecret | host | annotations
deriving DecidableEq, Repr

inductive Key where
  | config (k : ConfigKey)
  | deploy (k : DeployKey)
  | volume (k : VolumeKey)
  | ingress (k : IngressKey)
deriving DecidableEq, Repr

def Key.all : List Key :=
  [.config .aliasName, .config .desc, .config .url, .config .helpUrl, .config .type,
    .config .upstream, .config .provider, .config .mirrorPath, .config .command,
    .config .concurrent, .config .interval, .config .retry, .config .timeout,
    .config .failOnMatch, .config .ipv6Only, .config .ipv4Only, .config .excludeFile,
    .config .rsyncOptions, .config .stage1Profile, .config .execOnSuccess, .config .execOnFailure,
    .config .sizePattern, .config .additionEnvs, .config .debug, .deploy .image, .deploy .env,
    .deploy .imagePullPolicy, .deploy .imagePullSecrets, .deploy .nodeName, .deploy .affinity,
    .deploy .tolerations, .deploy .cpuLimit, .deploy .memoryLimit, .deploy .disableFront,
    .deploy .frontMode, .deploy .frontImage, .deploy .frontCmd, .deploy .disableRsync,
    .deploy .rsyncImage, .deploy .rsyncCmd, .volume .size, .volume .storageClass,
    .volume .accessMode, .ingress .ingressClass, .ingress .tlsSecret, .ingress .host,
    .ingress .annotations]

theorem Key.mem_all (k : Key) : k ∈ Key.all := by
  rcases k with k | k | k | k <;> cases k <;> decide

/-- The sections of a spec. -/
inductive Part where
  | config | deploy | volume | ingress
deriving DecidableEq, Repr

/-- How a field is written; all but `required` have the option `omitempty`. -/
inductive Kind where
  | text
  | required
  | mirrorType
  | int
  | envs
  | secrets
  | affinity
  | tolerations
  | pointer
  | annotations
deriving DecidableEq, Repr

def Kind.type : Kind → Type
  | .text => String
  | .required => String
  | .mirrorType => MirrorType
  | .int => ℤ
  | .envs => List EnvVar
  | .secrets => Option (List String)
  | .affinity => Option String
  | .tolerations => Option (List String)
  | .pointer => Option String
  | .annotations => List (String × String)

def Key.part : Key → Part
  | .config _ => .config
  | .deploy _ => .deploy
  | .volume _ => .volume
  | .ingress _ => .ingress

def Key.name : Key → String
  | .config .aliasName => "alias"
  | .config .desc => "desc"
  | .config .url => "url"
  | .config .helpUrl => "helpUrl"
  | .config .type => "type"
  | .config .upstream => "upstream"
  | .config .provider => "provider"
  | .config .mirrorPath => "mirrorPath"
  | .config .command => "command"
  | .config .concurrent => "concurrent"
  | .config .interval => "interval"
  | .config .retry => "retry"
  | .config .timeout => "timeout"
  | .config .failOnMatch => "failOnMatch"
  | .config .ipv6Only => "IPv6Only"
  | .config .ipv4Only => "IPv4Only"
  | .config .excludeFile => "excludeFile"
  | .config .rsyncOptions => "rsyncOptions"
  | .config .stage1Profile => "stage1Profile"
  | .config .execOnSuccess => "execOnSuccess"
  | .config .execOnFailure => "execOnFailure"
  | .config .sizePattern => "sizePattern"
  | .config .additionEnvs => "additionEnvs"
  | .config .debug => "debug"
  | .deploy .image => "image"
  | .deploy .env => "env"
  | .deploy .imagePullPolicy => "imagePullPolicy"
  | .deploy .imagePullSecrets => "imagePullSecrets"
  | .deploy .nodeName => "nodeName"
  | .deploy .affinity => "affinity"
  | .deploy .tolerations => "tolerations"
  | .deploy .cpuLimit => "cpuLimit"
  | .deploy .memoryLimit => "memLimit"
  | .deploy .disableFront => "disableFront"
  | .deploy .frontMode => "frontMode"
  | .deploy .frontImage => "frontImage"
  | .deploy .frontCmd => "frontCmd"
  | .deploy .disableRsync => "disableRsync"
  | .deploy .rsyncImage => "rsyncImage"
  | .deploy .rsyncCmd => "rsyncCmd"
  | .volume .size => "size"
  | .volume .storageClass => "storageClass"
  | .volume .accessMode => "accessMode"
  | .ingress .ingressClass => "ingressClass"
  | .ingress .tlsSecret => "TLSSecret"
  | .ingress .host => "host"
  | .ingress .annotations => "annotations"

def Key.kind : Key → Kind
  | .config .type => .mirrorType
  | .config .upstream => .required
  | .config .concurrent => .int
  | .config .interval => .int
  | .config .retry => .int
  | .config .timeout => .int
  | .config .additionEnvs => .envs
  | .config _ => .text
  | .deploy .env => .envs
  | .deploy .imagePullSecrets => .secrets
  | .deploy .affinity => .affinity
  | .deploy .tolerations => .tolerations
  | .deploy _ => .text
  | .volume .storageClass => .pointer
  | .volume _ => .text
  | .ingress .annotations => .annotations
  | .ingress _ => .text

/-- The value of a field. -/
def field (s : JobSpec) : (k : Key) → k.kind.type
  | .config .aliasName => s.config.aliasName
  | .config .desc => s.config.desc
  | .config .url => s.config.url
  | .config .helpUrl => s.config.helpUrl
  | .config .type => s.config.type
  | .config .upstream => s.config.upstream
  | .config .provider => s.config.provider
  | .config .mirrorPath => s.config.mirrorPath
  | .config .command => s.config.command
  | .config .concurrent => s.config.concurrent
  | .config .interval => s.config.interval
  | .config .retry => s.config.retry
  | .config .timeout => s.config.timeout
  | .config .failOnMatch => s.config.failOnMatch
  | .config .ipv6Only => s.config.ipv6Only
  | .config .ipv4Only => s.config.ipv4Only
  | .config .excludeFile => s.config.excludeFile
  | .config .rsyncOptions => s.config.rsyncOptions
  | .config .stage1Profile => s.config.stage1Profile
  | .config .execOnSuccess => s.config.execOnSuccess
  | .config .execOnFailure => s.config.execOnFailure
  | .config .sizePattern => s.config.sizePattern
  | .config .additionEnvs => s.config.additionEnvs
  | .config .debug => s.config.debug
  | .deploy .image => s.deploy.image
  | .deploy .env => s.deploy.env
  | .deploy .imagePullPolicy => s.deploy.imagePullPolicy
  | .deploy .imagePullSecrets => s.deploy.imagePullSecrets
  | .deploy .nodeName => s.deploy.nodeName
  | .deploy .affinity => s.deploy.affinity
  | .deploy .tolerations => s.deploy.tolerations
  | .deploy .cpuLimit => s.deploy.cpuLimit
  | .deploy .memoryLimit => s.deploy.memoryLimit
  | .deploy .disableFront => s.deploy.disableFront
  | .deploy .frontMode => s.deploy.frontMode
  | .deploy .frontImage => s.deploy.frontImage
  | .deploy .frontCmd => s.deploy.frontCmd
  | .deploy .disableRsync => s.deploy.disableRsync
  | .deploy .rsyncImage => s.deploy.rsyncImage
  | .deploy .rsyncCmd => s.deploy.rsyncCmd
  | .volume .size => s.volume.size
  | .volume .storageClass => s.volume.storageClass
  | .volume .accessMode => s.volume.accessMode
  | .ingress .ingressClass => s.ingress.ingressClass
  | .ingress .tlsSecret => s.ingress.tlsSecret
  | .ingress .host => s.ingress.host
  | .ingress .annotations => s.ingress.annotations

/-- The spec with the given fields. -/
def ofFields (v : (k : Key) → k.kind.type) : JobSpec where
  config :=
    { aliasName := v (.config .aliasName)
      desc := v (.config .desc)
      url := v (.config .url)
      helpUrl := v (.config .helpUrl)
      type := v (.config .type)
      upstream := v (.config .upstream)
      provider := v (.config .provider)
      mirrorPath := v (.config .mirrorPath)
      command := v (.config .command)
      concurrent := v (.config .concurrent)
      interval := v (.config .interval)
      retry := v (.config .retry)
      timeout := v (.config .timeout)
      failOnMatch := v (.config .failOnMatch)
      ipv6Only := v (.config .ipv6Only)
      ipv4Only := v (.config .ipv4Only)
      excludeFile := v (.config .excludeFile)
      rsyncOptions := v (.config .rsyncOptions)
      stage1Profile := v (.config .stage1Profile)
      execOnSuccess := v (.config .execOnSuccess)
      execOnFailure := v (.config .execOnFailure)
      sizePattern := v (.config .sizePattern)
      additionEnvs := v (.config .additionEnvs)
      debug := v (.config .debug) }
  deploy :=
    { image := v (.deploy .image)
      env := v (.deploy .env)
      imagePullPolicy := v (.deploy .imagePullPolicy)
      imagePullSecrets := v (.deploy .imagePullSecrets)
      nodeName := v (.deploy .nodeName)
      affinity := v (.deploy .affinity)
      tolerations := v (.deploy .tolerations)
      cpuLimit := v (.deploy .cpuLimit)
      memoryLimit := v (.deploy .memoryLimit)
      disableFront := v (.deploy .disableFront)
      frontMode := v (.deploy .frontMode)
      frontImage := v (.deploy .frontImage)
      frontCmd := v (.deploy .frontCmd)
      disableRsync := v (.deploy .disableRsync)
      rsyncImage := v (.deploy .rsyncImage)
      rsyncCmd := v (.deploy .rsyncCmd) }
  volume :=
    { size := v (.volume .size)
      storageClass := v (.volume .storageClass)
      accessMode := v (.volume .accessMode) }
  ingress :=
    { ingressClass := v (.ingress .ingressClass)
      tlsSecret := v (.ingress .tlsSecret)
      host := v (.ingress .host)
      annotations := v (.ingress .annotations) }

/-- No field of a spec is left out. -/
theorem ofFields_field (s : JobSpec) : ofFields (field s) = s := rfl

theorem field_ofFields (v : (k : Key) → k.kind.type) (k : Key) : field (ofFields v) k = v k := by
  rcases k with k | k | k | k <;> cases k <;> rfl

/-! ### JSON -/

/-- A JSON value as far as the fields of a spec have them.  In a map, `num` is a double-precision
number. -/
inductive Json where
  | null
  | num (n : ℤ)
  | str (s : String)
  | envs (l : List EnvVar)
  | secrets (l : List String)
  | affinity (a : String)
  | tolerations (l : List String)
  | annotations (l : List (String × String))
deriving DecidableEq, Repr

/-- A JSON value read into an `interface{}`. -/
def Json.toInterface : Json → Json
  | .num n => .num (Float64.ofInt n)
  | j => j

/-- An `interface{}` written as JSON. -/
def Json.ofInterface : Json → Json
  | .num v => .num (Float64.format v)
  | j => j

def mirrorTypeText : MirrorType → String
  | .mirror => "mirror"
  | .proxy => "proxy"
  | .git => "git"
  | .external => "external"
  | .other s => s

def mirrorTypeOf (s : String) : MirrorType :=
  if s = "mirror" then .mirror
  else if s = "proxy" then .proxy
  else if s = "git" then .git
  else if s = "external" then .external
  else .other s

namespace Kind

def zero : (κ : Kind) → κ.type
  | .text => ""
  | .required => ""
  | .mirrorType => MirrorType.other ""
  | .int => (0 : ℤ)
  | .envs => []
  | .secrets => none
  | .affinity => none
  | .tolerations => none
  | .pointer => none
  | .annotations => []

/-- What is written for a field, nothing where `omitempty` leaves it out. -/
def marshal : (κ : Kind) → κ.type → Option Json
  | .text => fun (s : String) => if s = "" then none else some (.str s)
  | .required => fun (s : String) => some (.str s)
  | .mirrorType => fun t => if mirrorTypeText t = "" then none else some (.str (mirrorTypeText t))
  | .int => fun (n : ℤ) => if n = 0 then none else some (.num n)
  | .envs => fun (l : List EnvVar) => if l = [] then none else some (.envs l)
  | .secrets => fun (l : Option (List String)) =>
      if l.getD [] = [] then none else l.map .secrets
  | .affinity => fun (a : Option String) => a.map .affinity
  | .tolerations => fun (l : Option (List String)) =>
      if l.getD [] = [] then none else l.map .tolerations
  | .pointer => fun (s : Option String) => s.map .str
  | .annotations => fun (l : List (String × String)) =>
      if l = [] then none else some (.annotations l)

/-- The value that is read for a field.  `null` leaves the zero value, and an `int` has 64 bits. -/
def unmarshal (κ : Kind) (j : Json) : Option κ.type :=
  match κ, j with
  | κ, .null => some κ.zero
  | .text, .str s => some s
  | .required, .str s => some s
  | .mirrorType, .str s => some (mirrorTypeOf s)
  | .int, .num n => if -2 ^ 63 ≤ n ∧ n < 2 ^ 63 then some n else none
  | .envs, .envs l => some l
  | .secrets, .secrets l => some (some l)
  | .affinity, .affinity a => some (some a)
  | .tolerations, .tolerations l => some (some l)
  | .pointer, .str s => some (some s)
  | .annotations, .annotations l => some l
  | _, _ => none

end Kind

/-- A JSON object of objects, by section and name. -/
abbrev Obj := Part → String → Option Json

def Obj.map (f : Json → Json) (m : Obj) : Obj := fun part name => (m part name).map f

/-- What stands in the object for a field; a field that does not stand there has its zero value. -/
def Obj.read (m : Obj) (k : Key) : Option k.kind.type :=
  match m k.part k.name with
  | none => some k.kind.zero
  | some j => k.kind.unmarshal j

/-- `json.Marshal` of a spec. -/
def marshal (s : JobSpec) : Obj := fun part name =>
  (Key.all.find? fun k => k.part = part ∧ k.name = name).bind fun k => k.kind.marshal (field s k)

/-- `json.Unmarshal` into a spec.  Fields that cannot be read are passed over. -/
def unmarshal (m : Obj) : Manager.Decoded JobSpec where
  value := ofFields fun k => (m.read k).getD k.kind.zero
  ok := Key.all.all fun k => (m.read k).isSome

/-! ### `createJob` -/

def handleMerge (oJobSpec jobSpec : Obj) : Option JobSpec :=
  let merged : Obj := fun part name => (jobSpec part name).or (oJobSpec part name)
  let nJobSpec := unmarshal (merged.map Json.ofInterface)
  if nJobSpec.ok then some nJobSpec.value else none

/-- The spec that `createJob` applies to a known job. -/
def applied (s : JobSpec) (body : Obj) : Option JobSpec :=
  handleMerge ((marshal s).map Json.toInterface) (body.map Json.toInterface)

/-- The body of a request, for an unknown job and for a known one. -/
def specBody (body : Obj) : Manager.SpecBody where
  spec := unmarshal body
  merge := { value := fun s => applied s body, ok := true }

/-! ### What a change is meant to do -/

/-- The body names fields, with values of their types. -/
def Obj.WellTyped (p : Obj) : Prop :=
  ∀ part name j, p part name = some j →
    ∃ k : Key, k.part = part ∧ k.name = name ∧ k.kind.unmarshal j ≠ none

/-- The value of the body where it names the field, and the value in `s` where it does not. -/
def Expected (s : JobSpec) (p : Obj) (k : Key) (w : k.kind.type) : Prop :=
  match p k.part k.name with
  | some j => ∃ v, k.kind.unmarshal j = some v ∧ k.kind.marshal w = k.kind.marshal v
  | none => k.kind.marshal w = k.kind.marshal (field s k)

/-- The fields that the body names have its values, all others those of `s`. -/
def Overridden (s : JobSpec) (p : Obj) (s' : JobSpec) : Prop := ∀ k, Expected s p k (field s' k)

/-- `createJob` answers the body `p` for a job with the spec `s` by applying `s'`. -/
def Applies (p : Obj) (s s' : JobSpec) : Prop :=
  ∀ jobs env id n job, Manager.get jobs env id = .ok (n, job) → job.spec = s →
    Manager.createJob jobs env id (specBody p) = Manager.applySpec jobs env id s' []

/-- The same is written for the two specs. -/
def SameSpec (s s' : JobSpec) : Prop :=
  ∀ k : Key, k.kind.marshal (field s k) = k.kind.marshal (field s' k)

/-- The body `p` overridden by the body `q`. -/
def Obj.overriddenBy (p q : Obj) : Obj := fun part name => (q part name).or (p part name)

/-- A change with `p` and one with `q` change what they name and nothing else. -/
structure ChangesExactly (s : JobSpec) (p q : Obj) : Prop where
  first : ∃ s', Applies p s s' ∧ Overridden s p s'
  second : ∃ s', Applies q s s' ∧ Overridden s q s'
  identity : ∃ s', Applies (fun _ _ => none) s s' ∧ SameSpec s' s
  twice : ∃ s₁ s₂, Applies p s s₁ ∧ Applies p s₁ s₂ ∧ SameSpec s₂ s₁
  both : ∃ s₁ s₂ s₃, Applies p s s₁ ∧ Applies q s₁ s₂ ∧ Applies (p.overriddenBy q) s s₃ ∧
    SameSpec s₂ s₃

/-- The integers of the spec are below `2 ^ 53` in magnitude. -/
def Small (s : JobSpec) : Prop :=
  ∀ (k : Key) n, k.kind.marshal (field s k) = some (.num n) → n.natAbs < 2 ^ 53

/-- The integer is written as it was read. -/
def Survives (n : ℤ) : Prop := Float64.format (Float64.ofInt n) = n

/-- The integers of the body are written as they were read. -/
def Obj.Survives (p : Obj) : Prop :=
  ∀ part name n, p part name = some (.num n) → JobMerge.Survives n

/-! ### One field -/

/-- A JSON value read into an `interface{}` and written again. -/
def Json.through (j : Json) : Json := j.toInterface.ofInterface

def InRange (n : ℤ) : Prop := -2 ^ 63 ≤ n ∧ n < 2 ^ 63

theorem through_eq {j : Json} (h : ∀ n, j = .num n → Survives n) : j.through = j := by
  cases j with
  | num n => exact congrArg Json.num (h n rfl)
  | _ => rfl

theorem mirrorTypeText_of (s : String) : mirrorTypeText (mirrorTypeOf s) = s := by
  unfold mirrorTypeOf
  repeat' split
  all_goals simp_all [mirrorTypeText]

theorem inRange_of_unmarshal {n : ℤ} {κ : Kind} (h : κ.unmarshal (.num n) ≠ none) :
    κ = .int ∧ InRange n := by
  cases κ with
  | int =>
      refine ⟨rfl, ?_⟩
      by_contra hn
      exact h (if_neg hn)
  | _ => exact absurd rfl h

/-- What is written for a field is read back as a value for which the same is written. -/
theorem unmarshal_marshal {κ : Kind} {v : κ.type} {j : Json} (h : κ.marshal v = some j)
    (hj : κ = .int → ∀ n, j = .num n → InRange n) :
    ∃ w, κ.unmarshal j = some w ∧ κ.marshal w = κ.marshal v := by
  cases κ with
  | text =>
      obtain ⟨-, hstr⟩ := Option.ite_none_left_eq_some.mp h
      obtain rfl := Option.some.inj hstr
      exact ⟨v, rfl, rfl⟩
  | required =>
      obtain rfl := Option.some.inj h
      exact ⟨v, rfl, rfl⟩
  | mirrorType =>
      obtain ⟨-, hstr⟩ := Option.ite_none_left_eq_some.mp h
      obtain rfl := Option.some.inj hstr
      refine ⟨mirrorTypeOf (mirrorTypeText v), rfl, ?_⟩
      unfold Kind.marshal
      dsimp only
      rw [mirrorTypeText_of]
  | int =>
      obtain ⟨-, hnum⟩ := Option.ite_none_left_eq_some.mp h
      obtain rfl := Option.some.inj hnum
      exact ⟨v, if_pos (hj rfl v rfl), rfl⟩
  | envs =>
      obtain ⟨-, hl⟩ := Option.ite_none_left_eq_some.mp h
      obtain rfl := Option.some.inj hl
      exact ⟨v, rfl, rfl⟩
  | secrets =>
      obtain ⟨-, hl⟩ := Option.ite_none_left_eq_some.mp h
      obtain ⟨l, rfl, rfl⟩ := Option.map_eq_some_iff.mp hl
      exact ⟨some l, rfl, rfl⟩
  | affinity =>
      obtain ⟨a, rfl, rfl⟩ := Option.map_eq_some_iff.mp h
      exact ⟨some a, rfl, rfl⟩
  | tolerations =>
      obtain ⟨-, hl⟩ := Option.ite_none_left_eq_some.mp h
      obtain ⟨l, rfl, rfl⟩ := Option.map_eq_some_iff.mp hl
      exact ⟨some l, rfl, rfl⟩
  | pointer =>
      obtain ⟨s, rfl, rfl⟩ := Option.map_eq_some_iff.mp h
      exact ⟨some s, rfl, rfl⟩
  | annotations =>
      obtain ⟨-, hl⟩ := Option.ite_none_left_eq_some.mp h
      obtain rfl := Option.some.inj hl
      exact ⟨v, rfl, rfl⟩

theorem marshal_zero {κ : Kind} {v : κ.type} (h : κ.marshal v = none) :
    κ.marshal κ.zero = κ.marshal v := by
  rw [h]
  cases κ with
  | required => cases h
  | _ => rfl

theorem marshal_int {m n : ℤ} (h : Kind.int.marshal m = Kind.int.marshal n) : m = n := by
  unfold Kind.marshal at h
  by_cases hm : m = 0 <;> by_cases hn : n = 0 <;> simp_all

/-- A value of the body that goes through an `interface{}`. -/
theorem unmarshal_through_iff {κ : Kind} {v : κ.type} {j : Json} (hj : κ.unmarshal j = some v) :
    (∃ w, κ.unmarshal j.through = some w ∧ κ.marshal w = κ.marshal v) ↔
      ∀ n, j = .num n → Survives n := by
  constructor
  · rintro ⟨w, hw, hsame⟩ n rfl
    have hread : κ.unmarshal (.num n) ≠ none := by
      rw [hj]
      nofun
    obtain ⟨rfl, -⟩ := inRange_of_unmarshal hread
    obtain ⟨-, hv⟩ := Option.ite_none_right_eq_some.mp hj
    obtain ⟨-, hw⟩ := Option.ite_none_right_eq_some.mp hw
    obtain rfl := Option.some.inj hv
    obtain rfl := Option.some.inj hw
    exact marshal_int hsame
  · intro h
    rw [through_eq h]
    exact ⟨v, hj, rfl⟩

/-! ### The fields behind a change -/

theorem find_key (k : Key) :
    (Key.all.find? fun k' => k'.part = k.part ∧ k'.name = k.name) = some k := by
  rcases k with k | k | k | k <;> cases k <;> rfl

theorem marshal_key (s : JobSpec) (k : Key) :
    marshal s k.part k.name = k.kind.marshal (field s k) := by
  unfold marshal
  rw [find_key]
  rfl

/-- The spec is read where each of its fields is. -/
theorem exists_unmarshal_iff {m : Obj} {C : (k : Key) → k.kind.type → Prop} :
    ((unmarshal m).ok = true ∧ ∀ k, C k (field (unmarshal m).value k)) ↔
      ∀ k, ∃ w, m.read k = some w ∧ C k w := by
  have hok : (unmarshal m).ok = true ↔ ∀ k, ∃ w, m.read k = some w := by
    simp only [unmarshal, List.all_eq_true, Option.isSome_iff_exists]
    exact ⟨fun h k => h k k.mem_all, fun h k _ => h k⟩
  have hfield : ∀ k w, m.read k = some w → field (unmarshal m).value k = w := by
    intro k w hw
    unfold unmarshal
    rw [field_ofFields, hw]
    rfl
  constructor
  · rintro ⟨h, hC⟩ k
    obtain ⟨w, hw⟩ := hok.mp h k
    exact ⟨w, hw, hfield k w hw ▸ hC k⟩
  · intro h
    refine ⟨hok.mpr fun k => (h k).imp fun w hw => hw.1, fun k => ?_⟩
    obtain ⟨w, hw, hC⟩ := h k
    rw [hfield k w hw]
    exact hC

theorem eq_of_names {k k' : Key} (hpart : k'.part = k.part) (hname : k'.name = k.name) :
    k' = k := by
  have h := find_key k'
  rw [hpart, hname, find_key k] at h
  exact (Option.some.inj h).symm

/-- A value that the body has for a field. -/
theorem Obj.WellTyped.unmarshal {p : Obj} (hp : p.WellTyped) {k : Key} {j : Json}
    (hj : p k.part k.name = some j) : ∃ v, k.kind.unmarshal j = some v := by
  obtain ⟨k', hpart, hname, h⟩ := hp k.part k.name j hj
  obtain rfl := eq_of_names hpart hname
  exact Option.ne_none_iff_exists'.mp h

theorem Obj.survives_iff {p : Obj} (hp : p.WellTyped) :
    p.Survives ↔
      ∀ (k : Key) j, p k.part k.name = some j → ∀ n, j = .num n → JobMerge.Survives n := by
  constructor
  · rintro h k j hj n rfl
    exact h k.part k.name n hj
  · intro h part name n hn
    obtain ⟨k, rfl, rfl, -⟩ := hp part name (.num n) hn
    exact h k (.num n) hn n rfl

/-- The integers of the spec are written and read as they are. -/
def Sound (s : JobSpec) : Prop :=
  ∀ (k : Key) n, k.kind.marshal (field s k) = some (.num n) → Survives n ∧ InRange n

theorem Small.sound {s : JobSpec} (h : Small s) : Sound s := by
  intro k n hn
  have hsmall := h k n hn
  refine ⟨Float64.format_ofInt hsmall, ?_⟩
  unfold InRange
  omega

/-- The body over the stored spec, as it is read in the end. -/
def merged (s : JobSpec) (p : Obj) : Obj := fun part name =>
  ((p part name).or (marshal s part name)).map Json.through

theorem applied_eq (s : JobSpec) (p : Obj) :
    applied s p =
      if (unmarshal (merged s p)).ok then some (unmarshal (merged s p)).value else none := by
  have hm : (Obj.map Json.ofInterface fun part name =>
      (p.map Json.toInterface part name).or ((marshal s).map Json.toInterface part name)) =
        merged s p := by
    funext part name
    simp only [Obj.map, merged, ← Option.map_or, Option.map_map]
    rfl
  unfold applied handleMerge
  dsimp only
  rw [hm]

/-- A field behind a change is as it is meant to be where no integer of the body is changed. -/
theorem read_merged_iff {s : JobSpec} {p : Obj} (hs : Sound s) (hp : p.WellTyped) (k : Key) :
    (∃ w, (merged s p).read k = some w ∧ Expected s p k w) ↔
      ∀ j, p k.part k.name = some j → ∀ n, j = .num n → Survives n := by
  unfold Obj.read merged Expected
  rw [marshal_key]
  cases hj : p k.part k.name with
  | some j =>
      obtain ⟨v, hv⟩ := hp.unmarshal hj
      have hthrough := unmarshal_through_iff hv
      simp only [Option.some_or, Option.map_some, Option.some.injEq, forall_eq']
      rw [← hthrough]
      refine exists_congr fun w => and_congr_right fun _ => ?_
      rw [hv]
      simp only [Option.some.injEq, exists_eq_left']
  | none =>
      refine iff_of_true ?_ nofun
      simp only [Option.none_or]
      cases hstored : k.kind.marshal (field s k) with
      | none =>
          refine ⟨k.kind.zero, rfl, ?_⟩
          rw [marshal_zero hstored, hstored]
      | some j =>
          have hj : ∀ n, j = .num n → Survives n ∧ InRange n := by
            rintro n rfl
            exact hs k n hstored
          obtain ⟨w, hw, hsame⟩ := unmarshal_marshal hstored fun _ n hn => (hj n hn).2
          refine ⟨w, ?_, hsame.trans hstored⟩
          simp only [Option.map_some]
          rw [through_eq fun n hn => (hj n hn).1]
          exact hw

/-- The body is laid over the spec exactly when its integers are written as they were read. -/
theorem applied_iff {s : JobSpec} {p : Obj} (hs : Sound s) (hp : p.WellTyped) :
    (∃ s', applied s p = some s' ∧ Overridden s p s') ↔ p.Survives := by
  have hread : (∃ s', applied s p = some s' ∧ Overridden s p s') ↔
      (unmarshal (merged s p)).ok = true ∧ Overridden s p (unmarshal (merged s p)).value := by
    rw [applied_eq]
    constructor
    · rintro ⟨s', h, hover⟩
      obtain ⟨hok, hs'⟩ := Option.ite_none_right_eq_some.mp h
      obtain rfl := Option.some.inj hs'
      exact ⟨hok, hover⟩
    · rintro ⟨hok, hover⟩
      exact ⟨_, if_pos hok, hover⟩
  rw [hread, Obj.survives_iff hp]
  exact exists_unmarshal_iff.trans (forall_congr' (read_merged_iff hs hp))

/-! ### The requests -/

/-- What an accepted patch stores. -/
theorem value_applySpec (jobs : Manager.Jobs) (env : Manager.Env) (henv : env.writeFails = false)
    (id : String) (s : JobSpec) (before : List Manager.Response) :
    ((Manager.applySpec jobs env id s before).store.value id).map Job.spec = some s := by
  rw [Manager.applySpec_eq]
  unfold Manager.patch
  rw [henv]
  cases hv : jobs.value id with
  | none => simp
  | some job =>
      by_cases hs : job.spec = s
      · simp [hs, hv]
      · simp [hs]

theorem length_applySpec (jobs : Manager.Jobs) (env : Manager.Env) (id : String) (s : JobSpec) :
    (Manager.applySpec jobs env id s []).written.length = 1 := by
  rw [Manager.applySpec_eq]
  split <;> rfl

theorem createJob_applied {jobs : Manager.Jobs} {env : Manager.Env} {id : String} {n : ℕ}
    {job : Job} {p : Obj} (h : Manager.get jobs env id = .ok (n, job)) :
    Manager.createJob jobs env id (specBody p) =
      match applied job.spec p with
      | some s' => Manager.applySpec jobs env id s' []
      | none => ⟨jobs, [⟨400, .nothing⟩, Manager.recovered], []⟩ := by
  unfold Manager.createJob Manager.Code.createJob
  rw [Manager.Code.reply_get, h]
  dsimp only [specBody]
  cases applied job.spec p <;> rfl

theorem applies_iff {p : Obj} {s s' : JobSpec} : Applies p s s' ↔ applied s p = some s' := by
  constructor
  · intro h
    -- a store with one such job, in which every write is accepted
    let job : Job := { name := "", spec := s }
    have hget : Manager.get (Versioned.Store.empty.push "" (some job)) {} "" = .ok (1, job) := rfl
    have hjob := h _ {} "" 1 job hget rfl
    rw [createJob_applied hget] at hjob
    dsimp only [job] at hjob
    cases ha : applied s p with
    | some s'' =>
        rw [ha] at hjob
        have hvalue := congrArg (fun r => (r.store.value "").map Job.spec) hjob
        dsimp only at hvalue
        rw [value_applySpec _ _ rfl, value_applySpec _ _ rfl] at hvalue
        exact hvalue
    | none =>
        rw [ha] at hjob
        have hlength := congrArg (fun r => r.written.length) hjob
        dsimp only at hlength
        rw [length_applySpec] at hlength
        cases hlength
  · rintro h jobs env id n job hget rfl
    rw [createJob_applied hget, h]

/-! ### One change behind another -/

/-- An integer is only written for an integer field. -/
theorem marshal_ne_num {κ : Kind} (hκ : κ ≠ .int) (v : κ.type) (n : ℤ) :
    κ.marshal v ≠ some (.num n) := by
  intro h
  -- what is written can be read, and a number only into an integer
  obtain ⟨w, hw, -⟩ := unmarshal_marshal h fun hint => absurd hint hκ
  have hread : κ.unmarshal (.num n) ≠ none := by
    rw [hw]
    nofun
  exact hκ (inRange_of_unmarshal hread).1

/-- An integer that is written for a field stood in the body. -/
theorem num_of_unmarshal {κ : Kind} {j : Json} {v : κ.type} {n : ℤ} (hj : κ.unmarshal j = some v)
    (hv : κ.marshal v = some (.num n)) : j = .num n ∧ InRange n := by
  obtain rfl : κ = .int := by
    by_contra hκ
    exact marshal_ne_num hκ v n hv
  obtain ⟨hzero, hnum⟩ := Option.ite_none_left_eq_some.mp hv
  obtain rfl := Json.num.inj (Option.some.inj hnum)
  cases j with
  | null => exact absurd (Option.some.inj hj).symm hzero
  | num m =>
      obtain ⟨hm, hmv⟩ := Option.ite_none_right_eq_some.mp hj
      obtain rfl := Option.some.inj hmv
      exact ⟨rfl, hm⟩
  | _ => cases hj

theorem Overridden.sound {s s' : JobSpec} {p : Obj} (h : Overridden s p s') (hs : Sound s)
    (hp : p.Survives) : Sound s' := by
  intro k n hn
  have hk := h k
  unfold Expected at hk
  cases hj : p k.part k.name with
  | some j =>
      rw [hj] at hk
      obtain ⟨v, hv, hsame⟩ := hk
      obtain ⟨rfl, hrange⟩ := num_of_unmarshal hv (hsame.symm.trans hn)
      exact ⟨hp k.part k.name n hj, hrange⟩
  | none =>
      rw [hj] at hk
      exact hs k n (hk.symm.trans hn)

theorem Overridden.unique {s a b : JobSpec} {p : Obj} (ha : Overridden s p a)
    (hb : Overridden s p b) : SameSpec a b := by
  intro k
  have hak := ha k
  have hbk := hb k
  unfold Expected at hak hbk
  cases hj : p k.part k.name with
  | some j =>
      rw [hj] at hak hbk
      obtain ⟨v, hv, hva⟩ := hak
      obtain ⟨w, hw, hwb⟩ := hbk
      obtain rfl := Option.some.inj (hv.symm.trans hw)
      exact hva.trans hwb.symm
  | none =>
      rw [hj] at hak hbk
      exact hak.trans hbk.symm

theorem Overridden.trans {s s₁ s₂ : JobSpec} {p q : Obj} (h₁ : Overridden s p s₁)
    (h₂ : Overridden s₁ q s₂) : Overridden s (p.overriddenBy q) s₂ := by
  intro k
  have hk₁ := h₁ k
  have hk₂ := h₂ k
  unfold Expected at hk₁ hk₂
  unfold Expected Obj.overriddenBy
  cases hq : q k.part k.name with
  | some j =>
      rw [hq] at hk₂
      exact hk₂
  | none =>
      rw [hq] at hk₂
      rw [Option.none_or]
      dsimp only at hk₂
      rw [hk₂]
      exact hk₁

theorem Obj.overriddenBy_self (p : Obj) : p.overriddenBy p = p := by
  funext part name
  exact Option.or_self

theorem Obj.WellTyped.overriddenBy {p q : Obj} (hp : p.WellTyped) (hq : q.WellTyped) :
    (p.overriddenBy q).WellTyped := by
  intro part name j hj
  rcases Option.or_eq_some_iff.mp hj with hj | ⟨-, hj⟩
  · exact hq part name j hj
  · exact hp part name j hj

theorem Obj.Survives.overriddenBy {p q : Obj} (hp : p.Survives) (hq : q.Survives) :
    (p.overriddenBy q).Survives := by
  intro part name n hn
  rcases Option.or_eq_some_iff.mp hn with hn | ⟨-, hn⟩
  · exact hq part name n hn
  · exact hp part name n hn

/-- The empty body changes nothing. -/
theorem applied_empty {s : JobSpec} (hs : Sound s) :
    ∃ s', applied s (fun _ _ => none) = some s' ∧ SameSpec s' s :=
  (applied_iff hs fun _ _ _ h => by cases h).mpr fun _ _ _ h => by cases h

/-- A change is exact where its integers are written as they were read, and only there. -/
theorem createJob_exact_iff (s : JobSpec) (p q : Obj) (hs : Small s) (hp : p.WellTyped)
    (hq : q.WellTyped) : ChangesExactly s p q ↔ p.Survives ∧ q.Survives := by
  have hsound := hs.sound
  constructor
  · intro h
    obtain ⟨s₁, happlied₁, hover₁⟩ := h.first
    obtain ⟨s₂, happlied₂, hover₂⟩ := h.second
    exact ⟨(applied_iff hsound hp).mp ⟨s₁, applies_iff.mp happlied₁, hover₁⟩,
      (applied_iff hsound hq).mp ⟨s₂, applies_iff.mp happlied₂, hover₂⟩⟩
  · rintro ⟨hps, hqs⟩
    obtain ⟨s₁, happlied₁, hover₁⟩ := (applied_iff hsound hp).mpr hps
    have hsound₁ := hover₁.sound hsound hps
    obtain ⟨s₂, happlied₂, hover₂⟩ := (applied_iff hsound hq).mpr hqs
    obtain ⟨s₀, happlied₀, hsame₀⟩ := applied_empty hsound
    obtain ⟨s₁₁, happlied₁₁, hover₁₁⟩ := (applied_iff hsound₁ hp).mpr hps
    obtain ⟨s₁₂, happlied₁₂, hover₁₂⟩ := (applied_iff hsound₁ hq).mpr hqs
    obtain ⟨s₃, happlied₃, hover₃⟩ :=
      (applied_iff hsound (hp.overriddenBy hq)).mpr (hps.overriddenBy hqs)
    simp only [← applies_iff] at *
    have htwice : Overridden s p s₁₁ := p.overriddenBy_self ▸ hover₁.trans hover₁₁
    have hboth : SameSpec s₁₂ s₃ := (hover₁.trans hover₁₂).unique hover₃
    exact
      { first := ⟨s₁, happlied₁, hover₁⟩
        second := ⟨s₂, happlied₂, hover₂⟩
        identity := ⟨s₀, happlied₀, hsame₀⟩
        twice := ⟨s₁, s₁₁, happlied₁, happlied₁₁, htwice.unique hover₁⟩
        both := ⟨s₁, s₁₂, s₃, happlied₁, happlied₁₂, happlied₃, hboth⟩ }

/-- The body that names one field. -/
def Obj.one (k : Key) (j : Json) : Obj := fun part name =>
  if k.part = part ∧ k.name = name then some j else none

theorem Obj.one_eq_some {k : Key} {j j' : Json} {part : Part} {name : String}
    (h : Obj.one k j part name = some j') : k.part = part ∧ k.name = name ∧ j = j' := by
  obtain ⟨⟨hpart, hname⟩, hj⟩ := Option.ite_none_right_eq_some.mp h
  exact ⟨hpart, hname, Option.some.inj hj⟩

theorem Obj.one_wellTyped {k : Key} {j : Json} (h : k.kind.unmarshal j ≠ none) :
    (Obj.one k j).WellTyped := by
  intro part name j' hj
  obtain ⟨hpart, hname, rfl⟩ := Obj.one_eq_some hj
  exact ⟨k, hpart, hname, h⟩

theorem Obj.one_survives {k : Key} {j : Json} (h : ∀ n, j = .num n → n.natAbs < 2 ^ 53) :
    (Obj.one k j).Survives := by
  intro part name n hn
  obtain ⟨-, -, rfl⟩ := Obj.one_eq_some hn
  exact Float64.format_ofInt (h n rfl)

def debianSpec : JobSpec where
  config := { type := .mirror, upstream := "rsync://ftp.debian.org/debian", interval := 360 }

theorem debianSpec_small : Small debianSpec := by
  intro k n h
  rcases k with k | k | k | k <;> cases k <;> cases h
  decide

/-- The interval is halved and the type cleared, then a number of retries is set. -/
theorem createJob_exact_debian :
    ChangesExactly debianSpec
      ((Obj.one (.config .interval) (.num 180)).overriddenBy (Obj.one (.config .type) .null))
      (Obj.one (.config .retry) (.num 2)) := by
  have hinterval : (Obj.one (.config .interval) (.num 180)).WellTyped := Obj.one_wellTyped nofun
  have htype : (Obj.one (.config .type) .null).WellTyped := Obj.one_wellTyped nofun
  have hretry : (Obj.one (.config .retry) (.num 2)).WellTyped := Obj.one_wellTyped nofun
  refine (createJob_exact_iff _ _ _ debianSpec_small (hinterval.overriddenBy htype) hretry).mpr
    ⟨Obj.Survives.overriddenBy ?_ ?_, ?_⟩
  · refine Obj.one_survives fun n hn => ?_
    cases hn
    decide
  · exact Obj.one_survives nofun
  · refine Obj.one_survives fun n hn => ?_
    cases hn
    decide

def largeInterval : Obj := Obj.one (.config .interval) (.num 9007199254740993)

/-- An interval of `2 ^ 53 + 1` is taken as it is for a new job, and is changed on its way to a
known one. -/
theorem large_interval_rounded :
    (unmarshal largeInterval).value.config.interval = 9007199254740993 ∧
      (applied debianSpec largeInterval).map (fun s => s.config.interval) = some 9007199254740992 ∧
      ¬ ∃ s', Applies largeInterval debianSpec s' ∧ Overridden debianSpec largeInterval s' := by
  refine ⟨by decide, by decide, ?_⟩
  rintro ⟨s', happlies, hover⟩
  have htyped : largeInterval.WellTyped := Obj.one_wellTyped nofun
  have hsurvives : largeInterval.Survives :=
    (applied_iff debianSpec_small.sound htyped).mp ⟨s', applies_iff.mp happlies, hover⟩
  have hrounded : Float64.format (Float64.ofInt 9007199254740993) = 9007199254740993 :=
    hsurvives .config "interval" _ rfl
  revert hrounded
  decide

end KubeSync.JobMerge
