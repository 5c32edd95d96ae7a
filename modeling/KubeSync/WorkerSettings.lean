import KubeSync.ControllerReferences
import KubeSync.WorkerConfig

/-! # The worker runs with the settings of its Job

The controller writes the settings of a Job into the environment of the worker's container
(`workerEnv`), and the worker reads them back (`loadConfig`).  `worker_settings`: what it reads is
what the Job declares (`declared`), and the directory that it syncs into is the one where the
volume of the Job is mounted. -/

namespace KubeSync.WorkerConfig

open Controller

/-! ### Looking up -/

/-- The variables that `LoadConfig` reads. -/
def readKeys : List String :=
  ["VERBOSE", "DEBUG", "NAME", "PROVIDER", "UPSTREAM", "LOG_DIR", "MIRROR_DIR", "MIRROR_PATH",
    "CONCURRENT", "INTERVAL", "RETRY", "TIMEOUT", "COMMAND", "FAIL_ON_MATCH", "SIZE_PATTERN",
    "IPV6", "IPV4", "EXCLUDE_FILE", "RSYNC_NO_TIMEOUT", "RSYNC_TIMEOUT", "RSYNC_OPTIONS",
    "RSYNC_OVERRIDE", "STAGE1_PROFILE", "EXEC_ON_SUCCESS", "EXEC_ON_FAILURE", "API", "ADDR", "ZFS",
    "ZPOOL", "BTRFS", "SNAPSHOT_PATH"]

theorem lookupEnv_append (a b : List EnvVar) (key : String) :
    lookupEnv (a ++ b) key = (lookupEnv b key).or (lookupEnv a key) := by
  unfold lookupEnv
  rw [List.reverse_append, List.find?_append]
  cases b.reverse.find? fun e => decide (e.name = key) <;> rfl

theorem lookupEnv_nil (key : String) : lookupEnv [] key = none := rfl

theorem lookupEnv_cons (e : EnvVar) (es : List EnvVar) (key : String) :
    lookupEnv (e :: es) key =
      (lookupEnv es key).or (if e.name = key then some e.value else none) := by
  have hone : lookupEnv [e] key = if e.name = key then some e.value else none := by
    simp only [lookupEnv, List.reverse_singleton, List.find?_singleton, decide_eq_true_eq]
    split <;> rfl
  rw [← hone]
  exact lookupEnv_append [e] es key

/-- An entry that is there only if `p` holds. -/
theorem lookupEnv_ite (p : Prop) [Decidable p] (e : EnvVar) (key : String) :
    lookupEnv (if p then [e] else []) key = if p ∧ e.name = key then some e.value else none := by
  by_cases hp : p
  · rw [if_pos hp, lookupEnv_cons, lookupEnv_nil, Option.none_or]
    simp only [hp, true_and]
  · rw [if_neg hp, lookupEnv_nil, if_neg fun h => hp h.1]

theorem lookupEnv_eq_none {env : List EnvVar} {key : String} (h : ∀ e ∈ env, e.name ≠ key) :
    lookupEnv env key = none := by
  have hfind : (env.reverse.find? fun e => decide (e.name = key)) = none := by
    rw [List.find?_eq_none]
    intro e he
    simpa using h e (List.mem_reverse.mp he)
  unfold lookupEnv
  rw [hfind]
  rfl

/-- `LoadConfig` reads no other variables. -/
theorem readConfig_congr {f g : Environ} (h : ∀ key ∈ readKeys, f key = g key) :
    readConfig f = readConfig g := by
  simp only [readKeys, List.forall_mem_cons] at h
  simp only [readConfig, getStringEnv, getIntEnv, getBoolEnv, getListEnv, h]

/-! ### Integers -/

/-- The range of Go's `int`. -/
def IsInt64 (z : ℤ) : Prop := -2 ^ 63 ≤ z ∧ z < 2 ^ 63

instance (z : ℤ) : Decidable (IsInt64 z) := inferInstanceAs (Decidable (_ ∧ _))

/-- `strconv.Atoi` reads back what `strconv.Itoa` writes. -/
theorem atoi_toString {z : ℤ} (hz : IsInt64 z) :
    Recognizer.atoi (toString z).toList = (z, true) := by
  cases z with
  | ofNat n =>
      have hlist : (toString (Int.ofNat n)).toList = Nat.toDigits 10 n := Nat.toList_repr
      have hlt : n < 2 ^ 63 := by
        have h := hz.2
        simp only [Int.ofNat_eq_natCast] at h
        omega
      have hdigit : ∀ c ∈ Nat.toDigits 10 n, c.isDigit = true := fun c hc =>
        Nat.isDigit_of_mem_toDigits (by decide) (by decide) hc
      have hdigits := Recognizer.digits_toDigits n
      rw [hlist]
      cases hcs : Nat.toDigits 10 n with
      | nil => exact absurd hcs Nat.toDigits_ne_nil
      | cons c cs =>
          rw [hcs] at hdigits hdigit
          have hc := hdigit c List.mem_cons_self
          have hminus : c ≠ '-' := by rintro rfl; cases hc
          have hplus : c ≠ '+' := by rintro rfl; cases hc
          have hatoi : Recognizer.atoi (c :: cs) =
              if n < 2 ^ 63 then ((n : ℤ), true) else (2 ^ 63 - 1, false) := by
            simp [Recognizer.atoi, hminus, hplus, hdigits]
          rw [hatoi, if_pos hlt]
          rfl
  | negSucc n =>
      have hlist : (toString (Int.negSucc n)).toList = '-' :: Nat.toDigits 10 (n + 1) := by
        change ("-" ++ (n + 1).repr).toList = _
        rw [String.toList_append, Nat.toList_repr]
        rfl
      have hle : n + 1 ≤ 2 ^ 63 := by
        have h := hz.1
        omega
      rw [hlist]
      simp only [Recognizer.atoi, Recognizer.digits_toDigits, if_true, if_pos hle, Int.negSucc_eq]
      push_cast
      rfl

/-! ### One variable -/

section reading

variable {env : Environ} {key : String}

theorem getStringEnv_some {val : String} (h : env key = some val) (default : String) :
    getStringEnv env key default = orElse val default := by
  simp only [getStringEnv, h, orElse, ne_eq, ite_not]

theorem getStringEnv_none (h : env key = none) (default : String) :
    getStringEnv env key default = default := by
  simp only [getStringEnv, h]

theorem getIntEnv_some {z : ℤ} (h : env key = some (toString z)) (hz : IsInt64 z) (default : ℤ) :
    getIntEnv env key default = if z = 0 then default else z := by
  simp only [getIntEnv, h, atoi_toString hz, Bool.true_eq_false, false_or]

theorem getIntEnv_none (h : env key = none) (default : ℤ) :
    getIntEnv env key default = default := by
  simp only [getIntEnv, h]

theorem getBoolEnv_some {val : String} (h : env key = some val) :
    getBoolEnv env key = (parseBool val).getD false := by
  simp only [getBoolEnv, h]

theorem getBoolEnv_none (h : env key = none) : getBoolEnv env key = false := by
  simp only [getBoolEnv, h]

/-- The parts of a list between the semicolons; an empty text is the empty list. -/
def parts (val : String) : List String := if val = "" then [] else splitSemicolons val

theorem getListEnv_some {val : String} (h : env key = some val) :
    getListEnv env key = parts val := by
  simp only [getListEnv, h, parts]

theorem getListEnv_none (h : env key = none) : getListEnv env key = [] := by
  simp only [getListEnv, h]

end reading

/-! ### What a Job declares -/

section declared

variable (r : Reconciler) (job : Job) (manager : String)

/-- The settings of the worker of a Job: its own, or where it has none the defaults of the
worker. -/
def declared : Config :=
  let c := job.spec.config
  { name := job.name
    provider := orElse c.provider "rsync"
    upstream := c.upstream
    logDir := "/var/log"
    mirrorDir := "/data"
    mirrorPath := c.mirrorPath
    concurrent := if c.concurrent = 0 then 3 else c.concurrent
    interval := if c.interval = 0 then 1440 else c.interval
    retry := c.retry
    timeout := c.timeout
    command := c.command
    failOnMatch := c.failOnMatch
    sizePattern := c.sizePattern
    useIPv6 := (parseBool c.ipv6Only).getD false
    useIPv4 := (parseBool c.ipv4Only).getD false
    excludeFile := c.excludeFile
    rsyncNoTimeo := false
    rsyncTimeout := 0
    rsyncOptions := parts c.rsyncOptions
    rsyncOverride := []
    stage1Profile := c.stage1Profile
    execOnSuccess := parts c.execOnSuccess
    execOnFailure := parts c.execOnFailure
    apiBase := "http://" ++ manager ++ ":3000"
    addr := ":6000"
    zfsEnable := false
    zpool := ""
    btrfsEnable := false
    snapshotPath := ""
    verbose := false
    debug := c.debug ≠ "" ∨ r.config.debug }

/-- The Job without variables of its own.  It is reducible for the sake of the decision whether to
set `DEBUG`. -/
abbrev bare : Job :=
  { job with spec := { job.spec with
      config := { job.spec.config with additionEnvs := [] }
      deploy := { job.spec.deploy with env := [] } } }

/-- Variables with other names do not change what the worker reads. -/
theorem lookupEnv_workerEnv
    (h : ∀ e ∈ job.spec.deploy.env ++ job.spec.config.additionEnvs, e.name ∉ readKeys) :
    ∀ key ∈ readKeys, lookupEnv (r.workerEnv job manager) key =
      lookupEnv (r.workerEnv (bare job) manager) key := by
  intro key hkey
  have hnone : ∀ es : List EnvVar,
      (∀ e ∈ es, e ∈ job.spec.deploy.env ++ job.spec.config.additionEnvs) →
      lookupEnv es key = none := by
    intro es hes
    refine lookupEnv_eq_none fun e he hname => ?_
    exact h e (hes e he) (hname ▸ hkey)
  have hdeploy := hnone job.spec.deploy.env fun e he => List.mem_append_left _ he
  have haddition := hnone job.spec.config.additionEnvs fun e he => List.mem_append_right _ he
  simp only [Reconciler.workerEnv, lookupEnv_append, hdeploy, haddition, Option.none_or]
  rfl

/-- What the worker finds where the Job has no variables of its own. -/
theorem lookupEnv_bare :
    let env := lookupEnv (r.workerEnv (bare job) manager)
    let c := job.spec.config
    (env "NAME" = some job.name ∧ env "PROVIDER" = some c.provider ∧
      env "UPSTREAM" = some c.upstream ∧ env "MIRROR_PATH" = some c.mirrorPath ∧
      env "CONCURRENT" = some (toString c.concurrent) ∧
      env "INTERVAL" = some (toString c.interval) ∧ env "RETRY" = some (toString c.retry) ∧
      env "TIMEOUT" = some (toString c.timeout) ∧ env "COMMAND" = some c.command ∧
      env "FAIL_ON_MATCH" = some c.failOnMatch ∧ env "SIZE_PATTERN" = some c.sizePattern ∧
      env "IPV6" = some c.ipv6Only ∧ env "IPV4" = some c.ipv4Only ∧
      env "EXCLUDE_FILE" = some c.excludeFile ∧ env "RSYNC_OPTIONS" = some c.rsyncOptions ∧
      env "STAGE1_PROFILE" = some c.stage1Profile ∧
      env "EXEC_ON_SUCCESS" = some c.execOnSuccess ∧
      env "EXEC_ON_FAILURE" = some c.execOnFailure ∧
      env "API" = some ("http://" ++ manager ++ ":3000") ∧
      env "ADDR" = some (":" ++ toString apiPort)) ∧
    env "DEBUG" = (if c.debug ≠ "" ∨ r.config.debug then some "true" else none) ∧
    ∀ key ∈ ["VERBOSE", "LOG_DIR", "MIRROR_DIR", "RSYNC_NO_TIMEOUT", "RSYNC_TIMEOUT",
      "RSYNC_OVERRIDE", "ZFS", "ZPOOL", "BTRFS", "SNAPSHOT_PATH"], env key = none := by
  intro env c
  simp only [env, c, Reconciler.workerEnv, lookupEnv_append, lookupEnv_ite, lookupEnv_cons,
    lookupEnv_nil]
  simp

/-- The numbers of a Job are those of Go's `int`. -/
def GoInts (c : JobConfig) : Prop :=
  IsInt64 c.concurrent ∧ IsInt64 c.interval ∧ IsInt64 c.retry ∧ IsInt64 c.timeout

theorem zero_default (z : ℤ) : (if z = 0 then 0 else z) = z := by
  split
  next h => exact h.symm
  next => rfl

theorem readConfig_bare (h : GoInts job.spec.config) :
    readConfig (lookupEnv (r.workerEnv (bare job) manager)) = declared r job manager := by
  obtain ⟨hc, hi, hr, ht⟩ := h
  obtain ⟨⟨name, provider, upstream, mirrorPath, concurrent, interval, retry, timeout, command,
    failOnMatch, sizePattern, ipv6, ipv4, excludeFile, rsyncOptions, stage1Profile, execOnSuccess,
    execOnFailure, api, addr⟩, debug, hnone⟩ := lookupEnv_bare r job manager
  simp only [List.forall_mem_cons] at hnone
  obtain ⟨verbose, logDir, mirrorDir, rsyncNoTimeo, rsyncTimeout, rsyncOverride, zfs, zpool, btrfs,
    snapshotPath, -⟩ := hnone
  have hapi : "http://" ++ manager ++ ":3000" ≠ "" := by simp
  have haddr : ":" ++ toString apiPort ≠ "" := by decide
  have hdebug : getBoolEnv (lookupEnv (r.workerEnv (bare job) manager)) "DEBUG" =
      decide (job.spec.config.debug ≠ "" ∨ r.config.debug = true) := by
    by_cases hd : job.spec.config.debug ≠ "" ∨ r.config.debug = true
    · rw [if_pos hd] at debug
      rw [getBoolEnv_some debug, decide_eq_true hd]
      decide
    · rw [if_neg hd] at debug
      rw [getBoolEnv_none debug, decide_eq_false hd]
  unfold readConfig declared
  rw [hdebug, getStringEnv_some name, getStringEnv_some provider, getStringEnv_some upstream,
    getStringEnv_some mirrorPath, getIntEnv_some concurrent hc, getIntEnv_some interval hi,
    getIntEnv_some retry hr, getIntEnv_some timeout ht, getStringEnv_some command,
    getStringEnv_some failOnMatch, getStringEnv_some sizePattern, getBoolEnv_some ipv6,
    getBoolEnv_some ipv4, getStringEnv_some excludeFile, getListEnv_some rsyncOptions,
    getStringEnv_some stage1Profile, getListEnv_some execOnSuccess, getListEnv_some execOnFailure,
    getStringEnv_some api, getStringEnv_some addr, getBoolEnv_none verbose,
    getStringEnv_none logDir, getStringEnv_none mirrorDir, getBoolEnv_none rsyncNoTimeo,
    getIntEnv_none rsyncTimeout, getListEnv_none rsyncOverride, getBoolEnv_none zfs,
    getStringEnv_none zpool, getBoolEnv_none btrfs, getStringEnv_none snapshotPath]
  simp only [orElse_of_empty, zero_default, orElse_of_ne hapi, orElse_of_ne haddr]
  rfl

/-- The worker reads what the Job declares. -/
theorem loadConfig_workerEnv
    (henv : ∀ e ∈ job.spec.deploy.env ++ job.spec.config.additionEnvs, e.name ∉ readKeys)
    (hints : GoInts job.spec.config) (hname : job.name ≠ "")
    (hup : job.spec.config.upstream ≠ "") :
    loadConfig (lookupEnv (r.workerEnv job manager)) = .ok (declared r job manager) := by
  have hread : readConfig (lookupEnv (r.workerEnv job manager)) = declared r job manager :=
    (readConfig_congr (lookupEnv_workerEnv r job manager henv)).trans
      (readConfig_bare r job manager hints)
  have hprovider : orElse job.spec.config.provider "rsync" ≠ "" := by
    unfold orElse
    split
    · assumption
    · decide
  unfold loadConfig
  rw [hread]
  refine if_neg ?_
  rintro (h | h | h)
  · exact hname h
  · exact hprovider h
  · exact hup h

end declared

/-! ### The directory -/

/-- A part of a name between two dots: not empty, and without a dash at its ends. -/
def dnsLabel (l : Text) : Bool := l.head?.any (· ≠ '-') && l.getLast?.any (· ≠ '-')

/-- The names that the API server accepts for a Job, DNS-1123 subdomains. -/
def dns1123 (name : String) : Bool :=
  name.length ≤ 253 &&
    name.toList.all (fun c => c.isLower || c.isDigit || c = '-' || c = '.') &&
    (name.toList.splitOn '.').all dnsLabel

/-- Such a name is an element of a path. -/
theorem element_of_dns1123 {name : String} (h : dns1123 name = true) :
    '/' ∉ name.toList ∧ name.toList ≠ [] ∧ name.toList ≠ ['.'] ∧ name.toList ≠ ['.', '.'] := by
  unfold dns1123 at h
  rw [Bool.and_eq_true, Bool.and_eq_true, List.all_eq_true] at h
  obtain ⟨⟨-, hchars⟩, hlabels⟩ := h
  refine ⟨fun hslash => ?_, fun hn => ?_, fun hn => ?_, fun hn => ?_⟩
  · exact absurd (hchars _ hslash) (by decide)
  all_goals
    rw [hn] at hlabels
    exact absurd hlabels (by decide)

theorem clean_data {name : Text} (hslash : '/' ∉ name) (h₀ : name ≠ []) (h₁ : name ≠ ['.'])
    (h₂ : name ≠ ['.', '.']) : clean ("/data".toList ++ '/' :: name) = "/data/".toList ++ name := by
  have hsplit : ("/data".toList ++ '/' :: name).splitOn '/' = [[], "data".toList, name] := by
    rw [List.splitOn_append_cons_self, List.splitOn_eq_singleton hslash]
    rfl
  unfold clean
  rw [hsplit]
  simp [cleanStep, h₀, h₁, h₂]

theorem joinPath_data {name : String} (h : dns1123 name = true) :
    joinPath "/data" name = "/data/" ++ name := by
  obtain ⟨hslash, h₀, h₁, h₂⟩ := element_of_dns1123 h
  have hclean := clean_data hslash h₀ h₁ h₂
  unfold joinPath
  rw [if_pos (by decide), hclean, String.ofList_append, String.ofList_toList, String.ofList_toList]

theorem ne_empty_of_dns1123 {name : String} (h : dns1123 name = true) : name ≠ "" := by
  rintro rfl
  exact absurd h (by decide)

theorem workingDir_eq {lib : Lib} {cfg : Config} {p : MirrorProvider}
    (h : newMirrorProvider lib cfg = .ok p) : p.workingDir = mirrorDir cfg := by
  obtain ⟨logDir, -, -, hbase, -⟩ := parts_of_new h
  unfold MirrorProvider.workingDir
  rw [hbase]
  rfl

/-! ### The container of the worker -/

section container

variable {r : Reconciler} {job : Job} {manager : String} {cm : Option ConfigMap}
  {app : Deployment} {c : Container}

/-- The container of the Deployment that has the name of the Job is the worker's. -/
theorem worker_of_deployment (h : r.desiredDeployment job manager cm = .ok (some app))
    (hc : c ∈ app.pod.containers) (hn : c.name = job.name) :
    job.spec.config.upstream ≠ "" ∧ c.env = r.workerEnv job manager ∧
      c.volumeMounts = [Reconciler.dataMount job] := by
  obtain ⟨cs, hw, happ⟩ := bind_eq_ok.mp h
  rw [deploymentOf_containers happ] at hc
  rcases List.mem_append.mp hc with hc | hc
  · obtain ⟨-, hmounts, henv, hup⟩ := worker_container hw c hc
    exact ⟨hup, henv, hmounts⟩
  · exfalso
    rcases mem_servers.mp hc with ⟨-, rfl⟩ | ⟨-, rfl⟩
    · exact absurd hn (by simp [Reconciler.frontContainer])
    · exact absurd hn (by simp [Reconciler.rsyncContainer])

theorem mirrorDir_declared (r : Reconciler) (manager : String) (hname : dns1123 job.name = true)
    (hpath : job.spec.config.mirrorPath = "") :
    mirrorDir (declared r job manager) = (Reconciler.dataMount job).mountPath := by
  have hnot : ¬ (declared r job manager).mirrorPath ≠ "" := not_not.mpr hpath
  unfold mirrorDir
  rw [if_neg hnot]
  exact joinPath_data hname

/-- The worker of a Job that the controller deploys loads the settings that the Job declares, and
without a mirror path the directory of every provider that is made of them is the one where the
volume of the Job is mounted. -/
theorem worker_settings (r : Reconciler) (job : Job) (manager : String) (cm : Option ConfigMap)
    (app : Deployment) (c : Container)
    (h : r.desiredDeployment job manager cm = .ok (some app)) (hc : c ∈ app.pod.containers)
    (hn : c.name = job.name) (hname : dns1123 job.name = true)
    (henv : ∀ e ∈ job.spec.deploy.env ++ job.spec.config.additionEnvs, e.name ∉ readKeys)
    (hints : GoInts job.spec.config) :
    loadConfig (lookupEnv c.env) = .ok (declared r job manager) ∧
      (job.spec.config.mirrorPath = "" →
        ∃ m, c.volumeMounts = [m] ∧ m.name = job.name ∧
          mirrorDir (declared r job manager) = m.mountPath ∧
          ∀ lib p, newMirrorProvider lib (declared r job manager) = .ok p →
            p.workingDir = m.mountPath) := by
  obtain ⟨hup, hcenv, hmounts⟩ := worker_of_deployment h hc hn
  constructor
  · rw [hcenv]
    exact loadConfig_workerEnv r job manager henv hints (ne_empty_of_dns1123 hname) hup
  · intro hpath
    have hdir := mirrorDir_declared r manager hname hpath
    refine ⟨Reconciler.dataMount job, hmounts, rfl, hdir, fun lib p hp => ?_⟩
    rw [workingDir_eq hp]
    exact hdir

/-- Library functions that accept everything. -/
def plainLib : Lib :=
  { formatLogDir := fun cfg => .ok cfg.logDir
    splitWords := fun s => .ok (splitSpaces s)
    compile := fun _ => none }

theorem worker_settings_debian :
    ∃ app c p, plainReconciler.desiredDeployment (mirrorOf "debian") "manager" none =
        .ok (some app) ∧ c ∈ app.pod.containers ∧
      loadConfig (lookupEnv c.env) = .ok (declared plainReconciler (mirrorOf "debian") "manager") ∧
      newMirrorProvider plainLib (declared plainReconciler (mirrorOf "debian") "manager") = .ok p ∧
      ∃ m, c.volumeMounts = [m] ∧ p.workingDir = m.mountPath := by
  have h := worker_settings plainReconciler (mirrorOf "debian") "manager" none _ _ rfl (.head _) rfl
    (by decide) nofun ⟨by decide, by decide, by decide, by decide⟩
  obtain ⟨hload, hdir⟩ := h
  obtain ⟨m, hm, -, -, hp⟩ := hdir rfl
  exact ⟨_, _, _, rfl, .head _, hload, rfl, m, hm, hp plainLib _ rfl⟩

end container

end KubeSync.WorkerConfig
