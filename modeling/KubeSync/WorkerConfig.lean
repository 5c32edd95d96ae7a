import KubeSync.Controller
import KubeSync.Recognizer
import KubeSync.SyncRun

/-! # The settings of the worker

`LoadConfig` (`worker/config.go`) with the readers of the environment (`worker/util.go`), and
`newMirrorProvider` (`worker/provider.go`) with the constructors of the three providers.

* The environment is a function from names to values.  `lookupEnv` is the environment that a list
  of `EnvVar` gives to a container: its values are taken as they stand, and of several entries of
  one name the last one counts.
* A Go slice that is nil is an empty list: neither `GetListEnv` nor the code behind it makes an
  empty slice that is not nil.
* The template of the log directory, `shlex.Split` and `regexp.Compile` are parameters.
* A panic of `newMirrorProvider` is an error. -/

namespace KubeSync.WorkerConfig

open Controller (parseBool bind_eq_ok)

/-! ### The environment -/

abbrev Environ := String → Option String

/-- `os.LookupEnv` in a container that is given `env`. -/
def lookupEnv (env : List EnvVar) : Environ :=
  fun key => (env.reverse.find? fun e => e.name = key).map fun e => e.value

def getStringEnv (env : Environ) (key default : String) : String :=
  match env key with
  | none => default
  | some val => if val = "" then default else val

def getIntEnv (env : Environ) (key : String) (default : ℤ) : ℤ :=
  match env key with
  | none => default
  | some val =>
      match Recognizer.atoi val.toList with
      | (i, ok) => if ok = false ∨ i = 0 then default else i

def getBoolEnv (env : Environ) (key : String) : Bool :=
  match env key with
  | none => false
  | some val => (parseBool val).getD false

/-- `strings.Split(s, ";")`. -/
def splitSemicolons (s : String) : List String := (s.toList.splitOn ';').map String.ofList

def getListEnv (env : Environ) (key : String) : List String :=
  match env key with
  | none => []
  | some val => if val = "" then [] else splitSemicolons val

/-! ### `LoadConfig` -/

/-- `worker.Config`. -/
structure Config where
  name : String
  provider : String
  upstream : String
  logDir : String
  mirrorDir : String
  mirrorPath : String
  concurrent : ℤ
  interval : ℤ
  retry : ℤ
  timeout : ℤ
  command : String
  failOnMatch : String
  sizePattern : String
  useIPv6 : Bool
  useIPv4 : Bool
  excludeFile : String
  rsyncNoTimeo : Bool
  rsyncTimeout : ℤ
  rsyncOptions : List String
  rsyncOverride : List String
  stage1Profile : String
  execOnSuccess : List String
  execOnFailure : List String
  apiBase : String
  addr : String
  zfsEnable : Bool
  zpool : String
  btrfsEnable : Bool
  snapshotPath : String
  verbose : Bool
  debug : Bool
deriving DecidableEq, Repr

/-- The assignments of `LoadConfig`. -/
def readConfig (env : Environ) : Config :=
  { verbose := getBoolEnv env "VERBOSE"
    debug := getBoolEnv env "DEBUG"
    name := getStringEnv env "NAME" ""
    provider := getStringEnv env "PROVIDER" "rsync"
    upstream := getStringEnv env "UPSTREAM" ""
    logDir := getStringEnv env "LOG_DIR" "/var/log"
    mirrorDir := getStringEnv env "MIRROR_DIR" "/data"
    mirrorPath := getStringEnv env "MIRROR_PATH" ""
    concurrent := getIntEnv env "CONCURRENT" 3
    interval := getIntEnv env "INTERVAL" 1440
    retry := getIntEnv env "RETRY" 0
    timeout := getIntEnv env "TIMEOUT" 0
    command := getStringEnv env "COMMAND" ""
    failOnMatch := getStringEnv env "FAIL_ON_MATCH" ""
    sizePattern := getStringEnv env "SIZE_PATTERN" ""
    useIPv6 := getBoolEnv env "IPV6"
    useIPv4 := getBoolEnv env "IPV4"
    excludeFile := getStringEnv env "EXCLUDE_FILE" ""
    rsyncNoTimeo := getBoolEnv env "RSYNC_NO_TIMEOUT"
    rsyncTimeout := getIntEnv env "RSYNC_TIMEOUT" 0
    rsyncOptions := getListEnv env "RSYNC_OPTIONS"
    rsyncOverride := getListEnv env "RSYNC_OVERRIDE"
    stage1Profile := getStringEnv env "STAGE1_PROFILE" ""
    execOnSuccess := getListEnv env "EXEC_ON_SUCCESS"
    execOnFailure := getListEnv env "EXEC_ON_FAILURE"
    apiBase := getStringEnv env "API" "http://manager:3000"
    addr := getStringEnv env "ADDR" ":6000"
    zfsEnable := getBoolEnv env "ZFS"
    zpool := getStringEnv env "ZPOOL" ""
    btrfsEnable := getBoolEnv env "BTRFS"
    snapshotPath := getStringEnv env "SNAPSHOT_PATH" "" }

def loadConfig (env : Environ) : Except String Config :=
  let cfg := readConfig env
  if cfg.name = "" ∨ cfg.provider = "" ∨ cfg.upstream = "" then
    .error "failed to get mirror config"
  else .ok cfg

/-! ### Paths -/

/-- One element of a path; the elements in front of it are on the stack, the last one on top. -/
def cleanStep (rooted : Bool) (stack : List Text) (x : Text) : List Text :=
  if x = [] ∨ x = ['.'] then stack
  else if x = ['.', '.'] then
    match stack with
    | [] => if rooted then [] else [x]
    | top :: rest => if top = ['.', '.'] then x :: stack else rest
  else x :: stack

/-- `filepath.Clean`. -/
def clean (path : Text) : Text :=
  let rooted := path.head? = some '/'
  let body := ['/'].intercalate ((path.splitOn '/').foldl (cleanStep rooted) []).reverse
  if rooted then '/' :: body else if body = [] then ['.'] else body

/-- `filepath.Join` of two elements. -/
def joinPath (a b : String) : String :=
  if a ≠ "" then String.ofList (clean (a.toList ++ '/' :: b.toList))
  else if b ≠ "" then String.ofList (clean b.toList)
  else ""

/-! ### `newMirrorProvider` -/

/-- The library functions that a provider is made with. -/
structure Lib where
  formatLogDir : Config → Except String String
  splitWords : String → Except String (List String)
  compile : String → Option String

/-- `baseProvider` with its first context, and the URL that every provider has. -/
structure Base where
  name : String
  upstreamURL : String
  interval : ℤ
  retry : ℤ
  timeout : ℤ
  workingDir : String
  logDir : String
  logFile : String
deriving DecidableEq, Repr

/-- The providers; a pattern that is not set is `none`. -/
inductive Kind where
  | cmd (command : List String) (failOnMatch sizePattern : Option String)
  | rsync (rsyncCmd : String) (options : List String)
  | twoStageRsync (rsyncCmd stage1Profile excludeFile : String) (extraOptions : List String)
      (rsyncNeverTimeout : Bool) (rsyncTimeoutValue : ℤ) (useIPv6 useIPv4 : Bool)
deriving DecidableEq, Repr

inductive Hook where
  | logLimiter
  | zfs (zpool : String)
  | btrfsSnapshot (mirrorSnapshotPath : String)
  | execPost (onSuccess : Bool) (command : List String)
deriving DecidableEq, Repr

structure MirrorProvider where
  base : Base
  kind : Kind
  hooks : List Hook
deriving DecidableEq, Repr

/-- `WorkingDir()`, as the first context has it. -/
def MirrorProvider.workingDir (p : MirrorProvider) : String := p.base.workingDir

/-- The directory that the mirror is kept in. -/
def mirrorDir (cfg : Config) : String :=
  if cfg.mirrorPath ≠ "" then cfg.mirrorPath else joinPath cfg.mirrorDir cfg.name

/-- What the three constructors have in common; `time.Duration` counts nanoseconds. -/
def baseOf (cfg : Config) (logDir : String) : Base :=
  { name := cfg.name
    upstreamURL := cfg.upstream
    interval := wrapInt64 (cfg.interval * 60000000000)
    retry := if cfg.retry = 0 then Worker.defaultMaxRetry else cfg.retry
    timeout := wrapInt64 (cfg.timeout * 1000000000)
    workingDir := mirrorDir cfg
    logDir
    logFile := joinPath logDir "latest.log" }

/-- A pattern of the command provider, compiled when it is set. -/
def compilePattern (lib : Lib) (what pattern : String) : Except String (Option String) :=
  if pattern = "" then .ok none
  else
    match lib.compile pattern with
    | some e => .error (what ++ " regexp error: " ++ e)
    | none => .ok (some pattern)

def newCmdProvider (lib : Lib) (cfg : Config) : Except String Kind := do
  let command ← lib.splitWords cfg.command
  let failOnMatch ← compilePattern lib "fail-on-match" cfg.failOnMatch
  let sizePattern ← compilePattern lib "size-pattern" cfg.sizePattern
  pure (.cmd command failOnMatch sizePattern)

/-- The check of the URL that both rsync providers make. -/
def checkUpstream (cfg : Config) : Except String Unit :=
  if Recognizer.hasSuffix cfg.upstream.toList "/" then .ok ()
  else .error "rsync upstream URL should ends with /"

def rsyncCmd (cfg : Config) : String := if cfg.command = "" then "rsync" else cfg.command

def rsyncDefaults : List String :=
  ["-aHvh", "--no-o", "--no-g", "--stats", "--filter", "risk .~tmp~/", "--exclude", ".~tmp~/",
    "--delete", "--delete-after", "--delay-updates", "--safe-links"]

def rsyncOptionsOf (cfg : Config) : List String :=
  (if cfg.rsyncOverride ≠ [] then cfg.rsyncOverride else rsyncDefaults) ++
    (if cfg.rsyncNoTimeo then []
      else ["--timeout=" ++ toString (if cfg.rsyncTimeout > 0 then cfg.rsyncTimeout else 120)]) ++
    (if cfg.useIPv6 then ["-6"] else if cfg.useIPv4 then ["-4"] else []) ++
    (if cfg.excludeFile ≠ "" then ["--exclude-from", cfg.excludeFile] else []) ++
    cfg.rsyncOptions

def newRsyncProvider (cfg : Config) : Except String Kind := do
  checkUpstream cfg
  pure (.rsync (rsyncCmd cfg) (rsyncOptionsOf cfg))

def newTwoStageRsyncProvider (cfg : Config) : Except String Kind := do
  checkUpstream cfg
  pure (.twoStageRsync (rsyncCmd cfg) cfg.stage1Profile cfg.excludeFile cfg.rsyncOptions
    cfg.rsyncNoTimeo cfg.rsyncTimeout cfg.useIPv6 cfg.useIPv4)

/-- The switch over the name of the provider. -/
def newKind (lib : Lib) (cfg : Config) : Except String Kind :=
  if cfg.provider = "command" then newCmdProvider lib cfg
  else if cfg.provider = "rsync" then newRsyncProvider cfg
  else if cfg.provider = "two-stage-rsync" then newTwoStageRsyncProvider cfg
  else .error "Invalid mirror provider"

/-- `addHookFromCmdList`. -/
def execHooks (lib : Lib) (onSuccess : Bool) (cmdList : List String) : Except String (List Hook) :=
  cmdList.mapM fun cmd => do
    let words ← lib.splitWords cmd
    pure (.execPost onSuccess words)

def newMirrorProvider (lib : Lib) (cfg : Config) : Except String MirrorProvider := do
  let logDir ← lib.formatLogDir cfg
  let kind ← newKind lib cfg
  let onSuccess ← execHooks lib true cfg.execOnSuccess
  let onFailure ← execHooks lib false cfg.execOnFailure
  pure
    { base := baseOf cfg logDir
      kind
      hooks := [.logLimiter] ++ (if cfg.zfsEnable then [.zfs cfg.zpool] else []) ++
        (if cfg.btrfsEnable then [.btrfsSnapshot (joinPath cfg.snapshotPath cfg.name)] else []) ++
        onSuccess ++ onFailure }

/-- What the three kinds of providers have in common. -/
theorem parts_of_new {lib : Lib} {cfg : Config} {p : MirrorProvider}
    (h : newMirrorProvider lib cfg = .ok p) :
    ∃ logDir onSuccess onFailure, p.base = baseOf cfg logDir ∧
      execHooks lib true cfg.execOnSuccess = .ok onSuccess ∧
      execHooks lib false cfg.execOnFailure = .ok onFailure ∧
      p.hooks = .logLimiter :: ((if cfg.zfsEnable then [.zfs cfg.zpool] else []) ++
        (if cfg.btrfsEnable then [.btrfsSnapshot (joinPath cfg.snapshotPath cfg.name)] else []) ++
        onSuccess ++ onFailure) := by
  obtain ⟨logDir, -, h⟩ := bind_eq_ok.mp h
  obtain ⟨kind, -, h⟩ := bind_eq_ok.mp h
  obtain ⟨onSuccess, hsuccess, h⟩ := bind_eq_ok.mp h
  obtain ⟨onFailure, hfailure, h⟩ := bind_eq_ok.mp h
  cases h
  exact ⟨logDir, onSuccess, onFailure, rfl, hsuccess, hfailure, rfl⟩

end KubeSync.WorkerConfig
