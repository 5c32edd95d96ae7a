import KubeSync.WorkerConfig
import Mathlib.Data.List.Sort
import Mathlib.Logic.Function.Basic

/-! # The context of a provider and its hooks

The layered `Context` (`worker/context.go`) of a provider with the accessors of `baseProvider`, and
the methods of the hooks that `newMirrorProvider` adds (`loglimit_hook.go`, `zfs_hook.go`,
`btrfs_snapshot_hook.go`, `exec_post_hook.go`).

* The values of a context are texts.  `p.ctx` is a pointer: `ExitContext` at the bottom layer stores
  nil in it, and an accessor of a provider without a context is a run-time panic (`none`).
* The files of the log directory are byte arrays known by their path.  The link `latest`, which no
  function reads, is left out.
* `HookEnv` has the answers of the system to one call of a hook: what `ReadDir` returns, which files
  can be removed or renamed, the time as the log limiter formats it, and the error of the commands
  that the other hooks run.
* `sort.Sort` is not stable.  The directory is listed in any order here, so that a stable sort gives
  every order of files of the same age. -/

namespace KubeSync.ProviderContext

open WorkerConfig (Hook Base MirrorProvider joinPath)
open Worker (Phase)

/-! ### `Context` -/

/-- A layered key-value storage. -/
inductive Context where
  | bottom (store : String → Option String)
  | layer (store : String → Option String) (parent : Context)

namespace Context

def new : Context := .bottom fun _ => none

def enter (ctx : Context) : Context := .layer (fun _ => none) ctx

/-- The upper layer; at the bottom there is an error and nil. -/
def exit : Context → Option Context
  | .bottom _ => none
  | .layer _ parent => some parent

def get : Context → String → Option String
  | .bottom store, key => store key
  | .layer store parent, key =>
      match store key with
      | some value => some value
      | none => parent.get key

def set (key value : String) : Context → Context
  | .bottom store => .bottom (Function.update store key (some value))
  | .layer store parent => .layer (Function.update store key (some value)) parent

/-- The number of layers. -/
def depth : Context → ℕ
  | .bottom _ => 1
  | .layer _ parent => parent.depth + 1

end Context

/-! ### The provider -/

abbrev Bytes := List UInt8

abbrev Disk := String → Option Bytes

/-- What the hooks change: the context of the provider and the log files. -/
structure State where
  ctx : Option Context
  disk : Disk

namespace State

/-- A value of the context, which every accessor takes to be there. -/
def lookup (s : State) (key : String) : Option String := s.ctx.bind (·.get key)

def workingDir (s : State) : Option String := s.lookup "working_dir"

def logDir (s : State) : Option String := s.lookup "log_dir"

def logFile (s : State) : Option String := s.lookup "log_file"

/-- `EnterContext`, with a value for the new layer.  `Enter` does not look at its receiver, so
that a provider without a context gets one layer. -/
def enterContext (s : State) (key value : String) : State :=
  match s.ctx with
  | some ctx => { s with ctx := some (ctx.enter.set key value) }
  | none => { s with ctx := some (Context.new.set key value) }

/-- `ExitContext`, which drops the error of `Exit`. -/
def exitContext (s : State) : Option State := s.ctx.map fun ctx => { s with ctx := ctx.exit }

end State

/-- The provider as its constructor leaves it. -/
def State.init (p : Base) (disk : Disk) : State where
  ctx := some (((Context.new.set "working_dir" p.workingDir).set "log_dir" p.logDir).set "log_file"
    p.logFile)
  disk

/-! ### The hooks -/

/-- `os.FileInfo`. -/
structure FileInfo where
  name : String
  modTime : ℤ
deriving DecidableEq, Repr

inductive ReadDirErr where
  | notExist
  | other (err : String)
deriving DecidableEq, Repr

structure HookEnv where
  readDir : Except ReadDirErr (List FileInfo) := .ok []
  now : String := ""
  removeOk : String → Bool := fun _ => true
  renameOk : Bool := true
  err : Option String := none

/-- `os.Remove`, whose error is not looked at. -/
def remove (env : HookEnv) (disk : Disk) (path : String) : Disk :=
  if env.removeOk path then Function.update disk path none else disk

/-- `os.Rename`, whose error is not looked at. -/
def rename (env : HookEnv) (disk : Disk) (path path' : String) : Disk :=
  match disk path with
  | some content =>
      if env.renameOk then Function.update (Function.update disk path' (some content)) path none
      else disk
  | none => disk

/-- The files that the log limiter removes: all logs of the provider but the nine youngest. -/
def oldLogs (name : String) (files : List FileInfo) : List FileInfo :=
  let matchedFiles := files.filter fun f => Recognizer.hasPrefix f.name.toList name
  (matchedFiles.insertionSort fun f g => g.modTime ≤ f.modTime).drop 9

def logFileName (name now : String) : String := name ++ "_" ++ now ++ ".log"

/-- `logLimiter.preExec`. -/
def limitLogs (name : String) (env : HookEnv) (s : State) : Option (State × Option String) := do
  let logFile ← s.logFile
  if logFile = "/dev/null" then return (s, none)
  let logDir ← s.logDir
  match env.readDir with
  | .error (.other err) => return (s, some err)
  | .error .notExist =>
      return (s.enterContext "log_file" (joinPath logDir (logFileName name env.now)), none)
  | .ok files =>
      let old := (oldLogs name files).map fun f => joinPath logDir f.name
      let disk := old.foldl (remove env) s.disk
      return ({ s with disk }.enterContext "log_file"
        (joinPath logDir (logFileName name env.now)), none)

/-- `logLimiter.postFail`. -/
def keepFailedLog (env : HookEnv) (s : State) : Option (State × Option String) := do
  let logFile ← s.logFile
  let _ ← s.logDir
  let s ← { s with disk := rename env s.disk logFile (logFile ++ ".fail") }.exitContext
  return (s, none)

/-- `execPostHook.Do`. -/
def execPost (env : HookEnv) (command : List String) (s : State) :
    Option (State × Option String) := do
  let _ ← s.workingDir
  let _ ← s.logDir
  let _ ← s.logFile
  return (s, if command = [] then some "Invalid Command" else env.err)

/-- A hook that looks at the working directory and runs something on it. -/
def onWorkingDir (env : HookEnv) (s : State) : Option (State × Option String) := do
  let _ ← s.workingDir
  return (s, env.err)

/-- A method of a hook: what it leaves, and its error. -/
def call (name : String) (env : HookEnv) (s : State) : Hook → Phase → Option (State × Option String)
  | .logLimiter, .preExec => limitLogs name env s
  | .logLimiter, .postSuccess => s.exitContext.map fun s => (s, none)
  | .logLimiter, .postFail => keepFailedLog env s
  | .zfs _, .preJob => onWorkingDir env s
  | .btrfsSnapshot _, .preJob => onWorkingDir env s
  | .btrfsSnapshot _, .postSuccess => onWorkingDir env s
  | .execPost true command, .postSuccess => execPost env command s
  | .execPost false command, .postFail => execPost env command s
  | _, _ => some (s, none)

end KubeSync.ProviderContext
