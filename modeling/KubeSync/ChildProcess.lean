import KubeSync.Context
import Mathlib.Data.List.Basic

/-! # The processes of a provider

The command lines and environments of the processes that a provider and its hooks start:
`newCmdJob` and `newEnviron` of `worker/runner.go`, the `Start` of the command and rsync providers,
`Options` and `Run` of the two-stage rsync provider, and `Do` of `execPostHook`.

* An environment is a list of lines as `os.Environ` has it, where each name stands once, and
  `getenv` reads it.  `newEnviron` walks over a map, so that a map is the list of its entries in the
  order of that walk.
* A provider reads its context when it starts a process, so that the process depends on the state.
  An accessor without a value and a command without words are panics (`none`).
* A provider may fail to start a process, and a second stage is started behind the first only, so
  that what `Run` has started is an initial part of `commands`.
* The environment that `go-sh` makes of the variables of a hook is left out. -/

namespace KubeSync.ChildProcess

open WorkerConfig (Hook Base MirrorProvider)
open ProviderContext (State)
open Worker (Phase)

/-! ### Environments -/

/-- `strings.Split(line, "=")[0]`. -/
def keyOf (line : String) : String := String.ofList (line.toList.takeWhile (· ≠ '='))

/-- The value of a line that sets `key`. -/
def valueOf (key line : String) : Option String :=
  if '=' ∈ line.toList ∧ keyOf line = key then
    some (String.ofList ((line.toList.dropWhile (· ≠ '=')).drop 1))
  else none

def getenv (environ : List String) (key : String) : Option String :=
  environ.findSome? (valueOf key)

/-- `newEnviron` with `inherit`: what the process itself has, and the variables of the map. -/
def newEnviron (env : List (String × String)) (environ : List String) : List String :=
  (environ.filter fun line => (env.lookup (keyOf line)).isNone) ++
    env.map fun e => e.1 ++ "=" ++ e.2

/-! ### Command lines -/

/-- `cmdJob`, as far as the process depends on it. -/
structure CmdJob where
  cmdAndArgs : List String
  workingDir : String
  environ : List String
deriving DecidableEq, Repr

def newCmdJob (cmdAndArgs : List String) (workingDir : String) (env : List (String × String))
    (environ : List String) : Option CmdJob :=
  if cmdAndArgs = [] then none else some ⟨cmdAndArgs, workingDir, newEnviron env environ⟩

/-- `rsyncStage1Profiles`. -/
def rsyncStage1Profiles : List (String × List String) :=
  [("debian", ["--include=*.diff/", "--exclude=*.diff/Index", "--exclude=Packages*",
      "--exclude=Sources*", "--exclude=Release*", "--exclude=InRelease", "--include=i18n/by-hash",
      "--exclude=i18n/*", "--exclude=ls-lR*"]),
    ("debian-oldstyle", ["--exclude=Packages*", "--exclude=Sources*", "--exclude=Release*",
      "--exclude=InRelease", "--exclude=i18n/*", "--exclude=ls-lR*", "--exclude=dep11/*"])]

def stage1Options : List String :=
  ["-aHvh", "--no-o", "--no-g", "--stats", "--filter", "risk .~tmp~/", "--exclude", ".~tmp~/",
    "--safe-links"]

def stage2Options : List String :=
  ["-aHvh", "--no-o", "--no-g", "--stats", "--filter", "risk .~tmp~/", "--exclude", ".~tmp~/",
    "--delete", "--delete-after", "--delay-updates", "--safe-links"]

/-- What both stages append to their options. -/
def networkOptions (excludeFile : String) (rsyncNeverTimeout : Bool) (rsyncTimeoutValue : ℤ)
    (useIPv6 useIPv4 : Bool) : List String :=
  (if rsyncNeverTimeout then []
    else ["--timeout=" ++ toString (if rsyncTimeoutValue > 0 then rsyncTimeoutValue else 120)]) ++
    (if useIPv6 then ["-6"] else if useIPv4 then ["-4"] else []) ++
    (if excludeFile ≠ "" then ["--exclude-from", excludeFile] else [])

/-- `Options` of the two stages; without the profile the first one is an error. -/
def stageOptions (stage1Profile : String) (extraOptions network : List String) :
    Option (List String × List String) :=
  (rsyncStage1Profiles.lookup stage1Profile).map fun profile =>
    (stage1Options ++ profile ++ network, stage2Options ++ extraOptions ++ network)

/-- The command lines of a provider, with its working directory. -/
def commandLines (base : Base) (workingDir : String) : WorkerConfig.Kind → List (List String)
  | .cmd command _ _ => [command]
  | .rsync rsyncCmd options => [rsyncCmd :: options ++ [base.upstreamURL, workingDir]]
  | .twoStageRsync rsyncCmd stage1Profile excludeFile extraOptions never timeout ipv6 ipv4 =>
      match stageOptions stage1Profile extraOptions
        (networkOptions excludeFile never timeout ipv6 ipv4) with
      | none => []
      | some (stage1, stage2) =>
          [rsyncCmd :: stage1 ++ [base.upstreamURL, workingDir],
            rsyncCmd :: stage2 ++ [base.upstreamURL, workingDir]]

/-! ### What is started -/

/-- The variables that the command provider sets. -/
def syncEnv (base : Base) (s : State) : Option (List (String × String)) := do
  let workingDir ← s.workingDir
  let logDir ← s.logDir
  let logFile ← s.logFile
  return [("TUNASYNC_MIRROR_NAME", base.name), ("TUNASYNC_WORKING_DIR", workingDir),
    ("TUNASYNC_UPSTREAM_URL", base.upstreamURL), ("TUNASYNC_LOG_DIR", logDir),
    ("TUNASYNC_LOG_FILE", logFile)]

/-- The variables of a provider: the rsync providers pass nil. -/
def envOf (base : Base) (s : State) : WorkerConfig.Kind → Option (List (String × String))
  | .cmd .. => syncEnv base s
  | _ => some []

/-- The processes that `Run` starts one behind the other if nothing fails, where the map of the
variables is walked in the order of `env`. -/
def commands (p : MirrorProvider) (environ : List String) (env : List (String × String))
    (s : State) : Option (List CmdJob) := do
  let workingDir ← s.workingDir
  (commandLines p.base workingDir p.kind).mapM fun line => newCmdJob line workingDir env environ

/-- A process with what it was started for. -/
inductive Started where
  | sync (cmd : CmdJob)
  | hook (onSuccess : Bool) (command : List String) (env : List (String × String))
deriving DecidableEq, Repr

/-- `execPostHook.Do` up to the start of the process. -/
def hookProcess (base : Base) (s : State) (onSuccess : Bool) (command : List String) :
    Option (List Started) := do
  let env ← syncEnv base s
  return if command = [] then []
    else [.hook onSuccess command (env ++
      [("TUNASYNC_JOB_EXIT_STATUS", if onSuccess then "success" else "failure")])]

/-- What a method of a hook starts. -/
def hookProcesses (base : Base) (s : State) : Hook → Phase → Option (List Started)
  | .execPost true command, .postSuccess => hookProcess base s true command
  | .execPost false command, .postFail => hookProcess base s false command
  | _, _ => some []

/-! ### What a process sees -/

end KubeSync.ChildProcess
