import KubeSync.Types
import KubeSync.Resumption

/-! # One sync run (`runHooks` and `runJobWrapper` of `worker/job.go`)

A sync run is a sequential program over the operations `SyncOp`: it sends messages to the
scheduler loop, calls the hooks of the provider, starts the provider, waits in two selects and
reads the job state.  What these operations answer is not under its control, so a run is a tree
(`Prog`) and its complete runs are the traces `Ends`.

* A hook answers with its error, `awaitStart` with the case of the select that waits for the
  provider to start, `awaitDone` with the case of the select that waits for its end; the cases
  `timeout` and `kill` carry the result of `provider.Terminate`.
* The select on the start logs `err.Error()`, so a nil error there is a nil dereference and the
  process is gone: `panic` has no answer.
* `attempt` is the body of the retry loop and returns whether the loop goes on. -/

namespace KubeSync.Worker

/-- The states of a `mirrorJob`. -/
inductive JobState where
  | none
  | ready
  | paused
  | disabled
  | halting
deriving DecidableEq, Repr, Inhabited

/-- `ctrlAction`. -/
inductive CtrlAction where
  | start
  | stop
  | disable
  | restart
  | ping
  | halt
  | forceStart
deriving DecidableEq, Repr

/-- `jobMessage`. -/
structure JobMessage where
  status : SyncStatus
  msg : String
  schedule : Bool
deriving DecidableEq, Repr

/-- The hook methods of `jobHook`. -/
inductive Phase where
  | preJob
  | preExec
  | postExec
  | postSuccess
  | postFail
deriving DecidableEq, Repr

/-- The `hookname` argument of `runHooks`. -/
def Phase.hookname : Phase → String
  | preJob => "pre-job"
  | preExec => "pre-exec"
  | postExec => "post-exec"
  | postSuccess => "post-success"
  | postFail => "post-fail"

/-- What a run reads of its `mirrorProvider`: the hooks are known by number, `timeout` is the
timeout as `%v` prints it, `interval` is in nanoseconds. -/
structure Provider where
  name : String
  hooks : List ℕ
  retry : ℤ
  timeout : String
  interval : ℤ
deriving DecidableEq, Repr

def defaultMaxRetry : ℤ := 2

/-- `Retry()`: the constructors of the providers replace a retry of zero. -/
def Provider.Retry (p : Provider) : ℤ := if p.retry = 0 then defaultMaxRetry else p.retry

/-- The case taken by the select that waits for the provider to start. -/
inductive StartSel where
  | done (err : Option String)
  | started
deriving DecidableEq, Repr, Inhabited

/-- The case taken by the select that waits for the provider to end. -/
inductive DoneSel where
  | done (err : Option String)
  | timeout (termErr : Option String)
  | kill (termErr : Option String)
deriving DecidableEq, Repr, Inhabited

/-- The operations of a sync run. -/
inductive SyncOp where
  | send (m : JobMessage)
  | hook (ph : Phase) (h : ℕ)
  | runProvider
  | awaitStart
  | awaitDone
  | dataSize
  | getState
  | panic
deriving DecidableEq, Repr

/-- What each operation answers. -/
@[reducible] def SyncOp.Answer : SyncOp → Type
  | send _ => Unit
  | hook _ _ => Option String
  | runProvider => Unit
  | awaitStart => StartSel
  | awaitDone => DoneSel
  | dataSize => ℕ
  | getState => JobState
  | panic => Empty

abbrev SyncProg := Prog SyncOp SyncOp.Answer
abbrev SyncEvent := Prog.Event SyncOp SyncOp.Answer

open Prog (call)

namespace SyncProg

def send (m : JobMessage) : SyncProg Unit := call (SyncOp.send m)
def hook (ph : Phase) (h : ℕ) : SyncProg (Option String) := call (SyncOp.hook ph h)
def runProvider : SyncProg Unit := call SyncOp.runProvider
def awaitStart : SyncProg StartSel := call SyncOp.awaitStart
def awaitDone : SyncProg DoneSel := call SyncOp.awaitDone
def dataSize : SyncProg ℕ := call SyncOp.dataSize
def getState : SyncProg JobState := call SyncOp.getState
def panic {α : Type} : SyncProg α := .op SyncOp.panic Empty.elim

end SyncProg

open SyncProg

/-- The message of a failing hook. -/
def hookFailed (ph : Phase) (err : String) : JobMessage :=
  ⟨.failed, "error exec hook " ++ ph.hookname ++ ": " ++ err, true⟩

/-- `runHooks`: call the hooks in order, stop at the first error; returns whether one failed. -/
def runHooks (ph : Phase) : List ℕ → SyncProg Bool
  | [] => return false
  | h :: hs => do
      match ← hook ph h with
      | some err => do
          send (hookFailed ph err)
          return true
      | none => runHooks ph hs

/-- What the two selects leave in `syncErr`, `termErr` and `stopASAP`. -/
structure Outcome where
  syncErr : Option String
  termErr : Option String
  stopASAP : Bool
deriving DecidableEq, Repr

/-- The second select.  An error that the first select received was put back, so it is the one
received again. -/
def outcome (p : Provider) (start : StartSel) : DoneSel → Outcome
  | .done err => ⟨match start with | .done e => e | .started => err, none, false⟩
  | .timeout t => ⟨some (p.name ++ " timeout after " ++ p.timeout), t, false⟩
  | .kill t => ⟨some "killed by manager", t, true⟩

/-- The schedule flag of a failure: `(retry == provider.Retry()-1) && (m.State() == stateReady)`,
which reads the state only for the last index. -/
def failedSchedule (p : Provider) (retry : ℤ) : SyncProg Bool :=
  if retry = p.Retry - 1 then do
    let s ← getState
    return s == .ready
  else
    return false

/-- The end of the loop body: the hooks after the sync and the final message. -/
def report (p : Provider) (retry : ℤ) (r : Outcome) : SyncProg Bool := do
  if ← runHooks .postExec p.hooks.reverse then
    return false
  match r.syncErr with
  | none => do
      if ← runHooks .postSuccess p.hooks.reverse then
        return false
      let _ ← dataSize
      let s ← getState
      send ⟨.success, "", s == .ready⟩
      return false
  | some err => do
      if ← runHooks .postFail p.hooks.reverse then
        return false
      let schedule ← failedSchedule p retry
      send ⟨.failed, err, schedule⟩
      return !r.stopASAP

/-- The body of the retry loop; returns whether the loop goes on. -/
def attempt (p : Provider) (retry : ℤ) : SyncProg Bool := do
  if ← runHooks .preExec p.hooks then
    return false
  send ⟨.syncing, "", false⟩
  runProvider
  let start ← awaitStart
  if start = .done none then
    panic
  else do
    let r := outcome p start (← awaitDone)
    if r.termErr.isSome then
      return false
    report p retry r

/-- The retry loop, `n` rounds from the index `retry`. -/
def attempts (p : Provider) : ℕ → ℤ → SyncProg Unit
  | 0, _ => return ()
  | n + 1, retry => do
      if ← attempt p retry then
        attempts p n (retry + 1)

/-- `runJobWrapper`. -/
def runJobWrapper (p : Provider) : SyncProg Unit := do
  send ⟨.preSyncing, "", false⟩
  if ← runHooks .preJob p.hooks then
    return ()
  attempts p p.Retry.toNat 0

end KubeSync.Worker
