import KubeSync.Worker

/-! # The child processes of a provider

`Run` and `Terminate` of the command, the rsync and the two-stage rsync provider
(`cmd_provider.go`, `rsync_provider.go`, `two_stage_rsync_provider.go`, `base_provider.go`,
`runner.go`), called by the goroutine of a sync run.

* A section between `Lock` and `Unlock` is one step, with the send on `started`; so are the read of
  `p.cmd` in `Wait`, the return of `cmd.Wait`, the store of `isRunning` behind it and the exit of a
  process.
* Every call of `Run` is a record in `calls`, every `cmdJob` one in `cmds`, and `p.cmd` is the
  number of one of them.  A call that was given up after a timeout or a kill goes on by itself.
* The calls are made by the program `runJobWrapper`; the call it waits for is the last one.  When
  it has returned, the next sync run may begin.
* The provider is shared by all calls, its log file and the size of its data are left out. -/

namespace KubeSync.ProviderProcess

open Worker (SyncProg SyncOp StartSel DoneSel Reply JobState runJobWrapper)

/-- The kind of a provider; `profileOk` says whether the stage 1 profile is a known one. -/
inductive Kind where
  | cmd
  | rsync
  | twoStageRsync (profileOk : Bool)
deriving DecidableEq, Repr

inductive Stage where
  | first
  | second
deriving DecidableEq, Repr

/-- Whether the loop over the stages goes on behind `stage`. -/
def Kind.goesOn : Kind → Stage → Bool
  | .twoStageRsync _, .first => true
  | _, _ => false

/-- The error of `Options`. -/
def Kind.optionsErr : Kind → Stage → Option String
  | .twoStageRsync false, .first => some "Invalid Stage 1 Profile"
  | _, _ => none

/-- The result of `Run` behind its last process; `matchErr` is what the command provider finds in
the log file. -/
def Kind.result (matchErr : Option String) : Kind → Option String
  | .cmd => matchErr
  | _ => none

/-- `cmdJob`: without a log file, not started, running (and whether it was sent a signal), or
exited. -/
inductive Cmd where
  | noLog
  | notStarted
  | running (signalled : Bool)
  | exited (err : Option String)
deriving DecidableEq, Repr

/-- `Run`: before its lock, before the read of `p.cmd`, in `cmd.Wait`, before the store of
`isRunning`, before it locks again or returns, returned. -/
inductive Pc where
  | called
  | launched (stage : Stage)
  | waiting (stage : Stage) (c : ℕ)
  | waited (stage : Stage) (err : Option String)
  | cleared (stage : Stage) (err : Option String)
  | returned (err : Option String)
deriving DecidableEq, Repr

/-- A call of `Run` and whether it has sent on `started`. -/
structure Call where
  pc : Pc := .called
  started : Bool := false
deriving DecidableEq, Repr

structure Config where
  kind : Kind
  provider : Worker.Provider

structure State where
  isRunning : Bool := false
  cmd : Option ℕ := none
  cmds : List Cmd := []
  calls : List Call := []
  wrapper : SyncProg Unit := .ret ()

def State.init : State := {}

def State.setPc (s : State) (k : ℕ) (call : Call) (pc : Pc) : State :=
  { s with calls := s.calls.set k { call with pc } }

/-- `p.cmd = newCmdJob(..)`. -/
def State.addCmd (s : State) (x : Cmd) : State :=
  { s with cmd := some s.cmds.length, cmds := s.cmds ++ [x] }

/-! ### `Run` -/

/-- How the start of a command ends. -/
inductive Launch where
  | logErr (err : String)
  | startErr (err : String)
  | ok
deriving DecidableEq, Repr

/-- The part of `Run` that starts the command of a stage. -/
def launch (kind : Kind) (s : State) (k : ℕ) (call : Call) (stage : Stage) (x : Launch) : State :=
  match kind.optionsErr stage with
  | some e => s.setPc k call (.returned (some e))
  | none =>
      match x with
      | .logErr e => (s.addCmd .noLog).setPc k call (.returned (some e))
      | .startErr e => (s.addCmd .notStarted).setPc k call (.returned (some e))
      | .ok =>
          { s.addCmd (.running false) with isRunning := true }.setPc k { call with started := true }
            (.launched stage)

/-- The section up to the first `Unlock`. -/
def stepEnter (kind : Kind) (s : State) (k : ℕ) (call : Call) (x : Launch) : Option State :=
  match call.pc with
  | .called =>
      if s.isRunning then some (s.setPc k call (.returned (some "provider is currently running")))
      else some (launch kind s k call .first x)
  | _ => none

/-- `Wait` reads `p.cmd`. -/
def stepRead (s : State) (k : ℕ) (call : Call) : Option State :=
  match call.pc, s.cmd with
  | .launched stage, some c => some (s.setPc k call (.waiting stage c))
  | _, _ => none

/-- `cmd.Wait` returns; for a command without a log file it closes a nil channel, which is a
run-time panic. -/
def stepReap (s : State) (k : ℕ) (call : Call) : Option State :=
  match call.pc with
  | .waiting stage c =>
      match s.cmds[c]? with
      | some (.exited err) => some (s.setPc k call (.waited stage err))
      | some .notStarted => some (s.setPc k call (.waited stage (some "exec: not started")))
      | _ => none
  | _ => none

/-- The deferred function of `Wait`. -/
def stepClear (s : State) (k : ℕ) (call : Call) : Option State :=
  match call.pc with
  | .waited stage err => some ({ s with isRunning := false }.setPc k call (.cleared stage err))
  | _ => none

/-- Behind `Wait`: the next stage, in a new locked section, or the return. -/
def stepResume (kind : Kind) (s : State) (k : ℕ) (call : Call) (x : Launch)
    (matchErr : Option String) : Option State :=
  match call.pc with
  | .cleared _ (some e) => some (s.setPc k call (.returned (some e)))
  | .cleared stage none =>
      if kind.goesOn stage then some (launch kind s k call .second x)
      else some (s.setPc k call (.returned (kind.result matchErr)))
  | _ => none

/-- A process exits. -/
def stepExit (s : State) (c : ℕ) (err : Option String) : Option State :=
  match s.cmds[c]? with
  | some (.running _) => some { s with cmds := s.cmds.set c (.exited err) }
  | _ => none

/-! ### `Terminate` and the sync run -/

/-- The command that `Terminate` finds, unless nothing is running. -/
def State.target (s : State) : Option (ℕ × Cmd) :=
  if s.isRunning then s.cmd.bind fun c => s.cmds[c]?.map fun x => (c, x) else none

/-- What `Terminate` does: it sends signals to the process of `p.cmd`. -/
def terminate (s : State) : State :=
  match s.target with
  | some (c, .running _) => { s with cmds := s.cmds.set c (.running true) }
  | _ => s

/-- Whether `Terminate` can return `err`: a process that has exited may still take the signal, or
be gone. -/
def terminates (s : State) (err : Option String) : Bool :=
  match s.target with
  | none | some (_, .running _) => err.isNone
  | some (_, .exited _) => true
  | some _ => err == some "Process Not Started"

/-- The cases of the select that waits for the start of the last call. -/
def starts (s : State) : StartSel → Bool
  | .started => s.calls.getLast?.any fun call => call.started
  | .done err => s.calls.getLast?.any fun call => call.pc == .returned err

/-- The cases of the select that waits for the end of the last call. -/
def ends (s : State) : DoneSel → Bool
  | .done err => s.calls.getLast?.any fun call => call.pc == .returned err
  | .timeout err => terminates s err
  | .kill err => terminates s err

/-- The answer of an operation of the sync run, where it can be performed; `state` is the job
state, which the provider does not know. -/
def answer (s : State) (state : JobState) : (e : SyncOp) → Reply → Option e.Answer
  | .send _, .go => some ()
  | .hook _ _, .hook err => some err
  | .runProvider, .go => some ()
  | .awaitStart, .start sel => if starts s sel then some sel else none
  | .awaitDone, .done sel => if ends s sel then some sel else none
  | .dataSize, .size n => some n
  | .getState, .go => some state
  | _, _ => none

/-- What an operation of the sync run does to the provider. -/
def effect (s : State) : (e : SyncOp) → e.Answer → State
  | .runProvider, _ => { s with calls := s.calls ++ [{}] }
  | .awaitDone, .timeout _ => terminate s
  | .awaitDone, .kill _ => terminate s
  | _, _ => s

def stepWrapper (s : State) (state : JobState) (x : Reply) : Option State :=
  match s.wrapper with
  | .op e k => (answer s state e x).map fun a => { effect s e a with wrapper := k a }
  | .ret _ => none

def stepSync (cfg : Config) (s : State) : Option State :=
  match s.wrapper with
  | .ret _ => some { s with wrapper := runJobWrapper cfg.provider }
  | .op _ _ => none

/-! ### The system -/

inductive Label where
  | sync
  | wrapper (state : JobState) (x : Reply)
  | enter (k : ℕ) (x : Launch)
  | read (k : ℕ)
  | exit (c : ℕ) (err : Option String)
  | reap (k : ℕ)
  | clear (k : ℕ)
  | resume (k : ℕ) (x : Launch) (matchErr : Option String)
deriving DecidableEq, Repr

def step (cfg : Config) (s : State) : Label → Option State
  | .sync => stepSync cfg s
  | .wrapper state x => stepWrapper s state x
  | .enter k x => s.calls[k]?.bind fun call => stepEnter cfg.kind s k call x
  | .read k => s.calls[k]?.bind fun call => stepRead s k call
  | .exit c err => stepExit s c err
  | .reap k => s.calls[k]?.bind fun call => stepReap s k call
  | .clear k => s.calls[k]?.bind fun call => stepClear s k call
  | .resume k x matchErr => s.calls[k]?.bind fun call => stepResume cfg.kind s k call x matchErr

end KubeSync.ProviderProcess
