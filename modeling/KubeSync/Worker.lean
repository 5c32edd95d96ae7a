import KubeSync.Schedule
import KubeSync.SyncRun

/-! # The worker process (`worker/worker.go`, `worker/job.go`)

The goroutines of one worker over its shared memory, as a partial step function on explicit
program counters.  A step is one access to shared memory, one channel operation or one call that
waits for the outside, so every interleaving of the source is a list of labels.

* The HTTP handlers are serialised by `w.L`; a handler exists from the moment it has the lock
  (`handler`).  The lock is held by the party that stands between its `Lock` and `Unlock`, so it
  needs no field of its own (`State.locked`).
* `runSchedule` is the counter `sched`, `Halt` the counter `halt`.
* `go w.job.Run(..)` appends to `runs`.  An invocation keeps the sync goroutine of its current
  round in `sync`; the code that goroutine has left is a residual program of `runJobWrapper`.
* Channels are bounded as in the source: `ctrlChan` holds one action, `managerChan` 32 messages,
  `semaphore` one token for each slot.
* A receive and the `SetState` that follows it are two steps, and each `State()` is a step.
* A move that the source cannot make is `none`.  In particular closing the closed `m.disabled`
  is a run-time panic, and a call on a locked `schedule` never returns. -/

namespace KubeSync.Worker

/-- What the worker is started with. -/
structure Config where
  provider : Provider
  concurrent : ℕ

/-! ### The goroutines -/

/-- `runJob`: waiting in its select, handing over `jobDone` after a kill, inside
`runJobWrapper`, or behind `close(jobDone)`. -/
inductive SyncPc where
  | select
  | handoff
  | body (code : SyncProg Unit)
  | done

/-- A sync goroutine: whether its `kill` channel is closed and whether it holds a token of the
semaphore. -/
structure Sync where
  kill : Bool := false
  held : Bool := false
  pc : SyncPc := .select

/-- `mirrorJob.Run`.  `waitGot` and `idleGot` hold an action that was received and not yet
acted on, `killing` stands before `close(kill)`, `joining` before `<-jobDone`, `ret` before the
deferred function. -/
inductive RunPc where
  | spawned
  | top
  | launch
  | wait
  | waitGot (a : CtrlAction)
  | killing (a : CtrlAction)
  | joining (a : CtrlAction)
  | sleeping
  | idle
  | idleGot (a : CtrlAction)
  | ret
  | gone
deriving DecidableEq, Repr

/-- An invocation of `mirrorJob.Run`; `bypass` is its channel `bypassSemaphore`. -/
structure Run where
  pc : RunPc := .spawned
  bypass : Bool := false
  sync : Option Sync := none

/-- The `POST /` handler, from `w.schedule.Remove()` on. -/
inductive HandlerPc where
  | remove (c : ClientCmd)
  | guard (a : CtrlAction)
  | spawn (a : CtrlAction)
  | check
  | send (a : CtrlAction)
  | reply (code : ℕ)
deriving DecidableEq, Repr

/-- `runSchedule`.  `check` and `check2` are the two reads of the state, `start` holds a popped
entry, `stuck` is a call of `AddJob` that never returns (with or without `w.L`). -/
inductive SchedPc where
  | lock
  | fetch
  | setup (st : JobStatus)
  | spawn (stime : Option ℤ)
  | add (stime : ℤ)
  | unlock
  | getJob
  | upload (nextScheduled : ℤ)
  | loop
  | check (m : JobMessage)
  | check2 (m : JobMessage)
  | update (m : JobMessage)
  | addJob (m : JobMessage)
  | start
  | stuck (locked : Bool)
  | exitLock
  | flush
  | flushUpdate (m : JobMessage)
  | returned
deriving DecidableEq, Repr

/-- `Halt`. -/
inductive HaltPc where
  | idle
  | check
  | send
  | wait
  | close
  | done
deriving DecidableEq, Repr

/-- `m.disabled`. -/
inductive DisabledChan where
  | nil
  | opened
  | closed
deriving DecidableEq, Repr

/-- The shared memory and the goroutines of a worker.  `releasing` counts the sync goroutines
that have closed `jobDone` and not yet returned their token. -/
structure State where
  state : JobState := .none
  size : ℕ := 0
  ctrlChan : Option CtrlAction := none
  disabled : DisabledChan := .nil
  managerChan : List JobMessage := []
  semaphore : ℕ := 0
  releasing : ℕ := 0
  schedule : Schedule := .new
  jobsDone : ℕ := 0
  exit : Bool := false
  sched : SchedPc := .lock
  handler : Option HandlerPc := none
  halt : HaltPc := .idle
  runs : List Run := []

def State.init : State := {}

def SchedPc.holdsL : SchedPc → Bool
  | fetch | setup _ | spawn _ | add _ | unlock | stuck true | flush | flushUpdate _ => true
  | _ => false

def HaltPc.holdsL : HaltPc → Bool
  | check | send | wait => true
  | _ => false

/-- Whether `w.L` is held. -/
def State.locked (s : State) : Bool := s.handler.isSome || s.sched.holdsL || s.halt.holdsL

def State.setRun (s : State) (i : ℕ) (r : Run) : State := { s with runs := s.runs.set i r }

/-! ### Labels -/

/-- The answer of the environment to an operation of a sync run; `go` where there is nothing to
choose. -/
inductive Reply where
  | go
  | hook (err : Option String)
  | start (sel : StartSel)
  | done (sel : DoneSel)
  | size (n : ℕ)
deriving DecidableEq, Repr

/-- A step of a sync goroutine: the three cases of its select, an operation of
`runJobWrapper`, and its return. -/
inductive SyncMove where
  | acquire
  | bypass
  | kill
  | op (x : Reply)
  | finish
deriving DecidableEq, Repr

/-- Who moves.  `command` is a request whose handler gets the lock (`none` for a body that does
not decode), `fetched` the result of `fetchJobStatus`; `message`, `tick` and `exited` are the
cases of the scheduler's select; `run` and `done` are the cases of the select that waits for a
sync run, and `run` every other step of that invocation.  Clock readings are in nanoseconds. -/
inductive Label where
  | command (c : Option ClientCmd)
  | handler
  | fetched (st : JobStatus)
  | sched (now : ℤ)
  | message
  | tick (now : ℤ)
  | exited
  | halt
  | run (i : ℕ)
  | done (i : ℕ)
  | sync (i : ℕ) (x : SyncMove)
  | release
deriving DecidableEq, Repr

/-! ### The HTTP handler -/

/-- The switches behind `w.schedule.Remove()`. -/
def afterRemove (c : ClientCmd) : HandlerPc :=
  match c.cmd with
  | .start => .guard (if c.force then .forceStart else .start)
  | .restart => .guard .restart
  | .stop => .check
  | .ping => .reply 200
  | .update => .reply 406

def stepCommand (s : State) (c : Option ClientCmd) : Option State :=
  if s.locked then none
  else match c with
    | none => some { s with handler := some (.reply 400) }
    | some c => some { s with handler := some (.remove c) }

def stepHandler (s : State) : Option State :=
  match s.handler with
  | none => none
  | some (.remove c) =>
      match s.schedule.remove with
      | .blocked _ => none
      | .done q _ => some { s with schedule := q, handler := some (afterRemove c) }
  | some (.guard a) =>
      if s.state = .disabled then some { s with handler := some (.spawn a) }
      else some { s with handler := some (.send a) }
  | some (.spawn a) => some { s with runs := s.runs ++ [{}], handler := some (.send a) }
  | some .check =>
      if s.state ≠ .disabled then some { s with handler := some (.send .stop) }
      else some { s with handler := some (.reply 200) }
  | some (.send a) =>
      if s.ctrlChan = none then
        some { s with ctrlChan := some a, handler := some (.reply 200) }
      else none
  | some (.reply _) => some { s with handler := none }

/-! ### `runSchedule` -/

/-- The `SetState` of the start-up switch on the stored status. -/
def startState : SyncStatus → JobState
  | .disabled => .disabled
  | .paused => .paused
  | _ => .none

/-- Where each case of the start-up switch goes on. -/
def startPc (cfg : Config) (st : JobStatus) : SchedPc :=
  match st.status with
  | .disabled => .unlock
  | .paused => .spawn none
  | _ => .spawn (some (wrapInt64 (st.lastUpdate + cfg.provider.interval.tdiv 1000000000)))

/-- Behind `go w.job.Run(..)`. -/
def afterSpawn : Option ℤ → SchedPc
  | none => .unlock
  | some stime => .add stime

/-- `AddJob` and where the caller continues, or the blocked call. -/
def callAddJob (s : State) (t : ℤ) (next : SchedPc) (locked : Bool) : State :=
  match s.schedule.addJob t with
  | .done q _ => { s with schedule := q, sched := next }
  | .blocked q => { s with schedule := q, sched := .stuck locked }

/-- Every step of `runSchedule` but its calls of `fetchJobStatus` and the cases of its
select. -/
def stepSched (cfg : Config) (s : State) (now : ℤ) : Option State :=
  match s.sched with
  | .lock => if s.locked then none else some { s with sched := .fetch }
  | .fetch => none
  | .setup st => some { s with state := startState st.status, sched := startPc cfg st }
  | .spawn t => some { s with runs := s.runs ++ [{}], sched := afterSpawn t }
  | .add t => some (callAddJob s t .unlock true)
  | .unlock => some { s with sched := .getJob }
  | .getJob => some { s with sched := .upload s.schedule.getJob }
  | .upload _ => some { s with sched := .loop }
  | .loop => none
  | .check m =>
      if s.state ≠ .ready then some { s with sched := .check2 m }
      else some { s with sched := .update m }
  | .check2 m =>
      if s.state ≠ .halting then some { s with sched := .loop }
      else some { s with sched := .update m }
  | .update m => some { s with sched := .addJob m }
  | .addJob m =>
      if m.schedule then
        some (callAddJob s ((now + cfg.provider.interval) / 1000000000) .getJob false)
      else some { s with sched := .getJob }
  | .start =>
      if s.ctrlChan = none then some { s with ctrlChan := some .start, sched := .loop }
      else none
  | .stuck _ => none
  | .exitLock => if s.locked then none else some { s with sched := .flush }
  | .flush =>
      match s.managerChan with
      | [] => some { s with sched := .returned }
      | m :: ms =>
          if m.status = .failed ∨ m.status = .success then
            some { s with managerChan := ms, sched := .flushUpdate m }
          else some { s with managerChan := ms, sched := .flush }
  | .flushUpdate _ => some { s with sched := .flush }
  | .returned => none

def stepFetched (s : State) (st : JobStatus) : Option State :=
  if s.sched = .fetch then some { s with sched := .setup st } else none

def stepMessage (s : State) : Option State :=
  match s.sched, s.managerChan with
  | .loop, m :: ms => some { s with managerChan := ms, sched := .check m }
  | _, _ => none

def stepTick (s : State) (now : ℤ) : Option State :=
  if s.sched = .loop then
    match s.schedule.pop now with
    | .done q true => some { s with schedule := q, sched := .start }
    | .done q false => some { s with schedule := q }
    | .blocked _ => none
  else none

def stepExited (s : State) : Option State :=
  if s.sched = .loop ∧ s.exit = true then some { s with sched := .exitLock } else none

/-! ### `Halt` -/

def stepHalt (s : State) : Option State :=
  match s.halt with
  | .idle => if s.locked then none else some { s with halt := .check }
  | .check =>
      if s.state ≠ .disabled then some { s with halt := .send }
      else some { s with halt := .wait }
  | .send =>
      if s.ctrlChan = none then some { s with ctrlChan := some .halt, halt := .wait } else none
  | .wait => if s.jobsDone = 0 then some { s with halt := .close } else none
  | .close => some { s with exit := true, halt := .done }
  | .done => none

/-! ### `mirrorJob.Run` -/

/-- The `SetState` in the switch of the select that waits for the sync run. -/
def waitState (old : JobState) : CtrlAction → JobState
  | .stop => .paused
  | .disable => .disabled
  | .restart => .ready
  | .forceStart => old
  | .start => .ready
  | .halt => .halting
  | .ping => old

/-- Where that switch goes on: `jobForceStart` falls through to `jobStart`, which goes back to
the select, and the other cases close `kill`. -/
def waitRun (r : Run) : CtrlAction → Run
  | .forceStart => { r with bypass := true, pc := .waitGot .start }
  | .start => { r with pc := .wait }
  | a => { r with pc := .killing a }

/-- Behind `close(kill)`; only the default case does not wait for `jobDone`. -/
def afterKill (a : CtrlAction) : RunPc :=
  if a = .ping then .ret else .joining a

/-- Behind `<-jobDone`. -/
def afterJoin : CtrlAction → RunPc
  | .stop => .idle
  | .restart => .sleeping
  | _ => .ret

/-- The `SetState` in the switch behind `ctrl := <-m.ctrlChan`. -/
def idleState (old : JobState) : CtrlAction → JobState
  | .stop => .paused
  | .disable => .disabled
  | .start => .ready
  | _ => old

/-- Where that switch goes on: `jobForceStart` falls through to `jobRestart` and that to
`jobStart`. -/
def idleRun (r : Run) : CtrlAction → Run
  | .stop => { r with pc := .top }
  | .disable => { r with pc := .ret }
  | .forceStart => { r with bypass := true, pc := .idleGot .restart }
  | .restart => { r with pc := .idleGot .start }
  | .start => { r with pc := .top }
  | .halt => { r with pc := .ret }
  | .ping => { r with pc := .ret }

/-- Whether the goroutine has closed `jobDone` or stands ready to send on it. -/
def Sync.signals (sy : Sync) : Bool :=
  match sy.pc with
  | .handoff | .done => true
  | _ => false

def stepRun (s : State) (i : ℕ) (r : Run) : Option State :=
  match r.pc with
  | .spawned =>
      some ({ s with jobsDone := s.jobsDone + 1, disabled := .opened }.setRun i
        { r with pc := .top })
  | .top =>
      if s.state = .ready then some (s.setRun i { r with pc := .launch })
      else some (s.setRun i { r with pc := .idle })
  | .launch => some (s.setRun i { r with pc := .wait, sync := some {} })
  | .wait =>
      match s.ctrlChan with
      | none => none
      | some a => some ({ s with ctrlChan := none }.setRun i { r with pc := .waitGot a })
  | .waitGot a => some ({ s with state := waitState s.state a }.setRun i (waitRun r a))
  | .killing a =>
      some (s.setRun i { r with
        sync := r.sync.map fun sy => { sy with kill := true }
        pc := afterKill a })
  | .joining a =>
      if r.sync.any Sync.signals then
        some (s.setRun i { r with sync := none, pc := afterJoin a })
      else none
  | .sleeping => some (s.setRun i { r with pc := .top })
  | .idle =>
      match s.ctrlChan with
      | none => none
      | some a => some ({ s with ctrlChan := none }.setRun i { r with pc := .idleGot a })
  | .idleGot a => some ({ s with state := idleState s.state a }.setRun i (idleRun r a))
  | .ret =>
      if s.disabled = .opened then
        some ({ s with disabled := .closed, jobsDone := s.jobsDone - 1 }.setRun i
          { r with pc := .gone })
      else none
  | .gone => none

/-- The case `<-jobDone` of the select. -/
def stepDone (s : State) (i : ℕ) (r : Run) : Option State :=
  if r.pc = .wait ∧ r.sync.any Sync.signals = true then
    some (s.setRun i { r with sync := none, pc := .idle })
  else none

/-! ### The sync goroutine -/

/-- The answer of an operation, where the operation can be performed. -/
def answer (s : State) (kill : Bool) : (e : SyncOp) → Reply → Option e.Answer
  | .send _, .go => if s.managerChan.length < 32 then some () else none
  | .hook _ _, .hook err => some err
  | .runProvider, .go => some ()
  | .awaitStart, .start sel => some sel
  | .awaitDone, .done (.kill t) => if kill then some (.kill t) else none
  | .awaitDone, .done (.timeout t) => some (.timeout t)
  | .awaitDone, .done (.done err) => some (.done err)
  | .dataSize, .size n => some n
  | .getState, .go => some s.state
  | _, _ => none

/-- The messages an operation puts on `managerChan`. -/
def sends : SyncOp → List JobMessage
  | .send m => [m]
  | _ => []

/-- `m.size = provider.DataSize()`. -/
def sizeAfter (old : ℕ) : (e : SyncOp) → e.Answer → ℕ
  | .dataSize, n => n
  | _, _ => old

/-- What an operation does to the shared memory. -/
def effect (s : State) (e : SyncOp) (a : e.Answer) : State :=
  { s with managerChan := s.managerChan ++ sends e, size := sizeAfter s.size e a }

def stepSync (cfg : Config) (s : State) (i : ℕ) (r : Run) (sy : Sync) : SyncMove → Option State
  | .acquire =>
      match sy.pc with
      | .select =>
          if s.semaphore < cfg.concurrent then
            some ({ s with semaphore := s.semaphore + 1 }.setRun i { r with
              sync := some { sy with held := true, pc := .body (runJobWrapper cfg.provider) } })
          else none
      | _ => none
  | .bypass =>
      match sy.pc with
      | .select =>
          if r.bypass then
            some (s.setRun i { r with
              bypass := false
              sync := some { sy with pc := .body (runJobWrapper cfg.provider) } })
          else none
      | _ => none
  | .kill =>
      match sy.pc with
      | .select =>
          if sy.kill then some (s.setRun i { r with sync := some { sy with pc := .handoff } })
          else none
      | _ => none
  | .op x =>
      match sy.pc with
      | .body (.op e k) =>
          match answer s sy.kill e x with
          | none => none
          | some a =>
              some ((effect s e a).setRun i { r with sync := some { sy with pc := .body (k a) } })
      | _ => none
  | .finish =>
      match sy.pc with
      | .body (.ret _) =>
          some ({ s with releasing := s.releasing + sy.held.toNat }.setRun i { r with
            sync := some { sy with held := false, pc := .done } })
      | _ => none

def stepRelease (s : State) : Option State :=
  if 0 < s.releasing then
    some { s with semaphore := s.semaphore - 1, releasing := s.releasing - 1 }
  else none

/-! ### The system -/

def step (cfg : Config) (s : State) : Label → Option State
  | .command c => stepCommand s c
  | .handler => stepHandler s
  | .fetched st => stepFetched s st
  | .sched now => stepSched cfg s now
  | .message => stepMessage s
  | .tick now => stepTick s now
  | .exited => stepExited s
  | .halt => stepHalt s
  | .run i => s.runs[i]?.bind fun r => stepRun s i r
  | .done i => s.runs[i]?.bind fun r => stepDone s i r
  | .sync i x => s.runs[i]?.bind fun r => r.sync.bind fun sy => stepSync cfg s i r sy x
  | .release => stepRelease s

end KubeSync.Worker
