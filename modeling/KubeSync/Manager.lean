import KubeSync.CriticalSections
import KubeSync.Types
import KubeSync.VersionedStore

/-! # The manager's job handlers

`manager/server.go`: the handlers of the route group `/job/:id`.

* The Jobs live in the API server, a versioned store; the manager reads them through an informer
  cache that may be any number of writes behind (`Env.lag`), and `Status().Update` is refused
  when the version that was read is no longer current.
* A handler is the sequence of its calls to the API server and to the worker (`Code`).  Every
  handler that writes holds `rwmu` from its read to its write, so that one handler is one step of
  the system (`serve`); commands other than stop write nothing.
* A handler may write several responses; the client receives the code of the first one, and 200
  when none was written.  A nil dereference is caught by `gin.Recovery`, which answers 500.
* `Env` holds everything a request gets from outside: clock readings, failures of API calls, the
  worker's answer to a posted command.  Logging is left out. -/

namespace KubeSync.Manager

open CriticalSections (Act)
open Versioned (Store)

/-- The Jobs of the manager's namespace, as the API server stores them. -/
abbrev Jobs := Store String Job

/-- A request body after `BindJSON`: what was decoded, and whether decoding succeeded. -/
structure Decoded (α : Type) where
  value : α
  ok : Bool := true

/-- A URL the manager dials: `http://<host>:<port><path>`. -/
structure Url where
  host : String
  port : ℕ
  path : String := ""
deriving DecidableEq, Repr

/-- The outcome of posting a command to a worker. -/
inductive Posted where
  | failed (err : String)
  | answered (code : ℕ) (body : String)
  | unread (code : ℕ) (err : String)

/-- What one request gets from outside. -/
structure Env where
  now : ℤ := 0
  /-- A second reading of the clock, for the handler that reads it twice. -/
  now' : ℤ := now
  /-- How many writes of the job the cache is behind. -/
  lag : ℕ := 0
  getFails : Bool := false
  writeFails : Bool := false
  /-- The text of the API error, if there is one. -/
  err : String := ""
  /-- The metadata that a new object gets. -/
  ns : String := ""
  uid : String := ""
  post : Posted := .answered 200 ""

/-- The body of a response. -/
inductive Body where
  | nothing
  | empty
  | error (text : String)
  | message (text : String)
  | text (text : String)
  | status (st : JobStatus)
  | job (job : Job)
  | config (id : String) (spec : JobSpec)

structure Response where
  code : ℕ
  body : Body

/-- What a handler leaves behind: the store, the responses in the order in which they were
written, and the commands posted to workers. -/
structure Reply where
  store : Jobs
  written : List Response
  posted : List (Url × ClientCmd) := []

/-- The status code that the client receives. -/
def Reply.code (r : Reply) : ℕ := (r.written.head?.map Response.code).getD 200

def returnErrJSON (code : ℕ) (err : String) : Response := ⟨code, .error err⟩

/-- The answer of `gin.Recovery` to a nil dereference. -/
def recovered : Response := ⟨500, .nothing⟩

/-- The answer of `BindJSON` to a body that does not decode; the handlers go on after it. -/
def Decoded.answer {α : Type} (b : Decoded α) : List Response :=
  if b.ok then [] else [⟨400, .nothing⟩]

/-! ### The API client -/

/-- `client.Get`, served by the cache. -/
def get (s : Jobs) (env : Env) (id : String) : Except String (ℕ × Job) :=
  if env.getFails then .error env.err
  else
    match s.seen env.lag id with
    | some c => .ok c
    | none => .error env.err

/-- `client.Status().Update` for the copy that was read as version `n`. -/
def updateStatus (s : Jobs) (env : Env) (id : String) (n : ℕ) (st : JobStatus) :
    Except String Jobs :=
  if env.writeFails then .error env.err
  else
    match s.modify id n fun job => { job with status := st } with
    | some s' => .ok s'
    | none => .error env.err

/-- `client.Patch` with `client.Apply`: sets the spec, creates the Job if there is none.  The
generation counts the changes of the spec; the status is another subresource. -/
def patch (s : Jobs) (env : Env) (id : String) (spec : JobSpec) : Except String Jobs :=
  if env.writeFails then .error env.err
  else
    match s.value id with
    | some job =>
        if job.spec = spec then .ok s
        else .ok (s.write id { job with spec, generation := job.generation + 1 })
    | none => .ok (s.write id { name := id, ns := env.ns, uid := env.uid, spec })

/-- `client.Delete`. -/
def delete (s : Jobs) (env : Env) (id : String) : Except String Jobs :=
  if env.writeFails then .error env.err
  else
    match s.value id with
    | some _ => .ok (s.remove id)
    | none => .error env.err

/-- The text of the error that `GetJob` returns, which it has also written as a 500 response. -/
def getJobErr (e : String) : String := "failed to get mirror: " ++ e

/-! ### Handlers as sequences of calls -/

/-- What a request is answered with: its responses, and what was posted for it. -/
structure Returned where
  written : List Response
  posted : List (Url × ClientCmd) := []

abbrev Code := Act Jobs Returned

namespace Code

/-- The handler when nothing comes between its calls. -/
def reply (c : Code) (s : Jobs) : Reply where
  store := (c.exec s).1
  written := (c.exec s).2.written
  posted := (c.exec s).2.posted

/-- `m.client.Get`. -/
def get (env : Env) (id : String) (k : Except String (ℕ × Job) → Code) : Code :=
  .op (fun s => s) fun s => k (Manager.get s env id)

/-- A call that changes the store unless it fails. -/
def write (w : Jobs → Except String Jobs) (failed : String → Returned) (k : Code) : Code :=
  .op (fun s => match w s with | .ok s' => s' | .error _ => s)
    fun s => match w s with | .ok _ => k | .error e => .ret (failed e)

/-- `Status().Update` for the copy read as version `n`, and the answer. -/
def store (env : Env) (id : String) (n : ℕ) (st : JobStatus) (err : String → String)
    (before : List Response) (ok : Response) : Code :=
  write (fun s => updateStatus s env id n st) (fun e => ⟨before ++ [returnErrJSON 500 (err e)], []⟩)
    (.ret ⟨before ++ [ok], []⟩)

theorem reply_ret (r : Returned) (s : Jobs) :
    reply (.ret r) s = ⟨s, r.written, r.posted⟩ := rfl

theorem reply_get (env : Env) (id : String) (k : Except String (ℕ × Job) → Code) (s : Jobs) :
    (get env id k).reply s = (k (Manager.get s env id)).reply s := rfl

theorem reply_write (w : Jobs → Except String Jobs) (failed : String → Returned) (k : Code)
    (s : Jobs) :
    (write w failed k).reply s =
      match w s with
      | .error e => ⟨s, (failed e).written, (failed e).posted⟩
      | .ok s' => k.reply s' := by
  unfold write reply
  simp only [Act.exec]
  cases w s with
  | error e => rfl
  | ok s' => rfl

theorem reply_store (env : Env) (id : String) (n : ℕ) (st : JobStatus) (err : String → String)
    (before : List Response) (ok : Response) (s : Jobs) :
    (store env id n st err before ok).reply s =
      match updateStatus s env id n st with
      | .error e => ⟨s, before ++ [returnErrJSON 500 (err e)], []⟩
      | .ok s' => ⟨s', before ++ [ok], []⟩ :=
  reply_write _ _ _ s

end Code

/-! ### The worker's requests -/

/-- The status that `updateJob` stores for the reported `status` over the stored `cur`. -/
def reported (curTime : ℤ) (cur status : JobStatus) : JobStatus :=
  { status with
    lastOnline := curTime
    lastRegister := cur.lastRegister
    lastStarted :=
      if status.status = .preSyncing ∧ cur.status ≠ .preSyncing then curTime else cur.lastStarted
    lastUpdate := if status.status = .success then curTime else cur.lastUpdate
    lastEnded :=
      if status.status = .success ∨ status.status = .failed then curTime else cur.lastEnded
    size := if cur.size > 0 ∧ status.size = 0 then cur.size else status.size }

def updateFailed (id e : String) : String := "failed to update job " ++ id ++ ": " ++ e

namespace Code

def registerMirror (env : Env) (id : String) : Code :=
  get env id fun
    | .error e => .ret ⟨[returnErrJSON 500 (getJobErr e), returnErrJSON 500 (getJobErr e)], []⟩
    | .ok (n, job) =>
        let st := { job.status with lastOnline := env.now, lastRegister := env.now' }
        store env id n st (fun e => "failed to register mirror " ++ id ++ ": " ++ e) []
          ⟨200, .status st⟩

/-- Neither the failed read nor the unchanged schedule ends the handler. -/
def updateSchedule (env : Env) (id : String) (schedule : Decoded ℤ) : Code :=
  get env id fun
    | .error e =>
        .ret ⟨schedule.answer ++ [returnErrJSON 500 (getJobErr e), ⟨200, .empty⟩, recovered], []⟩
    | .ok (n, curJob) =>
        let same := if curJob.status.scheduled = schedule.value then [⟨200, .empty⟩] else []
        store env id n { curJob.status with scheduled := schedule.value, lastOnline := env.now }
          (updateFailed id) (schedule.answer ++ same) ⟨200, .empty⟩

def updateJob (env : Env) (id : String) (status : Decoded JobStatus) : Code :=
  get env id fun
    | .error e => .ret ⟨status.answer ++ [returnErrJSON 500 (getJobErr e), recovered], []⟩
    | .ok (n, curJob) =>
        let st := reported env.now curJob.status status.value
        store env id n st (updateFailed id) status.answer ⟨200, .status st⟩

def updateMirrorSize (env : Env) (id : String) (size : Decoded ℕ) : Code :=
  get env id fun
    | .error e =>
        .ret ⟨size.answer ++ [returnErrJSON 500 (getJobErr e), returnErrJSON 500 (getJobErr e)], []⟩
    | .ok (n, job) =>
        let st := { job.status with size := size.value }
        store env id n st (updateFailed id) size.answer ⟨200, .job { job with status := st }⟩

end Code

/-! ### The operator's requests -/

/-- The address that `PostJSON` posts to. -/
def commandUrl (mirrorID : String) : Url := { host := mirrorID, port := 6000 }

/-- The address that `getJobLatestLog` reads. -/
def logUrl (mirrorID : String) : Url := { host := mirrorID, port := 6000, path := "/log" }

/-- The body of `createJob`: read as a spec when the job is unknown, and as a change of the spec
(`handleMerge`) when it is known; a change that does not give a spec again is `none`. -/
structure SpecBody where
  spec : Decoded JobSpec
  merge : Decoded (JobSpec → Option JobSpec)

def getFailed (id e : String) : String := "failed to get job " ++ id ++ ": " ++ getJobErr e

namespace Code

/-- `enableJob` and `disableJob`: set the status of a job. -/
def setStatus (env : Env) (id : String) (status : SyncStatus) (verb done : String) : Code :=
  get env id fun
    | .error e => .ret ⟨[returnErrJSON 500 (getJobErr e)], []⟩
    | .ok (n, curJob) =>
        store env id n { curJob.status with status, lastOnline := env.now }
          (fun e => "failed to " ++ verb ++ " mirror: " ++ e) [] ⟨200, .message done⟩

def enableJob (env : Env) (id : String) : Code := setStatus env id .created "enable" "enabled"

def disableJob (env : Env) (id : String) : Code := setStatus env id .disabled "disable" "disabled"

/-- `handleClientCmd` from `PostJSON` on. -/
def postCommand (env : Env) (id : String) (cmd : Decoded ClientCmd) : Code :=
  .op (fun s => s) fun _ => .ret
    { posted := [(commandUrl id, cmd.value)]
      written := cmd.answer ++
        match env.post with
        | .failed e => [returnErrJSON 500 ("post command to mirror " ++ id ++ " fail: " ++ e)]
        | .answered code body =>
            if code = 200 then [⟨200, .message ("successfully send command to mirror " ++ id)⟩]
            else [⟨code, .text body⟩]
        | .unread code e =>
            if code = 200 then [⟨200, .message ("successfully send command to mirror " ++ id)⟩]
            else [returnErrJSON 500 e] }

/-- A stop command first stores Paused; when that is refused the handler returns without writing
a response. -/
def handleClientCmd (env : Env) (id : String) (cmd : Decoded ClientCmd) : Code :=
  match cmd.value.cmd with
  | .stop =>
      get env id fun
        | .error e => .ret ⟨cmd.answer ++ [returnErrJSON 500 (getJobErr e)], []⟩
        | .ok (n, curJob) =>
            write (fun s => updateStatus s env id n
                { curJob.status with status := .paused, lastOnline := env.now })
              (fun _ => ⟨cmd.answer, []⟩) (postCommand env id cmd)
  | _ => postCommand env id cmd

/-- `createJob` from `client.Patch` on. -/
def applySpec (env : Env) (id : String) (spec : JobSpec) (before : List Response) : Code :=
  write (fun s => patch s env id spec)
    (fun e => ⟨before ++ [returnErrJSON 500 ("failed to patch job " ++ id ++ ": " ++ e)], []⟩)
    (.ret ⟨before ++ [⟨200, .message ("patch " ++ id ++ " succeed")⟩], []⟩)

def createJob (env : Env) (id : String) (body : SpecBody) : Code :=
  get env id fun
    | .error _ => applySpec env id body.spec.value body.spec.answer
    | .ok (_, ojb) =>
        match body.merge.value ojb.spec with
        | some spec => applySpec env id spec body.merge.answer
        | none => .ret ⟨body.merge.answer ++ [⟨400, .nothing⟩, recovered], []⟩

def deleteJob (env : Env) (id : String) : Code :=
  get env id fun
    | .error e => .ret ⟨[returnErrJSON 500 (getJobErr e)], []⟩
    | .ok _ =>
        write (fun s => delete s env id)
          (fun e => ⟨[returnErrJSON 500 ("failed to delete mirror: " ++ e)], []⟩)
          (.ret ⟨[⟨200, .message "deleted"⟩], []⟩)

def getJob (env : Env) (id : String) : Code :=
  get env id fun
    | .error e =>
        .ret ⟨[returnErrJSON 500 (getJobErr e), returnErrJSON 500 (getFailed id e)], []⟩
    | .ok (_, job) => .ret ⟨[⟨200, .status job.status⟩], []⟩

/-- Reads the spec of the job before it looks at the error. -/
def getJobConfig (env : Env) (id : String) : Code :=
  get env id fun
    | .error e => .ret ⟨[returnErrJSON 500 (getJobErr e), recovered], []⟩
    | .ok (_, job) => .ret ⟨[⟨200, .config id job.spec⟩], []⟩

end Code

def handleClientCmd (s : Jobs) (env : Env) (id : String) (cmd : Decoded ClientCmd) : Reply :=
  (Code.handleClientCmd env id cmd).reply s

def applySpec (s : Jobs) (env : Env) (id : String) (spec : JobSpec) (before : List Response) :
    Reply :=
  (Code.applySpec env id spec before).reply s

def createJob (s : Jobs) (env : Env) (id : String) (body : SpecBody) : Reply :=
  (Code.createJob env id body).reply s

def getJobConfig (s : Jobs) (env : Env) (id : String) : Reply := (Code.getJobConfig env id).reply s

theorem applySpec_eq (s : Jobs) (env : Env) (id : String) (spec : JobSpec)
    (before : List Response) :
    applySpec s env id spec before =
      match patch s env id spec with
      | .error e =>
          ⟨s, before ++ [returnErrJSON 500 ("failed to patch job " ++ id ++ ": " ++ e)], []⟩
      | .ok s' => ⟨s', before ++ [⟨200, .message ("patch " ++ id ++ " succeed")⟩], []⟩ :=
  Code.reply_write _ _ _ s

/-! ### Serving requests -/

/-- The requests of the group; `log` reads no job and is not among them. -/
inductive Op where
  | register
  | schedule (next : Decoded ℤ)
  | report (status : Decoded JobStatus)
  | size (size : Decoded ℕ)
  | enable
  | disable
  | cmd (cmd : Decoded ClientCmd)
  | create (body : SpecBody)
  | delete
  | get
  | getConfig

structure Request where
  id : String
  op : Op
  env : Env := {}

/-- The calls that a request makes. -/
def code (q : Request) : Code :=
  match q.op with
  | .register => .registerMirror q.env q.id
  | .schedule next => .updateSchedule q.env q.id next
  | .report status => .updateJob q.env q.id status
  | .size size => .updateMirrorSize q.env q.id size
  | .enable => .enableJob q.env q.id
  | .disable => .disableJob q.env q.id
  | .cmd cmd => .handleClientCmd q.env q.id cmd
  | .create body => .createJob q.env q.id body
  | .delete => .deleteJob q.env q.id
  | .get => .getJob q.env q.id
  | .getConfig => .getJobConfig q.env q.id

def serve (s : Jobs) (q : Request) : Reply := (code q).reply s

/-- One step of the system: the manager serves a request. -/
def step (s : Jobs) (q : Request) : Option Jobs := some (serve s q).store

end KubeSync.Manager
