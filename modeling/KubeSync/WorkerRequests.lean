import KubeSync.Manager
import KubeSync.SyncRun

/-! # The worker's requests to the manager

`HandleRequest` and `GetJSON` of `worker/util.go`, and the four functions of `worker/worker.go` that
call them.

* `Net` says what becomes of one request on its way: it is lost, it is served and its answer does
  not come back (a timeout of the client), or it is answered.  What the manager's handler gets from
  outside is the `Env` of the request.
* `HandleRequest` reports transport errors only; the status code of the answer is in the response,
  which its callers drop.
* A caller is given as the list of the attempts it makes, each with the store it found. -/

namespace KubeSync.Worker

open Manager (Jobs Op Env Decoded serve)

/-- The way of one request to the manager and of its answer back. -/
inductive Net where
  | lost (err : String)
  | unanswered (env : Env) (err : String)
  | answered (env : Env)

/-- The surroundings in which the manager serves the request, if it reaches it. -/
def Net.env : Net → Option Env
  | .lost _ => none
  | .unanswered env _ => some env
  | .answered env => some env

def Net.isAnswered : Net → Bool
  | .answered _ => true
  | _ => false

/-- The manager's store behind a request. -/
def Net.store (s : Jobs) (id : String) (op : Op) (net : Net) : Jobs :=
  match net.env with
  | some env => (serve s ⟨id, op, env⟩).store
  | none => s

/-- `HandleRequest`: the status code of the response, or the error of the transport. -/
def handleRequest (s : Jobs) (id : String) (op : Op) : Net → Except String ℕ
  | .lost err => .error err
  | .unanswered _ err => .error err
  | .answered env => .ok (serve s ⟨id, op, env⟩).code

/-- One request of the worker and the store that it finds. -/
structure Attempt where
  store : Jobs
  op : Op
  net : Net

/-- The loop of `registerWorker` with `retry` attempts left; `k` counts the attempts made. -/
def registerLoop (id : String) (net : ℕ → Net) : ℕ → ℕ → Jobs → List Attempt
  | 0, _, _ => []
  | retry + 1, k, s =>
      ⟨s, .register, net k⟩ ::
        match handleRequest s id .register (net k) with
        | .error _ => registerLoop id net retry (k + 1) ((net k).store s id .register)
        | .ok _ => []

def registerWorker (id : String) (net : ℕ → Net) (s : Jobs) : List Attempt :=
  registerLoop id net 10 0 s

/-- The body of a status report; the other fields keep their zero values. -/
def statusReport (upstream : String) (size : ℕ) (jobMsg : JobMessage) : JobStatus :=
  { status := jobMsg.status, upstream, size, errorMsg := jobMsg.msg }

def updateStatus (upstream : String) (size : ℕ) (jobMsg : JobMessage) (net : Net) (s : Jobs) :
    List Attempt :=
  [⟨s, .report ⟨statusReport upstream size jobMsg, true⟩, net⟩]

def updateSchedInfo (nextScheduled : ℤ) (net : Net) (s : Jobs) : List Attempt :=
  [⟨s, .schedule ⟨nextScheduled, true⟩, net⟩]

/-! ### Reading the status -/

/-- What comes back for a `GET`: a transport error, or a status code with a body that could not be
read or was read and decoded. -/
inductive Fetched where
  | failed (err : String)
  | unread (code : ℕ) (err : String)
  | body (code : ℕ) (decoded : Decoded JobStatus)

/-- `GetJSON` into a zero `JobStatus`: what the variable holds afterwards, and whether an error is
returned.  Only a response with code 200 is decoded; a body that does not decode may have set some
of the fields. -/
def getJSON : Fetched → JobStatus × Bool
  | .failed _ => ({}, true)
  | .unread _ _ => ({}, true)
  | .body code decoded =>
      if code ≠ 200 then ({}, true) else (decoded.value, !decoded.ok)

/-- `fetchJobStatus` only logs the error. -/
def fetchJobStatus (r : Fetched) : JobStatus := (getJSON r).1

end KubeSync.Worker
