import KubeSync.WorkerRefresh
import KubeSync.WorkerReports

/-! # The schedule that the manager has on record

One worker together with the manager's store.

* `Peers` is the state of the two, `Site.step` their moves: a move of the worker, with the request
  that it sends, or a request of an operator.  The worker is not shut down.
* `Peers.Agree` says that the record is what `GetJob` returns.
* `run_agree` says under which moves every quiet state agrees. -/

namespace KubeSync.Worker

open Manager (Jobs Op Env Request serve)

/-! ### The worker and the manager -/

/-- What the worker is started with, the name of its Job, and `provider.Upstream()`. -/
structure Site where
  cfg : Config
  id : String
  upstream : String

structure Peers where
  worker : State
  store : Jobs

/-- The request that `runSchedule` sends in its next step. -/
def Site.request (site : Site) (s : State) : Option Op :=
  match s.sched with
  | .update m | .flushUpdate m =>
      some (.report ⟨statusReport site.upstream s.size m, true⟩)
  | .upload n => some (.schedule ⟨n, true⟩)
  | _ => none

/-- The requests that replace the recorded schedule of a Job; only its worker sends the reports,
and the Job is not deleted while the worker runs. -/
def overwrites : Op → Bool
  | .schedule _ | .report _ | .delete => true
  | _ => false

/-- A step of the worker, where the manager serves the request it may send in the surroundings
`env`, or a request of an operator. -/
inductive Move where
  | worker (l : Label) (env : Env)
  | operator (q : Request)

/-- The store behind a step of the worker. -/
def Site.store (site : Site) (p : Peers) (env : Env) : Label → Jobs
  | .sched _ =>
      match site.request p.worker with
      | some op => (serve p.store ⟨site.id, op, env⟩).store
      | none => p.store
  | _ => p.store

/-- The moves of the two, without `Halt`.  What `fetchJobStatus` returns is left open. -/
def Site.step (site : Site) (p : Peers) : Move → Option Peers
  | .worker l env =>
      if l = .halt then none
      else (Worker.step site.cfg p.worker l).map fun w => ⟨w, site.store p env l⟩
  | .operator q =>
      if q.id = site.id ∧ overwrites q.op = true then none
      else some { p with store := (serve p.store q).store }

/-- The `nextSchedule` that the manager has on record. -/
def recorded (id : String) (s : Jobs) : Option ℤ := (s.value id).map fun job => job.status.scheduled

def Peers.Agree (id : String) (p : Peers) : Prop :=
  recorded id p.store = some p.worker.schedule.getJob

/-! ### What the requests leave on record -/

section Record

variable {id : String} {store : Jobs} {op : Op} {f : Env → JobStatus → JobStatus} {env : Env}

theorem recorded_of_takes (he : op.effect = some f) (h : Takes store id op (.answered env)) :
    ∃ job : Job, recorded id (serve store ⟨id, op, env⟩).store =
      some (f env job.status).scheduled := by
  obtain ⟨env', g, job, henv, hg, -, hv⟩ := (stored_iff_takes he (.answered env)).mpr h
  have hg' : op.effect = some g := hg
  rw [he] at hg'
  cases hg'
  cases henv
  refine ⟨job, ?_⟩
  have hv' : (serve store ⟨id, op, env⟩).store.value id =
      some { job with status := f env job.status } := hv
  unfold recorded
  rw [hv']
  rfl

theorem scheduled_of_effect (ho : overwrites op = false) (he : op.effect = some f)
    (env : Env) (st : JobStatus) : (f env st).scheduled = st.scheduled := by
  cases op with
  | schedule | report | delete => cases ho
  | register | size | enable | disable =>
      cases he
      rfl
  | cmd c =>
      unfold Op.effect at he
      dsimp only at he
      split at he
      · cases he
        rfl
      · cases he
  | create | get | getConfig => cases he

/-- A request that does not overwrite the record leaves it as it is. -/
theorem recorded_serve {q : Request} {n : ℤ} (ho : q.id = id → overwrites q.op = false)
    (h : recorded id store = some n) : recorded id (serve store q).store = some n := by
  have hout := Manager.serve_outcome store q
  by_cases hid : q.id = id
  · subst hid
    have hov := ho rfl
    obtain ⟨job, hv, hn⟩ := Option.map_eq_some_iff.mp h
    generalize (serve store q).store = store' at hout ⊢
    cases hout with
    | reads | refused | unapplied | kept => exact h
    | @status f job' he _ hv' =>
        unfold recorded
        rw [Versioned.Store.value_write_self]
        show some (f q.env job'.status).scheduled = _
        rw [scheduled_of_effect hov he]
        rw [hv] at hv'
        cases hv'
        rw [hn]
    | spec _ hv' =>
        unfold recorded
        rw [Versioned.Store.value_write_self]
        rw [hv] at hv'
        cases hv'
        exact congrArg some hn
    | new _ hv' =>
        rw [hv] at hv'
        cases hv'
    | removed hop =>
        rw [hop] at hov
        cases hov
  · unfold recorded
    rw [hout.value_of_ne fun h => hid h.symm]
    exact h

end Record

/-! ### Runs -/

/-- The manager takes the request that the move sends. -/
def Site.Served (site : Site) (p : Peers) : Move → Prop
  | .worker (.sched _) env => ∀ op, site.request p.worker = some op →
      Takes p.store site.id op (.answered env)
  | _ => True

def Site.Clear (site : Site) (p : Peers) : Move → Prop
  | .worker l _ => slotClear (recorded site.id p.store) p.worker l
  | .operator _ => True

structure Site.Inv (site : Site) (p : Peers) : Prop where
  wf : WF p.worker
  mutex : MutexOk p.worker
  halt : p.worker.halt = .idle
  fits : Fits (recorded site.id p.store) p.worker

variable {site : Site} {p p' : Peers}

theorem Site.inv_init (store : Jobs) : site.Inv ⟨.init, store⟩ where
  wf := wf_init
  mutex := fun h => by cases h
  halt := rfl
  fits := fits_of_rereads rfl

theorem Site.recorded_store {env : Env} {l : Label} (hs : site.Served p (.worker l env)) :
    recorded site.id (site.store p env l) =
      recordAfter (recorded site.id p.store) p.worker l := by
  cases l with
  | sched now =>
      unfold Site.store recordAfter
      have hs' : ∀ op, site.request p.worker = some op →
        Takes p.store site.id op (.answered env) := hs
      unfold Site.request at hs' ⊢
      cases hsch : p.worker.sched with
      | update m | flushUpdate m =>
          rw [hsch] at hs'
          obtain ⟨job, hj⟩ := recorded_of_takes rfl (hs' _ rfl)
          exact hj
      | upload n =>
          rw [hsch] at hs'
          obtain ⟨job, hj⟩ := recorded_of_takes rfl (hs' _ rfl)
          exact hj
      | _ => rfl
  | _ => rfl

theorem Site.step_inv {m : Move} (hs : site.Served p m) (hc : site.Clear p m)
    (h : site.step p m = some p') (hi : site.Inv p) : site.Inv p' := by
  cases m with
  | worker l env =>
      unfold Site.step at h
      dsimp only at h
      split at h
      · cases h
      · next hne =>
          obtain ⟨w, hw, hp⟩ := Option.map_eq_some_iff.mp h
          subst hp
          have hstep := step_cases hw
          refine ⟨hstep.wf hi.wf, hstep.mutexOk hi.mutex, hstep.halt_idle hne hi.halt, ?_⟩
          show Fits (recorded site.id (site.store p env l)) w
          rw [Site.recorded_store hs]
          exact hstep.fits hne hc hi.wf hi.mutex hi.halt hi.fits
  | operator q =>
      unfold Site.step at h
      dsimp only at h
      split at h
      · cases h
      · next hne =>
          cases h
          refine ⟨hi.wf, hi.mutex, hi.halt, ?_⟩
          rcases hi.fits with hm | hr
          · left
            unfold Matches shown at hm ⊢
            cases hsch : p.worker.sched with
            | upload n =>
                rw [hsch] at hm
                exact hm
            | _ =>
                rw [hsch] at hm
                refine recorded_serve (fun hid => ?_) hm
                cases ho : overwrites q.op with
                | false => rfl
                | true => exact absurd ⟨hid, ho⟩ hne
          · exact .inr hr

/-- **Agreement when quiet.**  In every run of a worker and the manager whose requests are taken and
whose steps meet `Clear`, the manager has on record what `GetJob` returns whenever the worker is
quiet. -/
theorem run_agree (site : Site) (store : Jobs) (ms : List Move) (p : Peers)
    (hr : Lts.run site.step ⟨.init, store⟩ ms = some p)
    (hs : Lts.Along site.step site.Served ⟨.init, store⟩ ms)
    (hc : Lts.Along site.step site.Clear ⟨.init, store⟩ ms) (hq : Quiet p.worker) :
    p.Agree site.id := by
  have hkeep : ∀ p m p', site.Inv p → site.Served p m ∧ site.Clear p m →
      site.step p m = some p' → site.Inv p' :=
    fun p m p' hi hsc h => Site.step_inv hsc.1 hsc.2 h hi
  have hi := Lts.run_invariant hkeep (Site.inv_init store) (hs.and hc) hr
  have hm := hi.fits.resolve_right hq.not_refresh
  have hmute : p.worker.sched.mute = true := by
    have hw := hq.sched
    cases hsch : p.worker.sched with
    | loop | stuck b | returned => rfl
    | _ =>
        rw [hsch] at hw
        cases hw
  unfold Matches at hm
  rw [shown_of_mute hmute] at hm
  exact hm

/-! ### A command that flushes the slot -/

instance (p : CtrlAction → Bool) (s : State) : Decidable (OnWay p s) :=
  inferInstanceAs (Decidable (_ ∨ _ ∨ _))

theorem quiet_iff (s : State) : Quiet s ↔
    s.sched.waits = true ∧ s.managerChan = [] ∧ s.handler = none ∧
      ¬ OnWay CtrlAction.starts s ∧ ∀ r ∈ s.runs, r.inProgress s.state = false := by
  constructor
  · rintro ⟨hs, hm, hh, hw, hr⟩
    exact ⟨hs, hm, hh, hw, hr⟩
  · rintro ⟨hs, hm, hh, hw, hr⟩
    exact ⟨hs, hm, hh, hw, hr⟩

instance (s : State) : Decidable (Quiet s) := decidable_of_iff' _ (quiet_iff s)

/-- A move that meets `Served` because the manager's copy is up to date. -/
def Site.upToDate (site : Site) (p : Peers) : Move → Bool
  | .worker (.sched _) env =>
      (site.request p.worker).isNone ||
        (!env.getFails && !env.writeFails && (p.store.current site.id).isSome &&
          env.lag == 0)
  | _ => true

theorem Site.served_of_upToDate (p : Peers) (m : Move) (h : site.upToDate p m = true) :
    site.Served p m := by
  cases m with
  | operator q => trivial
  | worker l env =>
      cases l with
      | sched now =>
          intro op hop
          unfold Site.upToDate at h
          simp only [hop, Option.isNone_some, Bool.false_or, Bool.and_eq_true, Bool.not_eq_true',
            beq_iff_eq] at h
          obtain ⟨⟨⟨hget, hwrite⟩, hsome⟩, hlag⟩ := h
          refine ⟨env, rfl, .inl ⟨hget, hwrite, hsome, ?_⟩⟩
          rw [hlag]
          rfl
      | _ => trivial

/-- A move that meets `Clear` whatever is on record. -/
def Site.undisturbed (p : Peers) : Move → Bool
  | .worker .handler _ => !p.worker.handler.any fun pc => match pc with
      | .remove c => c.cmd != .start && c.cmd != .restart
      | _ => false
  | .worker (.sched _) _ => !p.worker.sched.adds || !p.worker.schedule.sched
  | .worker (.run i) _ => !p.worker.runs[i]?.any fun r =>
      r.hand == some .stop || r.pc == .waitGot .start
  | _ => true

theorem Site.clear_of_undisturbed (p : Peers) (m : Move) (h : Site.undisturbed p m = true) :
    site.Clear p m := by
  cases m with
  | operator q => trivial
  | worker l env =>
      cases l with
      | handler =>
          intro c hh hns hnr
          unfold Site.undisturbed at h
          simp [hh, hns, hnr] at h
      | sched now =>
          intro ha
          unfold Site.undisturbed at h
          simpa [ha] using h
      | run i =>
          intro r hr
          unfold Site.undisturbed at h
          dsimp only at h
          rw [hr] at h
          simp only [Option.any_some, Bool.not_eq_true', Bool.or_eq_false_iff, beq_eq_false_iff_ne]
            at h
          exact ⟨fun hs => absurd hs h.1, fun hs => absurd hs h.2⟩
      | _ => trivial

def debianSite : Site := ⟨plainConfig, "debian", ""⟩

/-- The moves of the worker while the manager's cache does not lag. -/
def moves (ls : List Label) : List Move := ls.map fun l => .worker l {}

/-- The first sync run of a new Job. -/
def firstSync : List Move :=
  moves (bootNew ++ popAndLaunch ++ startProvider ++ succeed ++ [.done 0, .release] ++ handleThree)

theorem run_agree_after_firstSync :
    ∃ p, Lts.run debianSite.step ⟨.init, Manager.debian⟩ firstSync = some p ∧ Quiet p.worker ∧
      p.worker.schedule.getJob = 172801 ∧ p.Agree "debian" := by
  have heval : (Lts.run debianSite.step ⟨.init, Manager.debian⟩ firstSync).any (fun p =>
      decide (Quiet p.worker) && decide (p.worker.schedule.getJob = 172801)) = true := by rfl
  have hserved : Lts.check debianSite.step debianSite.upToDate ⟨.init, Manager.debian⟩ firstSync =
      true := by rfl
  have hclear : Lts.check debianSite.step Site.undisturbed ⟨.init, Manager.debian⟩ firstSync =
      true := by rfl
  obtain ⟨p, hp, hq⟩ := (Option.any_eq_true _ _).mp heval
  rw [Bool.and_eq_true, decide_eq_true_iff, decide_eq_true_iff] at hq
  exact ⟨p, hp, hq.1, hq.2, run_agree debianSite Manager.debian firstSync p hp
    ((Lts.along_of_check hserved).mono Site.served_of_upToDate)
    ((Lts.along_of_check hclear).mono Site.clear_of_undisturbed) hq.1⟩

/-- An operator sends a ping, and the worker answers it. -/
def pingWorker : List Move :=
  .operator ⟨"debian", .cmd ⟨{ cmd := .ping }, true⟩, {}⟩ ::
    moves [.command (some ⟨.ping, false⟩), .handler, .handler]

/-- A ping empties the slot of a new Job, and the manager keeps the time of its first sync run. -/
theorem ping_leaves_record :
    ∃ p, Lts.run debianSite.step ⟨.init, Manager.debian⟩ (moves bootNew ++ pingWorker) = some p ∧
      Lts.Along debianSite.step debianSite.Served ⟨.init, Manager.debian⟩
        (moves bootNew ++ pingWorker) ∧
      Quiet p.worker ∧ p.worker.schedule.getJob = 0 ∧
      recorded "debian" p.store = some 86400 ∧ ¬ p.Agree "debian" := by
  have heval : (Lts.run debianSite.step ⟨.init, Manager.debian⟩ (moves bootNew ++ pingWorker)).any
      (fun p => decide (Quiet p.worker) && decide (p.worker.schedule.getJob = 0) &&
        decide (recorded "debian" p.store = some 86400)) = true := by rfl
  have hserved : Lts.check debianSite.step debianSite.upToDate ⟨.init, Manager.debian⟩
      (moves bootNew ++ pingWorker) = true := by rfl
  obtain ⟨p, hp, hq⟩ := (Option.any_eq_true _ _).mp heval
  simp only [Bool.and_eq_true, decide_eq_true_iff] at hq
  obtain ⟨⟨hquiet, hjob⟩, hrec⟩ := hq
  refine ⟨p, hp, (Lts.along_of_check hserved).mono Site.served_of_upToDate, hquiet, hjob, hrec, ?_⟩
  intro hagree
  unfold Peers.Agree at hagree
  rw [hrec, hjob] at hagree
  cases hagree

end KubeSync.Worker
