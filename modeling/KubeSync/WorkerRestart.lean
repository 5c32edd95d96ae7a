import KubeSync.WorkerRequests
import KubeSync.WorkerRuns

/-! # A worker that starts while its job is paused or disabled

At start-up the worker asks the manager for the status of its job, and a failed answer leaves the
zero status, which the start-up switch reads as a job to be scheduled.

* `Restarts r` are the moves of a worker whose `fetchJobStatus` is answered by `r` and that receives
  no start and no restart command.
* `Dormant` is the invariant of a worker that found its job paused or disabled: nothing is
  scheduled, nothing on its way to the control loop starts a run, and the state is not ready.
* `restart_stays_off_iff` says for which answers such a worker starts no run. -/

namespace KubeSync.Worker

/-- The answer has code 200 and a body whose status was read as paused or disabled. -/
def Fetched.Off : Fetched → Prop
  | .body code decoded =>
      code = 200 ∧ (decoded.value.status = .paused ∨ decoded.value.status = .disabled)
  | _ => False

/-- The start-up answer is `r`, and no command is a start or a restart. -/
def Restarts (r : Fetched) : Label → Prop
  | .fetched st => st = fetchJobStatus r
  | .command (some c) => c.cmd ≠ .start ∧ c.cmd ≠ .restart
  | _ => True

/-! ### A dormant worker -/

/-- A counter of `runSchedule` from which no entry is added and no start is sent. -/
def SchedPc.dormant : SchedPc → Bool
  | .setup st => st.status = .paused || st.status = .disabled
  | .spawn t => t.isNone
  | .lock | .fetch | .unlock | .getJob | .upload _ | .loop | .exitLock | .flush | .returned => true
  | _ => false

/-- An action that does not start a run. -/
def CtrlAction.dormant : CtrlAction → Bool
  | .stop | .halt => true
  | _ => false

def HandlerPc.dormant : HandlerPc → Bool
  | .remove c => c.cmd ≠ .start && c.cmd ≠ .restart
  | .send a => a.dormant
  | .check | .reply _ => true
  | _ => false

def RunPc.dormant : RunPc → Bool
  | .spawned | .top | .idle | .ret | .gone => true
  | .idleGot a => a.dormant
  | _ => false

structure Dormant (s : State) : Prop where
  state : s.state ≠ .ready
  sched : s.sched.dormant = true
  slot : s.schedule.sched = false
  messages : s.managerChan = []
  handler : ∀ pc, s.handler = some pc → pc.dormant = true
  ctrl : ∀ a, s.ctrlChan = some a → a.dormant = true
  runs : ∀ r ∈ s.runs, r.pc.dormant = true ∧ r.sync = none

theorem dormant_init : Dormant .init :=
  ⟨by decide, rfl, rfl, rfl, fun _ h => (by cases h), fun _ h => (by cases h),
    fun _ h => (by cases h)⟩

variable {cfg : Config} {s s' : State} {l : Label}

theorem dormant_afterRemove {c : ClientCmd} (h : (HandlerPc.remove c).dormant = true) :
    (afterRemove c).dormant = true := by
  unfold afterRemove
  unfold HandlerPc.dormant at h
  cases hc : c.cmd <;> simp_all [HandlerPc.dormant]

theorem dormant_startPc (cfg : Config) {st : JobStatus} (h : (SchedPc.setup st).dormant = true) :
    (startPc cfg st).dormant = true ∧ startState st.status ≠ .ready := by
  have h' : st.status = .paused ∨ st.status = .disabled := by
    simpa [SchedPc.dormant] using h
  unfold startPc startState
  rcases h' with h' | h' <;> simp [h', SchedPc.dormant]

theorem dormant_setup {r : Fetched} (h : r.Off) :
    (SchedPc.setup (fetchJobStatus r)).dormant = true := by
  cases r with
  | failed err => cases h
  | unread code err => cases h
  | body code decoded =>
      obtain ⟨rfl, hst⟩ := h
      simpa [fetchJobStatus, getJSON, SchedPc.dormant] using hst

/-- A counter outside the dormant ones is not reached. -/
theorem Dormant.not_sched (hi : Dormant s) {pc : SchedPc} (h : s.sched = pc)
    (hd : pc.dormant = false) : False := by
  have := hi.sched
  rw [h, hd] at this
  cases this

theorem Dormant.not_run (hi : Dormant s) {i : ℕ} {r : Run} {pc : RunPc} (hr : s.runs[i]? = some r)
    (h : r.pc = pc) (hd : pc.dormant = false) : False := by
  have := (hi.runs r (List.mem_of_getElem? hr)).1
  rw [h, hd] at this
  cases this

/-- Only `runSchedule` moves. -/
theorem Dormant.moveSched (hi : Dormant s) {pc : SchedPc} (h : pc.dormant = true) :
    Dormant { s with sched := pc } :=
  ⟨hi.state, h, hi.slot, hi.messages, hi.handler, hi.ctrl, hi.runs⟩

/-- Only the handler moves. -/
theorem Dormant.moveHandler (hi : Dormant s) (pc : HandlerPc) (h : pc.dormant = true) :
    Dormant { s with handler := some pc } := by
  refine ⟨hi.state, hi.sched, hi.slot, hi.messages, fun q hq => ?_, hi.ctrl, hi.runs⟩
  obtain rfl := Option.some.inj hq
  exact h

theorem Dormant.moveRun (hi : Dormant s) {i : ℕ} {r : Run} (r' : Run) (hr : s.runs[i]? = some r)
    (hpc : r'.pc.dormant = true) (hsync : r'.sync = r.sync) : Dormant (s.setRun i r') := by
  refine ⟨hi.state, hi.sched, hi.slot, hi.messages, hi.handler, hi.ctrl,
    Pool.forall_set hi.runs ⟨hpc, ?_⟩⟩
  rw [hsync]
  exact (hi.runs r (List.mem_of_getElem? hr)).2

theorem Step.dormant_handler (h : Step cfg s l s') (hl : l.party = .handler) {r : Fetched}
    (hc : Restarts r l) (hi : Dormant s) : Dormant s' := by
  cases h with
  | badCommand => exact hi.moveHandler _ rfl
  | command c =>
      have hcmd : c.cmd ≠ .start ∧ c.cmd ≠ .restart := hc
      exact hi.moveHandler _ (by simpa [HandlerPc.dormant] using hcmd)
  | remove c hh =>
      have hd := dormant_afterRemove (hi.handler _ hh)
      have hm := hi.moveHandler _ hd
      exact ⟨hm.state, hm.sched, rfl, hm.messages, hm.handler, hm.ctrl, hm.runs⟩
  | guardSpawn a hh | guardSend a hh | spawn a hh => cases hi.handler _ hh
  | checkSend => exact hi.moveHandler _ rfl
  | checkSkip => exact hi.moveHandler _ rfl
  | send a hh =>
      have ha : a.dormant = true := hi.handler _ hh
      have hm := hi.moveHandler (.reply 200) rfl
      refine ⟨hm.state, hm.sched, hm.slot, hm.messages, hm.handler, fun b hb => ?_, hm.runs⟩
      obtain rfl := Option.some.inj hb
      exact ha
  | reply code =>
      exact ⟨hi.state, hi.sched, hi.slot, hi.messages, fun _ h => (by cases h), hi.ctrl, hi.runs⟩
  | _ => cases hl

theorem Step.dormant_schedule (h : Step cfg s l s') (hl : l.party = .schedule) {r : Fetched}
    (hr : r.Off) (hc : Restarts r l) (hi : Dormant s) : Dormant s' := by
  cases h with
  | schedLock => exact hi.moveSched rfl
  | fetched st =>
      obtain rfl : st = fetchJobStatus r := hc
      exact hi.moveSched (dormant_setup hr)
  | setup now st hs =>
      have hd : (SchedPc.setup st).dormant = true := by
        rw [← hs]
        exact hi.sched
      obtain ⟨hpc, hst⟩ := dormant_startPc cfg hd
      exact ⟨hst, hpc, hi.slot, hi.messages, hi.handler, hi.ctrl, hi.runs⟩
  | schedSpawn now t hs =>
      have hd : (SchedPc.spawn t).dormant = true := by
        rw [← hs]
        exact hi.sched
      obtain rfl := Option.isNone_iff_eq_none.mp hd
      exact ⟨hi.state, rfl, hi.slot, hi.messages, hi.handler, hi.ctrl,
        Pool.forall_append hi.runs ⟨rfl, rfl⟩⟩
  | unlock => exact hi.moveSched rfl
  | getJob => exact hi.moveSched rfl
  | upload => exact hi.moveSched rfl
  | exited => exact hi.moveSched rfl
  | exitLock => exact hi.moveSched rfl
  | flushEnd => exact hi.moveSched rfl
  | tickNone => exact hi
  | tickStart now _ _ hslot =>
      rw [hi.slot] at hslot
      cases hslot
  | message m ms _ hm | flushReport now m ms _ hm | flushDrop now m ms _ hm =>
      rw [hi.messages] at hm
      cases hm
  | add now t hs | addBlocked now t hs | checkReady now m hs | checkOther now m hs
  | check2Go now m hs | check2Skip now m hs | update now m hs | addJob now m hs
  | addJobBlocked now m hs | addJobPlain now m hs | start now hs | flushUpdate now m hs =>
      exact (hi.not_sched hs rfl).elim
  | _ => cases hl

theorem Step.dormant_run (h : Step cfg s l s') (hl : l.party = .run) (hi : Dormant s) :
    Dormant s' := by
  cases h with
  | prologue i r hr =>
      have hm := hi.moveRun { r with pc := .top } hr rfl rfl
      exact ⟨hm.state, hm.sched, hm.slot, hm.messages, hm.handler, hm.ctrl, hm.runs⟩
  | topReady i r hr hp hst => exact absurd hst hi.state
  | topIdle i r hr => exact hi.moveRun _ hr rfl rfl
  | idleRecv i r a hr hp hch =>
      have hm := hi.moveRun { r with pc := .idleGot a } hr (hi.ctrl a hch) rfl
      exact ⟨hm.state, hm.sched, hm.slot, hm.messages, hm.handler, fun _ h => (by cases h),
        hm.runs⟩
  | idleAct i r a hr hp =>
      have ha : a.dormant = true := by
        have := (hi.runs r (List.mem_of_getElem? hr)).1
        rwa [hp] at this
      cases a with
      | stop =>
          have hm := hi.moveRun (idleRun r .stop) hr rfl rfl
          exact ⟨by simp [idleState, State.setRun], hm.sched, hm.slot, hm.messages, hm.handler,
            hm.ctrl, hm.runs⟩
      | halt => exact hi.moveRun _ hr rfl rfl
      | start | disable | restart | ping | forceStart => cases ha
  | ret i r hr =>
      have hm := hi.moveRun { r with pc := .gone } hr rfl rfl
      exact ⟨hm.state, hm.sched, hm.slot, hm.messages, hm.handler, hm.ctrl, hm.runs⟩
  | launch i r hr hp | waitRecv i r a hr hp | waitAct i r a hr hp | closeKill i r a hr hp
  | join i r a hr hp | wake i r hr hp | done i r hr hp => exact (hi.not_run hr hp rfl).elim
  | _ => cases hl

theorem Step.dormant (h : Step cfg s l s') {r : Fetched} (hr : r.Off) (hc : Restarts r l)
    (hi : Dormant s) : Dormant s' := by
  cases hp : l.party with
  | handler => exact h.dormant_handler hp hc hi
  | schedule => exact h.dormant_schedule hp hr hc hi
  | run => exact h.dormant_run hp hi
  | halt =>
      cases h with
      | haltSend =>
          refine ⟨hi.state, hi.sched, hi.slot, hi.messages, hi.handler, fun a ha => ?_, hi.runs⟩
          obtain rfl := Option.some.inj ha
          rfl
      | halt | haltCheck | haltSkip | haltWait | haltClose =>
          exact ⟨hi.state, hi.sched, hi.slot, hi.messages, hi.handler, hi.ctrl, hi.runs⟩
      | _ => cases hp
  | sync =>
      cases h with
      | release =>
          exact ⟨hi.state, hi.sched, hi.slot, hi.messages, hi.handler, hi.ctrl, hi.runs⟩
      | acquire i x sy hx hsy | bypass i x sy hx hsy | kill i x sy hx hsy
      | op i x sy _ _ _ _ hx hsy | finish i x sy hx hsy =>
          have hnone := (hi.runs x (List.mem_of_getElem? hx)).2
          rw [hsy] at hnone
          cases hnone
      | _ => cases hp

/-! ### Which answers keep the worker off -/

/-- The moves of a worker whose job is due at `stime`: it is scheduled, popped by a tick, and the
control loop takes the start. -/
def dueRun (stime : ℤ) : List Label :=
  [.sched 0, .sched 0, .sched 0, .sched 0, .sched 0, .tick (stime * 1000000000 + 1), .sched 0,
    .run 0, .run 0, .run 0, .run 0, .run 0, .run 0]

theorem run_due (cfg : Config) (stime : ℤ) :
    ∃ s, Lts.run (step cfg) { State.init with sched := .spawn (some stime) } (dueRun stime) =
        some s ∧
      ∃ x ∈ s.runs, x.sync.isSome = true := by
  have hdue : stime * 1000000000 < stime * 1000000000 + 1 := by omega
  unfold dueRun
  generalize stime * 1000000000 + 1 = now at hdue
  simp [Lts.run, step, stepSched, stepTick, stepRun, callAddJob, afterSpawn, State.init,
    Schedule.addJob, Schedule.pop, Schedule.lock, Schedule.unlock, Schedule.new, Schedule.getJob,
    State.setRun, idleState, idleRun, hdue]

theorem not_off_status {r : Fetched} (h : ¬ r.Off) :
    (fetchJobStatus r).status ≠ .paused ∧ (fetchJobStatus r).status ≠ .disabled := by
  cases r with
  | failed err => simp [fetchJobStatus, getJSON]
  | unread code err => simp [fetchJobStatus, getJSON]
  | body code decoded =>
      by_cases hcode : code = 200
      · have hst : ¬ (decoded.value.status = .paused ∨ decoded.value.status = .disabled) :=
          fun hst => h ⟨hcode, hst⟩
        simpa [fetchJobStatus, getJSON, hcode] using hst
      · simp [fetchJobStatus, getJSON, hcode]

/-- The start-up switch schedules every status but the two. -/
theorem start_of_status (cfg : Config) {st : JobStatus} (hp : st.status ≠ .paused)
    (hd : st.status ≠ .disabled) :
    startState st.status = .none ∧
      startPc cfg st =
        .spawn (some (wrapInt64 (st.lastUpdate + cfg.provider.interval.tdiv 1000000000))) := by
  unfold startState startPc
  cases hst : st.status <;> simp_all

/-- **When a paused or disabled job stays so over a restart.**  A worker that receives no start and
no restart starts no sync run, however long it runs, exactly when its start-up request was answered
with code 200 and a status that reads paused or disabled. -/
theorem restart_stays_off_iff (cfg : Config) (r : Fetched) :
    (∀ ls s, (∀ l ∈ ls, Restarts r l) → Lts.run (step cfg) .init ls = some s →
      ∀ x ∈ s.runs, x.sync = none) ↔ r.Off := by
  constructor
  · intro h
    by_contra hoff
    obtain ⟨hp, hd⟩ := not_off_status hoff
    obtain ⟨hstate, hpc⟩ := start_of_status cfg hp hd
    generalize hst :
      wrapInt64 ((fetchJobStatus r).lastUpdate + cfg.provider.interval.tdiv 1000000000) = stime
      at hpc
    obtain ⟨s, hrun, x, hx, hsync⟩ := run_due cfg stime
    have hsetup : step cfg { State.init with sched := .setup (fetchJobStatus r) } (.sched 0) =
        some { State.init with sched := .spawn (some stime) } := by
      simp only [step, stepSched, hstate, hpc]
      rfl
    have hall : ∀ l ∈ [.sched 0, .fetched (fetchJobStatus r), .sched 0] ++ dueRun stime,
        Restarts r l := by
      simp [dueRun, Restarts]
    have hrest := Lts.run_cons.mpr ⟨_, hsetup, hrun⟩
    have hx' := h _ s hall (Lts.run_cons.mpr ⟨_, rfl, Lts.run_cons.mpr ⟨_, rfl, hrest⟩⟩) x hx
    rw [hx'] at hsync
    cases hsync
  · intro hoff ls s hall hrun x hx
    have hkeep : ∀ s l s', Dormant s → Restarts r l → step cfg s l = some s' → Dormant s' :=
      fun s l s' hi hc hstep => (step_cases hstep).dormant hoff hc hi
    have hi : Dormant s :=
      Lts.run_invariant hkeep dormant_init (Lts.along_of_labels _ hall) hrun
    exact (hi.runs x hx).2

/-- The job is paused in the store, the request for its status fails, and the next tick starts
it. -/
theorem failed_fetch_starts_job :
    ∃ s, Lts.run (step plainConfig) .init
        ([.sched 0, .fetched (fetchJobStatus (.failed "connection refused")), .sched 0] ++
          dueRun 86400) = some s ∧
      (∀ l ∈ [.sched 0, .fetched (fetchJobStatus (.failed "connection refused")), .sched 0] ++
        dueRun 86400, Restarts (.failed "connection refused") l) ∧
      s.runs.map (fun x => x.sync.isSome) = [true] :=
  ⟨_, rfl, by simp [dueRun, Restarts], rfl⟩

end KubeSync.Worker
