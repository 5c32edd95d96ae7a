import KubeSync.Worker

/-! # What a step of the worker can do

`Step cfg s l s'` lists the moves of the worker, one constructor for each, with the guard under
which it is made and the state it leaves.  `step_cases` says that the step function makes no
other move; every invariant of the worker is proved by cases on `Step` and never unfolds the
step function. -/

namespace KubeSync.Worker

inductive Step (cfg : Config) (s : State) : Label → State → Prop
  /- the HTTP handler -/
  | badCommand : s.locked = false →
      Step cfg s (.command none) { s with handler := some (.reply 400) }
  | command (c : ClientCmd) : s.locked = false →
      Step cfg s (.command (some c)) { s with handler := some (.remove c) }
  | remove (c : ClientCmd) : s.handler = some (.remove c) → s.schedule.mu = false →
      Step cfg s .handler { s with
        schedule := { s.schedule with sched := false }, handler := some (afterRemove c) }
  | guardSpawn (a : CtrlAction) : s.handler = some (.guard a) → s.state = .disabled →
      Step cfg s .handler { s with handler := some (.spawn a) }
  | guardSend (a : CtrlAction) : s.handler = some (.guard a) → s.state ≠ .disabled →
      Step cfg s .handler { s with handler := some (.send a) }
  | spawn (a : CtrlAction) : s.handler = some (.spawn a) →
      Step cfg s .handler { s with runs := s.runs ++ [{}], handler := some (.send a) }
  | checkSend : s.handler = some .check → s.state ≠ .disabled →
      Step cfg s .handler { s with handler := some (.send .stop) }
  | checkSkip : s.handler = some .check → s.state = .disabled →
      Step cfg s .handler { s with handler := some (.reply 200) }
  | send (a : CtrlAction) : s.handler = some (.send a) → s.ctrlChan = none →
      Step cfg s .handler { s with ctrlChan := some a, handler := some (.reply 200) }
  | reply (code : ℕ) : s.handler = some (.reply code) →
      Step cfg s .handler { s with handler := none }
  /- `runSchedule`, start-up -/
  | schedLock (now : ℤ) : s.sched = .lock → s.locked = false →
      Step cfg s (.sched now) { s with sched := .fetch }
  | fetched (st : JobStatus) : s.sched = .fetch →
      Step cfg s (.fetched st) { s with sched := .setup st }
  | setup (now : ℤ) (st : JobStatus) : s.sched = .setup st →
      Step cfg s (.sched now) { s with state := startState st.status, sched := startPc cfg st }
  | schedSpawn (now : ℤ) (t : Option ℤ) : s.sched = .spawn t →
      Step cfg s (.sched now) { s with runs := s.runs ++ [{}], sched := afterSpawn t }
  | add (now t : ℤ) : s.sched = .add t → s.schedule.mu = false → s.schedule.sched = false →
      Step cfg s (.sched now) { s with
        schedule := { s.schedule with sched := true, nextScheduled := t }, sched := .unlock }
  | addBlocked (now t : ℤ) : s.sched = .add t →
      s.schedule.mu = true ∨ s.schedule.sched = true →
      Step cfg s (.sched now) { s with
        schedule := { s.schedule with mu := true }, sched := .stuck true }
  | unlock (now : ℤ) : s.sched = .unlock → Step cfg s (.sched now) { s with sched := .getJob }
  | getJob (now : ℤ) : s.sched = .getJob →
      Step cfg s (.sched now) { s with sched := .upload s.schedule.getJob }
  | upload (now n : ℤ) : s.sched = .upload n →
      Step cfg s (.sched now) { s with sched := .loop }
  /- `runSchedule`, a job message -/
  | message (m : JobMessage) (ms : List JobMessage) : s.sched = .loop →
      s.managerChan = m :: ms →
      Step cfg s .message { s with managerChan := ms, sched := .check m }
  | checkReady (now : ℤ) (m : JobMessage) : s.sched = .check m → s.state = .ready →
      Step cfg s (.sched now) { s with sched := .update m }
  | checkOther (now : ℤ) (m : JobMessage) : s.sched = .check m → s.state ≠ .ready →
      Step cfg s (.sched now) { s with sched := .check2 m }
  | check2Go (now : ℤ) (m : JobMessage) : s.sched = .check2 m → s.state = .halting →
      Step cfg s (.sched now) { s with sched := .update m }
  | check2Skip (now : ℤ) (m : JobMessage) : s.sched = .check2 m → s.state ≠ .halting →
      Step cfg s (.sched now) { s with sched := .loop }
  | update (now : ℤ) (m : JobMessage) : s.sched = .update m →
      Step cfg s (.sched now) { s with sched := .addJob m }
  | addJob (now : ℤ) (m : JobMessage) : s.sched = .addJob m → m.schedule = true →
      s.schedule.mu = false → s.schedule.sched = false →
      Step cfg s (.sched now) { s with
        schedule := { s.schedule with
          sched := true, nextScheduled := (now + cfg.provider.interval) / 1000000000 }
        sched := .getJob }
  | addJobBlocked (now : ℤ) (m : JobMessage) : s.sched = .addJob m → m.schedule = true →
      s.schedule.mu = true ∨ s.schedule.sched = true →
      Step cfg s (.sched now) { s with
        schedule := { s.schedule with mu := true }, sched := .stuck false }
  | addJobPlain (now : ℤ) (m : JobMessage) : s.sched = .addJob m → m.schedule = false →
      Step cfg s (.sched now) { s with sched := .getJob }
  /- `runSchedule`, the clock and the end -/
  | tickStart (now : ℤ) : s.sched = .loop → s.schedule.mu = false → s.schedule.sched = true →
      s.schedule.nextScheduled * 1000000000 < now →
      Step cfg s (.tick now) { s with
        schedule := { s.schedule with sched := false }, sched := .start }
  | tickNone (now : ℤ) : s.sched = .loop → s.schedule.mu = false →
      ¬ (s.schedule.sched = true ∧ s.schedule.nextScheduled * 1000000000 < now) →
      Step cfg s (.tick now) s
  | start (now : ℤ) : s.sched = .start → s.ctrlChan = none →
      Step cfg s (.sched now) { s with ctrlChan := some .start, sched := .loop }
  | exited : s.sched = .loop → s.exit = true →
      Step cfg s .exited { s with sched := .exitLock }
  | exitLock (now : ℤ) : s.sched = .exitLock → s.locked = false →
      Step cfg s (.sched now) { s with sched := .flush }
  | flushReport (now : ℤ) (m : JobMessage) (ms : List JobMessage) : s.sched = .flush →
      s.managerChan = m :: ms → m.status = .failed ∨ m.status = .success →
      Step cfg s (.sched now) { s with managerChan := ms, sched := .flushUpdate m }
  | flushDrop (now : ℤ) (m : JobMessage) (ms : List JobMessage) : s.sched = .flush →
      s.managerChan = m :: ms → ¬ (m.status = .failed ∨ m.status = .success) →
      Step cfg s (.sched now) { s with managerChan := ms, sched := .flush }
  | flushEnd (now : ℤ) : s.sched = .flush → s.managerChan = [] →
      Step cfg s (.sched now) { s with sched := .returned }
  | flushUpdate (now : ℤ) (m : JobMessage) : s.sched = .flushUpdate m →
      Step cfg s (.sched now) { s with sched := .flush }
  /- `Halt` -/
  | halt : s.halt = .idle → s.locked = false → Step cfg s .halt { s with halt := .check }
  | haltCheck : s.halt = .check → s.state ≠ .disabled →
      Step cfg s .halt { s with halt := .send }
  | haltSkip : s.halt = .check → s.state = .disabled →
      Step cfg s .halt { s with halt := .wait }
  | haltSend : s.halt = .send → s.ctrlChan = none →
      Step cfg s .halt { s with ctrlChan := some .halt, halt := .wait }
  | haltWait : s.halt = .wait → s.jobsDone = 0 → Step cfg s .halt { s with halt := .close }
  | haltClose : s.halt = .close → Step cfg s .halt { s with exit := true, halt := .done }
  /- `mirrorJob.Run` -/
  | prologue (i : ℕ) (r : Run) : s.runs[i]? = some r → r.pc = .spawned →
      Step cfg s (.run i) ({ s with jobsDone := s.jobsDone + 1, disabled := .opened }.setRun i
        { r with pc := .top })
  | topReady (i : ℕ) (r : Run) : s.runs[i]? = some r → r.pc = .top → s.state = .ready →
      Step cfg s (.run i) (s.setRun i { r with pc := .launch })
  | topIdle (i : ℕ) (r : Run) : s.runs[i]? = some r → r.pc = .top → s.state ≠ .ready →
      Step cfg s (.run i) (s.setRun i { r with pc := .idle })
  | launch (i : ℕ) (r : Run) : s.runs[i]? = some r → r.pc = .launch →
      Step cfg s (.run i) (s.setRun i { r with pc := .wait, sync := some {} })
  | waitRecv (i : ℕ) (r : Run) (a : CtrlAction) : s.runs[i]? = some r → r.pc = .wait →
      s.ctrlChan = some a →
      Step cfg s (.run i) ({ s with ctrlChan := none }.setRun i { r with pc := .waitGot a })
  | waitAct (i : ℕ) (r : Run) (a : CtrlAction) : s.runs[i]? = some r → r.pc = .waitGot a →
      Step cfg s (.run i) ({ s with state := waitState s.state a }.setRun i (waitRun r a))
  | closeKill (i : ℕ) (r : Run) (a : CtrlAction) : s.runs[i]? = some r → r.pc = .killing a →
      Step cfg s (.run i) (s.setRun i { r with
        sync := r.sync.map fun sy => { sy with kill := true }, pc := afterKill a })
  | join (i : ℕ) (r : Run) (a : CtrlAction) : s.runs[i]? = some r → r.pc = .joining a →
      r.sync.any Sync.signals = true →
      Step cfg s (.run i) (s.setRun i { r with sync := none, pc := afterJoin a })
  | wake (i : ℕ) (r : Run) : s.runs[i]? = some r → r.pc = .sleeping →
      Step cfg s (.run i) (s.setRun i { r with pc := .top })
  | idleRecv (i : ℕ) (r : Run) (a : CtrlAction) : s.runs[i]? = some r → r.pc = .idle →
      s.ctrlChan = some a →
      Step cfg s (.run i) ({ s with ctrlChan := none }.setRun i { r with pc := .idleGot a })
  | idleAct (i : ℕ) (r : Run) (a : CtrlAction) : s.runs[i]? = some r → r.pc = .idleGot a →
      Step cfg s (.run i) ({ s with state := idleState s.state a }.setRun i (idleRun r a))
  | ret (i : ℕ) (r : Run) : s.runs[i]? = some r → r.pc = .ret → s.disabled = .opened →
      Step cfg s (.run i) ({ s with disabled := .closed, jobsDone := s.jobsDone - 1 }.setRun i
        { r with pc := .gone })
  | done (i : ℕ) (r : Run) : s.runs[i]? = some r → r.pc = .wait →
      r.sync.any Sync.signals = true →
      Step cfg s (.done i) (s.setRun i { r with sync := none, pc := .idle })
  /- the sync goroutine -/
  | acquire (i : ℕ) (r : Run) (sy : Sync) : s.runs[i]? = some r → r.sync = some sy →
      sy.pc = .select → s.semaphore < cfg.concurrent →
      Step cfg s (.sync i .acquire) ({ s with semaphore := s.semaphore + 1 }.setRun i { r with
        sync := some { sy with held := true, pc := .body (runJobWrapper cfg.provider) } })
  | bypass (i : ℕ) (r : Run) (sy : Sync) : s.runs[i]? = some r → r.sync = some sy →
      sy.pc = .select → r.bypass = true →
      Step cfg s (.sync i .bypass) (s.setRun i { r with
        bypass := false, sync := some { sy with pc := .body (runJobWrapper cfg.provider) } })
  | kill (i : ℕ) (r : Run) (sy : Sync) : s.runs[i]? = some r → r.sync = some sy →
      sy.pc = .select → sy.kill = true →
      Step cfg s (.sync i .kill) (s.setRun i { r with sync := some { sy with pc := .handoff } })
  | op (i : ℕ) (r : Run) (sy : Sync) (x : Reply) (e : SyncOp) (k : e.Answer → SyncProg Unit)
      (a : e.Answer) : s.runs[i]? = some r → r.sync = some sy → sy.pc = .body (.op e k) →
      answer s sy.kill e x = some a →
      Step cfg s (.sync i (.op x)) ((effect s e a).setRun i { r with
        sync := some { sy with pc := .body (k a) } })
  | finish (i : ℕ) (r : Run) (sy : Sync) : s.runs[i]? = some r → r.sync = some sy →
      sy.pc = .body (.ret ()) →
      Step cfg s (.sync i .finish) ({ s with
        releasing := s.releasing + sy.held.toNat }.setRun i { r with
          sync := some { sy with held := false, pc := .done } })
  | release : 0 < s.releasing →
      Step cfg s .release { s with
        semaphore := s.semaphore - 1, releasing := s.releasing - 1 }

variable {cfg : Config} {s s' : State}

theorem stepCommand_cases {c : Option ClientCmd} (h : stepCommand s c = some s') :
    Step cfg s (.command c) s' := by
  unfold stepCommand at h
  cases hl : s.locked with
  | true =>
      rw [hl] at h
      cases h
  | false =>
      rw [hl] at h
      cases c with
      | none => cases h; exact .badCommand hl
      | some c => cases h; exact .command c hl

theorem stepHandler_cases (h : stepHandler s = some s') : Step cfg s .handler s' := by
  unfold stepHandler at h
  cases hh : s.handler with
  | none => rw [hh] at h; cases h
  | some pc =>
      rw [hh] at h
      cases pc with
      | remove c =>
          cases hmu : s.schedule.mu with
          | true => rw [(Schedule.locked_blocks hmu 0).1] at h; cases h
          | false => rw [Schedule.remove_free hmu] at h; cases h; exact .remove c hh hmu
      | guard a =>
          dsimp only at h
          split_ifs at h with hst
          · cases h; exact .guardSpawn a hh hst
          · cases h; exact .guardSend a hh hst
      | spawn a => cases h; exact .spawn a hh
      | check =>
          dsimp only at h
          split_ifs at h with hst
          · cases h; exact .checkSend hh hst
          · cases h; exact .checkSkip hh (not_not.mp hst)
      | send a =>
          dsimp only at h
          split_ifs at h with hc
          cases h; exact .send a hh hc
      | reply code => cases h; exact .reply code hh

/-- A call of `AddJob` returns with the new entry, or it blocks with the mutex locked. -/
theorem callAddJob_cases (s : State) (t : ℤ) (next : SchedPc) (locked : Bool) :
    (s.schedule.mu = false ∧ s.schedule.sched = false ∧ callAddJob s t next locked = { s with
        schedule := { s.schedule with sched := true, nextScheduled := t }, sched := next }) ∨
      ((s.schedule.mu = true ∨ s.schedule.sched = true) ∧ callAddJob s t next locked = { s with
        schedule := { s.schedule with mu := true }, sched := .stuck locked }) := by
  unfold callAddJob
  cases hmu : s.schedule.mu with
  | true =>
      rw [(Schedule.locked_blocks hmu t).2.1]
      refine .inr ⟨.inl rfl, ?_⟩
      rw [← hmu]
  | false =>
      cases hs : s.schedule.sched with
      | true =>
          rw [Schedule.addJob_blocked t hmu hs]
          refine .inr ⟨.inr rfl, ?_⟩
          rw [← hs]
      | false =>
          rw [Schedule.addJob_free t hmu hs]
          exact .inl ⟨rfl, rfl, rfl⟩

theorem stepSched_cases {now : ℤ} (h : stepSched cfg s now = some s') :
    Step cfg s (.sched now) s' := by
  unfold stepSched at h
  cases hs : s.sched with
  | lock =>
      rw [hs] at h
      dsimp only at h
      split_ifs at h with hl
      cases h; exact .schedLock now hs (Bool.not_eq_true _ ▸ hl)
  | fetch => rw [hs] at h; cases h
  | setup st => rw [hs] at h; cases h; exact .setup now st hs
  | spawn t => rw [hs] at h; cases h; exact .schedSpawn now t hs
  | add t =>
      rw [hs] at h
      cases h
      rcases callAddJob_cases s t .unlock true with ⟨h₁, h₂, he⟩ | ⟨h₁, he⟩
      · rw [he]; exact .add now t hs h₁ h₂
      · rw [he]; exact .addBlocked now t hs h₁
  | unlock => rw [hs] at h; cases h; exact .unlock now hs
  | getJob => rw [hs] at h; cases h; exact .getJob now hs
  | upload n => rw [hs] at h; cases h; exact .upload now n hs
  | loop => rw [hs] at h; cases h
  | check m =>
      rw [hs] at h
      dsimp only at h
      split_ifs at h with hst
      · cases h; exact .checkOther now m hs hst
      · cases h; exact .checkReady now m hs (not_not.mp hst)
  | check2 m =>
      rw [hs] at h
      dsimp only at h
      split_ifs at h with hst
      · cases h; exact .check2Skip now m hs hst
      · cases h; exact .check2Go now m hs (not_not.mp hst)
  | update m => rw [hs] at h; cases h; exact .update now m hs
  | addJob m =>
      rw [hs] at h
      dsimp only at h
      split_ifs at h with hm
      · cases h
        rcases callAddJob_cases s ((now + cfg.provider.interval) / 1000000000) .getJob false with
          ⟨h₁, h₂, he⟩ | ⟨h₁, he⟩
        · rw [he]; exact .addJob now m hs hm h₁ h₂
        · rw [he]; exact .addJobBlocked now m hs hm h₁
      · cases h; exact .addJobPlain now m hs (Bool.not_eq_true _ ▸ hm)
  | start =>
      rw [hs] at h
      dsimp only at h
      split_ifs at h with hc
      cases h; exact .start now hs hc
  | stuck b => rw [hs] at h; cases h
  | exitLock =>
      rw [hs] at h
      dsimp only at h
      split_ifs at h with hl
      cases h; exact .exitLock now hs (Bool.not_eq_true _ ▸ hl)
  | flush =>
      rw [hs] at h
      cases hm : s.managerChan with
      | nil =>
          rw [hm] at h
          cases h
          have he : Step cfg s (.sched now) _ := .flushEnd now hs hm
          rw [hm] at he
          exact he
      | cons m ms =>
          rw [hm] at h
          dsimp only at h
          split_ifs at h with hst
          · cases h; exact .flushReport now m ms hs hm hst
          · cases h; exact .flushDrop now m ms hs hm hst
  | flushUpdate m => rw [hs] at h; cases h; exact .flushUpdate now m hs
  | returned => rw [hs] at h; cases h

theorem stepTick_cases {now : ℤ} (h : stepTick s now = some s') : Step cfg s (.tick now) s' := by
  unfold stepTick at h
  split_ifs at h with hs
  cases hmu : s.schedule.mu with
  | true => rw [(Schedule.locked_blocks hmu now).2.2] at h; cases h
  | false =>
      rw [Schedule.pop_free now hmu] at h
      by_cases hd : s.schedule.sched = true ∧ s.schedule.nextScheduled * 1000000000 < now
      · rw [if_pos (by simpa using hd)] at h
        cases h; exact .tickStart now hs hmu hd.1 hd.2
      · rw [if_neg (by simpa using hd)] at h
        cases h; exact .tickNone now hs hmu hd

theorem stepHalt_cases (h : stepHalt s = some s') : Step cfg s .halt s' := by
  unfold stepHalt at h
  cases hh : s.halt with
  | idle =>
      rw [hh] at h
      dsimp only at h
      split_ifs at h with hl
      cases h; exact .halt hh (Bool.not_eq_true _ ▸ hl)
  | check =>
      rw [hh] at h
      dsimp only at h
      split_ifs at h with hst
      · cases h; exact .haltCheck hh hst
      · cases h; exact .haltSkip hh (not_not.mp hst)
  | send =>
      rw [hh] at h
      dsimp only at h
      split_ifs at h with hc
      cases h; exact .haltSend hh hc
  | wait =>
      rw [hh] at h
      dsimp only at h
      split_ifs at h with hj
      cases h; exact .haltWait hh hj
  | close => rw [hh] at h; cases h; exact .haltClose hh
  | done => rw [hh] at h; cases h

theorem stepRun_cases {i : ℕ} {r : Run} (hr : s.runs[i]? = some r)
    (h : stepRun s i r = some s') : Step cfg s (.run i) s' := by
  unfold stepRun at h
  cases hp : r.pc with
  | spawned => rw [hp] at h; cases h; exact .prologue i r hr hp
  | top =>
      rw [hp] at h
      dsimp only at h
      split_ifs at h with hst
      · cases h; exact .topReady i r hr hp hst
      · cases h; exact .topIdle i r hr hp hst
  | launch => rw [hp] at h; cases h; exact .launch i r hr hp
  | wait =>
      rw [hp] at h
      cases hc : s.ctrlChan with
      | none => rw [hc] at h; cases h
      | some a => rw [hc] at h; cases h; exact .waitRecv i r a hr hp hc
  | waitGot a => rw [hp] at h; cases h; exact .waitAct i r a hr hp
  | killing a => rw [hp] at h; cases h; exact .closeKill i r a hr hp
  | joining a =>
      rw [hp] at h
      dsimp only at h
      split_ifs at h with hj
      cases h; exact .join i r a hr hp hj
  | sleeping => rw [hp] at h; cases h; exact .wake i r hr hp
  | idle =>
      rw [hp] at h
      cases hc : s.ctrlChan with
      | none => rw [hc] at h; cases h
      | some a => rw [hc] at h; cases h; exact .idleRecv i r a hr hp hc
  | idleGot a => rw [hp] at h; cases h; exact .idleAct i r a hr hp
  | ret =>
      rw [hp] at h
      dsimp only at h
      split_ifs at h with hd
      cases h; exact .ret i r hr hp hd
  | gone => rw [hp] at h; cases h

theorem stepSync_cases {i : ℕ} {r : Run} {sy : Sync} {x : SyncMove} (hr : s.runs[i]? = some r)
    (hsy : r.sync = some sy) (h : stepSync cfg s i r sy x = some s') :
    Step cfg s (.sync i x) s' := by
  cases x with
  | acquire =>
      unfold stepSync at h
      cases hp : sy.pc with
      | select =>
          rw [hp] at h
          dsimp only at h
          split_ifs at h with hc
          cases h; exact .acquire i r sy hr hsy hp hc
      | handoff => rw [hp] at h; cases h
      | body c => rw [hp] at h; cases h
      | done => rw [hp] at h; cases h
  | bypass =>
      unfold stepSync at h
      cases hp : sy.pc with
      | select =>
          rw [hp] at h
          dsimp only at h
          split_ifs at h with hb
          cases h; exact .bypass i r sy hr hsy hp hb
      | handoff => rw [hp] at h; cases h
      | body c => rw [hp] at h; cases h
      | done => rw [hp] at h; cases h
  | kill =>
      unfold stepSync at h
      cases hp : sy.pc with
      | select =>
          rw [hp] at h
          dsimp only at h
          split_ifs at h with hk
          cases h; exact .kill i r sy hr hsy hp hk
      | handoff => rw [hp] at h; cases h
      | body c => rw [hp] at h; cases h
      | done => rw [hp] at h; cases h
  | op x =>
      unfold stepSync at h
      cases hp : sy.pc with
      | body c =>
          rw [hp] at h
          cases c with
          | ret u => cases h
          | op e k =>
              cases ha : answer s sy.kill e x with
              | none => simp only [ha] at h; cases h
              | some a =>
                  simp only [ha] at h
                  cases h; exact .op i r sy x e k a hr hsy hp ha
      | select => rw [hp] at h; cases h
      | handoff => rw [hp] at h; cases h
      | done => rw [hp] at h; cases h
  | finish =>
      unfold stepSync at h
      cases hp : sy.pc with
      | body c =>
          rw [hp] at h
          cases c with
          | ret u => cases h; exact .finish i r sy hr hsy hp
          | op e k => cases h
      | select => rw [hp] at h; cases h
      | handoff => rw [hp] at h; cases h
      | done => rw [hp] at h; cases h

/-- **Inversion.**  Every step is one of the listed moves. -/
theorem step_cases {l : Label} (h : step cfg s l = some s') : Step cfg s l s' := by
  cases l with
  | command c => exact stepCommand_cases h
  | handler => exact stepHandler_cases h
  | fetched st =>
      simp only [step, stepFetched] at h
      split_ifs at h with hs
      cases h; exact .fetched st hs
  | sched now => exact stepSched_cases h
  | message =>
      simp only [step, stepMessage] at h
      split at h
      · next m ms hs hm => cases h; exact .message m ms hs hm
      · cases h
  | tick now => exact stepTick_cases h
  | exited =>
      simp only [step, stepExited] at h
      split_ifs at h with hs
      cases h; exact .exited hs.1 hs.2
  | halt => exact stepHalt_cases h
  | run i =>
      obtain ⟨r, hr, h⟩ := Option.bind_eq_some_iff.mp h
      exact stepRun_cases hr h
  | done i =>
      obtain ⟨r, hr, h⟩ := Option.bind_eq_some_iff.mp h
      unfold stepDone at h
      split_ifs at h with hd
      cases h; exact .done i r hr hd.1 hd.2
  | sync i x =>
      obtain ⟨r, hr, h⟩ := Option.bind_eq_some_iff.mp h
      obtain ⟨sy, hsy, h⟩ := Option.bind_eq_some_iff.mp h
      exact stepSync_cases hr hsy h
  | release =>
      simp only [step, stepRelease] at h
      split_ifs at h with hr
      cases h; exact .release hr

/-! ### Who moves -/

/-- The parts of the worker. -/
inductive Party where
  | handler
  | schedule
  | halt
  | run
  | sync

/-- The part that moves in a step; long case distinctions on `Step` are made part by part. -/
def Label.party : Label → Party
  | .command _ | .handler => .handler
  | .fetched _ | .sched _ | .message | .tick _ | .exited => .schedule
  | .halt => .halt
  | .run _ | .done _ => .run
  | .sync _ _ | .release => .sync

end KubeSync.Worker
