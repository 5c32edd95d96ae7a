import KubeSync.WorkerWakeup

/-! # When the schedule slot is reported

The slot of the worker changes at the start-up, with a message, with a tick and with every command;
it is read and reported at the end of the start-up and behind a message only, and every status
report resets what is on record.  This module follows the worker alone, against the value `rec` on
record.

* `Quiet` is a worker without queued message, without request and without a sync run that is running
  or about to start.
* `Refresh` is the reason why record and slot may differ in between: a report is still to come.  A
  quiet worker owes none.
* `Step.fits`: a step that meets `slotClear` leaves a record that is that of the slot (`Matches`),
  or a report to come. -/

namespace KubeSync.Worker

/-! ### A quiet worker -/

/-- `runSchedule` waits in its select or does not move any more. -/
def SchedPc.waits : SchedPc → Bool
  | loop | stuck _ | returned => true
  | _ => false

structure Quiet (s : State) : Prop where
  sched : s.sched.waits = true
  messages : s.managerChan = []
  handler : s.handler = none
  starts : ¬ OnWay CtrlAction.starts s
  syncs : ∀ r ∈ s.runs, r.inProgress s.state = false

/-! ### A report to come -/

/-- What is on record once the schedule report in hand is served. -/
def shown (rec : Option ℤ) (s : State) : Option ℤ :=
  match s.sched with
  | .upload n => some n
  | _ => rec

def Matches (rec : Option ℤ) (s : State) : Prop := shown rec s = some s.schedule.getJob

/-- `runSchedule` is going to read the slot and to report it. -/
def SchedPc.rereads : SchedPc → Bool
  | lock | fetch | setup _ | spawn _ | add _ | unlock | getJob | update _ | addJob _ => true
  | _ => false

/-- A message waits for `runSchedule` or has just been received. -/
def queued (s : State) : Bool :=
  !s.managerChan.isEmpty || match s.sched with
    | .check _ => true
    | _ => false

/-- The sync run has not begun, or sends a message with its next operation. -/
def Sync.speaks (sy : Sync) : Bool :=
  !sy.kill && match sy.pc with
    | .select | .body (.op (.send _) _) => true
    | _ => false

/-- The invocation leads to a message of a sync run. -/
def Run.announces (r : Run) : Bool :=
  match r.pc with
  | .top | .launch | .sleeping => true
  | .killing a | .joining a => a == .restart
  | .wait | .waitGot _ => r.sync.any Sync.speaks
  | _ => false

/-- The slot will be reported: it is about to be read, a start is on its way, or the job is `ready`
and a message is there or will be. -/
def Refresh (s : State) : Prop :=
  s.sched.rereads = true ∨ s.sched = .start ∨ OnWay CtrlAction.starts s ∨
    (s.state = .ready ∧ (queued s = true ∨ ∃ r ∈ s.runs, r.announces = true))

def Fits (rec : Option ℤ) (s : State) : Prop := Matches rec s ∨ Refresh s

/-- The condition on a step: a command that starts nothing flushes no pending entry, `AddJob` finds
the slot empty, a stop is executed when the record is that of the slot, and so is a start action
that is received during a sync run, unless the slot is about to be read, a message is there or that
sync run is going to send one. -/
def slotClear (rec : Option ℤ) (s : State) : Label → Prop
  | .handler => ∀ c, s.handler = some (.remove c) → c.cmd ≠ .start → c.cmd ≠ .restart →
      s.schedule.sched = false
  | .sched _ => s.sched.adds = true → s.schedule.sched = false
  | .run i => ∀ r, s.runs[i]? = some r →
      (r.hand = some .stop → Matches rec s) ∧
        (r.pc = .waitGot .start → Matches rec s ∨ s.sched.rereads = true ∨ queued s = true ∨
          r.sync.any Sync.speaks = true)
  | _ => True

/-- What is on record behind a step of the worker whose requests are taken. -/
def recordAfter (rec : Option ℤ) (s : State) : Label → Option ℤ
  | .sched _ =>
      match s.sched with
      | .upload n => some n
      | .update _ | .flushUpdate _ => some 0
      | _ => rec
  | _ => rec

variable {cfg : Config} {s s' : State} {l : Label} {rec : Option ℤ}

theorem Run.unfinished_of_speaks {r : Run} (h : r.sync.any Sync.speaks = true) :
    r.unfinished = true := by
  unfold Run.unfinished
  cases hsy : r.sync with
  | none =>
      rw [hsy] at h
      cases h
  | some sy =>
      rw [hsy] at h
      have hsp : sy.speaks = true := h
      unfold Sync.speaks at hsp
      dsimp only
      cases hpc : sy.pc with
      | select | body c => rfl
      | handoff | done =>
          rw [hpc, Bool.and_false] at hsp
          cases hsp

theorem Run.signals_of_speaks {r : Run} (h : r.sync.any Sync.speaks = true) :
    r.sync.any Sync.signals = false := by
  cases hsy : r.sync with
  | none => rfl
  | some sy =>
      rw [hsy] at h
      have hsp : sy.speaks = true := h
      unfold Sync.speaks at hsp
      show sy.signals = false
      unfold Sync.signals
      cases hpc : sy.pc with
      | select | body c => rfl
      | handoff | done =>
          rw [hpc, Bool.and_false] at hsp
          cases hsp

/-- For a job that is `ready`, an invocation that leads to a message leads to a sync run. -/
theorem Run.inProgress_of_announces {r : Run} (h : r.announces = true) :
    r.inProgress .ready = true := by
  unfold Run.announces at h
  unfold Run.inProgress
  split at h
  · next hp => rw [hp]; rfl
  · next hp => rw [hp]
  · next hp => rw [hp]
  · next hp => rw [hp]; dsimp only; rw [h]; rfl
  · next hp => rw [hp]; dsimp only; rw [h]; rfl
  · next hp => rw [hp]; exact Run.unfinished_of_speaks h
  · next hp => rw [hp]; exact Run.unfinished_of_speaks h
  · cases h

theorem SchedPc.not_rereads {pc : SchedPc} (h : pc.waits = true) : pc.rereads = false := by
  cases pc with
  | loop | stuck b | returned => rfl
  | _ => cases h

theorem not_queued (hs : s.sched.waits = true) (hm : s.managerChan = []) : queued s = false := by
  unfold queued
  rw [hm]
  cases hp : s.sched with
  | check m =>
      rw [hp] at hs
      cases hs
  | _ => rfl

theorem Quiet.not_refresh (h : Quiet s) : ¬ Refresh s := by
  rintro (hr | hr | hr | ⟨hst, hr | ⟨r, hr, ha⟩⟩)
  · rw [SchedPc.not_rereads h.sched] at hr
    cases hr
  · have hw := h.sched
    rw [hr] at hw
    cases hw
  · exact h.starts hr
  · rw [not_queued h.sched h.messages] at hr
    cases hr
  · have hidle := h.syncs r hr
    rw [hst, Run.inProgress_of_announces ha] at hidle
    cases hidle

/-! ### Every step leaves a match or a report to come -/

/-- The frame rule: a step that leaves `runSchedule` and the slot alone. -/
theorem Fits.keep {t : State} (hi : Fits rec s) (hsched : t.sched = s.sched)
    (hslot : t.schedule.getJob = s.schedule.getJob) (hr : Refresh s → Refresh t) : Fits rec t := by
  rcases hi with h | h
  · left
    unfold Matches shown at h ⊢
    rw [hsched, hslot]
    exact h
  · exact .inr (hr h)

/-- A step of a handler that keeps the actions on their way. -/
theorem Fits.handler {t : State} (hi : Fits rec s) (hsched : t.sched = s.sched)
    (hslot : t.schedule.getJob = s.schedule.getJob) (hst : t.state = s.state)
    (hq : t.managerChan = s.managerChan) (hruns : t.runs = s.runs ∨ t.runs = s.runs ++ [({} : Run)])
    (hw : OnWay CtrlAction.starts s → OnWay CtrlAction.starts t) : Fits rec t := by
  refine hi.keep hsched hslot fun hr => ?_
  rcases hr with hr | hr | hr | ⟨hready, hr⟩
  · exact .inl (hsched ▸ hr)
  · exact .inr (.inl (hsched.trans hr))
  · exact .inr (.inr (.inl (hw hr)))
  · refine .inr (.inr (.inr ⟨hst.trans hready, ?_⟩))
    rcases hr with hr | hr
    · left
      unfold queued at hr ⊢
      rw [hsched, hq]
      exact hr
    · right
      rcases hruns with hruns | hruns
      · rw [hruns]
        exact hr
      · rw [hruns]
        exact Pool.exists_append hr

/-- A step of an invocation or of its sync goroutine that keeps the job state. -/
theorem Fits.setRun {t : State} {i : ℕ} {r r' : Run} (hi : Fits rec s)
    (hr : s.runs[i]? = some r) (hruns : t.runs = s.runs.set i r') (hst : t.state = s.state)
    (hsched : t.sched = s.sched) (hslot : t.schedule = s.schedule)
    (hw : OnWay CtrlAction.starts s → OnWay CtrlAction.starts t)
    (hq : queued s = true → queued t = true)
    (hd : s.state = .ready → r.announces = true → r'.announces = true ∨ queued t = true) :
    Fits rec t := by
  refine hi.keep hsched (by rw [hslot]) fun h => ?_
  rcases h with h | h | h | ⟨hready, h⟩
  · exact .inl (hsched ▸ h)
  · exact .inr (.inl (hsched.trans h))
  · exact .inr (.inr (.inl (hw h)))
  · refine .inr (.inr (.inr ⟨hst.trans hready, ?_⟩))
    rcases h with h | h
    · exact .inl (hq h)
    · by_cases hqt : queued t = true
      · exact .inl hqt
      · right
        rw [hruns]
        exact Pool.exists_set hr (fun ha => (hd hready ha).resolve_right hqt) h

/-- Such a step that leaves the received actions where they are. -/
theorem Fits.stepRun {t : State} {i : ℕ} {r r' : Run} (hi : Fits rec s)
    (hr : s.runs[i]? = some r) (hruns : t.runs = s.runs.set i r') (hst : t.state = s.state)
    (hsched : t.sched = s.sched) (hslot : t.schedule = s.schedule)
    (hc : t.ctrlChan = s.ctrlChan) (hh : t.handler = s.handler) (hhand : r'.hand = r.hand)
    (hq : queued s = true → queued t = true)
    (hd : s.state = .ready → r.announces = true → r'.announces = true ∨ queued t = true) :
    Fits rec t :=
  hi.setRun hr hruns hst hsched hslot
    (fun h => h.setRun hr hc hruns hh fun ha => by rw [hhand]; exact ha) hq hd

theorem announces_at {r : Run} {pc : RunPc} (hp : r.pc = pc) :
    r.announces = ({ r with pc := pc } : Run).announces := by
  subst hp
  rfl

theorem Step.fits_handler (h : Step cfg s l s') (hl : l.party = .handler)
    (hc : slotClear rec s l) (hi : Fits rec s) : Fits rec s' := by
  cases h with
  | badCommand hlock | command c hlock =>
      have hn := (locked_eq_false.mp hlock).1
      exact hi.handler rfl rfl rfl rfl (.inl rfl) fun h =>
        h.handler rfl rfl fun a ha => by rw [hn] at ha; cases ha
  | remove c hh _ =>
      have hcar := carries_afterRemove c
      have hway : OnWay CtrlAction.starts s → OnWay CtrlAction.starts { s with
          schedule := { s.schedule with sched := false }, handler := some (afterRemove c) } :=
        fun h => h.handler rfl rfl fun a ha => by rw [hh] at ha; exact hcar.trans ha
      obtain ⟨cmd, force⟩ := c
      have hflush : cmd ≠ .start → cmd ≠ .restart → Fits rec { s with
          schedule := { s.schedule with sched := false }
          handler := some (afterRemove ⟨cmd, force⟩) } := by
        intro hns hnr
        have hn := hc _ hh hns hnr
        refine hi.handler rfl ?_ rfl rfl (.inl rfl) hway
        unfold Schedule.getJob
        rw [hn]
      cases cmd with
      | start => exact .inr (.inr (.inr (.inl (.inr (.inr (by cases force <;> rfl))))))
      | restart => exact .inr (.inr (.inr (.inl (.inr (.inr rfl)))))
      | stop | ping | update => exact hflush nofun nofun
  | guardSpawn a hh _ | guardSend a hh _ =>
      exact hi.handler rfl rfl rfl rfl (.inl rfl) fun h =>
        h.handler rfl rfl fun b hb => by rw [hh] at hb; exact hb
  | checkSend hh _ =>
      exact hi.handler rfl rfl rfl rfl (.inl rfl) fun h =>
        h.handler rfl rfl fun b hb => by rw [hh] at hb; exact hb
  | spawn a hh =>
      exact hi.handler rfl rfl rfl rfl (.inr rfl) fun h => h.append rfl rfl (by rw [hh]; rfl)
  | checkSkip hh _ =>
      refine hi.handler rfl rfl rfl rfl (.inl rfl) fun h => ?_
      rcases h with h | h | h
      · exact .inl h
      · exact .inr (.inl h)
      · rw [hh] at h
        cases h
  | send a hh hn =>
      refine hi.handler rfl rfl rfl rfl (.inl rfl) fun h => ?_
      rcases h with h | h | h
      · rw [hn] at h
        cases h
      · exact .inr (.inl h)
      · rw [hh] at h
        exact .inl h
  | reply code hh =>
      exact hi.handler rfl rfl rfl rfl (.inl rfl) fun h =>
        h.handler rfl rfl fun b hb => by rw [hh] at hb; cases hb
  | _ => cases hl

/-- A move of `runSchedule` that has no part in the report to come. -/
theorem Fits.moved {rec' : Option ℤ} {pc : SchedPc} (hi : Fits rec s)
    (hp : s.sched.rereads = false) (hne : s.sched ≠ .start)
    (hsh : shown rec' { s with sched := pc } = shown rec s)
    (hq : s.state = .ready → queued s = true → queued { s with sched := pc } = true) :
    Fits rec' { s with sched := pc } := by
  rcases hi with h | h | h | h | ⟨hready, h⟩
  · exact .inl (hsh.trans h)
  · rw [hp] at h
    cases h
  · exact absurd h hne
  · exact .inr (.inr (.inr (.inl h)))
  · refine .inr (.inr (.inr (.inr ⟨hready, ?_⟩)))
    rcases h with h | h
    · exact .inl (hq hready h)
    · exact .inr h

theorem fits_of_rereads {t : State} (h : t.sched.rereads = true) : Fits rec t := .inr (.inl h)

theorem rereads_startPc (st : JobStatus) : (startPc cfg st).rereads = true := by
  unfold startPc
  cases st.status with
  | _ => rfl

theorem rereads_afterSpawn (t : Option ℤ) : (afterSpawn t).rereads = true := by
  cases t with
  | none => rfl
  | some stime => rfl

/-- `runSchedule` is not about to send a request. -/
def SchedPc.mute : SchedPc → Bool
  | upload _ | update _ | flushUpdate _ => false
  | _ => true

theorem recordAfter_of_mute (h : s.sched.mute = true) (now : ℤ) :
    recordAfter rec s (.sched now) = rec := by
  unfold recordAfter
  cases hs : s.sched with
  | upload n | update m | flushUpdate m =>
      rw [hs] at h
      cases h
  | _ => rfl

theorem shown_of_mute (h : s.sched.mute = true) : shown rec s = rec := by
  unfold shown
  cases hs : s.sched with
  | upload n =>
      rw [hs] at h
      cases h
  | _ => rfl

/-- A call of `AddJob` that blocks has found an entry. -/
theorem MutexOk.not_blocked (hm : MutexOk s) (ha : s.sched.adds = true)
    (hfree : s.schedule.sched = false) :
    ¬ (s.schedule.mu = true ∨ s.schedule.sched = true) := by
  intro hb
  have hp : s.schedule.sched = true := by
    refine hm.pending rfl (fun b hs => ?_) hb
    rw [hs] at ha
    cases ha
  rw [hfree] at hp
  cases hp

theorem Step.fits_schedule (h : Step cfg s l s') (hl : l.party = .schedule)
    (hc : slotClear rec s l) (hw : WF s) (hm : MutexOk s) (hhalt : s.halt = .idle)
    (hi : Fits rec s) : Fits (recordAfter rec s l) s' := by
  obtain ⟨-, -, -, hexit, hopen⟩ := hw.halt hhalt
  cases h with
  | schedLock _ _ _ | fetched _ _ | unlock _ _ | checkReady _ _ _ _ | check2Go _ _ _ _
  | update _ _ _ | addJobPlain _ _ _ _ | addJob _ _ _ _ _ _ | add _ _ _ _ _ =>
      exact fits_of_rereads rfl
  | setup now st h => exact fits_of_rereads (rereads_startPc st)
  | schedSpawn now t h => exact fits_of_rereads (rereads_afterSpawn t)
  | addBlocked now t h hb =>
      have ha : s.sched.adds = true := by rw [h]; rfl
      exact absurd hb (hm.not_blocked ha (hc ha))
  | addJobBlocked now m h hsch hb =>
      have ha : s.sched.adds = true := by rw [h]; exact hsch
      exact absurd hb (hm.not_blocked ha (hc ha))
  | getJob now h => exact .inl rfl
  | upload now n h =>
      have hrec : recordAfter rec s (.sched now) = some n := by
        unfold recordAfter
        rw [h]
      have hsh : shown rec s = some n := by
        unfold shown
        rw [h]
      rw [hrec]
      refine hi.moved (by rw [h]; rfl) (by rw [h]; exact nofun) hsh.symm fun _ hq => ?_
      unfold queued at hq ⊢
      rw [h] at hq
      exact hq
  | message m ms h hms =>
      have hsh : shown rec { s with managerChan := ms, sched := .check m } = shown rec s := by
        unfold shown
        rw [h]
      rcases hi with hi | hi | hi | hi | ⟨hready, -⟩
      · exact .inl (hsh.trans hi)
      · rw [h] at hi
        cases hi
      · rw [h] at hi
        cases hi
      · exact .inr (.inr (.inr (.inl hi)))
      · exact .inr (.inr (.inr (.inr ⟨hready, .inl (Bool.or_true _)⟩)))
  | checkOther now m h hst =>
      have hmute : s.sched.mute = true := by rw [h]; rfl
      rw [recordAfter_of_mute hmute]
      exact hi.moved (by rw [h]; rfl) (by rw [h]; exact nofun) (shown_of_mute hmute).symm
        fun hready _ => absurd hready hst
  | check2Skip now m h hst =>
      have hmute : s.sched.mute = true := by rw [h]; rfl
      rw [recordAfter_of_mute hmute]
      refine hi.moved (by rw [h]; rfl) (by rw [h]; exact nofun) (shown_of_mute hmute).symm
        fun _ hq => ?_
      unfold queued at hq ⊢
      rw [h] at hq
      exact hq
  | tickStart _ _ _ _ _ => exact .inr (.inr (.inl rfl))
  | tickNone now _ _ _ => exact hi
  | start now _ _ => exact .inr (.inr (.inr (.inl (.inl rfl))))
  | exited h he =>
      rw [hexit] at he
      cases he
  | exitLock _ h _ | flushReport _ _ _ h _ _ | flushDrop _ _ _ h _ _ | flushEnd _ h _
  | flushUpdate _ _ h =>
      rw [h] at hopen
      cases hopen
  | _ => cases hl

theorem Step.fits_run (h : Step cfg s l s') (hl : l.party = .run) (hc : slotClear rec s l)
    (hw : WF s) (hhalt : s.halt = .idle) (hi : Fits rec s) : Fits rec s' := by
  obtain ⟨-, hnohalt, -⟩ := hw.halt hhalt
  cases h with
  | prologue i r hr hp | topReady i r hr hp _ | launch i r hr hp | wake i r hr hp =>
      exact hi.stepRun hr rfl rfl rfl rfl rfl rfl (hand_at hp).symm id fun _ _ => .inl rfl
  | topIdle i r hr hp hst =>
      exact hi.stepRun hr rfl rfl rfl rfl rfl rfl (hand_at hp).symm id fun hready _ =>
        absurd hready hst
  | waitRecv i r a hr hp ha =>
      refine hi.setRun hr rfl rfl rfl rfl (fun h => h.recv hr ha rfl rfl (hand_at hp) rfl) id
        fun _ h => .inl ?_
      rw [announces_at hp] at h
      exact h
  | waitAct i r a hr hp =>
      have hmem := List.mem_of_getElem? hr
      have hact : r.action = some a := by rw [Run.action, hp]
      have hs := hw.sendable.2.2 r hmem a hact
      obtain ⟨hstop, hstart⟩ := hc r hr
      cases a with
      | stop => exact .inl (hstop (hand_at hp))
      | disable | ping => cases hs
      | halt => exact absurd hact (hnohalt r hmem)
      | restart => exact .inr (.inr (.inr (.inr ⟨rfl, .inr (Pool.exists_set_new hr rfl)⟩)))
      | forceStart => exact .inr (.inr (.inr (.inl (.inr (.inl (Pool.exists_set_new hr rfl))))))
      | start =>
          rcases hstart hp with h | h | h | h
          · exact .inl h
          · exact fits_of_rereads h
          · exact .inr (.inr (.inr (.inr ⟨rfl, .inl h⟩)))
          · exact .inr (.inr (.inr (.inr ⟨rfl, .inr (Pool.exists_set_new hr h)⟩)))
  | closeKill i r a hr hp =>
      refine hi.stepRun hr rfl rfl rfl rfl rfl rfl ?_ id fun _ h => .inl ?_
      · rw [hand_at hp]
        cases a <;> rfl
      · rw [announces_at hp] at h
        obtain rfl : a = .restart := beq_iff_eq.mp h
        rfl
  | join i r a hr hp _ =>
      refine hi.stepRun hr rfl rfl rfl rfl rfl rfl ?_ id fun _ h => .inl ?_
      · rw [hand_at hp]
        cases a <;> rfl
      · rw [announces_at hp] at h
        obtain rfl : a = .restart := beq_iff_eq.mp h
        rfl
  | idleRecv i r a hr hp ha =>
      refine hi.setRun hr rfl rfl rfl rfl (fun h => h.recv hr ha rfl rfl (hand_at hp) rfl) id
        fun _ h => ?_
      rw [announces_at hp] at h
      cases h
  | idleAct i r a hr hp =>
      have hmem := List.mem_of_getElem? hr
      have hact : r.action = some a := by rw [Run.action, hp]
      have hs := hw.sendable.2.2 r hmem a hact
      cases a with
      | stop => exact .inl ((hc r hr).1 (hand_at hp))
      | disable | ping => cases hs
      | halt => exact absurd hact (hnohalt r hmem)
      | forceStart | restart =>
          exact .inr (.inr (.inr (.inl (.inr (.inl (Pool.exists_set_new hr rfl))))))
      | start => exact .inr (.inr (.inr (.inr ⟨rfl, .inr (Pool.exists_set_new hr rfl)⟩)))
  | ret i r hr hp _ =>
      refine hi.stepRun hr rfl rfl rfl rfl rfl rfl (hand_at hp).symm id fun _ h => ?_
      rw [announces_at hp] at h
      cases h
  | done i r hr hp hsig =>
      refine hi.stepRun hr rfl rfl rfl rfl rfl rfl (hand_at hp).symm id fun _ h => ?_
      rw [announces_at hp] at h
      rw [Run.signals_of_speaks h] at hsig
      cases hsig
  | _ => cases hl

/-- A step of the sync goroutine keeps what its invocation leads to if the goroutine still speaks
or has spoken. -/
theorem announces_of_pc {r r' : Run} {q : Prop} (hp : r'.pc = r.pc)
    (h : r.sync.any Sync.speaks = true → r'.sync.any Sync.speaks = true ∨ q)
    (ha : r.announces = true) : r'.announces = true ∨ q := by
  unfold Run.announces at ha ⊢
  rw [hp]
  cases hpc : r.pc with
  | wait | waitGot a =>
      rw [hpc] at ha
      exact h ha
  | spawned | top | launch | killing a | joining a | sleeping | idle | idleGot a | ret | gone =>
      rw [hpc] at ha
      exact .inl ha

theorem speaks_of_sync {r : Run} {sy : Sync} (hs : r.sync = some sy)
    (h : r.sync.any Sync.speaks = true) : sy.speaks = true := by
  rw [hs] at h
  exact h

theorem queued_of_messages {t : State} (h : t.managerChan ≠ []) : queued t = true := by
  unfold queued
  rw [List.isEmpty_eq_false_iff.mpr h]
  rfl

theorem queued_append {t : State} {ms : List JobMessage} (hs : t.sched = s.sched)
    (hm : t.managerChan = s.managerChan ++ ms) (h : queued s = true) : queued t = true := by
  by_cases hne : s.managerChan = []
  · unfold queued at h ⊢
    rw [hs, hm, hne, List.nil_append]
    rw [hne] at h
    rw [show (match s.sched with | .check _ => true | _ => false) = true from h, Bool.or_true]
  · refine queued_of_messages ?_
    rw [hm]
    exact List.append_ne_nil_of_left_ne_nil hne ms

theorem Step.fits_sync (h : Step cfg s l s') (hl : l.party = .sync) (hi : Fits rec s) :
    Fits rec s' := by
  cases h with
  | acquire i r sy hr hsy hpc _ | bypass i r sy hr hsy hpc _ =>
      refine hi.stepRun hr rfl rfl rfl rfl rfl rfl rfl id fun _ =>
        announces_of_pc rfl fun h => .inl ?_
      have hsp := speaks_of_sync hsy h
      unfold Sync.speaks at hsp
      rw [hpc, Bool.and_true] at hsp
      -- `runJobWrapper` begins with a message
      show (!sy.kill && true) = true
      rw [hsp]
      rfl
  | kill i r sy hr hsy hpc hk =>
      refine hi.stepRun hr rfl rfl rfl rfl rfl rfl rfl id fun _ => announces_of_pc rfl fun h => ?_
      have hsp := speaks_of_sync hsy h
      unfold Sync.speaks at hsp
      rw [hk] at hsp
      cases hsp
  | op i r sy x e k a hr hsy hpc ha =>
      refine hi.stepRun hr rfl rfl rfl rfl rfl rfl rfl (fun hq => ?_) fun _ =>
        announces_of_pc rfl fun h => .inr ?_
      · exact queued_append (s := s) rfl rfl hq
      · have hsp := speaks_of_sync hsy h
        unfold Sync.speaks at hsp
        rw [hpc] at hsp
        cases e with
        | send m => exact queued_of_messages (List.append_ne_nil_of_right_ne_nil _ nofun)
        | hook _ _ | runProvider | awaitStart | awaitDone | dataSize | getState | panic =>
            rw [Bool.and_false] at hsp
            cases hsp
  | finish i r sy hr hsy hpc =>
      refine hi.stepRun hr rfl rfl rfl rfl rfl rfl rfl id fun _ => announces_of_pc rfl fun h => ?_
      have hsp := speaks_of_sync hsy h
      unfold Sync.speaks at hsp
      rw [hpc, Bool.and_false] at hsp
      cases hsp
  | release _ => exact hi
  | _ => cases hl

theorem Step.fits (h : Step cfg s l s') (hne : l ≠ .halt) (hc : slotClear rec s l) (hw : WF s)
    (hm : MutexOk s) (hhalt : s.halt = .idle) (hi : Fits rec s) :
    Fits (recordAfter rec s l) s' := by
  cases hl : l.party with
  | schedule => exact h.fits_schedule hl hc hw hm hhalt hi
  | handler =>
      have hrec : recordAfter rec s l = rec := by cases l <;> first | rfl | cases hl
      rw [hrec]
      exact h.fits_handler hl hc hi
  | run =>
      have hrec : recordAfter rec s l = rec := by cases l <;> first | rfl | cases hl
      rw [hrec]
      exact h.fits_run hl hc hw hhalt hi
  | sync =>
      have hrec : recordAfter rec s l = rec := by cases l <;> first | rfl | cases hl
      rw [hrec]
      exact h.fits_sync hl hi
  | halt =>
      cases l with
      | halt => exact absurd rfl hne
      | _ => cases hl

theorem Step.halt_idle (h : Step cfg s l s') (hne : l ≠ .halt) (hi : s.halt = .idle) :
    s'.halt = .idle := by
  cases h with
  | halt | haltCheck | haltSkip | haltSend | haltWait | haltClose => exact absurd rfl hne
  | _ => exact hi

end KubeSync.Worker
