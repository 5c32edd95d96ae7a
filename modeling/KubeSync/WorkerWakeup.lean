import KubeSync.WorkerStop

/-! # Lost wakeups

A job that is neither paused nor disabled has to be synced again some day.  What leads to the
next sync run is handed around between the schedule slot, the control channel, the sync run under
way and the message channel.

* `stored`: a pending entry, or a message with the schedule flag that is queued or being turned
  into an entry;
* `OnWay p s`: an action satisfying `p` is in `ctrlChan`, in the hands of an invocation, or about
  to be sent by a handler;
* `HasTrigger`: what the worker may count on: a stored or travelling trigger, or a sync run that
  is in progress or about to be launched.  `Wakes` is the property of one reachable state;
* `Trigger` is the stronger invariant: a sync run only counts while it still owes its scheduling
  message (`Owes`);
* `run_wakes`: the property holds in every state of every run whose steps meet `wakeClear`, for a
  configured retry that is not negative. -/

namespace KubeSync.Worker

variable {cfg : Config} {s s' : State} {l : Label}

/-! ### Triggers -/

/-- `runSchedule` holds a popped entry, or is going to add one. -/
def SchedPc.promises : SchedPc → Bool
  | spawn (some _) | add _ | start => true
  | check m | update m | addJob m => m.schedule
  | _ => false

def stored (s : State) : Bool :=
  s.schedule.sched || s.managerChan.any (·.schedule) || s.sched.promises

/-- An action that satisfies `p` is in or on its way to `ctrlChan`, or has just been received. -/
def OnWay (p : CtrlAction → Bool) (s : State) : Prop :=
  s.ctrlChan.any p = true ∨ (∃ r ∈ s.runs, r.hand.any p = true) ∨
    (s.handler.bind HandlerPc.carries).any p = true

/-- A sync run is in progress, is about to be launched, or is being restarted. -/
def Run.inProgress (st : JobState) (r : Run) : Bool :=
  match r.pc with
  | .top => st == .ready
  | .launch | .sleeping => true
  | .killing a | .joining a => a == .restart || r.unfinished
  | _ => r.unfinished

def HasTrigger (s : State) : Prop :=
  stored s = true ∨ OnWay CtrlAction.starts s ∨ ∃ r ∈ s.runs, r.inProgress s.state = true

/-- Before `AddJob` of the start-up. -/
def SchedPc.booting : SchedPc → Bool
  | lock | fetch | setup _ | spawn _ | add _ => true
  | _ => false

def JobState.resting : JobState → Bool
  | paused | disabled | halting => true
  | none | ready => false

def CtrlAction.rests : CtrlAction → Bool
  | stop | halt => true
  | _ => false

/-- The property of one reachable state. -/
def Wakes (s : State) : Prop :=
  s.sched.booting = false → s.state.resting = false → ¬ OnWay CtrlAction.rests s →
    s.halt ≠ .send → HasTrigger s

/-! ### The invariant -/

/-- The sync run of an invocation has not been killed and still owes its scheduling message. -/
def Run.Owing (cfg : Config) (r : Run) : Prop :=
  (∃ sy, r.sync = some sy ∧ sy.kill = false) ∧ ∃ c, r.rest cfg = some c ∧ Owes c

/-- The invocation leads to a scheduling message. -/
def Run.Drives (cfg : Config) (st : JobState) (r : Run) : Prop :=
  match r.pc with
  | .top => st = .ready
  | .launch | .sleeping => True
  | .killing a | .joining a => a = .restart
  | .wait | .waitGot _ => r.Owing cfg
  | _ => False

def Trigger (cfg : Config) (s : State) : Prop :=
  stored s = true ∨ OnWay CtrlAction.starts s ∨ ∃ r ∈ s.runs, r.Drives cfg s.state

def Awake (cfg : Config) (s : State) : Prop :=
  s.sched.unset = false → s.state.resting = false → ¬ OnWay (· == .stop) s → Trigger cfg s

/-- The mutex of the slot is only left locked by a call that never returns. -/
def MutexOk (s : State) : Prop := s.schedule.mu = true → ∃ b, s.sched = .stuck b

/-- The condition on a step: a ping or unknown command flushes no pending entry, `Terminate` does
not fail after a timeout, a start action received during a sync run finds that run still owing its
scheduling message, or that message or its entry still stored, and the flush at the exit finds no
message with the schedule flag. -/
def wakeClear (cfg : Config) (s : State) : Label → Prop
  | .handler => ∀ c, s.handler = some (.remove c) → c.cmd = .ping ∨ c.cmd = .update →
      s.schedule.sched = false
  | .sync _ (.op x) => ∀ err, x ≠ .done (.timeout (some err))
  | .run i => ∀ r, s.runs[i]? = some r → r.pc = .waitGot .start →
      r.Owing cfg ∨ stored s = true
  | .sched _ => s.sched = .flush → ∀ m ∈ s.managerChan.head?, m.schedule = false
  | _ => True

theorem Run.Drives.inProgress {st : JobState} {r : Run} (h : r.Drives cfg st) :
    r.inProgress st = true := by
  unfold Run.Drives at h
  unfold Run.inProgress
  split at h
  · next hp => rw [hp]; exact beq_iff_eq.mpr h
  · next hp => rw [hp]
  · next hp => rw [hp]
  · next hp => rw [hp]; subst h; rfl
  · next hp => rw [hp]; subst h; rfl
  · next hp =>
      rw [hp]
      obtain ⟨-, c, hc, -⟩ := h
      exact Run.unfinished_of_rest hc
  · next hp =>
      rw [hp]
      obtain ⟨-, c, hc, -⟩ := h
      exact Run.unfinished_of_rest hc
  · exact h.elim

theorem Trigger.hasTrigger (h : Trigger cfg s) : HasTrigger s := by
  rcases h with h | h | ⟨r, hr, h⟩
  · exact .inl h
  · exact .inr (.inl h)
  · exact .inr (.inr ⟨r, hr, h.inProgress⟩)

theorem OnWay.mono {p q : CtrlAction → Bool} (h : OnWay p s) (hpq : ∀ a, p a = true → q a = true) :
    OnWay q s := by
  have any : ∀ o : Option CtrlAction, o.any p = true → o.any q = true := by
    intro o ho
    cases o with
    | none => cases ho
    | some a => exact hpq a ho
  rcases h with h | ⟨r, hr, h⟩ | h
  · exact .inl (any _ h)
  · exact .inr (.inl ⟨r, hr, any _ h⟩)
  · exact .inr (.inr (any _ h))

/-! ### Actions on their way stay on their way -/

theorem OnWay.handler {p : CtrlAction → Bool} {t : State} (h : OnWay p s)
    (hc : t.ctrlChan = s.ctrlChan) (hr : t.runs = s.runs)
    (hh : ∀ a, (s.handler.bind HandlerPc.carries) = some a →
      (t.handler.bind HandlerPc.carries) = some a) : OnWay p t := by
  rcases h with h | h | h
  · exact .inl (hc ▸ h)
  · exact .inr (.inl (hr ▸ h))
  · cases ho : s.handler.bind HandlerPc.carries with
    | none =>
        rw [ho] at h
        cases h
    | some a =>
        rw [ho] at h
        exact .inr (.inr (by rw [hh a ho]; exact h))

theorem OnWay.setRun {p : CtrlAction → Bool} {t : State} {i : ℕ} {r r' : Run} (h : OnWay p s)
    (hr : s.runs[i]? = some r) (hc : t.ctrlChan = s.ctrlChan) (hs : t.runs = s.runs.set i r')
    (hh : t.handler = s.handler) (hhand : r.hand.any p = true → r'.hand.any p = true) :
    OnWay p t := by
  rcases h with h | h | h
  · exact .inl (hc ▸ h)
  · refine .inr (.inl ?_)
    rw [hs]
    exact Pool.exists_set hr hhand h
  · exact .inr (.inr (hh ▸ h))

/-- An action that is received moves from `ctrlChan` to the hands of the invocation. -/
theorem OnWay.recv {p : CtrlAction → Bool} {t : State} {i : ℕ} {r r' : Run} {a : CtrlAction}
    (h : OnWay p s) (hr : s.runs[i]? = some r) (hc : s.ctrlChan = some a)
    (hs : t.runs = s.runs.set i r') (hh : t.handler = s.handler) (hold : r.hand = none)
    (hnew : r'.hand = some a) : OnWay p t := by
  rcases h with h | h | h
  · refine .inr (.inl ?_)
    rw [hs]
    refine Pool.exists_set_new hr ?_
    rw [hnew]
    rw [hc] at h
    exact h
  · refine .inr (.inl ?_)
    rw [hs]
    refine Pool.exists_set hr (fun h => ?_) h
    rw [hold] at h
    cases h
  · exact .inr (.inr (hh ▸ h))

theorem OnWay.append {p : CtrlAction → Bool} {t : State} (h : OnWay p s)
    (hc : t.ctrlChan = s.ctrlChan) (hs : t.runs = s.runs ++ [({} : Run)])
    (hh : t.handler.bind HandlerPc.carries = s.handler.bind HandlerPc.carries) : OnWay p t := by
  rcases h with h | h | h
  · exact .inl (hc ▸ h)
  · refine .inr (.inl ?_)
    rw [hs]
    exact Pool.exists_append h
  · exact .inr (.inr (hh ▸ h))

theorem Step.mutexOk (h : Step cfg s l s') (hi : MutexOk s) : MutexOk s' := by
  have moved : ∀ {pc : SchedPc}, s.sched = pc → (∀ b, pc ≠ .stuck b) → ∀ {q : Prop},
      s.schedule.mu = true → q := by
    intro pc hp hne q hmu
    obtain ⟨b, hb⟩ := hi hmu
    exact (hne b (hp.symm.trans hb)).elim
  cases h with
  | addBlocked now t _ _ => exact fun _ => ⟨true, rfl⟩
  | addJobBlocked now m _ _ _ => exact fun _ => ⟨false, rfl⟩
  | schedLock _ h _ | fetched _ h | setup _ _ h | schedSpawn _ _ h | add _ _ h _ _ | unlock _ h
  | getJob _ h | upload _ _ h | message _ _ h _ | checkReady _ _ h _ | checkOther _ _ h _
  | check2Go _ _ h _ | check2Skip _ _ h _ | update _ _ h | addJob _ _ h _ _ _
  | addJobPlain _ _ h _ | tickStart _ h _ _ _ | start _ h _ | exited h _ | exitLock _ h _
  | flushReport _ _ _ h _ _ | flushDrop _ _ _ h _ _ | flushEnd _ h _ | flushUpdate _ _ h =>
      exact fun hmu => moved h nofun hmu
  | _ => exact hi

/-! ### Every step leaves a trigger -/

/-- The frame rule: a step that keeps the job state keeps a trigger if it keeps the actions on
their way, what is stored, and the driving invocations. -/
theorem Awake.keep {t : State} (hi : Awake cfg s)
    (hu : t.sched.unset = false → s.sched.unset = false) (hs : t.state = s.state)
    (hw : ∀ p : CtrlAction → Bool, p .halt = false → OnWay p s → OnWay p t)
    (hst : stored s = true → stored t = true)
    (hr : (∃ r ∈ s.runs, r.Drives cfg s.state) → ∃ r ∈ t.runs, r.Drives cfg t.state) :
    Awake cfg t := by
  intro hut hrest hno
  rw [hs] at hrest
  rcases hi (hu hut) hrest fun h => hno (hw _ rfl h) with h | h | h
  · exact .inl (hst h)
  · exact .inr (.inl (hw _ rfl h))
  · exact .inr (.inr (hr h))

theorem awake_of_stored {t : State} (h : stored t = true) : Awake cfg t := fun _ _ _ => .inl h

theorem stored_of_sched {t : State} (h : t.schedule.sched = true) : stored t = true := by
  rw [stored, h]
  rfl

theorem stored_of_promises {t : State} (h : t.sched.promises = true) : stored t = true := by
  rw [stored, h, Bool.or_true]

theorem stored_of_message {t : State} {m : JobMessage} (hm : m ∈ t.managerChan)
    (h : m.schedule = true) : stored t = true := by
  have hany : t.managerChan.any (·.schedule) = true := List.any_eq_true.mpr ⟨m, hm, h⟩
  rw [stored, hany, Bool.or_true]
  rfl

/-- What is stored survives a change that keeps the entry and the messages, or replaces them by a
promise. -/
theorem stored_mono {t : State} (h : stored s = true)
    (h₁ : s.schedule.sched = true → stored t = true)
    (h₂ : ∀ m ∈ s.managerChan, m.schedule = true → stored t = true)
    (h₃ : s.sched.promises = true → stored t = true) : stored t = true := by
  rw [stored, Bool.or_eq_true, Bool.or_eq_true] at h
  rcases h with (h | h) | h
  · exact h₁ h
  · obtain ⟨m, hm, hs⟩ := List.any_eq_true.mp h
    exact h₂ m hm hs
  · exact h₃ h

/-- A move of `runSchedule` that leaves the slot and the messages alone. -/
theorem stored_sched {pc : SchedPc} (hp : s.sched.promises = true → pc.promises = true)
    (h : stored s = true) : stored { s with sched := pc } = true :=
  stored_mono h (fun h => stored_of_sched h) (fun _ hm h => stored_of_message hm h)
    fun h => stored_of_promises (hp h)

theorem drives_set {t : State} {i : ℕ} {r r' : Run} {st : JobState} (hr : s.runs[i]? = some r)
    (hs : t.runs = s.runs.set i r') (hd : r.Drives cfg st → r'.Drives cfg st)
    (h : ∃ r ∈ s.runs, r.Drives cfg st) : ∃ r ∈ t.runs, r.Drives cfg st := by
  rw [hs]
  exact Pool.exists_set hr hd h

theorem drives_at {st : JobState} {r : Run} {pc : RunPc} (hp : r.pc = pc) :
    r.Drives cfg st = ({ r with pc := pc } : Run).Drives cfg st := by
  subst hp
  rfl

/-- A step of an invocation that keeps the job state, its hand and its drive. -/
theorem Awake.setRun {t : State} {i : ℕ} {r r' : Run} (hi : Awake cfg s)
    (hr : s.runs[i]? = some r) (hruns : t.runs = s.runs.set i r') (hs : t.state = s.state)
    (hc : t.ctrlChan = s.ctrlChan) (hh : t.handler = s.handler) (hsch : t.sched = s.sched)
    (hst : stored s = true → stored t = true) (hhand : r'.hand = r.hand)
    (hd : r.Drives cfg s.state → r'.Drives cfg s.state) : Awake cfg t := by
  refine hi.keep (fun h => by rw [hsch] at h; exact h) hs (fun p _ h => ?_) hst ?_
  · exact h.setRun hr hc hruns hh fun h => by rw [hhand]; exact h
  · rw [hs]
    exact drives_set hr hruns hd

/-- The answers of the operations of a sync run. -/
theorem answer_cases {kill : Bool} {e : SyncOp} {x : Reply} {a : e.Answer}
    (h : answer s kill e x = some a) :
    (killed ⟨e, a⟩ = true → kill = true) ∧ (unready ⟨e, a⟩ = true → s.state ≠ .ready) ∧
      (termFails ⟨e, a⟩ = true → ∃ err, x = .done (.timeout (some err))) := by
  cases e with
  | awaitDone =>
      cases x with
      | done sel =>
          cases sel with
          | kill t =>
              cases kill with
              | true =>
                  obtain rfl := Option.some.inj h
                  exact ⟨fun _ => rfl, nofun, nofun⟩
              | false => cases h
          | timeout t =>
              obtain rfl := Option.some.inj h
              cases t with
              | none => exact ⟨nofun, nofun, nofun⟩
              | some err => exact ⟨nofun, nofun, fun _ => ⟨err, rfl⟩⟩
          | done err =>
              obtain rfl := Option.some.inj h
              exact ⟨nofun, nofun, nofun⟩
      | go | hook _ | start _ | size _ => cases h
  | getState =>
      cases x with
      | go =>
          obtain rfl := Option.some.inj h
          exact ⟨nofun, fun h => bne_iff_ne.mp h, nofun⟩
      | hook _ | start _ | done _ | size _ => cases h
  | send _ | hook _ _ | runProvider | awaitStart | dataSize | panic => exact ⟨nofun, nofun, nofun⟩

theorem mem_sends_of_schedules {e : SyncOp} {a : e.Answer} (h : schedules ⟨e, a⟩ = true) :
    ∃ m ∈ sends e, m.schedule = true := by
  cases e with
  | send m => exact ⟨m, List.mem_singleton.mpr rfl, h⟩
  | hook _ _ | runProvider | awaitStart | awaitDone | dataSize | getState | panic => cases h

theorem Run.Owing.kill {r : Run} {sy : Sync} (h : r.Owing cfg) (hs : r.sync = some sy) :
    sy.kill = false := by
  obtain ⟨⟨sy', hs', hk⟩, -⟩ := h
  rw [hs] at hs'
  cases hs'
  exact hk

theorem Run.Owing.rest {r : Run} {c : SyncProg Unit} (h : r.Owing cfg)
    (hc : r.rest cfg = some c) : Owes c := by
  obtain ⟨-, c', hc', ho⟩ := h
  rw [hc] at hc'
  cases hc'
  exact ho

theorem Run.rest_body {r : Run} {sy : Sync} {c : SyncProg Unit} (hs : r.sync = some sy)
    (hp : sy.pc = .body c) : r.rest cfg = some c := by
  rw [Run.rest, hs]
  dsimp only
  rw [hp]

theorem owing_body {r : Run} {sy : Sync} {c : SyncProg Unit} (hs : r.sync = some sy)
    (hp : sy.pc = .body c) (hk : sy.kill = false) (ho : Owes c) : r.Owing cfg := by
  exact ⟨⟨sy, hs, hk⟩, c, Run.rest_body hs hp, ho⟩

/-- A step of the sync goroutine keeps the drive of its invocation if it keeps its debt. -/
theorem drives_of_pc {r r' : Run} {st : JobState} (hp : r'.pc = r.pc)
    (h : r.Owing cfg → r'.Owing cfg) (hd : r.Drives cfg st) : r'.Drives cfg st := by
  unfold Run.Drives at hd ⊢
  rw [hp]
  cases hpc : r.pc with
  | wait | waitGot a =>
      rw [hpc] at hd
      exact h hd
  | spawned | top | launch | killing a | joining a | sleeping | idle | idleGot a | ret | gone =>
      rw [hpc] at hd
      exact hd

theorem Run.rest_of_signals (cfg : Config) {r : Run} (h : r.sync.any Sync.signals = true) :
    r.rest cfg = none := by
  obtain ⟨pc, bypass, sync⟩ := r
  cases sync with
  | none => rfl
  | some sy =>
      obtain ⟨kill, held, pc⟩ := sy
      cases pc with
      | select | body c => cases h
      | handoff | done => rfl

theorem state_none {st : JobState} (h : st.resting = false) (hr : st ≠ .ready) : st = .none := by
  cases st with
  | none => rfl
  | ready => exact absurd rfl hr
  | paused | disabled | halting => cases h

theorem promises_startPc {st : JobStatus} (h : (startState st.status).resting = false) :
    (startPc cfg st).promises = true := by
  unfold startPc
  cases hs : st.status with
  | paused | disabled =>
      rw [hs] at h
      cases h
  | none | failed | success | syncing | preSyncing | cached | created | other _ => rfl

/-- Before the start-up has set the state, no invocation exists. -/
theorem WF.state_ne_none (hw : WF s) {i : ℕ} {r : Run} (hr : s.runs[i]? = some r)
    (hp : r.pc.calm = false) : s.state ≠ .none := by
  intro hst
  rw [(hw.idle hst).2.2 r (List.mem_of_getElem? hr)] at hp
  cases hp

theorem MutexOk.pending (hm : MutexOk s) {pc : SchedPc} (hp : s.sched = pc)
    (hne : ∀ b, pc ≠ .stuck b) (h : s.schedule.mu = true ∨ s.schedule.sched = true) :
    s.schedule.sched = true := by
  rcases h with h | h
  · obtain ⟨b, hb⟩ := hm h
    exact (hne b (hp.symm.trans hb)).elim
  · exact h

/-- A move of `runSchedule` that keeps what it has promised. -/
theorem Awake.moved (hi : Awake cfg s) {pc pc' : SchedPc} (hp : s.sched = pc)
    (hu : pc.unset = false) (hpr : pc.promises = true → pc'.promises = true) :
    Awake cfg { s with sched := pc' } := by
  refine hi.keep (fun _ => by rw [hp]; exact hu) rfl (fun _ _ h => h) (stored_sched ?_) id
  rw [hp]
  exact hpr

theorem Step.awake_handler (h : Step cfg s l s') (hl : l.party = .handler)
    (hc : wakeClear cfg s l) (hi : Awake cfg s) : Awake cfg s' := by
  cases h with
  | badCommand hlock =>
      have hn := (locked_eq_false.mp hlock).1
      exact hi.keep id rfl (fun p _ h => h.handler rfl rfl fun a ha => by rw [hn] at ha; cases ha)
        id id
  | command c hlock =>
      have hn := (locked_eq_false.mp hlock).1
      exact hi.keep id rfl (fun p _ h => h.handler rfl rfl fun a ha => by rw [hn] at ha; cases ha)
        id id
  | remove c hh _ =>
      have hcar := carries_afterRemove c
      obtain ⟨cmd, force⟩ := c
      have hflush : cmd = .ping ∨ cmd = .update → Awake cfg { s with
          schedule := { s.schedule with sched := false }
          handler := some (afterRemove ⟨cmd, force⟩) } := by
        intro hcmd
        have hn := hc _ hh hcmd
        refine hi.keep id rfl (fun p _ h => h.handler rfl rfl fun a ha => ?_) (fun h => ?_) id
        · rw [hh] at ha
          exact hcar.trans ha
        · refine stored_mono h (fun h => ?_) (fun _ hm h => stored_of_message hm h)
            fun h => stored_of_promises h
          rw [hn] at h
          cases h
      cases cmd with
      | start => exact fun _ _ _ => .inr (.inl (.inr (.inr (by cases force <;> rfl))))
      | restart => exact fun _ _ _ => .inr (.inl (.inr (.inr rfl)))
      | stop => exact fun _ _ hno => absurd (.inr (.inr rfl)) hno
      | ping => exact hflush (.inl rfl)
      | update => exact hflush (.inr rfl)
  | guardSpawn a hh _ | guardSend a hh _ =>
      exact hi.keep id rfl (fun p _ h => h.handler rfl rfl fun b hb => by rw [hh] at hb; exact hb)
        id id
  | spawn a hh =>
      exact hi.keep id rfl (fun p _ h => h.append rfl rfl (by rw [hh]; rfl)) id Pool.exists_append
  | checkSend hh _ =>
      exact hi.keep id rfl (fun p _ h => h.handler rfl rfl fun b hb => by rw [hh] at hb; exact hb)
        id id
  | checkSkip hh hst =>
      intro _ hrest
      rw [show s.state = .disabled from hst] at hrest
      cases hrest
  | send a hh hn =>
      refine hi.keep id rfl (fun p _ h => ?_) id id
      rcases h with h | h | h
      · rw [hn] at h
        cases h
      · exact .inr (.inl h)
      · rw [hh] at h
        exact .inl h
  | reply code hh =>
      exact hi.keep id rfl (fun p _ h => h.handler rfl rfl fun b hb => by rw [hh] at hb; cases hb)
        id id
  | _ => cases hl

theorem Step.awake_schedule (h : Step cfg s l s') (hl : l.party = .schedule)
    (hc : wakeClear cfg s l) (hw : WF s) (hm : MutexOk s)
    (hi : Awake cfg s) : Awake cfg s' := by
  cases h with
  | schedLock _ _ _ | fetched _ _ =>
      intro hu
      cases hu
  | setup now st h =>
      exact fun _ hrest _ => .inl (stored_of_promises (promises_startPc hrest))
  | schedSpawn now t h =>
      refine hi.keep (fun _ => by rw [h]; rfl) rfl (fun p _ h => h.append rfl rfl rfl)
        (fun hs => ?_) Pool.exists_append
      refine stored_mono hs (fun h => stored_of_sched h) (fun _ hm h => stored_of_message hm h)
        fun hp => stored_of_promises ?_
      rw [h] at hp
      cases t with
      | none => cases hp
      | some t => rfl
  | add now t h _ _ => exact awake_of_stored (stored_of_sched rfl)
  | addBlocked now t h hb => exact awake_of_stored (stored_of_sched (hm.pending h nofun hb))
  | unlock _ h | getJob _ h | upload _ _ h | check2Skip _ _ h _ | exited h _ | exitLock _ h _
  | flushEnd _ h _ | flushUpdate _ _ h => exact hi.moved h rfl nofun
  | checkReady _ m h _ | update _ m h => exact hi.moved h rfl id
  | addJobPlain _ m h hs =>
      refine hi.moved h rfl fun hp => ?_
      rw [SchedPc.promises, hs] at hp
      cases hp
  | message m ms h hm =>
      refine hi.keep (fun _ => by rw [h]; rfl) rfl (fun _ _ h => h) (fun hs => ?_) id
      refine stored_mono hs (fun h => stored_of_sched h) (fun m' hm' hs' => ?_) fun hp => ?_
      · rw [hm] at hm'
        rcases List.mem_cons.mp hm' with rfl | hm'
        · exact stored_of_promises hs'
        · exact stored_of_message hm' hs'
      · rw [h] at hp
        cases hp
  | checkOther _ m h hst =>
      intro _ hrest _
      have hnone := (hw.idle (state_none hrest hst)).2.1
      rw [h] at hnone
      cases hnone
  | check2Go _ m h hst =>
      intro _ hrest
      rw [show s.state = .halting from hst] at hrest
      cases hrest
  | addJob _ m h _ _ _ => exact awake_of_stored (stored_of_sched rfl)
  | addJobBlocked _ m h _ hb => exact awake_of_stored (stored_of_sched (hm.pending h nofun hb))
  | tickStart _ h _ _ _ => exact awake_of_stored (stored_of_promises rfl)
  | start _ h _ => exact fun _ _ _ => .inr (.inl (.inl rfl))
  | flushReport _ m ms h hm _ | flushDrop _ m ms h hm _ =>
      have hn := hc h m (by rw [hm]; rfl)
      refine hi.keep (fun _ => by rw [h]; rfl) rfl (fun _ _ h => h) (fun hs => ?_) id
      refine stored_mono hs (fun h => stored_of_sched h) (fun m' hm' hs' => ?_) fun hp => ?_
      · rw [hm] at hm'
        rcases List.mem_cons.mp hm' with rfl | hm'
        · rw [hn] at hs'
          cases hs'
        · exact stored_of_message hm' hs'
      · rw [h] at hp
        cases hp
  | _ => first | cases hl; done | exact hi

theorem Step.awake_halt (h : Step cfg s l s') (hl : l.party = .halt) (hi : Awake cfg s) :
    Awake cfg s' := by
  cases h with
  | haltSend hh hn =>
      refine hi.keep id rfl (fun p _ h => ?_) id id
      rcases h with h | h | h
      · rw [hn] at h
        cases h
      · exact .inr (.inl h)
      · exact .inr (.inr h)
  | _ => first | cases hl; done | exact hi

theorem Step.awake_run (h : Step cfg s l s') (hl : l.party = .run) (hretry : 0 ≤ cfg.provider.retry)
    (hc : wakeClear cfg s l) (hw : WF s) (hi : Awake cfg s) : Awake cfg s' := by
  cases h with
  | prologue i r hr hp =>
      refine hi.setRun hr rfl rfl rfl rfl rfl id (hand_at hp).symm fun hd => ?_
      rw [drives_at hp] at hd
      exact hd.elim
  | topReady i r hr hp hst =>
      exact hi.setRun hr rfl rfl rfl rfl rfl id (hand_at hp).symm fun _ => trivial
  | topIdle i r hr hp hst =>
      refine hi.setRun hr rfl rfl rfl rfl rfl id (hand_at hp).symm fun hd => ?_
      rw [drives_at hp] at hd
      exact (hst hd).elim
  | launch i r hr hp =>
      refine fun _ _ _ => .inr (.inr (Pool.exists_set_new hr ?_))
      exact ⟨⟨{}, rfl, rfl⟩, _, rfl, runJobWrapper_owes hretry⟩
  | waitRecv i r a hr hp ha =>
      refine hi.keep id rfl (fun p _ h => h.recv hr ha rfl rfl (hand_at hp) rfl) id ?_
      refine drives_set hr rfl fun hd => ?_
      rw [drives_at hp] at hd
      exact hd
  | waitAct i r a hr hp =>
      have hs := hw.sendable.2.2 r (List.mem_of_getElem? hr) a (by rw [Run.action, hp])
      cases a with
      | stop | disable | halt =>
          intro _ hrest
          cases hrest
      | ping => cases hs
      | restart => exact fun _ _ _ => .inr (.inr (Pool.exists_set_new hr rfl))
      | forceStart => exact fun _ _ _ => .inr (.inl (.inr (.inl (Pool.exists_set_new hr rfl))))
      | start =>
          intro _ _ _
          rcases hc r hr hp with ho | hst
          · exact .inr (.inr (Pool.exists_set_new hr ho))
          · exact .inl hst
  | closeKill i r a hr hp =>
      refine hi.setRun hr rfl rfl rfl rfl rfl id ?_ fun hd => ?_
      · rw [hand_at hp]
        cases a <;> rfl
      · rw [drives_at hp] at hd
        obtain rfl : a = .restart := hd
        rfl
  | join i r a hr hp _ =>
      refine hi.setRun hr rfl rfl rfl rfl rfl id ?_ fun hd => ?_
      · rw [hand_at hp]
        cases a <;> rfl
      · rw [drives_at hp] at hd
        obtain rfl : a = .restart := hd
        trivial
  | wake i r hr hp =>
      intro hu hrest hno
      have hready : s.state = .ready := by
        by_contra hne
        exact hw.state_ne_none hr (by rw [hp]; rfl) (state_none hrest hne)
      refine hi.setRun hr rfl rfl rfl rfl rfl id (hand_at hp).symm (fun _ => hready) hu hrest hno
  | idleRecv i r a hr hp ha =>
      refine hi.keep id rfl (fun p _ h => h.recv hr ha rfl rfl (hand_at hp) rfl) id ?_
      refine drives_set hr rfl fun hd => ?_
      rw [drives_at hp] at hd
      exact hd.elim
  | idleAct i r a hr hp =>
      have hs := hw.sendable.2.2 r (List.mem_of_getElem? hr) a (by rw [Run.action, hp])
      cases a with
      | stop | disable =>
          intro _ hrest
          cases hrest
      | forceStart | restart =>
          exact fun _ _ _ => .inr (.inl (.inr (.inl (Pool.exists_set_new hr rfl))))
      | start => exact fun _ _ _ => .inr (.inr (Pool.exists_set_new hr rfl))
      | ping => cases hs
      | halt =>
          refine hi.keep id rfl (fun p hp' h => h.setRun hr rfl rfl rfl fun hh => ?_) id ?_
          · rw [hand_at hp] at hh
            rw [show p .halt = true from hh] at hp'
            cases hp'
          · refine drives_set hr rfl fun hd => ?_
            rw [drives_at hp] at hd
            exact hd.elim
  | ret i r hr hp _ =>
      refine hi.setRun hr rfl rfl rfl rfl rfl id (hand_at hp).symm fun hd => ?_
      rw [drives_at hp] at hd
      exact hd.elim
  | done i r hr hp hsig =>
      have hnone := Run.rest_of_signals cfg hsig
      refine hi.setRun hr rfl rfl rfl rfl rfl id (hand_at hp).symm fun hd => ?_
      rw [drives_at hp] at hd
      obtain ⟨-, c, hrest, -⟩ := hd
      rw [show r.rest cfg = some c from hrest] at hnone
      cases hnone
  | _ => cases hl

theorem Step.awake_sync (h : Step cfg s l s') (hl : l.party = .sync)
    (hretry : 0 ≤ cfg.provider.retry)
    (hc : wakeClear cfg s l) (hw : WF s) (hi : Awake cfg s) : Awake cfg s' := by
  cases h with
  | acquire i r sy hr hsy hpc _ | bypass i r sy hr hsy hpc _ =>
      refine hi.setRun hr rfl rfl rfl rfl rfl id rfl (drives_of_pc rfl fun ho => ?_)
      have hk := ho.kill hsy
      exact owing_body rfl rfl hk (runJobWrapper_owes hretry)
  | kill i r sy hr hsy hpc hk =>
      refine hi.setRun hr rfl rfl rfl rfl rfl id rfl (drives_of_pc rfl fun ho => ?_)
      rw [ho.kill hsy] at hk
      cases hk
  | op i r sy x e k a hr hsy hpc ha =>
      obtain ⟨hk, hu, ht⟩ := answer_cases ha
      have hst : stored s = true → stored ((effect s e a).setRun i { r with
          sync := some { sy with pc := .body (k a) } }) = true := fun h =>
        stored_mono h (fun h => stored_of_sched h)
          (fun _ hm h => stored_of_message (List.mem_append_left _ hm) h)
          fun h => stored_of_promises h
      cases hs : schedules ⟨e, a⟩ with
      | true =>
          obtain ⟨m, hm, hsch⟩ := mem_sends_of_schedules hs
          exact awake_of_stored (stored_of_message (List.mem_append_right _ hm) hsch)
      | false =>
          intro hun hrest hno
          have hready : s.state = .ready := by
            by_contra hne
            exact hw.state_ne_none hr ((hw.sync r (List.mem_of_getElem? hr)).not_calm hsy)
              (state_none hrest hne)
          refine hi.setRun hr rfl rfl rfl rfl rfl hst rfl (drives_of_pc rfl fun ho => ?_) hun hrest
            hno
          have hkill := ho.kill hsy
          refine owing_body rfl rfl hkill ((ho.rest (Run.rest_body hsy hpc)).step hs ?_ ?_ ?_)
          · by_contra hne
            rw [hk (Bool.not_eq_false _ ▸ hne)] at hkill
            cases hkill
          · by_contra hne
            exact hu (Bool.not_eq_false _ ▸ hne) hready
          · by_contra hne
            obtain ⟨err, hx⟩ := ht (Bool.not_eq_false _ ▸ hne)
            exact hc err hx
  | finish i r sy hr hsy hpc =>
      refine hi.setRun hr rfl rfl rfl rfl rfl id rfl (drives_of_pc rfl fun ho => ?_)
      exact (not_owes_ret (ho.rest (Run.rest_body hsy hpc))).elim
  | _ => first | cases hl; done | exact hi

theorem Step.awake (h : Step cfg s l s') (hretry : 0 ≤ cfg.provider.retry)
    (hc : wakeClear cfg s l) (hw : WF s) (hm : MutexOk s) (hi : Awake cfg s) : Awake cfg s' := by
  cases hl : l.party with
  | handler => exact h.awake_handler hl hc hi
  | schedule => exact h.awake_schedule hl hc hw hm hi
  | halt => exact h.awake_halt hl hi
  | run => exact h.awake_run hl hretry hc hw hi
  | sync => exact h.awake_sync hl hretry hc hw hi

structure WakeInv (cfg : Config) (s : State) : Prop where
  wf : WF s
  mutex : MutexOk s
  awake : Awake cfg s

theorem wakeInv_init : WakeInv cfg .init where
  wf := wf_init
  mutex := fun h => by cases h
  awake := fun h => by cases h

theorem Step.wakeInv (h : Step cfg s l s') (hretry : 0 ≤ cfg.provider.retry)
    (hc : wakeClear cfg s l) (hi : WakeInv cfg s) : WakeInv cfg s' where
  wf := h.wf hi.wf
  mutex := h.mutexOk hi.mutex
  awake := h.awake hretry hc hi.wf hi.mutex hi.awake

theorem SchedPc.unset_of_booting {pc : SchedPc} (h : pc.booting = false) : pc.unset = false := by
  cases pc with
  | lock | fetch | setup st => cases h
  | _ => rfl

/-- **No lost wakeup.**  With a configured retry that is not negative, in every run whose steps
meet `wakeClear` every state reached after the start-up has a trigger for the next sync run. -/
theorem run_wakes {ls : List Label} (hretry : 0 ≤ cfg.provider.retry)
    (hc : Lts.Along (step cfg) (wakeClear cfg) .init ls)
    (hr : Lts.run (step cfg) .init ls = some s) : Wakes s := by
  have hi : WakeInv cfg s :=
    Lts.run_invariant (fun _ _ _ hi hc h => (step_cases h).wakeInv hretry hc hi) wakeInv_init hc hr
  intro hboot hrest hno _
  have hstop : ¬ OnWay (· == .stop) s := by
    intro h
    refine hno (h.mono fun a ha => ?_)
    obtain rfl := beq_iff_eq.mp ha
    rfl
  exact (hi.awake (SchedPc.unset_of_booting hboot) hrest hstop).hasTrigger

/-- A step that meets `wakeClear` whatever the sync runs owe. -/
def undisturbed (s : State) : Label → Bool
  | .handler => !s.handler.any fun pc => match pc with
      | .remove c => c.cmd == .ping || c.cmd == .update
      | _ => false
  | .sync _ (.op (.done (.timeout (some _)))) => false
  | .run i => !s.runs[i]?.any fun r => r.pc == .waitGot .start
  | .sched _ => s.sched != .flush
  | _ => true

theorem wakeClear_of_undisturbed (s : State) (l : Label) (h : undisturbed s l = true) :
    wakeClear cfg s l := by
  cases l with
  | handler =>
      intro c hh hcmd
      unfold undisturbed at h
      rcases hcmd with hcmd | hcmd <;> simp [hh, hcmd] at h
  | sync i x =>
      cases x with
      | op x =>
          intro err hx
          subst hx
          cases h
      | acquire | bypass | kill | finish => trivial
  | run i =>
      intro r hr hp
      unfold undisturbed at h
      simp [hr, hp] at h
  | sched now =>
      intro hs
      unfold undisturbed at h
      simp [hs] at h
  | command _ | fetched _ | message | tick _ | exited | halt | done _ | release => trivial

theorem run_wakes_on_success :
    ∃ s, Lts.run (step plainConfig) .init
        (bootNew ++ popAndLaunch ++ startProvider ++ succeed ++ handleThree) = some s ∧
      s.state = .ready ∧ Wakes s := by
  have heval : (Lts.run (step plainConfig) .init
      (bootNew ++ popAndLaunch ++ startProvider ++ succeed ++ handleThree)).map State.state =
      some .ready := by rfl
  have hcheck : Lts.check (step plainConfig) undisturbed .init
      (bootNew ++ popAndLaunch ++ startProvider ++ succeed ++ handleThree) = true := by rfl
  obtain ⟨s, hs, hst⟩ := Option.map_eq_some_iff.mp heval
  exact ⟨s, hs, hst, run_wakes (by decide)
    ((Lts.along_of_check hcheck).mono wakeClear_of_undisturbed) hs⟩

/-- The sync run times out, `Terminate` fails, and the run returns without a final message; the
invocation goes idle and the loop handles the two messages that were sent. -/
def terminateFails : List Label :=
  [.sync 0 (.op (.done (.timeout (some "no such process")))), .sync 0 .finish, .done 0, .release]

/-- After a timeout with a failing `Terminate` the job is `ready`, every goroutine waits for
another one, and nothing will ever start the next sync run. -/
theorem terminate_error_loses_wakeup :
    ∃ s, Lts.run (step plainConfig) .init
        (bootNew ++ popAndLaunch ++ startProvider ++ terminateFails ++ handleMessage ++
          handleMessage) = some s ∧ s.state = .ready ∧ ¬ Wakes s := by
  have heval : (Lts.run (step plainConfig) .init
      (bootNew ++ popAndLaunch ++ startProvider ++ terminateFails ++ handleMessage ++
        handleMessage)).map (fun s => (s.sched, s.state, s.ctrlChan, s.handler, s.halt,
          stored s, s.runs.map fun r => (r.pc, r.sync.isSome))) =
      some (.loop, .ready, none, none, .idle, false, [(.idle, false)]) := by rfl
  obtain ⟨s, hs, heval⟩ := Option.map_eq_some_iff.mp heval
  simp only [Prod.mk.injEq] at heval
  obtain ⟨hsched, hst, hctrl, hhandler, hhalt, hstored, hruns⟩ := heval
  have hidle : ∀ r ∈ s.runs, r.pc = .idle ∧ r.sync = none := by
    intro r hr
    have hmem := List.mem_map_of_mem (f := fun r : Run => (r.pc, r.sync.isSome)) hr
    rw [hruns, List.mem_singleton] at hmem
    simpa using hmem
  have hway : ∀ p, ¬ OnWay p s := by
    rintro p (h | ⟨r, hr, h⟩ | h)
    · rw [hctrl] at h
      cases h
    · rw [Run.hand, (hidle r hr).1] at h
      cases h
    · rw [hhandler] at h
      cases h
  refine ⟨s, hs, hst, fun hwake => ?_⟩
  rcases hwake (by rw [hsched]; rfl) (by rw [hst]; rfl) (hway _) (by simp [hhalt]) with
    h | h | ⟨r, hr, h⟩
  · rw [hstored] at h
    cases h
  · exact hway _ h
  · rw [Run.inProgress, (hidle r hr).1, Run.unfinished, (hidle r hr).2] at h
    cases h

end KubeSync.Worker
