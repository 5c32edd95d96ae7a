import KubeSync.Lts
import KubeSync.Pool
import KubeSync.WorkerSteps

/-! # Invariants of every run of the worker

`WF` collects what holds in every reachable state of the worker, whatever commands arrive and
however the goroutines interleave.

* `lock`: the handler, `runSchedule` and `Halt` are not inside `w.L` at the same time;
* `sendable`: `jobDisable` and `jobPing` are never sent;
* `sync`: an invocation of `Run` has a sync goroutine exactly between `launch` and `jobDone`, and
  closes `kill` between `killing` and `joining`;
* `fresh`: before the start-up has spawned `Run` nothing else has happened;
* `idle`: while the job state is `none` no sync run has been started;
* `halt`: no trace of `jobHalt` and no closed `exit` before `Halt` is called. -/

namespace KubeSync.Worker

variable {cfg : Config} {s s' : State} {l : Label}

/-! ### Observations -/

/-- The actions that some part of the worker sends to `ctrlChan`. -/
def CtrlAction.sendable : CtrlAction → Bool
  | start | stop | restart | halt | forceStart => true
  | disable | ping => false

/-- The action a handler is going to send. -/
def HandlerPc.carries : HandlerPc → Option CtrlAction
  | remove c =>
      match afterRemove c with
      | guard a => some a
      | check => some .stop
      | _ => none
  | guard a | spawn a | send a => some a
  | check => some .stop
  | reply _ => none

/-- The action an invocation of `Run` is executing. -/
def Run.action (r : Run) : Option CtrlAction :=
  match r.pc with
  | .waitGot a | .killing a | .joining a | .idleGot a => some a
  | _ => none

/-- The message `runSchedule` is handling. -/
def SchedPc.handling : SchedPc → Option JobMessage
  | check m | check2 m | update m | addJob m => some m
  | _ => none

/-- Before `go w.job.Run(..)` of the start-up. -/
def SchedPc.fresh : SchedPc → Bool
  | lock | fetch | setup _ | spawn _ => true
  | _ => false

/-- Before `SetState` of the start-up. -/
def SchedPc.unset : SchedPc → Bool
  | lock | fetch | setup _ => true
  | _ => false

/-- Behind `<-w.exit`. -/
def SchedPc.exiting : SchedPc → Bool
  | exitLock | flush | flushUpdate _ | returned => true
  | _ => false

/-! ### The parts of the invariant -/

def Exclusive (s : State) : Prop :=
  s.handler.isSome.toNat + s.sched.holdsL.toNat + s.halt.holdsL.toNat ≤ 1

def Sendable (s : State) : Prop :=
  (∀ a, s.ctrlChan = some a → a.sendable = true) ∧
    (∀ pc, s.handler = some pc → ∀ a, pc.carries = some a → a.sendable = true ∧ a ≠ .halt) ∧
    ∀ r ∈ s.runs, ∀ a, r.action = some a → a.sendable = true

/-- The sync goroutine that belongs to a counter of `Run`. -/
def Run.SyncOk (r : Run) : Prop :=
  match r.pc with
  | .wait | .waitGot _ | .killing _ => ∃ sy, r.sync = some sy ∧ sy.kill = false
  | .joining _ => ∃ sy, r.sync = some sy ∧ sy.kill = true
  | _ => r.sync = none

def SyncsOk (s : State) : Prop := ∀ r ∈ s.runs, r.SyncOk

def Fresh (s : State) : Prop :=
  (s.sched.fresh = true → s.runs = [] ∧ s.managerChan = [] ∧ s.schedule.sched = false) ∧
    (s.sched.unset = true → s.state = .none ∧ ∀ a, s.handler ≠ some (.spawn a))

/-- Outside the part of `Run` that has to do with a sync run. -/
def RunPc.calm : RunPc → Bool
  | spawned | top | idle | idleGot _ | ret | gone => true
  | _ => false

def Idle (s : State) : Prop :=
  s.state = .none →
    s.managerChan = [] ∧ s.sched.handling = none ∧ ∀ r ∈ s.runs, r.pc.calm = true

def HaltOk (s : State) : Prop :=
  s.halt = .idle →
    s.ctrlChan ≠ some .halt ∧ (∀ r ∈ s.runs, r.action ≠ some .halt) ∧ s.state ≠ .halting ∧
      s.exit = false ∧ s.sched.exiting = false

/-! ### Each part is kept by every step -/

theorem locked_eq_false : s.locked = false ↔
    s.handler = none ∧ s.sched.holdsL = false ∧ s.halt.holdsL = false := by
  unfold State.locked
  rw [Bool.or_eq_false_iff, Bool.or_eq_false_iff, Option.isSome_eq_false_iff,
    Option.isNone_iff_eq_none, and_assoc]

theorem Exclusive.of_handler {pc : HandlerPc} (hi : Exclusive s) (h : s.handler = some pc) :
    s.sched.holdsL = false ∧ s.halt.holdsL = false := by
  unfold Exclusive at hi
  rw [h] at hi
  cases h₁ : s.sched.holdsL <;> cases h₂ : s.halt.holdsL <;> simp [h₁, h₂] at hi ⊢

theorem holdsL_startPc (cfg : Config) (st : JobStatus) : (startPc cfg st).holdsL = true := by
  unfold startPc
  split <;> rfl

theorem holdsL_afterSpawn (t : Option ℤ) : (afterSpawn t).holdsL = true := by
  cases t <;> rfl

theorem Step.exclusive (h : Step cfg s l s') (hi : Exclusive s) : Exclusive s' := by
  unfold Exclusive at hi ⊢
  cases h with
  | badCommand hl =>
      obtain ⟨h₁, h₂, h₃⟩ := locked_eq_false.mp hl
      simp [h₂, h₃]
  | command c hl =>
      obtain ⟨h₁, h₂, h₃⟩ := locked_eq_false.mp hl
      simp [h₂, h₃]
  | schedLock now hs hl | exitLock now hs hl =>
      obtain ⟨h₁, h₂, h₃⟩ := locked_eq_false.mp hl
      simp [h₁, h₃, SchedPc.holdsL]
  | halt hh hl =>
      obtain ⟨h₁, h₂, h₃⟩ := locked_eq_false.mp hl
      simp [h₁, h₂, HaltPc.holdsL]
  | remove _ hh _ | guardSpawn _ hh _ | guardSend _ hh _ | spawn _ hh | checkSend hh _
  | checkSkip hh _ | send _ hh _ => simpa [hh] using hi
  | reply code hh =>
      rw [hh] at hi
      exact Nat.le_trans (by simp) hi
  | setup now st hs =>
      rw [hs] at hi
      dsimp only
      rw [holdsL_startPc]
      exact hi
  | schedSpawn now t hs =>
      rw [hs] at hi
      dsimp only
      rw [holdsL_afterSpawn]
      exact hi
  | fetched st hs => simpa [hs, SchedPc.holdsL] using hi
  | add now t hs _ _ | addBlocked now t hs _ => simpa [hs, SchedPc.holdsL] using hi
  | unlock now hs | flushEnd now hs _ =>
      rw [hs] at hi
      exact Nat.le_trans (by simp [SchedPc.holdsL]) hi
  | haltCheck hh _ | haltSkip hh _ | haltSend hh _ => simpa [hh, HaltPc.holdsL] using hi
  | haltWait hh _ =>
      rw [hh] at hi
      exact Nat.le_trans (by simp [HaltPc.holdsL]) hi
  | haltClose hh => simpa [hh, HaltPc.holdsL] using hi
  | getJob now hs | upload now _ hs | message _ _ hs _ | checkReady now _ hs _
  | checkOther now _ hs _ | check2Go now _ hs _ | check2Skip now _ hs _ | update now _ hs
  | addJob now _ hs _ _ _ | addJobBlocked now _ hs _ _ | addJobPlain now _ hs _
  | tickStart now hs _ _ _ | start now hs _ | exited hs _ | flushReport now _ _ hs _ _
  | flushDrop now _ _ hs _ _ | flushUpdate now _ hs => simpa [hs, SchedPc.holdsL] using hi
  | _ => exact hi

theorem carries_remove {c : ClientCmd} {a : CtrlAction}
    (h : (HandlerPc.remove c).carries = some a) : a.sendable = true ∧ a ≠ .halt := by
  obtain ⟨cmd, force⟩ := c
  cases cmd <;> cases force <;> cases h <;> decide

theorem carries_afterRemove (c : ClientCmd) :
    (afterRemove c).carries = (HandlerPc.remove c).carries := by
  obtain ⟨cmd, force⟩ := c
  cases cmd <;> cases force <;> rfl

theorem sendable_waitRun {r : Run} {a b : CtrlAction} (ha : a.sendable = true)
    (h : (waitRun r a).action = some b) : b.sendable = true := by
  cases a <;> cases h <;> first | rfl | exact ha

theorem sendable_afterKill {r : Run} {a b : CtrlAction} (ha : a.sendable = true)
    (hp : r.pc = afterKill a) (h : r.action = some b) : b.sendable = true := by
  unfold Run.action at h
  rw [hp] at h
  cases a <;> cases h <;> first | rfl | exact ha

theorem sendable_idleRun {r : Run} {a b : CtrlAction}
    (h : (idleRun r a).action = some b) : b.sendable = true := by
  cases a <;> cases h <;> rfl

theorem Step.sendable (h : Step cfg s l s') (hi : Sendable s) : Sendable s' := by
  obtain ⟨hc, hh, hr⟩ := hi
  have quiet : ∀ (i : ℕ) (r : Run), r.action = none →
      ∀ r' ∈ s.runs.set i r, ∀ a, r'.action = some a → a.sendable = true := by
    intro i r hn
    refine Pool.forall_set hr fun a ha => ?_
    rw [hn] at ha
    cases ha
  cases h with
  | badCommand _ | reply _ _ =>
      refine ⟨hc, fun pc hpc a ha => ?_, hr⟩
      cases hpc <;> cases ha
  | command c _ =>
      refine ⟨hc, fun pc hpc a ha => ?_, hr⟩
      cases hpc
      exact carries_remove ha
  | remove c h _ =>
      refine ⟨hc, fun pc hpc a ha => ?_, hr⟩
      cases hpc
      rw [carries_afterRemove] at ha
      exact hh _ h a ha
  | guardSpawn a h _ | guardSend a h _ =>
      refine ⟨hc, fun pc hpc b hb => ?_, hr⟩
      cases hpc
      exact hh _ h b hb
  | spawn a h =>
      refine ⟨hc, fun pc hpc b hb => ?_, Pool.forall_append hr fun b hb => ?_⟩
      · cases hpc
        exact hh _ h b hb
      · cases hb
  | checkSend h _ =>
      refine ⟨hc, fun pc hpc b hb => ?_, hr⟩
      cases hpc
      exact hh _ h b hb
  | checkSkip h _ =>
      refine ⟨hc, fun pc hpc b hb => ?_, hr⟩
      cases hpc
      cases hb
  | send a h _ =>
      refine ⟨fun b hb => ?_, fun pc hpc b hb => ?_, hr⟩
      · cases hb
        exact (hh _ h a rfl).1
      · cases hpc
        cases hb
  | schedSpawn now t h =>
      refine ⟨hc, hh, Pool.forall_append hr fun b hb => ?_⟩
      cases hb
  | start now h _ =>
      refine ⟨fun b hb => ?_, hh, hr⟩
      cases hb
      rfl
  | haltSend h _ =>
      refine ⟨fun b hb => ?_, hh, hr⟩
      cases hb
      rfl
  | prologue i r h _ | topReady i r h _ _ | topIdle i r h _ _ | launch i r h _ | wake i r h _
  | ret i r h _ _ | done i r h _ _ => exact ⟨hc, hh, quiet i _ rfl⟩
  | join i r a h _ _ =>
      refine ⟨hc, hh, quiet i _ ?_⟩
      cases a <;> rfl
  | waitRecv i r a h _ ha =>
      refine ⟨fun b hb => ?_, hh, Pool.forall_set hr fun b hb => ?_⟩
      · cases hb
      · cases hb
        exact hc a ha
  | idleRecv i r a h _ ha =>
      refine ⟨fun b hb => ?_, hh, Pool.forall_set hr fun b hb => ?_⟩
      · cases hb
      · cases hb
        exact hc a ha
  | waitAct i r a h hp =>
      have ha := hr r (List.mem_of_getElem? h) a (by rw [Run.action, hp])
      exact ⟨hc, hh, Pool.forall_set hr fun b hb => sendable_waitRun ha hb⟩
  | closeKill i r a h hp =>
      have ha := hr r (List.mem_of_getElem? h) a (by rw [Run.action, hp])
      exact ⟨hc, hh, Pool.forall_set hr fun b hb => sendable_afterKill ha rfl hb⟩
  | idleAct i r a h hp =>
      exact ⟨hc, hh, Pool.forall_set hr fun b hb => sendable_idleRun hb⟩
  | acquire i r sy h _ _ _ | bypass i r sy h _ _ _ | kill i r sy h _ _ _
  | op i r sy _ _ _ _ h _ _ _ | finish i r sy h _ _ =>
      exact ⟨hc, hh, Pool.forall_set hr (hr r (List.mem_of_getElem? h))⟩
  | _ => exact ⟨hc, hh, hr⟩

theorem sync_waitRun (r : Run) (a : CtrlAction) : (waitRun r a).sync = r.sync := by
  cases a <;> rfl

theorem sync_idleRun (r : Run) (a : CtrlAction) : (idleRun r a).sync = r.sync := by
  cases a <;> rfl

theorem syncOk_waitRun {r : Run} {a : CtrlAction}
    (h : ∃ sy, r.sync = some sy ∧ sy.kill = false) : (waitRun r a).SyncOk := by
  cases a <;> exact h

theorem syncOk_idleRun {r : Run} {a : CtrlAction} (h : r.sync = none) : (idleRun r a).SyncOk := by
  cases a <;> exact h

/-- A step of the sync goroutine itself keeps `kill` and stays with its invocation. -/
theorem Run.SyncOk.setSync {r : Run} {sy sy' : Sync} (h : r.SyncOk) (hs : r.sync = some sy)
    (hk : sy'.kill = sy.kill) : ({ r with sync := some sy' } : Run).SyncOk := by
  obtain ⟨pc, bypass, sync⟩ := r
  obtain rfl : sync = some sy := hs
  cases pc with
  | wait | waitGot a | killing a | joining a =>
      obtain ⟨sy₁, h₁, h₂⟩ := h
      cases h₁
      exact ⟨sy', rfl, hk.trans h₂⟩
  | spawned | top | launch | sleeping | idle | idleGot a | ret | gone => cases h

theorem Step.syncsOk (h : Step cfg s l s') (hs : Sendable s) (hi : SyncsOk s) :
    SyncsOk s' := by
  have at_pc : ∀ {i : ℕ} {r : Run} {pc : RunPc}, s.runs[i]? = some r → r.pc = pc →
      ({ r with pc := pc } : Run).SyncOk := by
    intro i r pc hr hp
    subst hp
    exact hi r (List.mem_of_getElem? hr)
  cases h with
  | spawn a _ => exact Pool.forall_append hi rfl
  | schedSpawn now t _ => exact Pool.forall_append hi rfl
  | prologue i r hr hp | topReady i r hr hp _ | topIdle i r hr hp _ | wake i r hr hp
  | idleRecv i r a hr hp _ | ret i r hr hp _ | waitRecv i r a hr hp _ =>
      have hok := at_pc hr hp
      exact Pool.forall_set hi hok
  | launch i r hr hp => exact Pool.forall_set hi ⟨{}, rfl, rfl⟩
  | waitAct i r a hr hp => exact Pool.forall_set hi (syncOk_waitRun (at_pc hr hp))
  | idleAct i r a hr hp => exact Pool.forall_set hi (syncOk_idleRun (at_pc hr hp))
  | closeKill i r a hr hp =>
      obtain ⟨sy, hsy, -⟩ := at_pc hr hp
      have ha := hs.2.2 r (List.mem_of_getElem? hr) a (by rw [Run.action, hp])
      refine Pool.forall_set hi ?_
      dsimp only at hsy
      rw [hsy]
      cases a with
      | ping => cases ha
      | start | stop | disable | restart | halt | forceStart => exact ⟨_, rfl, rfl⟩
  | join i r a hr hp _ =>
      refine Pool.forall_set hi ?_
      cases a <;> rfl
  | done i r hr hp _ => exact Pool.forall_set hi rfl
  | acquire i r sy hr hsy _ _ | kill i r sy hr hsy _ _ | op i r sy _ _ _ _ hr hsy _ _
  | finish i r sy hr hsy _ =>
      exact Pool.forall_set hi ((hi r (List.mem_of_getElem? hr)).setSync hsy rfl)
  | bypass i r sy hr hsy _ _ =>
      exact Pool.forall_set hi ((hi r (List.mem_of_getElem? hr)).setSync hsy rfl)
  | _ => exact hi

theorem not_fresh_setRun {i : ℕ} {r : Run} (hi : Fresh s) (hr : s.runs[i]? = some r) :
    s.sched.fresh = false ∧ s.sched.unset = false := by
  have hf : s.sched.fresh = false := by
    by_contra hf
    rw [(hi.1 (Bool.not_eq_false _ ▸ hf)).1] at hr
    cases hr
  refine ⟨hf, ?_⟩
  cases hsched : s.sched <;> rw [hsched] at hf <;> first | rfl | cases hf

/-- A step that leaves the scheduler outside its start-up keeps `Fresh`. -/
theorem fresh_of_booted (h₁ : s'.sched.fresh = false) (h₂ : s'.sched.unset = false) :
    Fresh s' :=
  ⟨fun h => (Bool.false_ne_true (h₁.symm.trans h)).elim,
    fun h => (Bool.false_ne_true (h₂.symm.trans h)).elim⟩

theorem Step.fresh (h : Step cfg s l s') (hx : Exclusive s) (hi : Fresh s) : Fresh s' := by
  have booted : ∀ {i : ℕ} {r : Run}, s.runs[i]? = some r → ∀ t : State, t.sched = s.sched →
      Fresh t := by
    intro i r hr t ht
    obtain ⟨h₁, h₂⟩ := not_fresh_setRun hi hr
    exact fresh_of_booted (ht ▸ h₁) (ht ▸ h₂)
  cases h with
  | badCommand _ | reply _ _ | checkSend _ _ | checkSkip _ _ | guardSend _ _ _ | send _ _ _ =>
      exact ⟨hi.1, fun hu => ⟨(hi.2 hu).1, fun a ha => by cases ha⟩⟩
  | command c _ => exact ⟨hi.1, fun hu => ⟨(hi.2 hu).1, fun a ha => by cases ha⟩⟩
  | remove c hh _ =>
      refine ⟨fun hf => ⟨(hi.1 hf).1, (hi.1 hf).2.1, rfl⟩, fun hu => ⟨(hi.2 hu).1, fun a ha => ?_⟩⟩
      obtain ⟨cmd, force⟩ := c
      cases cmd <;> cases ha
  | guardSpawn a hh hst =>
      refine ⟨hi.1, fun hu => ?_⟩
      rw [(hi.2 hu).1] at hst
      cases hst
  | spawn a hh =>
      have hl := (hx.of_handler hh).1
      have hu : s.sched.unset = false := by
        by_contra hu
        exact (hi.2 (Bool.not_eq_false _ ▸ hu)).2 a hh
      refine fresh_of_booted ?_ hu
      dsimp only
      cases hsched : s.sched <;> rw [hsched] at hl hu <;>
        first | cases hl; done | cases hu; done | rfl
  | schedLock now hs _ | fetched st hs =>
      have h₁ := hi.1 (by rw [hs]; rfl)
      have h₂ := hi.2 (by rw [hs]; rfl)
      exact ⟨fun _ => h₁, fun _ => h₂⟩
  | setup now st hs =>
      have h₁ := hi.1 (by rw [hs]; rfl)
      refine ⟨fun _ => h₁, fun hu => ?_⟩
      dsimp only at hu
      unfold startPc at hu
      split at hu <;> cases hu
  | schedSpawn now t hs => cases t <;> exact fresh_of_booted rfl rfl
  | add _ _ _ _ _ | addBlocked _ _ _ _ | unlock _ _ | getJob _ _ | upload _ _ _
  | message _ _ _ _ | checkReady _ _ _ _ | checkOther _ _ _ _ | check2Go _ _ _ _
  | check2Skip _ _ _ _ | update _ _ _ | addJob _ _ _ _ _ _ | addJobBlocked _ _ _ _ _
  | addJobPlain _ _ _ _ | tickStart _ _ _ _ _ | start _ _ _ | exited _ _ | exitLock _ _ _
  | flushReport _ _ _ _ _ _ | flushDrop _ _ _ _ _ _ | flushEnd _ _ _ | flushUpdate _ _ _ =>
      exact fresh_of_booted rfl rfl
  | prologue i r hr _ | topReady i r hr _ _ | topIdle i r hr _ _ | launch i r hr _
  | waitRecv i r _ hr _ _ | waitAct i r _ hr _ | closeKill i r _ hr _ | join i r _ hr _ _
  | wake i r hr _ | idleRecv i r _ hr _ _ | idleAct i r _ hr _ | ret i r hr _ _
  | done i r hr _ _ | acquire i r _ hr _ _ _ | bypass i r _ hr _ _ _ | kill i r _ hr _ _ _
  | op i r _ _ _ _ _ hr _ _ _ | finish i r _ hr _ _ => exact booted hr _ rfl
  | _ => exact hi

theorem Run.SyncOk.not_calm {r : Run} {sy : Sync} (h : r.SyncOk) (hs : r.sync = some sy) :
    r.pc.calm = false := by
  obtain ⟨pc, bypass, sync⟩ := r
  obtain rfl : sync = some sy := hs
  cases pc with
  | wait | waitGot a | killing a | joining a | launch | sleeping => rfl
  | spawned | top | idle | idleGot a | ret | gone => cases h

theorem Step.idle (h : Step cfg s l s') (hf : Fresh s) (hs : SyncsOk s) (hi : Idle s) :
    Idle s' := by
  have busy : ∀ {i : ℕ} {r : Run}, s.runs[i]? = some r → r.pc.calm = false →
      s.state = .none → False := by
    intro i r hr hp hst
    rw [(hi hst).2.2 r (List.mem_of_getElem? hr)] at hp
    cases hp
  have handles : ∀ {m : JobMessage}, s.sched.handling = some m → s.state = .none → False := by
    intro m hm hst
    rw [(hi hst).2.1] at hm
    cases hm
  cases h with
  | spawn a _ =>
      intro hst
      obtain ⟨h₁, h₂, h₃⟩ := hi hst
      exact ⟨h₁, h₂, Pool.forall_append h₃ rfl⟩
  | schedSpawn now t _ =>
      intro hst
      obtain ⟨h₁, h₂, h₃⟩ := hi hst
      exact ⟨h₁, by cases t <;> rfl, Pool.forall_append h₃ rfl⟩
  | setup now st h =>
      intro _
      obtain ⟨h₁, h₂, -⟩ := hf.1 (by rw [h]; rfl)
      refine ⟨h₂, ?_, ?_⟩
      · dsimp only
        unfold startPc
        split <;> rfl
      · dsimp only
        rw [h₁]
        exact fun _ hr => absurd hr (List.not_mem_nil)
  | message m ms h hm =>
      intro hst
      have := (hi hst).1
      rw [hm] at this
      cases this
  | flushReport _ m ms h hm _ | flushDrop _ m ms h hm _ =>
      intro hst
      have := (hi hst).1
      rw [hm] at this
      cases this
  | checkReady _ _ h _ | checkOther _ _ h _ | check2Go _ _ h _ | check2Skip _ _ h _
  | update _ _ h | addJob _ _ h _ _ _ | addJobBlocked _ _ h _ _ | addJobPlain _ _ h _ =>
      intro hst
      exact (handles (by rw [h]; rfl) hst).elim
  | schedLock _ _ _ | fetched _ _ | add _ _ _ _ _ | addBlocked _ _ _ _ | unlock _ _
  | getJob _ _ | upload _ _ _ | tickStart _ _ _ _ _ | start _ _ _ | exited _ _
  | exitLock _ _ _ | flushEnd _ _ _ | flushUpdate _ _ _ =>
      intro hst
      obtain ⟨h₁, -, h₃⟩ := hi hst
      exact ⟨h₁, rfl, h₃⟩
  | prologue i r hr _ | topIdle i r hr _ _ | idleRecv i r _ hr _ _ | ret i r hr _ _ =>
      intro hst
      obtain ⟨h₁, h₂, h₃⟩ := hi hst
      exact ⟨h₁, h₂, Pool.forall_set h₃ rfl⟩
  | topReady i r hr hp hrd =>
      intro hst
      rw [show s.state = .none from hst] at hrd
      cases hrd
  | waitAct i r a hr hp =>
      intro hst
      cases a with
      | ping | forceStart => exact (busy hr (by rw [hp]; rfl) hst).elim
      | start | stop | disable | restart | halt => cases hst
  | idleAct i r a hr hp =>
      intro hst
      cases a with
      | start | stop | disable => cases hst
      | restart | ping | halt | forceStart =>
          obtain ⟨h₁, h₂, h₃⟩ := hi hst
          exact ⟨h₁, h₂, Pool.forall_set h₃ rfl⟩
  | launch i r hr hp | waitRecv i r _ hr hp _ | closeKill i r _ hr hp | join i r _ hr hp _
  | wake i r hr hp | done i r hr hp _ =>
      intro hst
      exact (busy hr (by rw [hp]; rfl) hst).elim
  | acquire i r sy hr hsy _ _ | bypass i r sy hr hsy _ _ | kill i r sy hr hsy _ _
  | op i r sy _ _ _ _ hr hsy _ _ | finish i r sy hr hsy _ =>
      intro hst
      exact (busy hr ((hs r (List.mem_of_getElem? hr)).not_calm hsy) hst).elim
  | _ => exact hi

theorem exiting_startPc (cfg : Config) (st : JobStatus) : (startPc cfg st).exiting = false := by
  unfold startPc
  split <;> rfl

theorem halting_waitState {old : JobState} {a : CtrlAction} (ho : old ≠ .halting)
    (ha : a ≠ .halt) : waitState old a ≠ .halting := by
  cases a <;> first | exact ho | exact (ha rfl).elim | (intro h; cases h)

theorem halting_idleState {old : JobState} {a : CtrlAction} (ho : old ≠ .halting) :
    idleState old a ≠ .halting := by
  cases a <;> first | exact ho | (intro h; cases h)

theorem halt_waitRun {r : Run} {a : CtrlAction} (ha : a ≠ .halt) :
    (waitRun r a).action ≠ some .halt := by
  cases a <;> first | exact (ha rfl).elim | (intro h; cases h)

theorem halt_idleRun {r : Run} {a : CtrlAction} : (idleRun r a).action ≠ some .halt := by
  cases a <;> (intro h; cases h)

theorem halt_afterKill {r : Run} {a : CtrlAction} (ha : a ≠ .halt) (hp : r.pc = afterKill a) :
    r.action ≠ some .halt := by
  unfold Run.action
  rw [hp]
  cases a <;> first | exact (ha rfl).elim | (intro h; cases h)

theorem Step.haltOk (h : Step cfg s l s') (hs : Sendable s) (hi : HaltOk s) : HaltOk s' := by
  have moved : s'.halt = .idle → s.halt = .idle := by
    intro hh
    cases h <;> first | exact hh | cases hh
  intro hh
  obtain ⟨hc, hr, hst, he, hsch⟩ := hi (moved hh)
  have act : ∀ {i : ℕ} {r : Run} {a : CtrlAction}, s.runs[i]? = some r → r.action = some a →
      a ≠ .halt := by
    rintro i r a hri ha rfl
    exact hr r (List.mem_of_getElem? hri) ha
  cases h with
  | spawn a _ => exact ⟨hc, Pool.forall_append hr nofun, hst, he, hsch⟩
  | schedSpawn now t _ =>
      exact ⟨hc, Pool.forall_append hr nofun, hst, he, by cases t <;> rfl⟩
  | send a h _ =>
      refine ⟨fun ha => ?_, hr, hst, he, hsch⟩
      cases ha
      exact (hs.2.1 _ h _ rfl).2 rfl
  | start now h _ => exact ⟨nofun, hr, hst, he, rfl⟩
  | setup now st h =>
      refine ⟨hc, hr, ?_, he, exiting_startPc cfg st⟩
      dsimp only
      unfold startState
      split <;> exact nofun
  | exited h hx =>
      rw [he] at hx
      cases hx
  | exitLock _ h _ | flushReport _ _ _ h _ _ | flushDrop _ _ _ h _ _ | flushEnd _ h _
  | flushUpdate _ _ h =>
      rw [h] at hsch
      cases hsch
  | schedLock _ _ _ | fetched _ _ | add _ _ _ _ _ | addBlocked _ _ _ _ | unlock _ _
  | getJob _ _ | upload _ _ _ | message _ _ _ _ | checkReady _ _ _ _ | checkOther _ _ _ _
  | check2Go _ _ _ _ | check2Skip _ _ _ _ | update _ _ _ | addJob _ _ _ _ _ _
  | addJobBlocked _ _ _ _ _ | addJobPlain _ _ _ _ | tickStart _ _ _ _ _ =>
      exact ⟨hc, hr, hst, he, rfl⟩
  | haltClose h =>
      cases hh
  | haltSend h _ =>
      cases hh
  | prologue i r _ _ | topReady i r _ _ _ | topIdle i r _ _ _ | launch i r _ _ | wake i r _ _
  | ret i r _ _ _ | done i r _ _ _ => exact ⟨hc, Pool.forall_set hr nofun, hst, he, hsch⟩
  | join i r a _ _ _ =>
      refine ⟨hc, Pool.forall_set hr ?_, hst, he, hsch⟩
      cases a <;> exact nofun
  | waitRecv i r a hri _ ha | idleRecv i r a hri _ ha =>
      refine ⟨nofun, Pool.forall_set hr fun hb => ?_, hst, he, hsch⟩
      cases hb
      exact hc ha
  | waitAct i r a hri hp =>
      have ha := act hri (by rw [Run.action, hp])
      exact ⟨hc, Pool.forall_set hr (halt_waitRun ha), halting_waitState hst ha, he, hsch⟩
  | closeKill i r a hri hp =>
      have ha := act hri (by rw [Run.action, hp])
      exact ⟨hc, Pool.forall_set hr (halt_afterKill ha rfl), hst, he, hsch⟩
  | idleAct i r a hri hp =>
      exact ⟨hc, Pool.forall_set hr halt_idleRun, halting_idleState hst, he, hsch⟩
  | acquire i r sy hri _ _ _ | bypass i r sy hri _ _ _ | kill i r sy hri _ _ _
  | op i r sy _ _ _ _ hri _ _ _ | finish i r sy hri _ _ =>
      exact ⟨hc, Pool.forall_set hr (hr r (List.mem_of_getElem? hri)), hst, he, hsch⟩
  | _ => exact ⟨hc, hr, hst, he, hsch⟩

/-! ### The invariant -/

structure WF (s : State) : Prop where
  lock : Exclusive s
  sendable : Sendable s
  sync : SyncsOk s
  fresh : Fresh s
  idle : Idle s
  halt : HaltOk s

theorem wf_init : WF .init where
  lock := Nat.zero_le 1
  sendable := by
    refine ⟨?_, ?_, ?_⟩ <;> (intro _ h; cases h)
  sync := by
    intro _ h
    cases h
  fresh := by
    refine ⟨fun _ => ⟨rfl, rfl, rfl⟩, fun _ => ⟨rfl, ?_⟩⟩
    intro _ h
    cases h
  idle := by
    refine fun _ => ⟨rfl, rfl, ?_⟩
    intro _ h
    cases h
  halt := by
    refine fun _ => ⟨?_, fun _ h => ?_, ?_, rfl, rfl⟩
    · intro h; cases h
    · cases h
    · intro h; cases h

theorem Step.wf (h : Step cfg s l s') (hi : WF s) : WF s' where
  lock := h.exclusive hi.lock
  sendable := h.sendable hi.sendable
  sync := h.syncsOk hi.sendable hi.sync
  fresh := h.fresh hi.lock hi.fresh
  idle := h.idle hi.fresh hi.sync hi.idle
  halt := h.haltOk hi.sendable hi.halt

/-- Every reachable state is well formed. -/
theorem run_wf {ls : List Label} (hr : Lts.run (step cfg) .init ls = some s) : WF s :=
  Lts.run_invariant' (fun _ _ _ hi h => (step_cases h).wf hi) wf_init hr

end KubeSync.Worker
