import KubeSync.RunProtocol
import KubeSync.WorkerInvariant

/-! # How many invocations of `Run` are live

The handler of a start or restart command spawns `mirrorJob.Run` when it reads the job state
`disabled`.  The state leaves `disabled` only when the spawned invocation has executed the start
action, so a second command that is handled in between spawns a second invocation.

* `startPending`: a start or restart action waits in `ctrlChan` or in the hands of an
  invocation;
* `OneRun`: at most one invocation is live, at most one sync goroutine exists, and `m.disabled`
  is open whenever an invocation is about to close it;
* `run_oneRun`: the property holds in every state of every run in which no command reads
  `disabled` while a start is pending.  The invariant behind it (`SoloInv`) says that a live
  invocation in the state `disabled` always has its start action still ahead of it. -/

namespace KubeSync.Worker

variable {cfg : Config} {s s' : State} {l : Label}

def CtrlAction.starts : CtrlAction → Bool
  | start | restart | forceStart => true
  | stop | disable | ping | halt => false

/-- The action an invocation has received and not yet acted on. -/
def Run.hand (r : Run) : Option CtrlAction :=
  match r.pc with
  | .waitGot a | .idleGot a => some a
  | _ => none

def Run.holdsStart (r : Run) : Bool := r.hand.any CtrlAction.starts

def Run.live (r : Run) : Bool := r.pc != .gone

def startPending (s : State) : Bool :=
  s.ctrlChan.any CtrlAction.starts || s.runs.any Run.holdsStart

/-- The property of one reachable state. -/
structure OneRun (s : State) : Prop where
  runs : s.runs.countP Run.live ≤ 1
  syncs : s.runs.countP (fun r => r.sync.isSome) ≤ 1
  close : ∀ r ∈ s.runs, r.pc = .ret → s.disabled = .opened

/-- The condition on a step: a start or restart command that reads `disabled` finds no start or
restart action pending. -/
def guardClear (s : State) (l : Label) : Bool :=
  match l, s.handler with
  | .handler, some (.guard _) => !(s.state == .disabled && startPending s)
  | _, _ => true

/-! ### The invariant -/

def SoloLive (s : State) : Prop := Pool.Solo (fun r : Run => r.live = true) s.runs

/-- The handler is about to send a start or restart action. -/
def HandlerPc.sendsStart : HandlerPc → Bool
  | send a => a.starts
  | _ => false

/-- In the state `disabled` a live invocation still has its start action ahead of it. -/
def Awaited (s : State) : Prop :=
  s.state = .disabled → (∃ r ∈ s.runs, r.live = true) →
    startPending s = true ∨ s.handler.any HandlerPc.sendsStart = true

def SpawnOk (s : State) : Prop :=
  (∀ a, s.handler = some (.spawn a) → ∀ r ∈ s.runs, r.live = false) ∧
    ∀ t, s.sched = .spawn t → s.state ≠ .disabled

/-- The handler spawns `Run` only for start and restart actions. -/
def GuardStarts (s : State) : Prop :=
  ∀ a, s.handler = some (.guard a) ∨ s.handler = some (.spawn a) → a.starts = true

def DisabledOk (s : State) : Prop :=
  ∀ r ∈ s.runs, r.pc ≠ .spawned → r.live = true → s.disabled = .opened

structure SoloInv (s : State) : Prop where
  wf : WF s
  solo : SoloLive s
  awaited : Awaited s
  spawn : SpawnOk s
  guards : GuardStarts s
  disabled : DisabledOk s

/-! ### Each part is kept -/

theorem live_of_pc {r : Run} {pc : RunPc} (hp : r.pc = pc) (hg : pc ≠ .gone) : r.live = true := by
  unfold Run.live
  rw [hp]
  exact bne_iff_ne.mpr hg

theorem Run.SyncOk.live {r : Run} {sy : Sync} (h : r.SyncOk) (hs : r.sync = some sy) :
    r.live = true := by
  refine bne_iff_ne.mpr fun hp => ?_
  unfold Run.SyncOk at h
  rw [hp, hs] at h
  cases h

/-- A step of an invocation or of its sync goroutine is made by a live one. -/
theorem Step.soloLive (h : Step cfg s l s') (hf : Fresh s) (hsp : SpawnOk s) (hi : SoloLive s) :
    SoloLive s' := by
  cases h with
  | spawn a hh =>
      exact Pool.Solo.append fun r hr => by rw [hsp.1 a hh r hr]; exact Bool.false_ne_true
  | schedSpawn now t hs =>
      refine Pool.Solo.append fun r hr => ?_
      rw [(hf.1 (by rw [hs]; rfl)).1] at hr
      cases hr
  | prologue i r hr hp | topReady i r hr hp _ | topIdle i r hr hp _ | launch i r hr hp
  | waitRecv i r _ hr hp _ | waitAct i r _ hr hp | closeKill i r _ hr hp | join i r _ hr hp _
  | wake i r hr hp | idleRecv i r _ hr hp _ | idleAct i r _ hr hp | ret i r hr hp _
  | done i r hr hp _ => exact hi.set hr fun _ => live_of_pc hp nofun
  | acquire i r sy hr _ _ _ | bypass i r sy hr _ _ _ | kill i r sy hr _ _ _
  | op i r sy _ _ _ _ hr _ _ _ | finish i r sy hr _ _ => exact hi.set hr id
  | _ => exact hi

/-- A replacement of an invocation with no start in its hands loses no pending start. -/
theorem startPending_set {i : ℕ} {r r' : Run} (hr : s.runs[i]? = some r)
    (h : r.holdsStart = true → r'.holdsStart = true) (hp : s.runs.any Run.holdsStart = true) :
    (s.runs.set i r').any Run.holdsStart = true := by
  rw [List.any_eq_true] at hp ⊢
  exact Pool.exists_set hr h hp

theorem any_holdsStart_set {i : ℕ} {r r' : Run} (hr : s.runs[i]? = some r)
    (h : r'.holdsStart = true) : (s.runs.set i r').any Run.holdsStart = true := by
  rw [List.any_eq_true]
  exact Pool.exists_set_new hr h

theorem holdsStart_at {r : Run} {pc : RunPc} (hp : r.pc = pc) :
    r.holdsStart = ({ r with pc := pc } : Run).holdsStart := by
  subst hp
  rfl

theorem Step.guardStarts (h : Step cfg s l s') (hi : GuardStarts s) : GuardStarts s' := by
  cases h with
  | badCommand _ | command _ _ | guardSend _ _ _ | spawn _ _ | checkSend _ _ | checkSkip _ _
  | send _ _ _ | reply _ _ =>
      intro a ha
      rcases ha with ha | ha <;> cases ha
  | remove c hh _ =>
      intro a ha
      obtain ⟨cmd, force⟩ := c
      cases cmd <;> cases force <;> rcases ha with ha | ha <;> cases ha <;> rfl
  | guardSpawn a hh _ =>
      intro b hb
      rcases hb with hb | hb <;> cases hb
      exact hi a (.inl hh)
  | _ => exact hi

theorem Awaited.no_live (ha : Awaited s) (hst : s.state = .disabled)
    (hp : startPending s = false) (hh : s.handler.any HandlerPc.sendsStart = false) :
    ∀ r ∈ s.runs, r.live = false := by
  intro r hr
  by_contra hl
  rcases ha hst ⟨r, hr, Bool.not_eq_false _ ▸ hl⟩ with h | h
  · rw [hp] at h
    cases h
  · rw [hh] at h
    cases h

theorem Step.spawnOk (h : Step cfg s l s') (hc : guardClear s l = true) (hw : WF s)
    (ha : Awaited s) (hi : SpawnOk s) : SpawnOk s' := by
  have ran : ∀ {i : ℕ} {r r' : Run} (st : JobState), s.runs[i]? = some r → r.live = true →
      (∀ a, s.handler = some (.spawn a) → ∀ x ∈ s.runs.set i r', x.live = false) ∧
        ∀ t, s.sched = .spawn t → st ≠ .disabled := by
    intro i r r' st hr hl
    constructor
    · intro a hh
      rw [hi.1 a hh r (List.mem_of_getElem? hr)] at hl
      cases hl
    · intro t ht
      rw [(hw.fresh.1 (by rw [ht]; rfl)).1] at hr
      cases hr
  cases h with
  | badCommand _ | command _ _ | guardSend _ _ _ | checkSend _ _ | checkSkip _ _
  | send _ _ _ | reply _ _ => exact ⟨fun _ hh => (by cases hh), hi.2⟩
  | remove c hh _ =>
      refine ⟨fun a ha => ?_, hi.2⟩
      obtain ⟨cmd, force⟩ := c
      cases cmd <;> cases ha
  | spawn a hh => exact ⟨fun _ hh => (by cases hh), hi.2⟩
  | guardSpawn a hh hst =>
      refine ⟨fun _ _ => ha.no_live hst ?_ ?_, hi.2⟩
      · unfold guardClear at hc
        rw [hh, hst] at hc
        simpa using hc
      · rw [hh]
        rfl
  | setup now st hs =>
      refine ⟨fun a hh => ?_, fun t ht => ?_⟩
      · exact ((hw.fresh.2 (by rw [hs]; rfl)).2 a hh).elim
      · dsimp only at ht ⊢
        unfold startPc at ht
        unfold startState
        split <;> simp_all
  | schedSpawn now t hs =>
      refine ⟨fun a hh => ?_, fun t' ht => ?_⟩
      · have hl := (hw.lock.of_handler hh).1
        rw [hs] at hl
        cases hl
      · cases t <;> cases ht
  | schedLock _ _ _ | fetched _ _ | add _ _ _ _ _ | addBlocked _ _ _ _ | unlock _ _
  | getJob _ _ | upload _ _ _ | message _ _ _ _ | checkReady _ _ _ _ | checkOther _ _ _ _
  | check2Go _ _ _ _ | check2Skip _ _ _ _ | update _ _ _ | addJob _ _ _ _ _ _
  | addJobBlocked _ _ _ _ _ | addJobPlain _ _ _ _ | tickStart _ _ _ _ _ | start _ _ _
  | exited _ _ | exitLock _ _ _ | flushReport _ _ _ _ _ _ | flushDrop _ _ _ _ _ _
  | flushEnd _ _ _ | flushUpdate _ _ _ => exact ⟨hi.1, fun _ ht => (by cases ht)⟩
  | prologue i r hr hp | topReady i r hr hp _ | topIdle i r hr hp _ | launch i r hr hp
  | waitRecv i r _ hr hp _ | waitAct i r _ hr hp | closeKill i r _ hr hp | join i r _ hr hp _
  | wake i r hr hp | idleRecv i r _ hr hp _ | idleAct i r _ hr hp | ret i r hr hp _
  | done i r hr hp _ => exact ran _ hr (live_of_pc hp (by simp))
  | acquire i r sy hr hsy _ _ | bypass i r sy hr hsy _ _ | kill i r sy hr hsy _ _
  | op i r sy _ _ _ _ hr hsy _ _ | finish i r sy hr hsy _ =>
      exact ran _ hr ((hw.sync r (List.mem_of_getElem? hr)).live hsy)
  | _ => exact hi

theorem startPending_of_empty (h : s.ctrlChan = none) :
    startPending s = s.runs.any Run.holdsStart := by
  unfold startPending
  rw [h]
  rfl

theorem Awaited.pending (hi : Awaited s) {pc : HandlerPc} (hh : s.handler = some pc)
    (hn : pc.sendsStart = false) (hst : s.state = .disabled)
    (hl : ∃ r ∈ s.runs, r.live = true) : startPending s = true := by
  rcases hi hst hl with hp | hp
  · exact hp
  · rw [hh] at hp
    rw [show pc.sendsStart = true from hp] at hn
    cases hn

/-- A step of an invocation that keeps a start action in its hands. -/
theorem Awaited.ran (hi : Awaited s) {i : ℕ} {r : Run} (r' : Run) (hr : s.runs[i]? = some r)
    (hl : r.live = true) (hh : r.holdsStart = true → r'.holdsStart = true)
    (hst : s.state = .disabled) :
    (s.ctrlChan.any CtrlAction.starts || (s.runs.set i r').any Run.holdsStart) = true ∨
      s.handler.any HandlerPc.sendsStart = true := by
  rcases hi hst ⟨r, List.mem_of_getElem? hr, hl⟩ with hp | hp
  · rw [startPending, Bool.or_eq_true] at hp
    rw [Bool.or_eq_true]
    exact .inl (hp.imp id (startPending_set hr hh))
  · exact .inr hp

/-- A received start action moves from `ctrlChan` to the hands of the invocation. -/
theorem Awaited.recv (hi : Awaited s) {i : ℕ} {r : Run} {a : CtrlAction} (r' : Run)
    (hr : s.runs[i]? = some r) (hl : r.live = true) (ha : s.ctrlChan = some a)
    (hn : r.holdsStart = false) (hh : r'.hand = some a) (hst : s.state = .disabled) :
    (s.runs.set i r').any Run.holdsStart = true ∨
      s.handler.any HandlerPc.sendsStart = true := by
  have hkeep : r.holdsStart = true → r'.holdsStart = true := by
    intro h
    rw [hn] at h
    cases h
  rcases hi.ran r' hr hl hkeep hst with hp | hp
  · rw [Bool.or_eq_true, ha] at hp
    rcases hp with hp | hp
    · refine .inl (any_holdsStart_set hr ?_)
      rw [Run.holdsStart, hh]
      exact hp
    · exact .inl hp
  · exact .inr hp

theorem Step.awaited (h : Step cfg s l s') (hw : WF s) (hg : GuardStarts s) (hsp : SpawnOk s)
    (hi : Awaited s) : Awaited s' := by
  cases h with
  | badCommand hl | command _ hl =>
      intro hst hlive
      rcases hi hst hlive with hp | hp
      · exact .inl hp
      · rw [(locked_eq_false.mp hl).1] at hp
        cases hp
  | remove c hh _ => exact fun hst hl => .inl (hi.pending hh rfl hst hl)
  | guardSpawn _ hh _ | guardSend _ hh _ | checkSend hh _ | checkSkip hh _ | reply _ hh =>
      exact fun hst hl => .inl (hi.pending hh rfl hst hl)
  | spawn a hh => exact fun _ _ => .inr (hg a (.inr hh))
  | send a hh hc =>
      intro hst hl
      rcases hi hst hl with hp | hp
      · rw [startPending_of_empty hc] at hp
        refine .inl ?_
        unfold startPending
        rw [Bool.or_eq_true]
        exact .inr hp
      · rw [hh] at hp
        refine .inl ?_
        unfold startPending
        rw [Bool.or_eq_true]
        exact .inl hp
  | start now _ _ =>
      intro _ _
      exact .inl rfl
  | haltSend _ hc =>
      intro hst hl
      rcases hi hst hl with hp | hp
      · rw [startPending_of_empty hc] at hp
        exact .inl hp
      · exact .inr hp
  | setup now st hs =>
      intro _ hl
      obtain ⟨r, hr, -⟩ := hl
      have hruns := (hw.fresh.1 (by rw [hs]; rfl)).1
      dsimp only at hr
      rw [hruns] at hr
      cases hr
  | schedSpawn now t hs =>
      intro hst
      exact (hsp.2 t hs hst).elim
  | prologue i r hr hp | topIdle i r hr hp _ | launch i r hr hp | closeKill i r _ hr hp
  | join i r _ hr hp _ | wake i r hr hp | ret i r hr hp _ | done i r hr hp _ =>
      intro hst _
      refine hi.ran _ hr (live_of_pc hp (by simp)) (fun h => ?_) hst
      rw [holdsStart_at hp] at h
      cases h
  | topReady i r hr hp hrd =>
      intro hst
      rw [show s.state = .disabled from hst] at hrd
      cases hrd
  | waitRecv i r a hr hp ha =>
      intro hst _
      exact hi.recv _ hr (live_of_pc hp (by simp)) ha (holdsStart_at hp) rfl hst
  | idleRecv i r a hr hp ha =>
      intro hst _
      exact hi.recv _ hr (live_of_pc hp (by simp)) ha (holdsStart_at hp) rfl hst
  | waitAct i r a hr hp =>
      have hs := hw.sendable.2.2 r (List.mem_of_getElem? hr) a (by rw [Run.action, hp])
      intro hst _
      cases a with
      | forceStart => exact hi.ran _ hr (live_of_pc hp (by simp)) (fun _ => rfl) hst
      | disable | ping => cases hs
      | start | stop | restart | halt => cases hst
  | idleAct i r a hr hp =>
      have hs := hw.sendable.2.2 r (List.mem_of_getElem? hr) a (by rw [Run.action, hp])
      intro hst _
      cases a with
      | forceStart | restart => exact hi.ran _ hr (live_of_pc hp (by simp)) (fun _ => rfl) hst
      | halt =>
          refine hi.ran _ hr (live_of_pc hp (by simp)) (fun h => ?_) hst
          rw [holdsStart_at hp] at h
          cases h
      | disable | ping => cases hs
      | start | stop => cases hst
  | acquire i r sy hr hsy _ _ | bypass i r sy hr hsy _ _ | kill i r sy hr hsy _ _
  | op i r sy _ _ _ _ hr hsy _ _ | finish i r sy hr hsy _ =>
      intro hst _
      exact hi.ran _ hr ((hw.sync r (List.mem_of_getElem? hr)).live hsy) id hst
  | _ => exact hi

theorem Step.disabledOk (h : Step cfg s l s') (hs : SoloLive s) (hi : DisabledOk s) :
    DisabledOk s' := by
  have at_pc : ∀ {i : ℕ} {r : Run} {pc : RunPc}, s.runs[i]? = some r → r.pc = pc →
      pc ≠ .spawned → pc ≠ .gone → s.disabled = .opened := by
    intro i r pc hr hp h₁ h₂
    exact hi r (List.mem_of_getElem? hr) (by rw [hp]; exact h₁) (live_of_pc hp h₂)
  cases h with
  | spawn a _ | schedSpawn now t _ => exact Pool.forall_append hi fun h => absurd rfl h
  | prologue i r hr hp => exact fun _ _ _ _ => rfl
  | ret i r hr hp hd =>
      intro r' hr' hp' hl'
      rcases hs.others hr (live_of_pc hp (by simp)) r' hr' with rfl | hn
      · cases hl'
      · exact absurd hl' hn
  | topReady i r hr hp _ | topIdle i r hr hp _ | launch i r hr hp | waitRecv i r _ hr hp _
  | waitAct i r _ hr hp | closeKill i r _ hr hp | join i r _ hr hp _ | wake i r hr hp
  | idleRecv i r _ hr hp _ | idleAct i r _ hr hp | done i r hr hp _ =>
      exact Pool.forall_set hi fun _ _ => at_pc hr hp nofun nofun
  | acquire i r sy hr _ _ _ | bypass i r sy hr _ _ _ | kill i r sy hr _ _ _
  | op i r sy _ _ _ _ hr _ _ _ | finish i r sy hr _ _ =>
      exact Pool.forall_set hi (hi r (List.mem_of_getElem? hr))
  | _ => exact hi

theorem soloInv_init : SoloInv .init where
  wf := wf_init
  solo := Pool.solo_of_none fun _ h => by cases h
  awaited := fun h => by cases h
  spawn := ⟨fun _ h => (by cases h), fun _ h => (by cases h)⟩
  guards := fun _ h => by rcases h with h | h <;> cases h
  disabled := fun _ h => by cases h

theorem Step.soloInv (h : Step cfg s l s') (hc : guardClear s l = true) (hi : SoloInv s) :
    SoloInv s' where
  wf := h.wf hi.wf
  solo := h.soloLive hi.wf.fresh hi.spawn hi.solo
  awaited := h.awaited hi.wf hi.guards hi.spawn hi.awaited
  spawn := h.spawnOk hc hi.wf hi.awaited hi.spawn
  guards := h.guardStarts hi.guards
  disabled := h.disabledOk hi.solo hi.disabled

theorem run_soloInv {ls : List Label}
    (hc : Lts.Along (step cfg) (fun s l => guardClear s l = true) .init ls)
    (hr : Lts.run (step cfg) .init ls = some s) : SoloInv s :=
  Lts.run_invariant (fun _ _ _ hi hc h => (step_cases h).soloInv hc hi) soloInv_init hc hr

/-! ### At most one invocation -/

/-- **One invocation.**  In every run in which no start or restart command reads `disabled` while
a start action is pending, at most one invocation of `Run` and one sync goroutine exist in every
state reached, and no invocation closes `m.disabled` a second time. -/
theorem run_oneRun {ls : List Label}
    (hc : Lts.Along (step cfg) (fun s l => guardClear s l = true) .init ls)
    (hr : Lts.run (step cfg) .init ls = some s) : OneRun s := by
  have hi := run_soloInv hc hr
  have hruns : s.runs.countP Run.live ≤ 1 := by
    have := hi.solo.countP_le
    simpa using this
  refine ⟨hruns, Nat.le_trans (List.countP_mono_left fun r hr hs => ?_) hruns, fun r hr hp => ?_⟩
  · obtain ⟨sy, hsy⟩ := Option.isSome_iff_exists.mp hs
    exact (hi.wf.sync r hr).live hsy
  · exact hi.disabled r hr (by rw [hp]; exact nofun) (live_of_pc hp (by simp))

/-- A worker with one slot for the plain provider. -/
def plainConfig : Config := ⟨plainProvider, 1⟩

/-- Start-up with the stored status `Disabled`, up to the release of `w.L`. -/
def bootDisabled : List Label :=
  [.sched 0, .fetched { status := .disabled }, .sched 0, .sched 0]

/-- A start command whose handler reads `disabled`, up to its answer. -/
def startDisabled : List Label :=
  [.command (some ⟨.start, false⟩), .handler, .handler, .handler, .handler, .handler]

/-- The spawned invocation takes the start action and launches a sync run. -/
def takeStart (i : ℕ) : List Label := [.run i, .run i, .run i, .run i, .run i, .run i]

/-- The second command comes after the first start was executed. -/
def spacedStarts : List Label :=
  bootDisabled ++ startDisabled ++ takeStart 0 ++
    [.command (some ⟨.start, false⟩), .handler, .handler, .handler, .handler]

/-- The second command comes before the first start was executed. -/
def hastyStarts : List Label :=
  bootDisabled ++ startDisabled ++
    [.command (some ⟨.start, false⟩), .handler, .handler, .handler] ++ takeStart 0 ++
    [.run 1, .run 1, .run 1]

theorem run_oneRun_on_spacedStarts :
    ∃ s, Lts.run (step plainConfig) .init spacedStarts = some s ∧ s.state = .ready ∧
      OneRun s := by
  have heval : (Lts.run (step plainConfig) .init spacedStarts).map State.state =
      some .ready := by rfl
  obtain ⟨s, hs, hst⟩ := Option.map_eq_some_iff.mp heval
  exact ⟨s, hs, hst, run_oneRun (Lts.along_of_check rfl) hs⟩

/-- Two start commands in a row on a disabled job: the second handler still reads `disabled`, two
invocations are spawned and two sync runs of the mirror exist at once. -/
theorem hastyStarts_two_runs :
    ∃ s, Lts.run (step plainConfig) .init hastyStarts = some s ∧
      s.runs.countP Run.live = 2 ∧ s.runs.countP (fun r => r.sync.isSome) = 2 ∧
      ¬ OneRun s := by
  have heval : (Lts.run (step plainConfig) .init hastyStarts).map (fun s =>
      (s.runs.countP Run.live, s.runs.countP fun r => r.sync.isSome)) = some (2, 2) := by rfl
  obtain ⟨s, hs, hcount⟩ := Option.map_eq_some_iff.mp heval
  obtain ⟨h₁, h₂⟩ := Prod.mk.inj hcount
  refine ⟨s, hs, h₁, h₂, fun hone => ?_⟩
  have := hone.runs
  omega

end KubeSync.Worker
