import KubeSync.Worker

/-! # One invocation of `mirrorJob.Run`

One invocation of `mirrorJob.Run` with all the goroutines it has ever started.  The worker model
keeps only the goroutine of the current round; here each of them is a record that counts what
happens to its channels, so that the rules about these channels can be stated.

* The control loop is the one of the worker model: its counter, its switches and the program
  `runJobWrapper` are taken from there.
* `syncs` has the goroutines, newest first; `kill` and `jobDone` of the current round are those of
  the head.
* `jobDone` has no buffer: a goroutine that sends on it stands at `handoff` until `Run` receives.
* Any of the actions but `jobPing`, which nothing sends, may arrive on `ctrlChan` whenever it is
  empty, and the job state may be set from outside.
* `SyncStep` has the moves of a goroutine, and `stepSync_cases`, `stepRelease_cases`,
  `receive_cases` and `join_cases` say what the steps can do; the invariants of the loop are proved
  from these. -/

namespace KubeSync.RunLoop

open Worker (JobState CtrlAction RunPc SyncPc SyncMove SyncProg runJobWrapper waitState waitRun
  afterKill afterJoin idleState idleRun answer)

/-- A sync goroutine: how often its `kill` was closed, how often it has sent on `jobDone` and closed
it, and whether it holds a token of the semaphore. -/
structure Goroutine where
  pc : SyncPc := .select
  kills : ℕ := 0
  sends : ℕ := 0
  closes : ℕ := 0
  held : Bool := false

structure State where
  state : JobState := .none
  ctrlChan : Option CtrlAction := none
  pc : RunPc := .spawned
  bypass : Bool := false
  semaphore : ℕ := 0
  syncs : List Goroutine := []

/-- The invocation starts with the job state `state`. -/
def State.init (state : JobState) : State := { state }

/-- The control loop as the worker model has it. -/
def State.loop (s : State) : Worker.Run := { pc := s.pc, bypass := s.bypass }

def State.setLoop (s : State) (r : Worker.Run) : State := { s with pc := r.pc, bypass := r.bypass }

/-! ### Steps -/

/-- A receive on `jobDone`, where one is possible, and what it leaves of the goroutine. -/
def receive (g : Goroutine) : Option Goroutine :=
  match g.pc with
  | .handoff => some { g with pc := .done, sends := g.sends + 1 }
  | .done => if 0 < g.closes then some g else none
  | _ => none

/-- `<-jobDone` of the current round. -/
def join (s : State) (pc : RunPc) : Option State :=
  match s.syncs with
  | [] => none
  | g :: gs => (receive g).map fun g' => { s with pc, syncs := g' :: gs }

/-- `close(kill)` of the current round. -/
def closeKill : List Goroutine → List Goroutine
  | [] => []
  | g :: gs => { g with kills := g.kills + 1 } :: gs

/-- A step of `Run` but the case `<-jobDone` of its select. -/
def stepRun (s : State) : Option State :=
  match s.pc with
  | .spawned => some { s with pc := .top }
  | .top => some { s with pc := if s.state = .ready then .launch else .idle }
  | .launch => some { s with pc := .wait, syncs := {} :: s.syncs }
  | .wait => s.ctrlChan.map fun a => { s with ctrlChan := none, pc := .waitGot a }
  | .waitGot a => some { s.setLoop (waitRun s.loop a) with state := waitState s.state a }
  | .killing a => some { s with pc := afterKill a, syncs := closeKill s.syncs }
  | .joining a => join s (afterJoin a)
  | .sleeping => some { s with pc := .top }
  | .idle => s.ctrlChan.map fun a => { s with ctrlChan := none, pc := .idleGot a }
  | .idleGot a => some { s.setLoop (idleRun s.loop a) with state := idleState s.state a }
  | .ret => some { s with pc := .gone }
  | .gone => none

/-- The case `<-jobDone` of the select. -/
def stepDone (s : State) : Option State :=
  if s.pc = .wait then join s .idle else none

/-- A step of the goroutine `g`, with what it does to the semaphore and the channel
`bypassSemaphore`. -/
def stepSync (cfg : Worker.Config) (s : State) (i : ℕ) (g : Goroutine) : SyncMove → Option State
  | .acquire =>
      match g.pc with
      | .select =>
          if s.semaphore < cfg.concurrent then
            some { s with
              semaphore := s.semaphore + 1
              syncs := s.syncs.set i { g with
                held := true, pc := .body (runJobWrapper cfg.provider) } }
          else none
      | _ => none
  | .bypass =>
      match g.pc with
      | .select =>
          if s.bypass then
            some { s with
              bypass := false
              syncs := s.syncs.set i { g with pc := .body (runJobWrapper cfg.provider) } }
          else none
      | _ => none
  | .kill =>
      match g.pc with
      | .select =>
          if 0 < g.kills then some { s with syncs := s.syncs.set i { g with pc := .handoff } }
          else none
      | _ => none
  | .op x =>
      match g.pc with
      | .body (.op e k) =>
          (answer { state := s.state } (0 < g.kills) e x).map fun a =>
            { s with syncs := s.syncs.set i { g with pc := .body (k a) } }
      | _ => none
  | .finish =>
      match g.pc with
      | .body (.ret _) =>
          some { s with syncs := s.syncs.set i { g with pc := .done, closes := g.closes + 1 } }
      | _ => none

/-- The deferred `<-semaphore`. -/
def stepRelease (s : State) (i : ℕ) (g : Goroutine) : Option State :=
  match g.pc with
  | .done =>
      if g.held = true ∧ 0 < s.semaphore then
        some { s with
          semaphore := s.semaphore - 1, syncs := s.syncs.set i { g with held := false } }
      else none
  | _ => none

inductive Label where
  | action (a : CtrlAction)
  | setState (state : JobState)
  | run
  | done
  | sync (i : ℕ) (x : SyncMove)
  | release (i : ℕ)
deriving DecidableEq, Repr

def step (cfg : Worker.Config) (s : State) : Label → Option State
  | .action a =>
      if s.ctrlChan = none ∧ a ≠ .ping then some { s with ctrlChan := some a } else none
  | .setState state => some { s with state }
  | .run => stepRun s
  | .done => stepDone s
  | .sync i x => s.syncs[i]?.bind fun g => stepSync cfg s i g x
  | .release i => s.syncs[i]?.bind fun g => stepRelease s i g

/-! ### What the steps do -/

variable {cfg : Worker.Config} {s s' : State} {i : ℕ} {g g' : Goroutine}

/-- The moves of a goroutine. -/
inductive SyncStep (cfg : Worker.Config) (s : State) (i : ℕ) (g : Goroutine) :
    SyncMove → State → Prop where
  | acquire (hpc : g.pc = .select) (hlt : s.semaphore < cfg.concurrent) :
      SyncStep cfg s i g .acquire { s with
        semaphore := s.semaphore + 1
        syncs := s.syncs.set i { g with held := true, pc := .body (runJobWrapper cfg.provider) } }
  | bypass (hpc : g.pc = .select) (hb : s.bypass = true) :
      SyncStep cfg s i g .bypass { s with
        bypass := false
        syncs := s.syncs.set i { g with pc := .body (runJobWrapper cfg.provider) } }
  | kill (hpc : g.pc = .select) (hk : 0 < g.kills) :
      SyncStep cfg s i g .kill { s with syncs := s.syncs.set i { g with pc := .handoff } }
  | op x e k a (hpc : g.pc = .body (.op e k))
      (ha : answer { state := s.state } (0 < g.kills) e x = some a) :
      SyncStep cfg s i g (.op x) { s with syncs := s.syncs.set i { g with pc := .body (k a) } }
  | finish u (hpc : g.pc = .body (.ret u)) :
      SyncStep cfg s i g .finish
        { s with syncs := s.syncs.set i { g with pc := .done, closes := g.closes + 1 } }

theorem SyncStep.enabled {x : SyncMove} (h : SyncStep cfg s i g x s') :
    stepSync cfg s i g x = some s' := by
  unfold stepSync
  cases h with
  | acquire hpc hlt =>
      dsimp only
      rw [hpc]
      exact if_pos hlt
  | bypass hpc hb =>
      dsimp only
      rw [hpc]
      exact if_pos hb
  | kill hpc hk =>
      dsimp only
      rw [hpc]
      exact if_pos hk
  | op x e k a hpc ha =>
      dsimp only
      rw [hpc]
      dsimp only
      rw [ha]
      rfl
  | finish u hpc =>
      dsimp only
      rw [hpc]

theorem stepSync_cases {x : SyncMove} (h : stepSync cfg s i g x = some s') :
    SyncStep cfg s i g x s' := by
  cases x with
  | acquire =>
      dsimp only [stepSync] at h
      split at h
      · next hpc =>
        obtain ⟨hlt, h⟩ := Option.ite_none_right_eq_some.mp h
        obtain rfl := Option.some.inj h
        exact .acquire hpc hlt
      · cases h
  | bypass =>
      dsimp only [stepSync] at h
      split at h
      · next hpc =>
        obtain ⟨hb, h⟩ := Option.ite_none_right_eq_some.mp h
        obtain rfl := Option.some.inj h
        exact .bypass hpc hb
      · cases h
  | kill =>
      dsimp only [stepSync] at h
      split at h
      · next hpc =>
        obtain ⟨hk, h⟩ := Option.ite_none_right_eq_some.mp h
        obtain rfl := Option.some.inj h
        exact .kill hpc hk
      · cases h
  | op x =>
      dsimp only [stepSync] at h
      split at h
      · next e k hpc =>
        obtain ⟨a, ha, rfl⟩ := Option.map_eq_some_iff.mp h
        exact .op x e k a hpc ha
      · cases h
  | finish =>
      dsimp only [stepSync] at h
      split at h
      · next u hpc =>
        obtain rfl := Option.some.inj h
        exact .finish u hpc
      · cases h

theorem stepRelease_cases (h : stepRelease s i g = some s') :
    g.pc = .done ∧ g.held = true ∧ 0 < s.semaphore ∧
      s' = { s with
        semaphore := s.semaphore - 1, syncs := s.syncs.set i { g with held := false } } := by
  unfold stepRelease at h
  split at h
  · next hpc =>
    obtain ⟨⟨hheld, hpos⟩, h⟩ := Option.ite_none_right_eq_some.mp h
    exact ⟨hpc, hheld, hpos, (Option.some.inj h).symm⟩
  · cases h

theorem receive_cases (h : receive g = some g') :
    (g.pc = .handoff ∧ g' = { g with pc := .done, sends := g.sends + 1 }) ∨
      (g.pc = .done ∧ 0 < g.closes ∧ g' = g) := by
  unfold receive at h
  split at h
  · next hpc => exact .inl ⟨hpc, (Option.some.inj h).symm⟩
  · next hpc =>
    obtain ⟨hpos, h⟩ := Option.ite_none_right_eq_some.mp h
    exact .inr ⟨hpc, hpos, (Option.some.inj h).symm⟩
  · cases h

theorem join_cases {pc : RunPc} (h : join s pc = some s') :
    ∃ g gs g', s.syncs = g :: gs ∧ receive g = some g' ∧ s' = { s with pc, syncs := g' :: gs } := by
  unfold join at h
  split at h
  · cases h
  · next g gs hsyncs =>
    obtain ⟨g', hg', rfl⟩ := Option.map_eq_some_iff.mp h
    exact ⟨g, gs, g', hsyncs, hg', rfl⟩

end KubeSync.RunLoop
