import KubeSync.RunLifeCycle
import KubeSync.WorkerInvariant

/-! # The invocations of `Run` in the worker

The worker model has any number of invocations of `mirrorJob.Run` over one control channel, one job
state and one semaphore, and keeps of each only the goroutine of its current round.  Here each of
them is followed by a run of the model of a single invocation, so that the rules of the life cycle
hold for every invocation of every worker.

* `Shows st r t`: the state `t` of the single model shows what the worker has of the invocation `r`
  under the job state `st`.
* `run_follows`: every invocation of a reachable worker is shown by a reachable state.  One step of
  the worker is a few steps of the single model: an action is put on the channel when it is
  received, a token is given back as soon as `jobDone` is closed, and what others do is a change of
  the job state. -/

namespace KubeSync.RunLoop

open Worker (JobState CtrlAction RunPc Sync SyncMove SyncProg runJobWrapper waitRun idleRun)

/-! ### The relation -/

/-- The newest goroutine `g` is the sync goroutine `sy` of the worker. -/
structure ShowsSync (sy : Sync) (g : Goroutine) : Prop where
  pc : g.pc = sy.pc
  kill : sy.kill = decide (0 < g.kills)
  held : g.held = sy.held
  closed : g.pc = .done → 0 < g.closes
  free : (∀ code, sy.pc ≠ .body code) → sy.held = false

structure Shows (st : JobState) (r : Worker.Run) (t : State) : Prop where
  state : t.state = st
  ctrl : t.ctrlChan = none
  pc : t.pc = r.pc
  bypass : t.bypass = r.bypass
  tokens : t.semaphore = (r.sync.any Sync.held).toNat
  sync : ∀ sy, r.sync = some sy → ∃ g gs, t.syncs = g :: gs ∧ ShowsSync sy g

/-- The invocation is shown by a state that an invocation on its own reaches. -/
def Follows (cfg : Worker.Config) (st : JobState) (r : Worker.Run) : Prop :=
  ∃ state t, Lts.Reach (step cfg) (State.init state) t ∧ Shows st r t

variable {cfg : Worker.Config} {st st' : JobState} {r r' : Worker.Run} {t : State}

theorem Follows.then (h : Follows cfg st r)
    (hstep : ∀ t, Shows st r t → ∃ t', Lts.Reach (step cfg) t t' ∧ Shows st' r' t') :
    Follows cfg st' r' := by
  obtain ⟨state, t, ht, hs⟩ := h
  obtain ⟨t', ht', hs'⟩ := hstep t hs
  exact ⟨state, t', ht.trans ht', hs'⟩

/-- One step of the invocation on its own. -/
theorem Follows.single (h : Follows cfg st r) (l : Label)
    (hstep : ∀ t, Shows st r t → ∃ t', step cfg t l = some t' ∧ Shows st' r' t') :
    Follows cfg st' r' := by
  refine h.then fun t hs => ?_
  obtain ⟨t', ht', hs'⟩ := hstep t hs
  exact ⟨t', .single l ht', hs'⟩

theorem follows_new (cfg : Worker.Config) (st : JobState) : Follows cfg st {} :=
  ⟨st, State.init st, .refl _, rfl, rfl, rfl, rfl, rfl, nofun⟩

/-- Others may set the job state. -/
theorem Follows.setState (h : Follows cfg st r) (st' : JobState) : Follows cfg st' r :=
  h.single (.setState st') fun t hs =>
    ⟨{ t with state := st' }, rfl, rfl, hs.ctrl, hs.pc, hs.bypass, hs.tokens, hs.sync⟩

/-! ### The control loop -/

/-- A step of the control loop that leaves the goroutines alone. -/
theorem Shows.loop {t' : State} (h : Shows st r t) (hstate : t'.state = st')
    (hctrl : t'.ctrlChan = none) (hpc : t'.pc = r'.pc) (hbypass : t'.bypass = r'.bypass)
    (hsem : t'.semaphore = t.semaphore) (hsyncs : t'.syncs = t.syncs) (hsync : r'.sync = r.sync) :
    Shows st' r' t' where
  state := hstate
  ctrl := hctrl
  pc := hpc
  bypass := hbypass
  tokens := by rw [hsem, hsync]; exact h.tokens
  sync := by rw [hsync, hsyncs]; exact h.sync

theorem Follows.move {pc pc' : RunPc} (h : Follows cfg st r) (hp : r.pc = pc)
    (hstep : ∀ t, t.state = st → t.pc = pc → stepRun t = some { t with pc := pc' }) :
    Follows cfg st { r with pc := pc' } :=
  h.single .run fun t hs => ⟨_, hstep t hs.state (hs.pc.trans hp),
    hs.loop hs.state hs.ctrl rfl hs.bypass rfl rfl rfl⟩

/-- An action is put on the channel and received. -/
theorem Follows.receive {pc pc' : RunPc} {a : CtrlAction} (h : Follows cfg st r) (hp : r.pc = pc)
    (ha : a ≠ .ping)
    (hstep : ∀ t, t.pc = pc → t.ctrlChan = some a →
      stepRun t = some { t with ctrlChan := none, pc := pc' }) :
    Follows cfg st { r with pc := pc' } := by
  refine h.then fun t hs => ?_
  refine ⟨{ t with ctrlChan := none, pc := pc' }, ?_, ?_⟩
  · have haction : step cfg t (.action a) = some { t with ctrlChan := some a } :=
      if_pos ⟨hs.ctrl, ha⟩
    have hrun := hstep { t with ctrlChan := some a } (hs.pc.trans hp) rfl
    exact Lts.Reach.trans (.single _ haction) (.single .run hrun)
  · exact hs.loop hs.state rfl rfl hs.bypass rfl rfl rfl

theorem Follows.waitAct {a : CtrlAction} (h : Follows cfg st r) (hp : r.pc = .waitGot a) :
    Follows cfg (Worker.waitState st a) (waitRun r a) := by
  refine h.single .run fun t hs => ?_
  have hpc : t.pc = .waitGot a := hs.pc.trans hp
  refine ⟨{ t.setLoop (waitRun t.loop a) with state := Worker.waitState t.state a }, ?_, ?_⟩
  · show stepRun t = _
    unfold stepRun
    rw [hpc]
  · refine hs.loop ?_ hs.ctrl ?_ ?_ rfl rfl (Worker.sync_waitRun r a)
    · show Worker.waitState t.state a = _
      rw [hs.state]
    · cases a <;> rfl
    · have hb := hs.bypass
      cases a <;> first | exact hb | rfl

theorem Follows.idleAct {a : CtrlAction} (h : Follows cfg st r) (hp : r.pc = .idleGot a) :
    Follows cfg (Worker.idleState st a) (idleRun r a) := by
  refine h.single .run fun t hs => ?_
  have hpc : t.pc = .idleGot a := hs.pc.trans hp
  refine ⟨{ t.setLoop (idleRun t.loop a) with state := Worker.idleState t.state a }, ?_, ?_⟩
  · show stepRun t = _
    unfold stepRun
    rw [hpc]
  · refine hs.loop ?_ hs.ctrl ?_ ?_ rfl rfl (Worker.sync_idleRun r a)
    · show Worker.idleState t.state a = _
      rw [hs.state]
    · cases a <;> rfl
    · have hb := hs.bypass
      cases a <;> first | exact hb | rfl

/-! ### Rounds -/

theorem Follows.launch (h : Follows cfg st r) (hp : r.pc = .launch) (hn : r.sync = none) :
    Follows cfg st { r with pc := .wait, sync := some {} } := by
  refine h.single .run fun t hs => ?_
  refine ⟨{ t with pc := .wait, syncs := {} :: t.syncs }, ?_, ?_⟩
  · show stepRun t = _
    unfold stepRun
    rw [hs.pc, hp]
  · have htokens := hs.tokens
    rw [hn] at htokens
    refine ⟨hs.state, hs.ctrl, rfl, hs.bypass, htokens, fun sy hsy => ?_⟩
    cases hsy
    exact ⟨{}, t.syncs, rfl, rfl, rfl, rfl, nofun, fun _ => rfl⟩

theorem Follows.closeKill {a : CtrlAction} (h : Follows cfg st r) (hp : r.pc = .killing a) :
    Follows cfg st { r with
      sync := r.sync.map fun sy => { sy with kill := true }, pc := Worker.afterKill a } := by
  refine h.single .run fun t hs => ?_
  refine ⟨{ t with pc := Worker.afterKill a, syncs := RunLoop.closeKill t.syncs }, ?_, ?_⟩
  · show stepRun t = _
    unfold stepRun
    rw [hs.pc, hp]
  · refine ⟨hs.state, hs.ctrl, rfl, hs.bypass, ?_, fun sy hsy => ?_⟩
    · rw [Option.any_map]
      exact hs.tokens
    · obtain ⟨sy₀, hsy₀, rfl⟩ := Option.map_eq_some_iff.mp hsy
      obtain ⟨g, gs, hg, hsync⟩ := hs.sync sy₀ hsy₀
      refine ⟨{ g with kills := g.kills + 1 }, gs, ?_, hsync.pc, ?_, hsync.held, hsync.closed,
        hsync.free⟩
      · show RunLoop.closeKill t.syncs = _
        rw [hg]
        rfl
      · exact (decide_eq_true (Nat.succ_pos g.kills)).symm

/-- `<-jobDone` of a goroutine that has signalled. -/
theorem Shows.join (h : Shows st r t) (hsig : r.sync.any Sync.signals = true) (pc : RunPc) :
    ∃ t', join t pc = some t' ∧ Shows st { r with sync := none, pc } t' := by
  cases hsy : r.sync with
  | none =>
      rw [hsy] at hsig
      cases hsig
  | some sy =>
      rw [hsy] at hsig
      obtain ⟨g, gs, hg, hsync⟩ := h.sync sy hsy
      have hsig' : sy.signals = true := hsig
      unfold Sync.signals at hsig'
      have htokens : t.semaphore = 0 := by
        have hfree : sy.held = false := by
          refine hsync.free fun code hcode => ?_
          rw [hcode] at hsig'
          cases hsig'
        have ht := h.tokens
        rw [hsy] at ht
        rw [ht, Option.any_some, hfree]
        rfl
      obtain ⟨g', hg'⟩ : ∃ g', receive g = some g' := by
        unfold receive
        rw [hsync.pc]
        cases hpc : sy.pc with
        | handoff => exact ⟨_, rfl⟩
        | done => exact ⟨g, if_pos (hsync.closed (hsync.pc.trans hpc))⟩
        | select | body code =>
            rw [hpc] at hsig'
            cases hsig'
      refine ⟨{ t with pc, syncs := g' :: gs }, ?_, h.state, h.ctrl, rfl, h.bypass, htokens, nofun⟩
      unfold RunLoop.join
      rw [hg]
      dsimp only
      rw [hg']
      rfl

/-! ### The sync goroutine -/

theorem step_newest {g : Goroutine} {gs : List Goroutine} (hg : t.syncs = g :: gs) (x : SyncMove) :
    step cfg t (.sync 0 x) = stepSync cfg t 0 g x := by
  show (t.syncs[0]?.bind fun g => stepSync cfg t 0 g x) = _
  rw [hg]
  rfl

theorem step_release (cfg : Worker.Config) {g : Goroutine} {gs : List Goroutine}
    (hg : t.syncs = g :: gs) (hpc : g.pc = .done) (hheld : g.held = true)
    (hsem : 0 < t.semaphore) :
    step cfg t (.release 0) = some { t with
      semaphore := t.semaphore - 1, syncs := { g with held := false } :: gs } := by
  show (t.syncs[0]?.bind fun g => stepRelease t 0 g) = _
  rw [hg]
  show stepRelease t 0 g = _
  unfold stepRelease
  rw [hpc]
  dsimp only
  rw [if_pos ⟨hheld, hsem⟩, hg, List.set_cons_zero]

/-- A step of the sync goroutine, which is the newest one. -/
theorem Follows.sync {sy : Sync} (x : SyncMove) (h : Follows cfg st r) (hsy : r.sync = some sy)
    (hstep : ∀ t g gs, Shows st r t → t.syncs = g :: gs → ShowsSync sy g →
      ∃ t', stepSync cfg t 0 g x = some t' ∧ Shows st r' t') : Follows cfg st r' := by
  refine h.single (.sync 0 x) fun t hs => ?_
  obtain ⟨g, gs, hg, hsync⟩ := hs.sync sy hsy
  obtain ⟨t', ht', hs'⟩ := hstep t g gs hs hg hsync
  refine ⟨t', ?_, hs'⟩
  rw [step_newest hg]
  exact ht'

/-- What is left to show of a step of the sync goroutine. -/
theorem Shows.setSync {sy' : Sync} {g g' : Goroutine} {gs : List Goroutine} {n : ℕ} {b b' : Bool}
    (h : Shows st r t) (hg : t.syncs = g :: gs) (hb : b' = b) (htokens : n = sy'.held.toNat)
    (hsync : ShowsSync sy' g') :
    Shows st { r with bypass := b, sync := some sy' }
      { t with semaphore := n, bypass := b', syncs := t.syncs.set 0 g' } where
  state := h.state
  ctrl := h.ctrl
  pc := h.pc
  bypass := hb
  tokens := htokens
  sync _ hsy := by
    cases hsy
    refine ⟨g', gs, ?_, hsync⟩
    show t.syncs.set 0 g' = _
    rw [hg]
    rfl

theorem Shows.tokens_of_sync {sy : Sync} (h : Shows st r t) (hsy : r.sync = some sy) :
    t.semaphore = sy.held.toNat := by
  have ht := h.tokens
  rw [hsy] at ht
  exact ht

theorem ShowsSync.held_select {sy : Sync} {g : Goroutine} (h : ShowsSync sy g)
    (hpc : sy.pc = .select) : sy.held = false := by
  refine h.free fun code hcode => ?_
  rw [hpc] at hcode
  cases hcode

theorem Follows.acquire {sy : Sync} (h : Follows cfg st r) (hsy : r.sync = some sy)
    (hpc : sy.pc = .select) (hc : 0 < cfg.concurrent) :
    Follows cfg st { r with
      sync := some { sy with held := true, pc := .body (runJobWrapper cfg.provider) } } := by
  refine h.sync .acquire hsy fun t g gs hs hg hsync => ?_
  have hsem : t.semaphore = 0 := by
    rw [hs.tokens_of_sync hsy, hsync.held_select hpc]
    rfl
  refine ⟨{ t with
    semaphore := t.semaphore + 1
    syncs := t.syncs.set 0 { g with held := true, pc := .body (runJobWrapper cfg.provider) } },
    ?_, ?_⟩
  · exact (SyncStep.acquire (hsync.pc.trans hpc) (by omega)).enabled
  · refine hs.setSync hg hs.bypass (by rw [hsem]; rfl) ⟨rfl, hsync.kill, rfl, ?_, ?_⟩
    · intro hdone
      cases hdone
    · exact fun hno => absurd rfl (hno _)

theorem Follows.bypass {sy : Sync} (h : Follows cfg st r) (hsy : r.sync = some sy)
    (hpc : sy.pc = .select) (hb : r.bypass = true) :
    Follows cfg st { r with
      bypass := false, sync := some { sy with pc := .body (runJobWrapper cfg.provider) } } := by
  refine h.sync .bypass hsy fun t g gs hs hg hsync => ?_
  refine ⟨{ t with
    bypass := false
    syncs := t.syncs.set 0 { g with pc := .body (runJobWrapper cfg.provider) } }, ?_, ?_⟩
  · exact (SyncStep.bypass (hsync.pc.trans hpc) (hs.bypass.trans hb)).enabled
  · have hsem := hs.tokens_of_sync hsy
    refine hs.setSync hg rfl hsem ⟨rfl, hsync.kill, hsync.held, ?_, ?_⟩
    · intro hdone
      cases hdone
    · exact fun hno => absurd rfl (hno _)

theorem Follows.kill {sy : Sync} (h : Follows cfg st r) (hsy : r.sync = some sy)
    (hpc : sy.pc = .select) (hk : sy.kill = true) :
    Follows cfg st { r with sync := some { sy with pc := .handoff } } := by
  refine h.sync .kill hsy fun t g gs hs hg hsync => ?_
  refine ⟨{ t with syncs := t.syncs.set 0 { g with pc := .handoff } }, ?_, ?_⟩
  · have hkills : 0 < g.kills := of_decide_eq_true (hsync.kill.symm.trans hk)
    exact (SyncStep.kill (hsync.pc.trans hpc) hkills).enabled
  · have hsem := hs.tokens_of_sync hsy
    refine hs.setSync hg hs.bypass hsem ⟨rfl, hsync.kill, hsync.held, ?_, ?_⟩
    · intro hdone
      cases hdone
    · exact fun _ => hsync.held_select hpc

/-- What an operation of the worker's sync run may answer, it may answer here. -/
theorem answer_mono {s : Worker.State} {kill : Bool} {e : Worker.SyncOp} {x : Worker.Reply}
    {a : e.Answer} (h : Worker.answer s kill e x = some a) :
    Worker.answer { state := s.state } kill e x = some a := by
  cases e with
  | send m =>
      cases x with
      | go => rfl
      | hook _ | start _ | done _ | size _ => cases h
  | awaitDone =>
      cases x with
      | done sel => cases sel <;> exact h
      | go | hook _ | start _ | size _ => cases h
  | hook _ _ | runProvider | awaitStart | dataSize | getState | panic => cases x <;> exact h

theorem Follows.op {s : Worker.State} {sy : Sync} {x : Worker.Reply} {e : Worker.SyncOp}
    {k : e.Answer → SyncProg Unit} {a : e.Answer} (h : Follows cfg s.state r)
    (hsy : r.sync = some sy) (hpc : sy.pc = .body (.op e k))
    (ha : Worker.answer s sy.kill e x = some a) :
    Follows cfg s.state { r with sync := some { sy with pc := .body (k a) } } := by
  refine h.sync (.op x) hsy fun t g gs hs hg hsync => ?_
  refine ⟨{ t with syncs := t.syncs.set 0 { g with pc := .body (k a) } }, ?_, ?_⟩
  · have ha' := answer_mono ha
    rw [hsync.kill, ← hs.state] at ha'
    exact (SyncStep.op x e k a (hsync.pc.trans hpc) ha').enabled
  · have hsem := hs.tokens_of_sync hsy
    refine hs.setSync hg hs.bypass hsem ⟨rfl, hsync.kill, hsync.held, ?_, ?_⟩
    · intro hdone
      cases hdone
    · exact fun hno => absurd rfl (hno _)

/-- The goroutine closes `jobDone` and gives its token back. -/
theorem Follows.finish {sy : Sync} (h : Follows cfg st r) (hsy : r.sync = some sy)
    (hpc : sy.pc = .body (.ret ())) :
    Follows cfg st { r with sync := some { sy with held := false, pc := .done } } := by
  refine h.then fun t hs => ?_
  obtain ⟨g, gs, hg, hsync⟩ := hs.sync sy hsy
  have hsem := hs.tokens_of_sync hsy
  -- behind `close(jobDone)`, with the token still held
  have hfinish : step cfg t (.sync 0 .finish) = some { t with
      syncs := { g with pc := .done, closes := g.closes + 1 } :: gs } := by
    rw [step_newest hg, (SyncStep.finish () (hsync.pc.trans hpc)).enabled, hg, List.set_cons_zero]
  have hshows : ∀ n, n = 0 → Shows st { r with sync := some { sy with held := false, pc := .done } }
      { t with
        semaphore := n
        syncs := { g with pc := .done, closes := g.closes + 1, held := false } :: gs } := by
    intro n hn
    refine ⟨hs.state, hs.ctrl, hs.pc, hs.bypass, hn, fun sy' hsy' => ?_⟩
    cases hsy'
    exact ⟨_, gs, rfl, rfl, hsync.kill, rfl, fun _ => Nat.succ_pos _, fun _ => rfl⟩
  cases hheld : sy.held with
  | false =>
      rw [hheld] at hsem
      have hg' : g.held = false := hsync.held.trans hheld
      have hsame : ({ g with pc := .done, closes := g.closes + 1 } : Goroutine) =
          { g with pc := .done, closes := g.closes + 1, held := false } := by rw [← hg']
      rw [hsame] at hfinish
      exact ⟨_, .single _ hfinish, hshows _ hsem⟩
  | true =>
      rw [hheld] at hsem
      have hone : t.semaphore = 1 := hsem
      have hrelease := step_release cfg (t := { t with
        syncs := { g with pc := .done, closes := g.closes + 1 } :: gs }) rfl rfl
        (hsync.held.trans hheld) (by rw [hone]; exact Nat.one_pos)
      exact ⟨_, .trans (.single _ hfinish) (.single _ hrelease), hshows _ (by rw [hone])⟩

/-! ### Every invocation -/

theorem step_follows {s s' : Worker.State} {l : Worker.Label} (h : Worker.Step cfg s l s')
    (hw : Worker.WF s) (hi : ∀ r ∈ s.runs, Follows cfg s.state r) :
    ∀ r ∈ s'.runs, Follows cfg s'.state r := by
  have hset : ∀ {i : ℕ} {r' : Worker.Run} (st : JobState), Follows cfg st r' →
      ∀ r ∈ s.runs.set i r', Follows cfg st r := fun st hr' =>
    Pool.forall_set (fun r hr => (hi r hr).setState st) hr'
  have hnew : ∀ r ∈ s.runs ++ [({} : Worker.Run)], Follows cfg s.state r :=
    Pool.forall_append hi (follows_new cfg s.state)
  have hping : ∀ a, s.ctrlChan = some a → a ≠ .ping := by
    rintro a ha rfl
    cases hw.sendable.1 _ ha
  have hat : ∀ {i : ℕ} {r : Worker.Run}, s.runs[i]? = some r → Follows cfg s.state r :=
    fun hr => hi _ (List.mem_of_getElem? hr)
  cases h with
  | spawn a _ => exact hnew
  | schedSpawn now t _ => exact hnew
  | setup now st _ => exact fun r hr => (hi r hr).setState _
  | prologue i r hr hp =>
      refine hset _ ((hat hr).move hp fun t _ hpc => ?_)
      unfold stepRun
      rw [hpc]
  | topReady i r hr hp hst =>
      refine hset _ ((hat hr).move hp fun t ht hpc => ?_)
      unfold stepRun
      rw [hpc]
      dsimp only
      rw [ht, if_pos hst]
  | topIdle i r hr hp hst =>
      refine hset _ ((hat hr).move hp fun t ht hpc => ?_)
      unfold stepRun
      rw [hpc]
      dsimp only
      rw [ht, if_neg hst]
  | wake i r hr hp | ret i r hr hp _ =>
      refine hset _ ((hat hr).move hp fun t _ hpc => ?_)
      unfold stepRun
      rw [hpc]
  | launch i r hr hp =>
      have hn := hw.sync r (List.mem_of_getElem? hr)
      unfold Worker.Run.SyncOk at hn
      rw [hp] at hn
      exact hset _ ((hat hr).launch hp hn)
  | waitRecv i r a hr hp ha | idleRecv i r a hr hp ha =>
      refine hset _ ((hat hr).receive hp (hping a ha) fun t hpc hc => ?_)
      unfold stepRun
      rw [hpc]
      dsimp only
      rw [hc]
      rfl
  | waitAct i r a hr hp => exact hset _ ((hat hr).waitAct hp)
  | idleAct i r a hr hp => exact hset _ ((hat hr).idleAct hp)
  | closeKill i r a hr hp => exact hset _ ((hat hr).closeKill hp)
  | join i r a hr hp hsig =>
      refine hset _ ((hat hr).single .run fun t hs => ?_)
      obtain ⟨t', ht', hs'⟩ := hs.join hsig (Worker.afterJoin a)
      refine ⟨t', ?_, hs'⟩
      show stepRun t = _
      unfold stepRun
      rw [hs.pc, hp]
      exact ht'
  | done i r hr hp hsig =>
      refine hset _ ((hat hr).single .done fun t hs => ?_)
      obtain ⟨t', ht', hs'⟩ := hs.join hsig .idle
      refine ⟨t', ?_, hs'⟩
      show stepDone t = _
      unfold stepDone
      rw [if_pos (hs.pc.trans hp)]
      exact ht'
  | acquire i r sy hr hsy hpc hlt =>
      exact hset _ ((hat hr).acquire hsy hpc (Nat.zero_lt_of_lt hlt))
  | bypass i r sy hr hsy hpc hb => exact hset _ ((hat hr).bypass hsy hpc hb)
  | kill i r sy hr hsy hpc hk => exact hset _ ((hat hr).kill hsy hpc hk)
  | op i r sy x e k a hr hsy hpc ha => exact hset _ ((hat hr).op hsy hpc ha)
  | finish i r sy hr hsy hpc => exact hset _ ((hat hr).finish hsy hpc)
  | _ => exact hi

/-- **Every invocation of the worker is one of the single model.** -/
theorem run_follows {ls : List Worker.Label} {s : Worker.State}
    (h : Lts.run (Worker.step cfg) .init ls = some s) : ∀ r ∈ s.runs, Follows cfg s.state r := by
  have hkeep : ∀ s l s', (Worker.WF s ∧ ∀ r ∈ s.runs, Follows cfg s.state r) →
      Worker.step cfg s l = some s' → Worker.WF s' ∧ ∀ r ∈ s'.runs, Follows cfg s'.state r := by
    rintro s l s' ⟨hw, hi⟩ hs
    have hstep := Worker.step_cases hs
    exact ⟨hstep.wf hw, step_follows hstep hw hi⟩
  have hinit : Worker.WF .init ∧ ∀ r ∈ (Worker.State.init).runs,
      Follows cfg Worker.State.init.state r := by
    refine ⟨Worker.wf_init, fun r hr => ?_⟩
    cases hr
  exact (Lts.run_invariant' hkeep hinit h).2

/-- Every invocation of every worker keeps to the life cycle. -/
theorem run_shows_lifeCycle {ls : List Worker.Label} {s : Worker.State}
    (h : Lts.run (Worker.step cfg) .init ls = some s) {r : Worker.Run} (hr : r ∈ s.runs) :
    ∃ t, Shows s.state r t ∧ LifeCycle cfg t := by
  obtain ⟨state, t, ⟨ls', ht⟩, hs⟩ := run_follows h r hr
  exact ⟨t, hs, (inv_of_run ht).lifeCycle⟩

end KubeSync.RunLoop
