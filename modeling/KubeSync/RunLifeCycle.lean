import KubeSync.Lts
import KubeSync.Pool
import KubeSync.RunLoop

/-! # The life cycle of the sync goroutines

What holds in every state of an invocation of `mirrorJob.Run` (`LifeCycle`): at most one goroutine
has not signalled, the channels of each are closed or sent on at most once, none is left waiting,
and the semaphore counts the goroutines that hold a token.  The invariant `Inv` behind it ties the
counter of `Run` to the newest goroutine and says that every older one has signalled. -/

namespace KubeSync.RunLoop

open Worker (JobState CtrlAction RunPc SyncPc SyncMove SyncProg runJobWrapper waitState waitRun
  afterKill afterJoin idleState idleRun answer)

/-- The goroutine has not signalled on `jobDone`. -/
def Goroutine.Live (g : Goroutine) : Prop := g.sends + g.closes = 0

/-- `Run` is in a round: between the start of a goroutine and the receive on its `jobDone`. -/
def InRound : RunPc → Prop
  | .wait | .waitGot _ | .killing _ | .joining _ => True
  | _ => False

/-- The life cycle of the goroutines of one invocation. -/
structure LifeCycle (cfg : Worker.Config) (s : State) : Prop where
  /-- At most one goroutine is between its start and its signal. -/
  one : Pool.Solo Goroutine.Live s.syncs
  /-- `kill` is closed at most once. -/
  kills : ∀ g ∈ s.syncs, g.kills ≤ 1
  /-- `jobDone` is sent on or closed at most once. -/
  signals : ∀ g ∈ s.syncs, g.sends + g.closes ≤ 1
  /-- Outside a round, so before the next start and when `Run` returns, all have signalled. -/
  joined : ¬ InRound s.pc → ∀ g ∈ s.syncs, g.sends + g.closes = 1
  /-- A goroutine that sends on `jobDone` is received by the next step of `Run`. -/
  received : ∀ (i : ℕ) (g : Goroutine), s.syncs[i]? = some g → g.pc = .handoff →
    ∃ s', step cfg s .run = some s' ∧
      s'.syncs[i]? = some { g with pc := .done, sends := g.sends + 1 }
  /-- `Run` waits for a goroutine that has not signalled or whose `jobDone` is closed. -/
  joinable : ∀ a, s.pc = .joining a →
    ∃ g gs, s.syncs = g :: gs ∧ (g.Live ∨ (receive g).isSome = true)
  /-- The semaphore has one token for each goroutine that holds one. -/
  tokens : s.semaphore = s.syncs.countP (·.held)
  capacity : s.semaphore ≤ cfg.concurrent

/-! ### The invariant -/

/-- What the counters of a goroutine are at each of its places. -/
def Goroutine.Ok (g : Goroutine) : Prop :=
  match g.pc with
  | .select => g.sends = 0 ∧ g.closes = 0 ∧ g.held = false
  | .body _ => g.sends = 0 ∧ g.closes = 0
  | .handoff => g.sends = 0 ∧ g.closes = 0 ∧ g.kills = 1
  | .done => g.sends + g.closes = 1

/-- The goroutine has signalled, and its round is over. -/
structure Goroutine.Past (g : Goroutine) : Prop where
  done : g.pc = .done
  signalled : g.sends + g.closes = 1
  kills : g.kills ≤ 1

/-- What the counter of `Run` says about the newest goroutine. -/
def Round (g : Goroutine) : RunPc → Prop
  | .wait | .waitGot _ | .killing _ => g.kills = 0 ∧ g.sends = 0
  | .joining _ => g.kills = 1 ∧ g.sends = 0
  | _ => g.Past

def Shape (pc : RunPc) : List Goroutine → Prop
  | [] => ¬ InRound pc
  | g :: gs => g.Ok ∧ Round g pc ∧ ∀ g' ∈ gs, g'.Past

/-- An action that is acted on in a round is not `jobPing`. -/
def NoPing : RunPc → Prop
  | .waitGot a | .killing a => a ≠ .ping
  | _ => True

structure Inv (cfg : Worker.Config) (s : State) : Prop where
  shape : Shape s.pc s.syncs
  ctrl : s.ctrlChan ≠ some .ping
  noPing : NoPing s.pc
  tokens : s.semaphore = s.syncs.countP (·.held)
  capacity : s.semaphore ≤ cfg.concurrent

variable {cfg : Worker.Config} {s s' : State} {g g' : Goroutine} {gs : List Goroutine} {i : ℕ}
  {pc pc' : RunPc}

theorem Goroutine.Past.ok (h : g.Past) : g.Ok := by
  unfold Goroutine.Ok
  rw [h.done]
  exact h.signalled

theorem round_past (h : Round g pc) (hout : ¬ InRound pc) : g.Past := by
  cases pc with
  | wait | waitGot a | killing a | joining a => exact absurd trivial hout
  | spawned | top | launch | sleeping | idle | idleGot a | ret | gone => exact h

theorem round_of_past (h : g.Past) (hout : ¬ InRound pc) : Round g pc := by
  cases pc with
  | wait | waitGot a | killing a | joining a => exact absurd trivial hout
  | spawned | top | launch | sleeping | idle | idleGot a | ret | gone => exact h

/-- Outside a round all goroutines are past ones. -/
theorem shape_outside (hout : ¬ InRound pc) : Shape pc gs ↔ ∀ g ∈ gs, g.Past := by
  cases gs with
  | nil => exact iff_of_true hout nofun
  | cons g gs =>
      rw [List.forall_mem_cons]
      constructor
      · rintro ⟨-, hr, hgs⟩
        exact ⟨round_past hr hout, hgs⟩
      · rintro ⟨hp, hgs⟩
        exact ⟨hp.ok, round_of_past hp hout, hgs⟩

theorem Inv.init (state : JobState) : Inv cfg (State.init state) where
  shape := id
  ctrl := nofun
  noPing := trivial
  tokens := rfl
  capacity := Nat.zero_le _

/-- A step of `Run` outside a round. -/
theorem Inv.outside (h : Inv cfg s) (hpc : ¬ InRound s.pc) (hpc' : ¬ InRound s'.pc)
    (hsyncs : s'.syncs = s.syncs) (hsem : s'.semaphore = s.semaphore)
    (hctrl : s'.ctrlChan ≠ some .ping) : Inv cfg s' where
  shape := by
    rw [hsyncs, shape_outside hpc']
    exact (shape_outside hpc).mp h.shape
  ctrl := hctrl
  noPing := by
    cases hpc' : s'.pc with
    | waitGot a | killing a => simp_all [InRound]
    | spawned | top | launch | wait | joining a | sleeping | idle | idleGot a | ret | gone =>
        trivial
  tokens := by rw [hsem, hsyncs]; exact h.tokens
  capacity := by rw [hsem]; exact h.capacity

/-- A goroutine that has not signalled is the newest one, and `Run` is in its round. -/
theorem Inv.newest (h : Inv cfg s) (hi : s.syncs[i]? = some g) (hg : g.pc ≠ .done) :
    i = 0 ∧ ∃ gs, s.syncs = g :: gs ∧ InRound s.pc := by
  have hshape := h.shape
  cases hs : s.syncs with
  | nil =>
      rw [hs] at hi
      cases hi
  | cons g₀ gs =>
      rw [hs] at hi hshape
      cases i with
      | zero =>
          obtain rfl := Option.some.inj hi
          refine ⟨rfl, gs, rfl, ?_⟩
          by_contra hout
          exact hg (round_past hshape.2.1 hout).done
      | succ i => exact absurd (hshape.2.2 g (List.mem_of_getElem? hi)).done hg

/-- A step of a goroutine that has not signalled. -/
theorem Inv.setSync {n : ℕ} {b : Bool} (h : Inv cfg s) (hi : s.syncs[i]? = some g)
    (hg : g.pc ≠ .done) (hok : g'.Ok) (hk : g'.kills = g.kills) (hs : g'.sends = g.sends)
    (hn : n + g.held.toNat = s.semaphore + g'.held.toNat) (hcap : n ≤ cfg.concurrent) :
    Inv cfg { s with semaphore := n, bypass := b, syncs := s.syncs.set i g' } where
  shape := by
    obtain ⟨rfl, gs, hsyncs, hin⟩ := h.newest hi hg
    have hshape := h.shape
    rw [hsyncs] at hshape ⊢
    refine ⟨hok, ?_, hshape.2.2⟩
    have hround := hshape.2.1
    cases hpc : s.pc with
    | wait | waitGot a | killing a | joining a =>
        rw [hpc] at hround
        simpa only [Round, hk, hs] using hround
    | spawned | top | launch | sleeping | idle | idleGot a | ret | gone =>
        rw [hpc] at hin
        exact hin.elim
  ctrl := h.ctrl
  noPing := h.noPing
  tokens := by
    have hcount : (s.syncs.set i g').countP (·.held) + g.held.toNat =
        s.syncs.countP (·.held) + g'.held.toNat := Pool.countP_set _ hi
    have htokens := h.tokens
    dsimp only
    omega
  capacity := hcap

theorem Inv.mem (h : Inv cfg s) (hi : s.syncs[i]? = some g) : g.Ok ∧ g.kills ≤ 1 := by
  have hshape := h.shape
  cases hsyncs : s.syncs with
  | nil =>
      rw [hsyncs] at hi
      cases hi
  | cons g₀ gs =>
      rw [hsyncs] at hi hshape
      rcases List.mem_cons.mp (List.mem_of_getElem? hi) with rfl | hmem
      · refine ⟨hshape.1, ?_⟩
        have hround := hshape.2.1
        cases hpc : s.pc with
        | wait | waitGot a | killing a =>
            rw [hpc] at hround
            rw [hround.1]
            exact Nat.zero_le 1
        | joining a =>
            rw [hpc] at hround
            exact Nat.le_of_eq hround.1
        | spawned | top | launch | sleeping | idle | idleGot a | ret | gone =>
            rw [hpc] at hround
            exact Goroutine.Past.kills hround
      · exact ⟨(hshape.2.2 g hmem).ok, (hshape.2.2 g hmem).kills⟩

theorem Inv.sync {x : SyncMove} (h : Inv cfg s) (hi : s.syncs[i]? = some g)
    (hs : stepSync cfg s i g x = some s') : Inv cfg s' := by
  obtain ⟨hok, hkills⟩ := h.mem hi
  have hcap := h.capacity
  unfold Goroutine.Ok at hok
  cases stepSync_cases hs with
  | acquire hpc hlt =>
      rw [hpc] at hok
      refine h.setSync hi (by rw [hpc]; nofun) ⟨hok.1, hok.2.1⟩ rfl rfl ?_ hlt
      rw [hok.2.2]
      rfl
  | bypass hpc _ =>
      rw [hpc] at hok
      exact h.setSync hi (by rw [hpc]; nofun) ⟨hok.1, hok.2.1⟩ rfl rfl rfl hcap
  | kill hpc hk =>
      rw [hpc] at hok
      refine h.setSync hi (by rw [hpc]; nofun) ⟨hok.1, hok.2.1, ?_⟩ rfl rfl rfl hcap
      exact Nat.le_antisymm hkills hk
  | op x e k a hpc _ =>
      rw [hpc] at hok
      exact h.setSync hi (by rw [hpc]; nofun) hok rfl rfl rfl hcap
  | finish u hpc =>
      rw [hpc] at hok
      refine h.setSync hi (by rw [hpc]; nofun) ?_ rfl rfl rfl hcap
      change g.sends + (g.closes + 1) = 1
      omega

/-- Only the token of the goroutine changes. -/
theorem shape_release (h : Shape pc gs) (hi : gs[i]? = some g) (hg : g.pc = .done) :
    Shape pc (gs.set i { g with held := false }) := by
  have hpast : g.Past → ({ g with held := false } : Goroutine).Past :=
    fun hp => ⟨hp.done, hp.signalled, hp.kills⟩
  cases gs with
  | nil => cases hi
  | cons g₀ gs =>
      cases i with
      | zero =>
          obtain rfl := Option.some.inj hi
          obtain ⟨hok, hround, hgs⟩ := h
          refine ⟨?_, ?_, hgs⟩
          · unfold Goroutine.Ok at hok ⊢
            rw [hg] at hok
            simpa only [hg] using hok
          · cases pc with
            | wait | waitGot a | killing a | joining a => exact hround
            | spawned | top | launch | sleeping | idle | idleGot a | ret | gone =>
                exact hpast hround
      | succ i =>
          have hmem := h.2.2 g (List.mem_of_getElem? hi)
          exact ⟨h.1, h.2.1, Pool.forall_set h.2.2 (hpast hmem)⟩

theorem Inv.release (h : Inv cfg s) (hi : s.syncs[i]? = some g)
    (hs : stepRelease s i g = some s') : Inv cfg s' := by
  obtain ⟨hpc, hheld, -, rfl⟩ := stepRelease_cases hs
  refine ⟨shape_release h.shape hi hpc, h.ctrl, h.noPing, ?_, ?_⟩
  · have hcount : (s.syncs.set i { g with held := false }).countP (·.held) + g.held.toNat =
        s.syncs.countP (·.held) + false.toNat := Pool.countP_set _ hi
    have htokens := h.tokens
    rw [hheld] at hcount
    simp only [Bool.toNat_true, Bool.toNat_false] at hcount
    dsimp only
    omega
  · exact Nat.le_trans (Nat.sub_le _ _) h.capacity

/-- A receive on `jobDone` makes the goroutine a past one. -/
theorem past_of_receive (hok : g.Ok) (hk : g.kills ≤ 1) (h : receive g = some g') :
    g'.Past ∧ g'.held = g.held := by
  unfold Goroutine.Ok at hok
  rcases receive_cases h with ⟨hpc, rfl⟩ | ⟨hpc, -, rfl⟩
  · rw [hpc] at hok
    refine ⟨⟨rfl, ?_, hk⟩, rfl⟩
    change g.sends + 1 + g.closes = 1
    omega
  · rw [hpc] at hok
    exact ⟨⟨hpc, hok, hk⟩, rfl⟩

theorem Inv.join (h : Inv cfg s) (hout : ¬ InRound pc) (hs : join s pc = some s') :
    Inv cfg s' := by
  obtain ⟨g, gs, g', hsyncs, hg', rfl⟩ := join_cases hs
  have hi : s.syncs[0]? = some g := by
    rw [hsyncs]
    rfl
  obtain ⟨hpast, hheld⟩ := past_of_receive (h.mem hi).1 (h.mem hi).2 hg'
  have hshape := h.shape
  have htokens := h.tokens
  rw [hsyncs] at hshape htokens
  refine ⟨?_, h.ctrl, ?_, ?_, h.capacity⟩
  · exact (shape_outside hout).mpr (List.forall_mem_cons.mpr ⟨hpast, hshape.2.2⟩)
  · cases pc with
    | waitGot a | killing a => exact absurd trivial hout
    | spawned | top | launch | wait | joining a | sleeping | idle | idleGot a | ret | gone =>
        trivial
  · rw [List.countP_cons] at htokens ⊢
    rw [hheld]
    exact htokens

theorem inRound_afterJoin (a : CtrlAction) : ¬ InRound (afterJoin a) := by
  cases a <;> exact id

/-- A step of `Run` in a round that goes on. -/
theorem Inv.inside (h : Inv cfg s) (hpc : ∀ g, Round g s.pc → Round g s'.pc)
    (hin : InRound s.pc) (hctrl : s'.ctrlChan ≠ some .ping) (hping : NoPing s'.pc)
    (hsyncs : s'.syncs = s.syncs) (hsem : s'.semaphore = s.semaphore) : Inv cfg s' where
  shape := by
    have hshape := h.shape
    rw [hsyncs]
    cases hs : s.syncs with
    | nil =>
        rw [hs] at hshape
        exact absurd hin hshape
    | cons g gs =>
        rw [hs] at hshape
        exact ⟨hshape.1, hpc g hshape.2.1, hshape.2.2⟩
  ctrl := hctrl
  noPing := hping
  tokens := by rw [hsem, hsyncs]; exact h.tokens
  capacity := by rw [hsem]; exact h.capacity

theorem Inv.launch (h : Inv cfg s) (hpc : s.pc = .launch) :
    Inv cfg { s with pc := .wait, syncs := {} :: s.syncs } where
  shape := by
    have hshape := h.shape
    rw [hpc] at hshape
    exact ⟨⟨rfl, rfl, rfl⟩, ⟨rfl, rfl⟩, (shape_outside id).mp hshape⟩
  ctrl := h.ctrl
  noPing := trivial
  tokens := by
    rw [List.countP_cons]
    exact h.tokens
  capacity := h.capacity

/-- `close(kill)`: it was not closed before. -/
theorem Inv.closeKill {a : CtrlAction} (h : Inv cfg s) (hpc : s.pc = .killing a) :
    Inv cfg { s with pc := afterKill a, syncs := closeKill s.syncs } := by
  have hping := h.noPing
  have hshape := h.shape
  have htokens := h.tokens
  rw [hpc] at hping hshape
  have hafter : afterKill a = .joining a := if_neg hping
  cases hs : s.syncs with
  | nil =>
      rw [hs] at hshape
      exact absurd trivial hshape
  | cons g gs =>
      rw [hs] at hshape htokens
      obtain ⟨hok, ⟨hk, hsends⟩, hgs⟩ := hshape
      refine ⟨?_, h.ctrl, ?_, ?_, h.capacity⟩
      · rw [hafter]
        refine ⟨?_, ⟨?_, hsends⟩, hgs⟩
        · unfold Goroutine.Ok at hok ⊢
          cases hgpc : g.pc with
          | handoff =>
              rw [hgpc] at hok
              rw [hok.2.2] at hk
              cases hk
          | select | body c | done =>
              rw [hgpc] at hok
              exact hok
        · change g.kills + 1 = 1
          rw [hk]
      · rw [hafter]
        trivial
      · rw [RunLoop.closeKill, List.countP_cons]
        rw [List.countP_cons] at htokens
        exact htokens

theorem Inv.run (h : Inv cfg s) (hs : stepRun s = some s') : Inv cfg s' := by
  have hctrl := h.ctrl
  unfold stepRun at hs
  split at hs
  case h_1 hpc =>
      cases hs
      exact h.outside (by rw [hpc]; exact id) id rfl rfl hctrl
  case h_2 hpc =>
      cases hs
      refine h.outside (by rw [hpc]; exact id) ?_ rfl rfl hctrl
      dsimp only
      split <;> exact id
  case h_3 hpc =>
      cases hs
      exact h.launch hpc
  case h_4 hpc =>
      obtain ⟨a, ha, rfl⟩ := Option.map_eq_some_iff.mp hs
      refine h.inside (fun g hg => ?_) (by rw [hpc]; trivial) nofun ?_ rfl rfl
      · rw [hpc] at hg
        exact hg
      · rintro rfl
        exact hctrl ha
  case h_5 a hpc =>
      cases hs
      have hping := h.noPing
      rw [hpc] at hping
      refine h.inside (fun g hg => ?_) (by rw [hpc]; trivial) hctrl ?_ rfl rfl
      · rw [hpc] at hg
        cases a <;> exact hg
      · cases a with
        | forceStart => exact nofun
        | start => trivial
        | stop | disable | restart | ping | halt => exact hping
  case h_6 a hpc =>
      cases hs
      exact h.closeKill hpc
  case h_7 a hpc => exact h.join (inRound_afterJoin a) hs
  case h_8 hpc =>
      cases hs
      exact h.outside (by rw [hpc]; exact id) id rfl rfl hctrl
  case h_9 hpc =>
      obtain ⟨a, ha, rfl⟩ := Option.map_eq_some_iff.mp hs
      exact h.outside (by rw [hpc]; exact id) id rfl rfl nofun
  case h_10 a hpc =>
      cases hs
      refine h.outside (by rw [hpc]; exact id) ?_ rfl rfl hctrl
      cases a <;> exact id
  case h_11 hpc =>
      cases hs
      exact h.outside (by rw [hpc]; exact id) id rfl rfl hctrl
  case h_12 => cases hs

theorem step_inv {l : Label} (h : Inv cfg s) (hs : step cfg s l = some s') : Inv cfg s' := by
  cases l with
  | action a =>
      dsimp only [step] at hs
      split at hs
      · rename_i hc
        cases hs
        refine ⟨h.shape, ?_, h.noPing, h.tokens, h.capacity⟩
        intro heq
        exact hc.2 (Option.some.inj heq)
      · cases hs
  | setState state =>
      cases hs
      exact ⟨h.shape, h.ctrl, h.noPing, h.tokens, h.capacity⟩
  | run => exact h.run hs
  | done =>
      dsimp only [step] at hs
      unfold stepDone at hs
      split at hs
      · exact h.join id hs
      · cases hs
  | sync i x =>
      obtain ⟨g, hi, hs⟩ := Option.bind_eq_some_iff.mp hs
      exact h.sync hi hs
  | release i =>
      obtain ⟨g, hi, hs⟩ := Option.bind_eq_some_iff.mp hs
      exact h.release hi hs

/-! ### Every run -/

theorem Inv.one (h : Inv cfg s) : Pool.Solo Goroutine.Live s.syncs := by
  have hzero : ∀ (i : ℕ) (g : Goroutine), s.syncs[i]? = some g → g.Live → i = 0 := by
    intro i g hi hlive
    refine (h.newest hi fun hdone => ?_).1
    have hok := (h.mem hi).1
    unfold Goroutine.Ok at hok
    rw [hdone] at hok
    unfold Goroutine.Live at hlive
    omega
  intro i j x y hi hj hx hy
  rw [hzero i x hi hx, hzero j y hj hy]

theorem Goroutine.Ok.signals (h : g.Ok) : g.sends + g.closes ≤ 1 := by
  unfold Goroutine.Ok at h
  split at h <;> omega

theorem Inv.received (h : Inv cfg s) (hi : s.syncs[i]? = some g) (hg : g.pc = .handoff) :
    ∃ s', step cfg s .run = some s' ∧
      s'.syncs[i]? = some { g with pc := .done, sends := g.sends + 1 } := by
  obtain ⟨rfl, gs, hsyncs, hin⟩ := h.newest hi (by rw [hg]; nofun)
  have hok := (h.mem hi).1
  have hshape := h.shape
  unfold Goroutine.Ok at hok
  rw [hg] at hok
  rw [hsyncs] at hshape
  have hround := hshape.2.1
  cases hpc : s.pc with
  | wait | waitGot a | killing a =>
      rw [hpc] at hround
      cases hok.2.2.symm.trans hround.1
  | joining a =>
      refine ⟨{ s with pc := afterJoin a, syncs := _ :: gs }, ?_, rfl⟩
      simp only [step, stepRun, hpc, RunLoop.join, hsyncs, receive, hg, Option.map_some]
  | spawned | top | launch | sleeping | idle | idleGot a | ret | gone =>
      rw [hpc] at hin
      exact hin.elim

theorem Inv.joinable {a : CtrlAction} (h : Inv cfg s) (hpc : s.pc = .joining a) :
    ∃ g gs, s.syncs = g :: gs ∧ (g.Live ∨ (receive g).isSome = true) := by
  have hshape := h.shape
  rw [hpc] at hshape
  cases hsyncs : s.syncs with
  | nil =>
      rw [hsyncs] at hshape
      exact absurd trivial hshape
  | cons g gs =>
      rw [hsyncs] at hshape
      obtain ⟨hok, ⟨-, hsends⟩, -⟩ := hshape
      refine ⟨g, gs, rfl, ?_⟩
      unfold Goroutine.Ok at hok
      unfold Goroutine.Live receive
      cases hg : g.pc with
      | select | body c | handoff =>
          rw [hg] at hok
          exact .inl (by omega)
      | done =>
          rw [hg] at hok
          exact .inr (by simp only [if_pos (by omega : 0 < g.closes), Option.isSome_some])

theorem Inv.lifeCycle (h : Inv cfg s) : LifeCycle cfg s where
  one := h.one
  kills g hg := by
    obtain ⟨i, hi⟩ := List.getElem?_of_mem hg
    exact (h.mem hi).2
  signals g hg := by
    obtain ⟨i, hi⟩ := List.getElem?_of_mem hg
    exact (h.mem hi).1.signals
  joined hout g hg := ((shape_outside hout).mp h.shape g hg).signalled
  received _ _ hi hg := h.received hi hg
  joinable _ hpc := h.joinable hpc
  tokens := h.tokens
  capacity := h.capacity

theorem inv_of_run {state : JobState} {ls : List Label}
    (h : Lts.run (step cfg) (State.init state) ls = some s) : Inv cfg s := by
  have hkeep : ∀ s l s', Inv cfg s → step cfg s l = some s' → Inv cfg s' :=
    fun _ _ _ hi hs => step_inv hi hs
  exact Lts.run_invariant' hkeep (Inv.init state) h

/-- **The life cycle of the sync goroutines.**  Whatever actions arrive on `ctrlChan` and however
the goroutines move, every state of an invocation of `Run` has at most one goroutine that has not
signalled; `kill` is closed and `jobDone` signalled at most once; outside a round every goroutine
has signalled; one that sends on `jobDone` is received; and the tokens of the semaphore are those of
the goroutines that hold one, never more than its capacity. -/
theorem run_lifeCycle (cfg : Worker.Config) (state : JobState) (ls : List Label) (s : State)
    (h : Lts.run (step cfg) (State.init state) ls = some s) : LifeCycle cfg s :=
  (inv_of_run h).lifeCycle

/-- A sync run is stopped while it waits for a token: it hands over `jobDone`. -/
theorem run_lifeCycle_of_stop : ∃ s,
    Lts.run (step ⟨⟨"debian", [], 1, "1h0m0s", 86400000000000⟩, 1⟩) (State.init .ready)
        [.run, .run, .run, .action .stop, .run, .run, .run, .sync 0 .kill, .run] = some s ∧
      s.pc = .idle ∧
      LifeCycle ⟨⟨"debian", [], 1, "1h0m0s", 86400000000000⟩, 1⟩ s :=
  ⟨_, rfl, rfl, run_lifeCycle _ .ready
    [.run, .run, .run, .action .stop, .run, .run, .run, .sync 0 .kill, .run] _ rfl⟩

end KubeSync.RunLoop
