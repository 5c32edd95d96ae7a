import KubeSync.WorkerBookings

/-! # The limits a worker keeps

Three promises of the worker that no single function makes.

* `syncs_limited`: the sync goroutines inside `runJobWrapper` are never more than the slots of the
  semaphore and the force-start commands that have arrived.  A token that is out is in the hand of
  a sync goroutine or on its way back (`TokenInv`), and a goroutine without a token has used up a
  force-start (`forceCredit`).
* `starts_spaced`: between two entries that the ticker pops lies the interval of the job.
* `halted_quiet`: when `Halt` has got through `jobsDone.Wait()`, no sync goroutine is left and none
  is launched before the next start command. -/

namespace KubeSync.Worker

variable {cfg : Config} {s s' : State} {l : Label} {ls : List Label}

/-! ### Tokens of the semaphore -/

/-- Inside `runJobWrapper`. -/
def Sync.running (sy : Sync) : Bool :=
  match sy.pc with
  | .body _ => true
  | _ => false

def Run.syncing (r : Run) : Bool := r.sync.any Sync.running

def Run.holds (r : Run) : Bool := r.sync.any Sync.held

/-- Inside `runJobWrapper` without a token. -/
def Run.forced (r : Run) : Bool := r.sync.any fun sy => sy.running && !sy.held

/-- Only a goroutine inside `runJobWrapper` has a token, every token that is out is in a hand or on
its way back, and there are not more than the channel holds. -/
structure TokenInv (cfg : Config) (s : State) : Prop where
  held : ∀ r ∈ s.runs, ∀ sy, r.sync = some sy → sy.held = true → sy.running = true
  tokens : s.semaphore = s.runs.countP Run.holds + s.releasing
  limit : s.semaphore ≤ cfg.concurrent

theorem tokenInv_init : TokenInv cfg .init where
  held := by
    intro _ h
    cases h
  tokens := rfl
  limit := Nat.zero_le _

theorem not_held_of_signals {sy : Sync} (h : sy.held = true → sy.running = true)
    (hs : sy.signals = true) : sy.held = false := by
  obtain ⟨kill, held, pc⟩ := sy
  cases held with
  | false => rfl
  | true => cases pc <;> first | cases hs; done | cases h rfl

/-- What a replacement of one invocation needs for the tokens: the new goroutine keeps the rule,
and the number of tokens in hands goes with the semaphore. -/
theorem TokenInv.set {i : ℕ} {r r' : Run} (hi : TokenInv cfg s) (hr : s.runs[i]? = some r)
    (hruns : s'.runs = s.runs.set i r')
    (hh : ∀ sy, r'.sync = some sy → sy.held = true → sy.running = true)
    (ht : s'.semaphore + s.releasing + r.holds.toNat =
      s.semaphore + s'.releasing + r'.holds.toNat)
    (hl : s'.semaphore ≤ cfg.concurrent) : TokenInv cfg s' where
  held := by
    rw [hruns]
    exact Pool.forall_set hi.held hh
  tokens := by
    have hset : (s.runs.set i r').countP Run.holds + r.holds.toNat =
        s.runs.countP Run.holds + r'.holds.toNat := Pool.countP_set Run.holds hr
    have htok := hi.tokens
    rw [hruns]
    omega
  limit := hl

/-- A step of an invocation that leaves its goroutine. -/
theorem TokenInv.same {i : ℕ} {r r' : Run} (hi : TokenInv cfg s) (hr : s.runs[i]? = some r)
    (hruns : s'.runs = s.runs.set i r') (hsync : r'.sync = r.sync)
    (hsem : s'.semaphore = s.semaphore) (hrel : s'.releasing = s.releasing) :
    TokenInv cfg s' := by
  refine hi.set hr hruns ?_ ?_ (hsem ▸ hi.limit)
  · rw [hsync]
    exact hi.held r (List.mem_of_getElem? hr)
  · rw [hsem, hrel]
    unfold Run.holds
    rw [hsync]

/-- `<-jobDone` takes a goroutine without a token off the invocation. -/
theorem TokenInv.join {i : ℕ} {r : Run} {pc : RunPc} (hi : TokenInv cfg s)
    (hr : s.runs[i]? = some r) (hs : r.sync.any Sync.signals = true) :
    TokenInv cfg (s.setRun i { r with sync := none, pc := pc }) := by
  refine hi.set hr rfl nofun ?_ hi.limit
  have hh : r.holds = false := by
    have hheld := hi.held r (List.mem_of_getElem? hr)
    unfold Run.holds
    cases hsy : r.sync with
    | none => rfl
    | some sy =>
        rw [hsy] at hs
        exact not_held_of_signals (hheld sy hsy) hs
  rw [hh]
  rfl

theorem Step.tokenInv_sync (h : Step cfg s l s') (hl : l.party = .sync) (hi : TokenInv cfg s) :
    TokenInv cfg s' := by
  have hheld := fun {i : ℕ} {r : Run} (hr : s.runs[i]? = some r) =>
    hi.held r (List.mem_of_getElem? hr)
  have held_eq : ∀ {r : Run} {sy : Sync}, r.sync = some sy → r.holds = sy.held := by
    intro r sy hsy
    unfold Run.holds
    rw [hsy]
    rfl
  have idle : ∀ {i : ℕ} {r : Run} {sy : Sync}, s.runs[i]? = some r → r.sync = some sy →
      sy.pc = .select → sy.held = false := by
    intro i r sy hr hsy hp
    cases hx : sy.held with
    | false => rfl
    | true =>
        have hrun := hheld hr sy hsy hx
        unfold Sync.running at hrun
        rw [hp] at hrun
        cases hrun
  cases h with
  | acquire i r sy hr hsy hp hc =>
      refine hi.set hr rfl ?_ ?_ hc
      · rintro _ ⟨⟩ -
        rfl
      · rw [held_eq hsy, idle hr hsy hp]
        simp only [State.setRun, Run.holds, Option.any_some, Bool.toNat_false, Bool.toNat_true]
        omega
  | bypass i r sy hr hsy hp hb =>
      refine hi.set hr rfl ?_ ?_ hi.limit
      · rintro _ ⟨⟩ -
        rfl
      · rw [held_eq hsy]
        rfl
  | kill i r sy hr hsy hp hk =>
      refine hi.set hr rfl ?_ ?_ hi.limit
      · rintro _ ⟨⟩ hx
        rw [idle hr hsy hp] at hx
        cases hx
      · rw [held_eq hsy]
        rfl
  | op i r sy x e k a hr hsy hp ha =>
      refine hi.set hr rfl ?_ ?_ hi.limit
      · rintro _ ⟨⟩ -
        rfl
      · rw [held_eq hsy]
        rfl
  | finish i r sy hr hsy hp =>
      refine hi.set hr rfl ?_ ?_ hi.limit
      · rintro _ ⟨⟩ hx
        cases hx
      · rw [held_eq hsy]
        simp only [State.setRun, Run.holds, Option.any_some, Bool.toNat_false]
        omega
  | release hp =>
      have htok := hi.tokens
      have hlim := hi.limit
      refine ⟨hi.held, ?_, ?_⟩
      · dsimp only
        omega
      · dsimp only
        omega
  | _ => cases hl

theorem Step.tokenInv (h : Step cfg s l s') (hs : SyncsOk s) (hi : TokenInv cfg s) :
    TokenInv cfg s' := by
  have spawned : ∀ t : State, t.runs = s.runs ++ [({} : Run)] → t.semaphore = s.semaphore →
      t.releasing = s.releasing → TokenInv cfg t := by
    intro t hruns hsem hrel
    refine ⟨hruns ▸ Pool.forall_append hi.held nofun, ?_, hsem ▸ hi.limit⟩
    have htok := hi.tokens
    have hlast : List.countP Run.holds [({} : Run)] = 0 := rfl
    rw [hruns, List.countP_append, hlast]
    omega
  cases h with
  | spawn a _ => exact spawned _ rfl rfl rfl
  | schedSpawn now t _ => exact spawned _ rfl rfl rfl
  | prologue i r hr _ | topReady i r hr _ _ | topIdle i r hr _ _ | waitRecv i r _ hr _ _
  | wake i r hr _ | idleRecv i r _ hr _ _ | ret i r hr _ _ => exact hi.same hr rfl rfl rfl rfl
  | waitAct i r a hr _ => exact hi.same hr rfl (sync_waitRun r a) rfl rfl
  | idleAct i r a hr _ => exact hi.same hr rfl (sync_idleRun r a) rfl rfl
  | launch i r hr hp =>
      have hnone : r.sync = none := by
        have hok := hs r (List.mem_of_getElem? hr)
        unfold Run.SyncOk at hok
        rwa [hp] at hok
      refine hi.set hr rfl ?_ ?_ hi.limit
      · rintro _ ⟨⟩ hx
        cases hx
      · unfold Run.holds
        rw [hnone]
        rfl
  | closeKill i r a hr _ =>
      have hheld := hi.held r (List.mem_of_getElem? hr)
      refine hi.set hr rfl ?_ ?_ hi.limit
      · intro sy hsy hx
        obtain ⟨sy₀, h₀, rfl⟩ := Option.map_eq_some_iff.mp hsy
        exact hheld sy₀ h₀ hx
      · unfold Run.holds
        cases r.sync <;> rfl
  | join i r a hr _ hsig => exact hi.join hr hsig
  | done i r hr _ hsig => exact hi.join hr hsig
  | acquire i r sy hr hsy hp hc => exact Step.tokenInv_sync (.acquire i r sy hr hsy hp hc) rfl hi
  | bypass i r sy hr hsy hp hb => exact Step.tokenInv_sync (.bypass i r sy hr hsy hp hb) rfl hi
  | kill i r sy hr hsy hp hk => exact Step.tokenInv_sync (.kill i r sy hr hsy hp hk) rfl hi
  | op i r sy x e k a hr hsy hp ha =>
      exact Step.tokenInv_sync (.op i r sy x e k a hr hsy hp ha) rfl hi
  | finish i r sy hr hsy hp => exact Step.tokenInv_sync (.finish i r sy hr hsy hp) rfl hi
  | release hp => exact Step.tokenInv_sync (.release hp) rfl hi
  | _ => exact ⟨hi.held, hi.tokens, hi.limit⟩

theorem run_tokenInv (hr : Lts.run (step cfg) .init ls = some s) : TokenInv cfg s := by
  have both : ∀ a l b, WF a ∧ TokenInv cfg a → step cfg a l = some b → WF b ∧ TokenInv cfg b :=
    fun a l b hi h => ⟨(step_cases h).wf hi.1, (step_cases h).tokenInv hi.1.sync hi.2⟩
  exact (Lts.run_invariant' both ⟨wf_init, tokenInv_init⟩ hr).2

/-! ### Force starts -/

/-- A `jobForceStart` that was received and not yet acted on. -/
def RunPc.forcing : RunPc → Bool
  | waitGot .forceStart | idleGot .forceStart => true
  | _ => false

/-- The force starts an invocation has in hand: received, waiting in `bypassSemaphore`, or used by
the sync goroutine that runs. -/
def Run.force (r : Run) : ℕ := r.forced.toNat + r.bypass.toNat + r.pc.forcing.toNat

def runsForce (l : List Run) : ℕ :=
  l.countP Run.forced + l.countP Run.bypass + l.countP (·.pc.forcing)

/-- The force starts that are under way or in use. -/
def forceCredit (s : State) : ℕ :=
  (s.handler.any fun pc => pc.carries == some .forceStart).toNat +
    (s.ctrlChan == some .forceStart).toNat + runsForce s.runs

/-- A force-start command. -/
def Label.forceStarts : Label → Bool
  | .command (some ⟨.start, true⟩) => true
  | _ => false

theorem runsForce_set {l : List Run} {i : ℕ} {r : Run} (r' : Run) (hr : l[i]? = some r) :
    runsForce (l.set i r') + r.force = runsForce l + r'.force := by
  have count : ∀ p : Run → Bool,
      (l.set i r').countP p + (p r).toNat = l.countP p + (p r').toNat :=
    fun p => Pool.countP_set p hr
  have h₁ := count Run.forced
  have h₂ := count Run.bypass
  have h₃ := count (fun r : Run => r.pc.forcing)
  unfold runsForce Run.force
  omega

theorem runsForce_append (l : List Run) : runsForce (l ++ [({} : Run)]) = runsForce l := by
  unfold runsForce
  rw [List.countP_append, List.countP_append, List.countP_append]
  rfl

theorem force_waitRun_le {r : Run} {a : CtrlAction} (hp : r.pc = .waitGot a) :
    (waitRun r a).force ≤ r.force := by
  unfold Run.force Run.forced
  rw [sync_waitRun, hp]
  cases a with
  | forceStart =>
      simp only [waitRun, RunPc.forcing, Bool.toNat_true, Bool.toNat_false]
      omega
  | start | stop | disable | restart | halt | ping => exact Nat.le_refl _

theorem force_idleRun_le {r : Run} {a : CtrlAction} (hp : r.pc = .idleGot a) :
    (idleRun r a).force ≤ r.force := by
  unfold Run.force Run.forced
  rw [sync_idleRun, hp]
  cases a with
  | forceStart =>
      simp only [idleRun, RunPc.forcing, Bool.toNat_true, Bool.toNat_false]
      omega
  | start | stop | disable | restart | halt | ping => exact Nat.le_refl _

/-- An invocation that received an action has it in place of what was in its counter. -/
theorem force_recv_le {r r' : Run} {a : CtrlAction} (hs : r'.sync = r.sync)
    (hb : r'.bypass = r.bypass) (hp : r'.pc = .waitGot a ∨ r'.pc = .idleGot a) :
    r'.force ≤ r.force + (some a == some CtrlAction.forceStart).toNat := by
  have hpc : r'.pc.forcing.toNat = (some a == some CtrlAction.forceStart).toNat := by
    rcases hp with hp | hp
    · rw [hp]
      cases a <;> rfl
    · rw [hp]
      cases a <;> rfl
  unfold Run.force Run.forced
  rw [hs, hb, hpc]
  omega

/-- A counter that holds no force start. -/
theorem force_le_of_pc {r r' : Run} (hs : r'.sync = r.sync) (hb : r'.bypass = r.bypass)
    (hp : r'.pc.forcing = false) : r'.force ≤ r.force := by
  unfold Run.force Run.forced
  rw [hs, hb, hp, Bool.toNat_false]
  omega

theorem forceCredit_set {i : ℕ} {r r' : Run} {t : State} (hr : s.runs[i]? = some r)
    (hruns : t.runs = s.runs.set i r') (hh : t.handler = s.handler)
    (hc : t.ctrlChan = s.ctrlChan) (hle : r'.force ≤ r.force) :
    forceCredit t ≤ forceCredit s := by
  have hset := runsForce_set r' hr
  unfold forceCredit
  rw [hruns, hh, hc]
  omega

theorem forceCredit_recv {i : ℕ} {r r' : Run} {a : CtrlAction} (hr : s.runs[i]? = some r)
    (ha : s.ctrlChan = some a)
    (hle : r'.force ≤ r.force + (some a == some CtrlAction.forceStart).toNat) :
    forceCredit ({ s with ctrlChan := none }.setRun i r') ≤ forceCredit s := by
  have hset := runsForce_set r' hr
  have hnone : ((none : Option CtrlAction) == some CtrlAction.forceStart).toNat = 0 := rfl
  unfold forceCredit State.setRun
  rw [ha, hnone]
  dsimp only
  omega

theorem forceCredit_handler {pc pc' : HandlerPc} {t : State} (hh : s.handler = some pc)
    (ht : t.handler = some pc') (hc : t.ctrlChan = s.ctrlChan)
    (hruns : runsForce t.runs = runsForce s.runs)
    (hle : pc'.carries = pc.carries ∨ pc'.carries ≠ some .forceStart) :
    forceCredit t ≤ forceCredit s := by
  unfold forceCredit
  rw [hh, ht, hc, hruns]
  simp only [Option.any_some]
  rcases hle with hle | hle
  · rw [hle]
  · have hf : (pc'.carries == some CtrlAction.forceStart) = false := by simpa using hle
    rw [hf, Bool.toNat_false]
    omega

theorem forceStarts_command (c : ClientCmd) :
    ((HandlerPc.remove c).carries == some .forceStart) =
      (Label.command (some c)).forceStarts := by
  obtain ⟨cmd, force⟩ := c
  cases cmd <;> cases force <;> rfl

theorem Step.forceCredit_handler (h : Step cfg s l s') (hl : l.party = .handler) :
    forceCredit s' ≤ forceCredit s + l.forceStarts.toNat := by
  cases h with
  | badCommand hlock =>
      have hnone := (locked_eq_false.mp hlock).1
      unfold forceCredit
      rw [hnone]
      exact Nat.le_refl _
  | command c hlock =>
      have hnone := (locked_eq_false.mp hlock).1
      have hforce := forceStarts_command c
      unfold forceCredit
      rw [hnone, ← hforce]
      simp only [Option.any_some, Option.any_none, Bool.toNat_false]
      omega
  | remove c hh _ =>
      exact Worker.forceCredit_handler hh rfl rfl rfl (.inl (carries_afterRemove c))
  | guardSpawn a hh _ | guardSend a hh _ =>
      exact Worker.forceCredit_handler hh rfl rfl rfl (.inl rfl)
  | spawn a hh =>
      exact Worker.forceCredit_handler hh rfl rfl (runsForce_append s.runs) (.inl rfl)
  | checkSend hh _ => exact Worker.forceCredit_handler hh rfl rfl rfl (.inl rfl)
  | checkSkip hh _ => exact Worker.forceCredit_handler hh rfl rfl rfl (.inr (by decide))
  | send a hh hc =>
      -- the action goes from the handler into the channel
      unfold forceCredit
      rw [hh, hc]
      simp only [Option.any_some, HandlerPc.carries]
      have hnone : ((none : Option CtrlAction) == some CtrlAction.forceStart).toNat = 0 := rfl
      rw [hnone]
      omega
  | reply code hh =>
      unfold forceCredit
      simp only [Option.any_none, Bool.toNat_false]
      omega
  | _ => cases hl

theorem Step.forceCredit_sync (h : Step cfg s l s') (hl : l.party = .sync) :
    forceCredit s' ≤ forceCredit s := by
  have forced_eq : ∀ {r : Run} {sy : Sync}, r.sync = some sy →
      r.forced = (sy.running && !sy.held) := by
    intro r sy hsy
    unfold Run.forced
    rw [hsy]
    rfl
  cases h with
  | acquire i r sy hr hsy hp hc =>
      refine forceCredit_set hr rfl rfl rfl ?_
      simp only [Run.force, Run.forced, Option.any_some, Bool.not_true, Bool.and_false,
        Bool.toNat_false]
      omega
  | bypass i r sy hr hsy hp hb =>
      refine forceCredit_set hr rfl rfl rfl ?_
      have hle := Bool.toNat_le (Run.forced { r with
        bypass := false, sync := some { sy with pc := .body (runJobWrapper cfg.provider) } })
      unfold Run.force
      rw [hb, Bool.toNat_true]
      simp only [Bool.toNat_false]
      omega
  | kill i r sy hr hsy hp hk =>
      refine forceCredit_set hr rfl rfl rfl ?_
      simp only [Run.force, Run.forced, Option.any_some, Sync.running, Bool.false_and,
        Bool.toNat_false]
      omega
  | op i r sy x e k a hr hsy hp ha =>
      refine forceCredit_set hr rfl rfl rfl ?_
      unfold Run.force
      rw [forced_eq hsy]
      unfold Sync.running
      rw [hp]
      exact Nat.le_refl _
  | finish i r sy hr hsy hp =>
      refine forceCredit_set hr rfl rfl rfl ?_
      simp only [Run.force, Run.forced, Option.any_some, Sync.running, Bool.false_and,
        Bool.toNat_false]
      omega
  | release _ => exact Nat.le_refl _
  | _ => cases hl

theorem Step.forceCredit_run (h : Step cfg s l s') (hl : l.party = .run) :
    forceCredit s' ≤ forceCredit s := by
  cases h with
  | prologue i r hr _ | topReady i r hr _ _ | topIdle i r hr _ _ | wake i r hr _
  | ret i r hr _ _ => exact forceCredit_set hr rfl rfl rfl (force_le_of_pc rfl rfl rfl)
  | launch i r hr _ | done i r hr _ _ =>
      refine forceCredit_set hr rfl rfl rfl ?_
      simp only [Run.force, Run.forced, Option.any_some, Option.any_none, Sync.running,
        Bool.false_and, RunPc.forcing, Bool.toNat_false]
      omega
  | join i r a hr _ _ =>
      refine forceCredit_set hr rfl rfl rfl ?_
      have hpc : (afterJoin a).forcing = false := by cases a <;> rfl
      simp only [Run.force, Run.forced, Option.any_none, hpc, Bool.toNat_false]
      omega
  | closeKill i r a hr _ =>
      refine forceCredit_set hr rfl rfl rfl ?_
      have hpc : (afterKill a).forcing = false := by cases a <;> rfl
      have hsync : (r.sync.map fun sy => { sy with kill := true }).any
          (fun sy => sy.running && !sy.held) = r.forced := by
        unfold Run.forced
        cases r.sync <;> rfl
      unfold Run.force
      rw [hpc, ← hsync, Bool.toNat_false]
      exact Nat.le_add_right _ _
  | waitRecv i r a hr _ ha => exact forceCredit_recv hr ha (force_recv_le rfl rfl (.inl rfl))
  | idleRecv i r a hr _ ha => exact forceCredit_recv hr ha (force_recv_le rfl rfl (.inr rfl))
  | waitAct i r a hr hp => exact forceCredit_set hr rfl rfl rfl (force_waitRun_le hp)
  | idleAct i r a hr hp => exact forceCredit_set hr rfl rfl rfl (force_idleRun_le hp)
  | _ => cases hl

theorem Step.forceCredit_le (h : Step cfg s l s') :
    forceCredit s' ≤ forceCredit s + l.forceStarts.toNat := by
  cases hl : l.party with
  | handler => exact h.forceCredit_handler hl
  | sync => exact Nat.le_add_right_of_le (h.forceCredit_sync hl)
  | run => exact Nat.le_add_right_of_le (h.forceCredit_run hl)
  | schedule | halt =>
      cases h with
      | schedSpawn now t _ =>
          unfold forceCredit
          rw [runsForce_append]
          exact Nat.le_add_right _ _
      | start now _ hc | haltSend _ hc =>
          -- neither of the two sends a force start
          unfold forceCredit
          rw [hc]
          exact Nat.le_add_right _ _
      | _ => first | exact Nat.le_add_right _ _ | cases hl

theorem run_forceCredit {s₀ : State} (hr : Lts.run (step cfg) s₀ ls = some s) :
    forceCredit s ≤ forceCredit s₀ + ls.countP Label.forceStarts := by
  induction ls generalizing s₀ with
  | nil =>
      cases hr
      exact Nat.le_refl _
  | cons l ls ih =>
      obtain ⟨s₁, hstep, hr⟩ := Lts.run_cons.mp hr
      have hone := (step_cases hstep).forceCredit_le
      have hrest := ih hr
      rw [List.countP_cons]
      cases hl : l.forceStarts with
      | false =>
          rw [hl, Bool.toNat_false] at hone
          simp only [Bool.false_eq_true, if_false]
          omega
      | true =>
          rw [hl, Bool.toNat_true] at hone
          simp only [if_true]
          omega

theorem holds_or_forced_of_syncing (r : Run) (h : r.syncing = true) :
    r.holds = true ∨ r.forced = true := by
  unfold Run.syncing at h
  unfold Run.holds Run.forced
  cases hs : r.sync with
  | none =>
      rw [hs] at h
      cases h
  | some sy =>
      rw [hs, Option.any_some] at h
      simp only [Option.any_some, h, Bool.true_and]
      cases sy.held with
      | true => exact .inl rfl
      | false => exact .inr rfl

/-- **The concurrency limit.**  Whatever commands arrive and however the goroutines interleave, no
more sync runs are inside `runJobWrapper` than the semaphore has slots and force-start commands
have arrived. -/
theorem syncs_limited (hr : Lts.run (step cfg) .init ls = some s) :
    s.runs.countP Run.syncing ≤ cfg.concurrent + ls.countP Label.forceStarts := by
  have htok := run_tokenInv hr
  have hsem := htok.tokens
  have hlim := htok.limit
  have hcredit := run_forceCredit hr
  have hzero : forceCredit .init = 0 := rfl
  have hforced : s.runs.countP Run.forced ≤ forceCredit s := by
    unfold forceCredit runsForce
    omega
  have hcover := Pool.countP_le_add holds_or_forced_of_syncing s.runs
  omega

theorem syncs_limited_on_start : ∃ s,
    Lts.run (step plainConfig) .init (bootNew ++ popAndLaunch ++ startProvider) = some s ∧
      s.runs.countP Run.syncing ≤ 1 := by
  obtain ⟨s, hr⟩ : ∃ s, Lts.run (step plainConfig) .init
    (bootNew ++ popAndLaunch ++ startProvider) = some s := ⟨_, rfl⟩
  exact ⟨s, hr, syncs_limited hr⟩

/-! ### The interval between two scheduled starts -/

/-- The clock reading of a step. -/
def Label.reads : Label → Option ℤ
  | .sched now | .tick now => some now
  | _ => none

/-- Past the call of `AddJob` in the start-up. -/
def SchedPc.booted : SchedPc → Bool
  | lock | fetch | setup _ | spawn _ | add _ => false
  | _ => true

/-- The entry in the slot, if there is one, is due an interval after `t` at the earliest. -/
def SpacedFrom (cfg : Config) (t : ℤ) (s : State) : Prop :=
  s.sched.booted = true ∧ (s.schedule.sched = true →
    t + cfg.provider.interval < (s.schedule.nextScheduled + 1) * 1000000000)

theorem Step.spacedFrom {t : ℤ} (h : Step cfg s l s') (hclock : ∀ now, l.reads = some now → t ≤ now)
    (hi : SpacedFrom cfg t s) : SpacedFrom cfg t s' := by
  obtain ⟨hb, hs⟩ := hi
  cases h with
  | remove c _ _ => exact ⟨hb, fun hx => by cases hx⟩
  | tickStart now _ _ _ _ => exact ⟨rfl, fun hx => by cases hx⟩
  | schedLock now hpc _ | setup now _ hpc | schedSpawn now _ hpc | add now _ hpc _ _
  | addBlocked now _ hpc _ =>
      rw [hpc] at hb
      cases hb
  | fetched st hpc =>
      rw [hpc] at hb
      cases hb
  | addJob now m hpc _ _ _ =>
      refine ⟨rfl, fun _ => ?_⟩
      have hnow : t ≤ now := hclock now rfl
      dsimp only
      omega
  | addJobBlocked now m hpc _ _ => exact ⟨rfl, hs⟩
  | unlock _ _ | getJob _ _ | upload _ _ _ | message _ _ _ _ | checkReady _ _ _ _
  | checkOther _ _ _ _ | check2Go _ _ _ _ | check2Skip _ _ _ _ | update _ _ _
  | addJobPlain _ _ _ _ | start _ _ _ | exited _ _ | exitLock _ _ _ | flushReport _ _ _ _ _ _
  | flushDrop _ _ _ _ _ _ | flushEnd _ _ _ | flushUpdate _ _ _ => exact ⟨rfl, hs⟩
  | _ => exact ⟨hb, hs⟩

/-- A tick that takes `runSchedule` to the send has popped an entry that was due. -/
theorem tick_pops {now : ℤ} (h : step cfg s (.tick now) = some s') (hs : s'.sched = .start) :
    s.schedule.sched = true ∧ s.schedule.nextScheduled * 1000000000 < now ∧
      s'.schedule.sched = false := by
  cases step_cases h with
  | tickStart _ _ _ hsched hdue => exact ⟨hsched, hdue, rfl⟩
  | tickNone _ hloop _ _ =>
      rw [hloop] at hs
      cases hs

/-- **Scheduled starts keep the interval.**  If the ticker starts the job at `t₁` and again at
`t₂`, and no clock reading in between lies before `t₁`, then the interval of the job has passed,
up to the second that the entry is rounded down by.  Commands, restarts and failed attempts in
between make no difference. -/
theorem starts_spaced {mid : List Label} {s₀ s₁ s₂ : State} {t₁ t₂ : ℤ}
    (hpop₁ : step cfg s₀ (.tick t₁) = some s₁) (hstart₁ : s₁.sched = .start)
    (hmid : Lts.run (step cfg) s₁ mid = some s₂)
    (hclock : ∀ l ∈ mid, ∀ now, l.reads = some now → t₁ ≤ now)
    (hpop₂ : step cfg s₂ (.tick t₂) = some s) (hstart₂ : s.sched = .start) :
    t₁ + cfg.provider.interval < t₂ + 1000000000 := by
  have hfirst : SpacedFrom cfg t₁ s₁ := by
    refine ⟨by rw [hstart₁]; rfl, fun hx => ?_⟩
    rw [(tick_pops hpop₁ hstart₁).2.2] at hx
    cases hx
  have hkeep : ∀ a l b, SpacedFrom cfg t₁ a → (∀ now, l.reads = some now → t₁ ≤ now) →
      step cfg a l = some b → SpacedFrom cfg t₁ b :=
    fun a l b hi hc h => (step_cases h).spacedFrom hc hi
  have hlast : SpacedFrom cfg t₁ s₂ :=
    Lts.run_invariant hkeep hfirst (Lts.along_of_labels s₁ hclock) hmid
  obtain ⟨hsched, hdue, -⟩ := tick_pops hpop₂ hstart₂
  have hnext := hlast.2 hsched
  omega

/-- The interval of `plainConfig` is a day. -/
theorem starts_spaced_on_success : ∃ s₀ s₁ s₂ s,
    Lts.run (step plainConfig) .init bootNew = some s₀ ∧
      step plainConfig s₀ (.tick due) = some s₁ ∧
      Lts.run (step plainConfig) s₁ (popAndLaunch.tail ++ startProvider ++ succeed ++
        handleThree) = some s₂ ∧
      step plainConfig s₂ (.tick (2 * due)) = some s ∧
      due + plainConfig.provider.interval < 2 * due + 1000000000 := by
  obtain ⟨s₀, s₁, s₂, s, hboot, hpop₁, hstart₁, hmid, hpop₂, hstart₂⟩ : ∃ s₀ s₁ s₂ s,
      Lts.run (step plainConfig) .init bootNew = some s₀ ∧
        step plainConfig s₀ (.tick due) = some s₁ ∧ s₁.sched = .start ∧
        Lts.run (step plainConfig) s₁ (popAndLaunch.tail ++ startProvider ++ succeed ++
          handleThree) = some s₂ ∧
        step plainConfig s₂ (.tick (2 * due)) = some s ∧ s.sched = .start :=
    ⟨_, _, _, _, rfl, rfl, rfl, rfl, rfl, rfl⟩
  have hclock : ∀ l ∈ popAndLaunch.tail ++ startProvider ++ succeed ++ handleThree,
      ∀ now, l.reads = some now → due ≤ now := by
    simp [popAndLaunch, startProvider, succeed, handleThree, handleMessage, Label.reads]
  exact ⟨s₀, s₁, s₂, s, hboot, hpop₁, hmid, hpop₂,
    starts_spaced hpop₁ hstart₁ hmid hclock hpop₂ hstart₂⟩

/-! ### `Halt` -/

/-- Between `jobsDone.Add(1)` and `jobsDone.Done()`. -/
def Run.begun (r : Run) : Bool :=
  match r.pc with
  | .spawned | .gone => false
  | _ => true

theorem begun_waitRun (r : Run) (a : CtrlAction) : (waitRun r a).begun = true := by
  cases a <;> rfl

theorem begun_idleRun (r : Run) (a : CtrlAction) : (idleRun r a).begun = true := by
  cases a <;> rfl

theorem begun_at {r : Run} {pc : RunPc} (hp : r.pc = pc) :
    r.begun = ({ r with pc := pc } : Run).begun := by
  rw [← hp]

/-- The wait group counts the invocations that have begun and not returned. -/
def JobsDoneOk (s : State) : Prop := s.jobsDone = s.runs.countP Run.begun

theorem JobsDoneOk.set {i : ℕ} {r r' : Run} {t : State} (hi : JobsDoneOk s)
    (hr : s.runs[i]? = some r) (hruns : t.runs = s.runs.set i r')
    (hj : t.jobsDone + r.begun.toNat = s.jobsDone + r'.begun.toNat) : JobsDoneOk t := by
  have hset : (s.runs.set i r').countP Run.begun + r.begun.toNat =
      s.runs.countP Run.begun + r'.begun.toNat := Pool.countP_set Run.begun hr
  unfold JobsDoneOk at hi ⊢
  rw [hruns]
  omega

theorem Step.jobsDoneOk (h : Step cfg s l s') (hi : JobsDoneOk s) : JobsDoneOk s' := by
  have keep : ∀ {i : ℕ} {r r' : Run} {t : State}, s.runs[i]? = some r →
      t.runs = s.runs.set i r' → t.jobsDone = s.jobsDone → r'.begun = r.begun →
      JobsDoneOk t := by
    intro i r r' t hr hruns hj hb
    refine hi.set hr hruns ?_
    rw [hj, hb]
  have spawned : ∀ t : State, t.runs = s.runs ++ [({} : Run)] → t.jobsDone = s.jobsDone →
      JobsDoneOk t := by
    intro t hruns hj
    have hlast : List.countP Run.begun [({} : Run)] = 0 := rfl
    unfold JobsDoneOk at hi ⊢
    rw [hruns, List.countP_append, hlast, hj]
    exact hi
  cases h with
  | spawn a _ => exact spawned _ rfl rfl
  | schedSpawn now t _ => exact spawned _ rfl rfl
  | prologue i r hr hp =>
      refine hi.set hr rfl ?_
      rw [begun_at hp]
      rfl
  | ret i r hr hp _ =>
      refine hi.set hr rfl ?_
      have hpos : 0 < s.runs.countP Run.begun := by
        refine List.countP_pos_iff.mpr ⟨r, List.mem_of_getElem? hr, ?_⟩
        rw [begun_at hp]
        rfl
      have hj : s.jobsDone = s.runs.countP Run.begun := hi
      rw [begun_at hp]
      simp only [State.setRun, Run.begun, Bool.toNat_true, Bool.toNat_false]
      omega
  | topReady i r hr hp _ | topIdle i r hr hp _ | launch i r hr hp | waitRecv i r _ hr hp _
  | wake i r hr hp | idleRecv i r _ hr hp _ =>
      refine keep hr rfl rfl ?_
      rw [begun_at hp]
      rfl
  | waitAct i r a hr hp =>
      refine keep hr rfl rfl ?_
      rw [begun_at hp, begun_waitRun]
      rfl
  | idleAct i r a hr hp =>
      refine keep hr rfl rfl ?_
      rw [begun_at hp, begun_idleRun]
      rfl
  | closeKill i r a hr hp | join i r a hr hp _ =>
      refine keep hr rfl rfl ?_
      rw [begun_at hp]
      cases a <;> rfl
  | done i r hr hp _ =>
      refine keep hr rfl rfl ?_
      rw [begun_at hp]
      rfl
  | acquire i r sy hr _ _ _ | bypass i r sy hr _ _ _ | kill i r sy hr _ _ _
  | op i r sy _ _ _ _ hr _ _ _ | finish i r sy hr _ _ => exact keep hr rfl rfl rfl
  | _ => exact hi

theorem run_jobsDoneOk (hr : Lts.run (step cfg) .init ls = some s) : JobsDoneOk s := by
  have hinit : JobsDoneOk .init := rfl
  exact Lts.run_invariant' (fun _ _ _ hi h => (step_cases h).jobsDoneOk hi) hinit hr

/-- A start or restart command. -/
def Label.startsJob : Label → Bool
  | .command (some c) => c.cmd == .start || c.cmd == .restart
  | _ => false

/-- A handler that is going to spawn an invocation. -/
def HandlerPc.mayStart : HandlerPc → Bool
  | remove c => c.cmd == .start || c.cmd == .restart
  | guard _ | spawn _ => true
  | _ => false

/-- Every invocation has returned, and nothing is going to spawn another one. -/
structure Quieted (s : State) : Prop where
  gone : ∀ r ∈ s.runs, r.pc = .gone ∧ r.sync = none
  handler : ∀ pc, s.handler = some pc → pc.mayStart = false
  booted : s.sched.fresh = false

theorem mayStart_afterRemove (c : ClientCmd) :
    (afterRemove c).mayStart = (HandlerPc.remove c).mayStart := by
  obtain ⟨cmd, force⟩ := c
  cases cmd <;> rfl

theorem Step.quieted (h : Step cfg s l s') (hl : l.startsJob = false) (hi : Quieted s) :
    Quieted s' := by
  obtain ⟨hg, hh, hb⟩ := hi
  have ended : ∀ {i : ℕ} {r : Run} {pc : RunPc}, s.runs[i]? = some r → r.pc = pc →
      pc = .gone := by
    intro i r pc hr hp
    rw [← hp]
    exact (hg r (List.mem_of_getElem? hr)).1
  have none_left : ∀ {i : ℕ} {r : Run} {sy : Sync}, s.runs[i]? = some r → r.sync = some sy →
      False := by
    intro i r sy hr hsy
    rw [(hg r (List.mem_of_getElem? hr)).2] at hsy
    cases hsy
  cases h with
  | badCommand _ => exact ⟨hg, fun pc hpc => by cases hpc; rfl, hb⟩
  | command c _ => exact ⟨hg, fun pc hpc => by cases hpc; exact hl, hb⟩
  | remove c hpc _ =>
      refine ⟨hg, fun pc hpc' => ?_, hb⟩
      cases hpc'
      rw [mayStart_afterRemove]
      exact hh _ hpc
  | guardSpawn a hpc _ | guardSend a hpc _ | spawn a hpc => cases hh _ hpc
  | checkSend _ _ | checkSkip _ _ | send _ _ _ =>
      exact ⟨hg, fun pc hpc => by cases hpc; rfl, hb⟩
  | reply _ _ => exact ⟨hg, fun pc hpc => (by cases hpc), hb⟩
  | schedLock _ hpc _ | setup _ _ hpc | schedSpawn _ _ hpc =>
      rw [hpc] at hb
      cases hb
  | fetched _ hpc =>
      rw [hpc] at hb
      cases hb
  | add _ _ _ _ _ | addBlocked _ _ _ _ | unlock _ _ | getJob _ _ | upload _ _ _
  | message _ _ _ _ | checkReady _ _ _ _ | checkOther _ _ _ _ | check2Go _ _ _ _
  | check2Skip _ _ _ _ | update _ _ _ | addJob _ _ _ _ _ _ | addJobBlocked _ _ _ _ _
  | addJobPlain _ _ _ _ | tickStart _ _ _ _ _ | start _ _ _ | exited _ _ | exitLock _ _ _
  | flushReport _ _ _ _ _ _ | flushDrop _ _ _ _ _ _ | flushEnd _ _ _ | flushUpdate _ _ _ =>
      exact ⟨hg, hh, rfl⟩
  | prologue _ _ hr hp | topReady _ _ hr hp _ | topIdle _ _ hr hp _ | launch _ _ hr hp
  | waitRecv _ _ _ hr hp _ | waitAct _ _ _ hr hp | closeKill _ _ _ hr hp | join _ _ _ hr hp _
  | wake _ _ hr hp | idleRecv _ _ _ hr hp _ | idleAct _ _ _ hr hp | ret _ _ hr hp _ =>
      cases ended hr hp
  | done _ _ hr hp _ => cases ended hr hp
  | acquire _ _ _ hr hsy _ _ | bypass _ _ _ hr hsy _ _ | kill _ _ _ hr hsy _ _
  | op _ _ _ _ _ _ _ hr hsy _ _ | finish _ _ _ hr hsy _ => exact (none_left hr hsy).elim
  | _ => exact ⟨hg, hh, hb⟩

/-- `jobsDone.Wait()` returns when every invocation that has begun is gone. -/
theorem quieted_of_waited (hr : Lts.run (step cfg) .init ls = some s) (hw : s.halt = .wait)
    (hj : s.jobsDone = 0) (hb : s.sched.fresh = false) (hsp : ∀ r ∈ s.runs, r.pc ≠ .spawned) :
    Quieted s where
  gone := by
    intro r hmem
    have hnone : s.runs.countP Run.begun = 0 := by
      rw [← run_jobsDoneOk hr, hj]
    have hbegun : ¬ r.begun = true := List.countP_eq_zero.mp hnone r hmem
    have hspawned := hsp r hmem
    have hgone : r.pc = .gone := by
      unfold Run.begun at hbegun
      cases hpc : r.pc <;> rw [hpc] at hbegun hspawned <;>
        first | rfl | exact absurd rfl hbegun | exact absurd rfl hspawned
    have hsync := (run_wf hr).sync r hmem
    unfold Run.SyncOk at hsync
    rw [hgone] at hsync
    exact ⟨hgone, hsync⟩
  handler := by
    intro pc hpc
    have hfree := ((run_wf hr).lock.of_handler hpc).2
    rw [hw] at hfree
    cases hfree
  booted := hb

/-- **Halt is final.**  Once `jobsDone.Wait()` has let `Halt` pass, in a worker that has got through
its start-up and has no invocation that is spawned but not begun, every invocation of `Run` has
returned and no sync goroutine is left; and so it stays, whatever messages, ticks and stop or ping
commands follow, until a start or restart command arrives. -/
theorem halted_quiet {more : List Label} {s₁ s₂ : State}
    (hr : Lts.run (step cfg) .init ls = some s) (hw : s.halt = .wait)
    (hpass : step cfg s .halt = some s₁) (hb : s.sched.fresh = false)
    (hsp : ∀ r ∈ s.runs, r.pc ≠ .spawned) (hmore : Lts.run (step cfg) s₁ more = some s₂)
    (hcalm : ∀ l ∈ more, l.startsJob = false) :
    ∀ r ∈ s₂.runs, r.pc = .gone ∧ r.sync = none := by
  have hj : s.jobsDone = 0 := by
    cases step_cases hpass with
    | haltWait _ hj => exact hj
    | halt hx _ | haltCheck hx _ | haltSkip hx _ | haltSend hx _ | haltClose hx =>
        rw [hw] at hx
        cases hx
  have hfirst : Quieted s₁ :=
    (step_cases hpass).quieted rfl (quieted_of_waited hr hw hj hb hsp)
  have hkeep : ∀ a l b, Quieted a → l.startsJob = false → step cfg a l = some b → Quieted b :=
    fun a l b hi hc h => (step_cases h).quieted hc hi
  have hlast : Quieted s₂ :=
    Lts.run_invariant hkeep hfirst (Lts.along_of_labels s₁ hcalm) hmore
  exact hlast.gone

/-- The worker is booted, halted and has handled the action; afterwards a tick pops the entry of
the start-up and a stop command is served. -/
theorem halted_quiet_on_boot : ∃ s s₁ s₂,
    Lts.run (step plainConfig) .init
      (bootNew ++ [.run 0, .run 0, .halt, .halt, .halt, .run 0, .run 0, .run 0]) = some s ∧
      step plainConfig s .halt = some s₁ ∧
      Lts.run (step plainConfig) s₁ [.tick due, .command (some ⟨.stop, false⟩), .handler] =
        some s₂ ∧
      ∀ r ∈ s₂.runs, r.pc = .gone ∧ r.sync = none := by
  obtain ⟨s, s₁, s₂, hr, hw, hb, hruns, hpass, hmore⟩ : ∃ s s₁ s₂,
      Lts.run (step plainConfig) .init
        (bootNew ++ [.run 0, .run 0, .halt, .halt, .halt, .run 0, .run 0, .run 0]) = some s ∧
        s.halt = .wait ∧ s.sched.fresh = false ∧ s.runs = [⟨.gone, false, none⟩] ∧
        step plainConfig s .halt = some s₁ ∧
        Lts.run (step plainConfig) s₁ [.tick due, .command (some ⟨.stop, false⟩), .handler] =
          some s₂ := ⟨_, _, _, rfl, rfl, rfl, rfl, rfl, rfl⟩
  have hsp : ∀ r ∈ s.runs, r.pc ≠ .spawned := by
    simp [hruns]
  exact ⟨s, s₁, s₂, hr, hpass, hmore, halted_quiet hr hw hpass hb hsp hmore (by decide)⟩

end KubeSync.Worker
