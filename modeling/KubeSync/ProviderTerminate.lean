import KubeSync.Lts
import KubeSync.ProviderSteps

/-! # `Terminate` during a `Run`

One call of `Run` and any number of calls of `Terminate`, in every order of their locked sections.
What a process does with a signal is up to the configured `rsyncCmd`: `errs` says that a process
that was sent one exits with an error, without it the process may also exit with success.

* `Final errs s`: from `s` on, the `Run` starts no process and returns an error, and it does return.
* `terminate_final_iff`: a `Terminate` that returns nil is final exactly if the `Run` has failed
  already, or its process is alive at that time and exits with an error when it is sent a signal.
  It is not final before the first lock, when the process has exited with success, when it exits
  with success behind the signal, and between the stages, where nothing is running. -/

namespace KubeSync.ProviderTerminate

open ProviderProcess

/-- A call of `Terminate` that returns `err`, a step of the `Run`, or the exit of a process. -/
inductive Label where
  | terminate (err : Option String)
  | enter (x : Launch)
  | read
  | exit (c : ℕ) (err : Option String)
  | reap
  | clear
  | resume (x : Launch) (matchErr : Option String)
deriving DecidableEq, Repr

def step (kind : ProviderProcess.Kind) (s : State) : Label → Option State
  | .terminate err => if terminates s err then some (terminate s) else none
  | .enter x => s.calls[0]?.bind fun call => stepEnter kind s 0 call x
  | .read => s.calls[0]?.bind fun call => stepRead s 0 call
  | .exit c err => stepExit s c err
  | .reap => s.calls[0]?.bind fun call => stepReap s 0 call
  | .clear => s.calls[0]?.bind fun call => stepClear s 0 call
  | .resume x matchErr => s.calls[0]?.bind fun call => stepResume kind s 0 call x matchErr

/-- The `Run` is called while nothing is running. -/
structure Called (s : State) : Prop where
  calls : s.calls = [{}]
  isRunning : s.isRunning = false

/-- The `Run` stands at `pc`. -/
def At (s : State) (pc : Pc) : Prop := ∃ started, s.calls = [⟨pc, started⟩]

/-- The step starts a process. -/
def starts (kind : ProviderProcess.Kind) (s : State) (l : Label) : Bool :=
  (step kind s l).any fun s' => s'.cmds == s.cmds ++ [.running false]

/-- The steps that are possible where `errs` says how a process exits that was sent a signal. -/
def signalErr (errs : Bool) (s : State) : Label → Bool
  | .exit c none => !errs || s.cmds[c]? != some (.running true)
  | _ => true

/-- The `Run` can go on to return an error. -/
def CanFail (kind : ProviderProcess.Kind) (errs : Bool) (s : State) : Prop :=
  ∃ ls s' e, Lts.Along (step kind) (fun s l => signalErr errs s l = true) s ls ∧
    Lts.run (step kind) s ls = some s' ∧ At s' (.returned (some e))

/-- In every continuation the `Run` starts no process, what it returns is an error, and it can
always go on to return one. -/
def Final (kind : ProviderProcess.Kind) (errs : Bool) (s : State) : Prop :=
  ∀ ls, Lts.Along (step kind) (fun s l => signalErr errs s l = true) s ls →
    Lts.Along (step kind) (fun s l => starts kind s l = false) s ls ∧
      ∀ s', Lts.run (step kind) s ls = some s' →
        (∀ err, At s' (.returned err) → err ≠ none) ∧ CanFail kind errs s'

/-- The provider is running the command `x`, number `c`. -/
structure Holds (s : State) (c : ℕ) (x : Cmd) : Prop where
  isRunning : s.isRunning = true
  cmd : s.cmd = some c
  get : s.cmds[c]? = some x

/-- The command that the `Run` has started satisfies `P`, or the `Run` has failed or is bound to. -/
def Bound (kind : ProviderProcess.Kind) (P : Cmd → Prop) (s : State) : Prop :=
  ∃ pc, At s pc ∧ match pc with
    | .called => kind.optionsErr .first ≠ none
    | .launched _ => ∃ c x, Holds s c x ∧ P x
    | .waiting _ c => ∃ x, Holds s c x ∧ P x
    | .waited _ err | .cleared _ err | .returned err => err ≠ none

/-- The process has failed, or it is alive and fails when it is sent a signal. -/
def Caught (errs : Bool) (x : Cmd) : Prop :=
  (errs = true ∧ ∃ signalled, x = .running signalled) ∨ ∃ e, x = .exited (some e)

/-- The process has failed, or it was sent a signal and fails. -/
def Lost (errs : Bool) (x : Cmd) : Prop :=
  (errs = true ∧ x = .running true) ∨ ∃ e, x = .exited (some e)

variable {kind : ProviderProcess.Kind} {errs : Bool} {s s' : State} {l : Label}

/-- A step is a `Terminate`, the exit of a process, or a step of the `Run`. -/
theorem step_cases (hs : step kind s l = some s') :
    (∃ err, l = .terminate err ∧ s' = terminate s) ∨
      (∃ c err, l = .exit c err ∧ stepExit s c err = some s') ∨
      ∃ call l', s.calls[0]? = some call ∧ CallStep kind s 0 call l' s' := by
  cases l with
  | terminate err =>
      simp only [step] at hs
      split at hs
      · exact .inl ⟨err, rfl, (Option.some.inj hs).symm⟩
      · cases hs
  | exit c err => exact .inr (.inl ⟨c, err, rfl, hs⟩)
  | enter x =>
      obtain ⟨call, hk, hs⟩ := Option.bind_eq_some_iff.mp hs
      exact .inr (.inr ⟨call, _, hk, stepEnter_cases hs⟩)
  | read =>
      obtain ⟨call, hk, hs⟩ := Option.bind_eq_some_iff.mp hs
      exact .inr (.inr ⟨call, _, hk, stepRead_cases hs⟩)
  | reap =>
      obtain ⟨call, hk, hs⟩ := Option.bind_eq_some_iff.mp hs
      exact .inr (.inr ⟨call, _, hk, stepReap_cases hs⟩)
  | clear =>
      obtain ⟨call, hk, hs⟩ := Option.bind_eq_some_iff.mp hs
      exact .inr (.inr ⟨call, _, hk, stepClear_cases hs⟩)
  | resume x matchErr =>
      obtain ⟨call, hk, hs⟩ := Option.bind_eq_some_iff.mp hs
      exact .inr (.inr ⟨call, _, hk, stepResume_cases hs⟩)

/-! ### `Terminate` -/

theorem Holds.target {c : ℕ} {x : Cmd} (h : Holds s c x) : s.target = some (c, x) := by
  unfold State.target
  rw [if_pos h.isRunning, h.cmd, Option.bind_some, h.get]
  rfl

/-- A process that is alive gets the signal. -/
theorem Holds.signal {c : ℕ} {signalled : Bool} (h : Holds s c (.running signalled)) :
    Holds (terminate s) c (.running true) := by
  unfold ProviderProcess.terminate
  rw [h.target]
  refine ⟨h.isRunning, h.cmd, ?_⟩
  exact List.getElem?_set_self (List.getElem?_eq_some_iff.mp h.get).1

/-- A command that has exited is left alone. -/
theorem Holds.exited_terminate {c : ℕ} {err : Option String} (h : Holds s c (.exited err)) :
    Holds (terminate s) c (.exited err) := by
  unfold ProviderProcess.terminate
  rw [h.target]
  exact h

theorem Holds.terminate {c : ℕ} {x : Cmd} (h : Holds s c x) (hx : Caught errs x) :
    ∃ y, Holds (terminate s) c y ∧ Lost errs y := by
  rcases hx with ⟨herrs, signalled, rfl⟩ | ⟨e, rfl⟩
  · exact ⟨.running true, h.signal, .inl ⟨herrs, rfl⟩⟩
  · exact ⟨.exited (some e), h.exited_terminate, .inr ⟨e, rfl⟩⟩

@[simp] theorem calls_terminate (s : State) : (terminate s).calls = s.calls := by
  unfold terminate
  split <;> rfl

theorem at_terminate {pc : Pc} : At (terminate s) pc ↔ At s pc := by
  unfold At
  rw [calls_terminate]

theorem Lost.caught {x : Cmd} (h : Lost errs x) : Caught errs x := by
  rcases h with ⟨herrs, rfl⟩ | h
  · exact .inl ⟨herrs, true, rfl⟩
  · exact .inr h

theorem Bound.terminate (h : Bound kind (Caught errs) s) :
    Bound kind (Lost errs) (terminate s) := by
  obtain ⟨pc, hat, h⟩ := h
  refine ⟨pc, at_terminate.mpr hat, ?_⟩
  cases pc with
  | launched stage =>
      obtain ⟨c, x, hx, hc⟩ := h
      exact ⟨c, hx.terminate hc⟩
  | waiting stage c =>
      obtain ⟨x, hx, hc⟩ := h
      exact hx.terminate hc
  | _ => exact h

/-! ### A `Run` that is bound to fail -/

theorem at_setPc {call : Call} {pc : Pc} (h : s.calls = [call]) : At (s.setPc 0 call pc) pc :=
  ⟨call.started, by unfold State.setPc; rw [h]; rfl⟩

theorem At.get {pc : Pc} (h : At s pc) : ∃ started, s.calls = [⟨pc, started⟩] ∧
    s.calls[0]? = some ⟨pc, started⟩ := by
  obtain ⟨started, h⟩ := h
  exact ⟨started, h, by rw [h]; rfl⟩

theorem At.unique {pc pc' : Pc} (h : At s pc) (h' : At s pc') : pc = pc' := by
  obtain ⟨_, h⟩ := h
  obtain ⟨_, h'⟩ := h'
  cases h.symm.trans h'
  rfl

/-- Another command may change. -/
theorem Holds.setCmd {c d : ℕ} {x y : Cmd} (h : Holds s c x) :
    Holds { s with cmds := s.cmds.set d y } c (if d = c then y else x) := by
  refine ⟨h.isRunning, h.cmd, ?_⟩
  have hlt := (List.getElem?_eq_some_iff.mp h.get).1
  split
  next heq =>
    subst heq
    exact List.getElem?_set_self hlt
  next hne => exact (List.getElem?_set_ne hne).trans h.get

/-- A process that was sent a signal fails. -/
theorem Holds.exit {c c' : ℕ} {x : Cmd} {err : Option String} (h : Holds s c x) (hx : Lost errs x)
    (hc : signalErr errs s (.exit c' err) = true) (hs : stepExit s c' err = some s') :
    ∃ y, Holds s' c y ∧ Lost errs y := by
  obtain ⟨signalled, hget, rfl⟩ := stepExit_cases hs
  refine ⟨_, h.setCmd, ?_⟩
  split
  next heq =>
    subst heq
    obtain rfl := Option.some.inj (hget.symm.trans h.get)
    rcases hx with ⟨herrs, hx⟩ | ⟨e, hx⟩
    · cases hx
      cases err with
      | none =>
          simp only [signalErr, hget, herrs] at hc
          cases hc
      | some e => exact .inr ⟨e, rfl⟩
    · cases hx
  next => exact hx

theorem Bound.mono {P Q : Cmd → Prop} (hPQ : ∀ x, P x → Q x) (h : Bound kind P s) :
    Bound kind Q s := by
  obtain ⟨pc, hat, h⟩ := h
  refine ⟨pc, hat, ?_⟩
  cases pc with
  | launched stage =>
      obtain ⟨c, x, hx, hP⟩ := h
      exact ⟨c, x, hx, hPQ x hP⟩
  | waiting stage c =>
      obtain ⟨x, hx, hP⟩ := h
      exact ⟨x, hx, hPQ x hP⟩
  | _ => exact h

theorem length_terminate (s : State) : (terminate s).cmds.length = s.cmds.length := by
  unfold terminate
  split
  · exact List.length_set
  · rfl

theorem bound_returned {P : Cmd → Prop} {call : Call} {e : String} (h : s.calls = [call]) :
    Bound kind P (s.setPc 0 call (.returned (some e))) :=
  ⟨_, at_setPc h, nofun⟩

theorem stepExit_same {c : ℕ} {err : Option String} (hs : stepExit s c err = some s') :
    s'.calls = s.calls ∧ s'.isRunning = s.isRunning ∧ s'.cmds.length = s.cmds.length := by
  obtain ⟨signalled, -, rfl⟩ := stepExit_cases hs
  exact ⟨rfl, rfl, List.length_set⟩

theorem Bound.exit {c : ℕ} {err : Option String} (h : Bound kind (Lost errs) s)
    (hc : signalErr errs s (.exit c err) = true) (hs : stepExit s c err = some s') :
    Bound kind (Lost errs) s' ∧ s'.cmds.length = s.cmds.length := by
  obtain ⟨pc, hat, h⟩ := h
  obtain ⟨hcalls', -, hlen⟩ := stepExit_same hs
  refine ⟨⟨pc, ?_, ?_⟩, hlen⟩
  · obtain ⟨started, hcalls⟩ := hat
    exact ⟨started, hcalls'.trans hcalls⟩
  · cases pc with
    | launched stage =>
        obtain ⟨c, x, hx, hl⟩ := h
        exact ⟨c, hx.exit hl hc hs⟩
    | waiting stage c =>
        obtain ⟨x, hx, hl⟩ := h
        exact hx.exit hl hc hs
    | _ => exact h

theorem Bound.callStep {call : Call} {l : ProviderProcess.Label} (h : Bound kind (Lost errs) s)
    (hk : s.calls[0]? = some call) (hs : CallStep kind s 0 call l s') :
    Bound kind (Lost errs) s' ∧ s'.cmds.length = s.cmds.length := by
  obtain ⟨pc, hat, h⟩ := h
  obtain ⟨started, hcalls, hget⟩ := hat.get
  obtain rfl := Option.some.inj (hget.symm.trans hk)
  cases hs with
  | refuse x _ _ => exact ⟨bound_returned hcalls, rfl⟩
  | enter x hpc _ =>
      obtain rfl : pc = .called := hpc
      unfold launch
      split
      · exact ⟨bound_returned hcalls, rfl⟩
      · rename_i hnone
        exact absurd hnone h
  | read stage c hpc hcmd =>
      obtain rfl : pc = .launched stage := hpc
      obtain ⟨c', x, hx, hl⟩ := h
      obtain rfl := Option.some.inj (hcmd.symm.trans hx.cmd)
      exact ⟨⟨.waiting stage c, at_setPc hcalls, x, ⟨hx.isRunning, hx.cmd, hx.get⟩, hl⟩, rfl⟩
  | reap stage c err hpc hexited =>
      obtain rfl : pc = .waiting stage c := hpc
      obtain ⟨x, hx, hl⟩ := h
      obtain rfl := Option.some.inj (hexited.symm.trans hx.get)
      refine ⟨⟨.waited stage err, at_setPc hcalls, ?_⟩, rfl⟩
      rcases hl with ⟨-, hl⟩ | ⟨e, hl⟩
      · cases hl
      · cases hl
        nofun
  | reapNotStarted stage c hpc _ => exact ⟨⟨_, at_setPc hcalls, nofun⟩, rfl⟩
  | clear stage err hpc =>
      obtain rfl : pc = .waited stage err := hpc
      exact ⟨⟨.cleared stage err, at_setPc (s := { s with isRunning := false }) hcalls, h⟩, rfl⟩
  | fail x matchErr stage e _ => exact ⟨bound_returned hcalls, rfl⟩
  | next x matchErr stage hpc _ =>
      obtain rfl : pc = .cleared stage none := hpc
      exact absurd rfl h
  | finish x matchErr stage hpc _ =>
      obtain rfl : pc = .cleared stage none := hpc
      exact absurd rfl h

/-- The steps of a `Run` that is bound to fail start nothing. -/
theorem Bound.step (h : Bound kind (Lost errs) s) (hc : signalErr errs s l = true)
    (hs : step kind s l = some s') :
    Bound kind (Lost errs) s' ∧ s'.cmds.length = s.cmds.length := by
  rcases step_cases hs with ⟨err, -, rfl⟩ | ⟨c, err, rfl, hs⟩ | ⟨call, l', hk, hs⟩
  · exact ⟨(h.mono fun _ => Lost.caught).terminate, length_terminate s⟩
  · exact h.exit hc hs
  · exact h.callStep hk hs

/-! ### The steps that are left to a `Run` -/

theorem step_read {stage : Stage} {c : ℕ} {x : Cmd} (h : At s (.launched stage))
    (hx : Holds s c x) :
    ∃ s', step kind s .read = some s' ∧ At s' (.waiting stage c) ∧ Holds s' c x := by
  obtain ⟨started, hcalls, hget⟩ := h.get
  refine ⟨_, ?_, at_setPc hcalls, hx.isRunning, hx.cmd, hx.get⟩
  simp only [step, hget, Option.bind_some, stepRead, hx.cmd]

theorem step_exit {pc : Pc} {c : ℕ} {signalled : Bool} (err : Option String) (h : At s pc)
    (hx : Holds s c (.running signalled)) :
    ∃ s', step kind s (.exit c err) = some s' ∧ At s' pc ∧ Holds s' c (.exited err) := by
  have hset := hx.setCmd (d := c) (y := .exited err)
  rw [if_pos rfl] at hset
  refine ⟨{ s with cmds := s.cmds.set c (.exited err) }, ?_, h, hset⟩
  simp only [step, stepExit, hx.get]

theorem step_reap {stage : Stage} {c : ℕ} {err : Option String} (h : At s (.waiting stage c))
    (hx : Holds s c (.exited err)) :
    ∃ s', step kind s .reap = some s' ∧ At s' (.waited stage err) := by
  obtain ⟨started, hcalls, hget⟩ := h.get
  refine ⟨_, ?_, at_setPc hcalls⟩
  simp only [step, hget, Option.bind_some, stepReap, hx.get]

theorem step_clear {stage : Stage} {err : Option String} (h : At s (.waited stage err)) :
    ∃ s', step kind s .clear = some s' ∧ At s' (.cleared stage err) := by
  obtain ⟨started, hcalls, hget⟩ := h.get
  refine ⟨_, ?_, at_setPc (s := { s with isRunning := false }) hcalls⟩
  simp only [step, hget, Option.bind_some, stepClear]

theorem step_resume {stage : Stage} {e : String} (h : At s (.cleared stage (some e))) :
    ∃ s', step kind s (.resume .ok none) = some s' ∧ At s' (.returned (some e)) := by
  obtain ⟨started, hcalls, hget⟩ := h.get
  refine ⟨_, ?_, at_setPc hcalls⟩
  simp only [step, hget, Option.bind_some, stepResume]

/-- A `Run` without a stage 1 profile fails in its first locked section. -/
theorem step_enter (h : At s .called) (hk : kind.optionsErr .first ≠ none) :
    ∃ s' e, step kind s (.enter .ok) = some s' ∧ At s' (.returned (some e)) := by
  obtain ⟨started, hcalls, hget⟩ := h.get
  obtain ⟨e, he⟩ := Option.ne_none_iff_exists'.mp hk
  by_cases hr : s.isRunning = true
  · refine ⟨_, "provider is currently running", ?_, at_setPc hcalls⟩
    simp only [step, hget, Option.bind_some, stepEnter, if_pos hr]
  · refine ⟨_, e, ?_, at_setPc hcalls⟩
    simp only [step, hget, Option.bind_some, stepEnter, if_neg hr, launch, he]

/-! ### The return -/

theorem canFail_returned {e : String} (h : At s (.returned (some e))) : CanFail kind errs s :=
  ⟨[], s, e, trivial, rfl, h⟩

theorem CanFail.step (hs : step kind s l = some s') (hc : signalErr errs s l = true)
    (h : CanFail kind errs s') : CanFail kind errs s := by
  obtain ⟨ls, s'', e, halong, hrun, hat⟩ := h
  refine ⟨l :: ls, s'', e, ⟨hc, fun s₁ hs₁ => ?_⟩, Lts.run_cons.mpr ⟨s', hs, hrun⟩, hat⟩
  obtain rfl := Option.some.inj (hs.symm.trans hs₁)
  exact halong

theorem canFail_cleared {stage : Stage} {e : String} (h : At s (.cleared stage (some e))) :
    CanFail kind errs s := by
  obtain ⟨s', hs, hat⟩ := step_resume h
  exact (canFail_returned hat).step hs rfl

theorem canFail_waited {stage : Stage} {e : String} (h : At s (.waited stage (some e))) :
    CanFail kind errs s := by
  obtain ⟨s', hs, hat⟩ := step_clear h
  exact (canFail_cleared hat).step hs rfl

theorem canFail_waiting {stage : Stage} {c : ℕ} {x : Cmd} (h : At s (.waiting stage c))
    (hx : Holds s c x) (hl : Lost errs x) : CanFail kind errs s := by
  have hexited : ∀ {s : State} {e : String}, At s (.waiting stage c) →
      Holds s c (.exited (some e)) → CanFail kind errs s := by
    intro s e hat hx
    obtain ⟨s', hs, hat'⟩ := step_reap hat hx
    exact (canFail_waited hat').step hs rfl
  rcases hl with ⟨-, rfl⟩ | ⟨e, rfl⟩
  · obtain ⟨s', hs, hat, hx'⟩ := step_exit (some "signal: terminated") h hx
    exact (hexited hat hx').step hs rfl
  · exact hexited h hx

/-- A `Run` that is bound to fail can return. -/
theorem Bound.canFail (h : Bound kind (Lost errs) s) : CanFail kind errs s := by
  obtain ⟨pc, hat, h⟩ := h
  cases pc with
  | called =>
      obtain ⟨s', e, hs, hat'⟩ := step_enter hat h
      exact (canFail_returned hat').step hs rfl
  | launched stage =>
      obtain ⟨c, x, hx, hl⟩ := h
      obtain ⟨s', hs, hat', hx'⟩ := step_read hat hx
      exact (canFail_waiting hat' hx' hl).step hs rfl
  | waiting stage c =>
      obtain ⟨x, hx, hl⟩ := h
      exact canFail_waiting hat hx hl
  | waited stage err =>
      obtain ⟨e, rfl⟩ := Option.ne_none_iff_exists'.mp h
      exact canFail_waited hat
  | cleared stage err =>
      obtain ⟨e, rfl⟩ := Option.ne_none_iff_exists'.mp h
      exact canFail_cleared hat
  | returned err =>
      obtain ⟨e, rfl⟩ := Option.ne_none_iff_exists'.mp h
      exact canFail_returned hat

theorem Bound.returned (h : Bound kind (Lost errs) s) :
    ∀ err, At s (.returned err) → err ≠ none := by
  intro err hat
  obtain ⟨pc, hat', h⟩ := h
  obtain rfl := hat'.unique hat
  exact h

theorem Bound.not_starts (h : Bound kind (Lost errs) s) (hc : signalErr errs s l = true) :
    starts kind s l = false := by
  unfold starts
  rw [Option.any_eq_false]
  intro s' hs
  refine beq_eq_false_iff_ne.mpr fun heq => ?_
  have hlen := congrArg List.length heq
  rw [(h.step hc hs).2, List.length_append, List.length_singleton] at hlen
  omega

/-- A `Run` that is bound to fail does so in every continuation. -/
theorem Bound.final (h : Bound kind (Lost errs) s) : Final kind errs s := by
  intro ls halong
  have hkeep : ∀ s l s', Bound kind (Lost errs) s → signalErr errs s l = true →
      ProviderTerminate.step kind s l = some s' → Bound kind (Lost errs) s' :=
    fun s l s' h hc hs => (h.step hc hs).1
  refine ⟨halong.of_invariant hkeep (fun s l h hc => h.not_starts hc) h, fun s' hrun => ?_⟩
  have hb := Lts.run_invariant hkeep h halong hrun
  exact ⟨hb.returned, hb.canFail⟩

/-! ### The states of a `Run` -/

/-- The command has been started. -/
def Spawned (x : Cmd) : Prop := (∃ signalled, x = .running signalled) ∨ ∃ err, x = .exited err

/-- The `Run` is alone: before its first lock nothing is running, and until it has waited for a
command the provider is running that command. -/
def Alone (s : State) : Prop :=
  ∃ pc, At s pc ∧ match pc with
    | .called => s.isRunning = false
    | .launched _ => ∃ c x, Holds s c x ∧ Spawned x
    | .waiting _ c => ∃ x, Holds s c x ∧ Spawned x
    | _ => True

theorem Called.alone (h : Called s) : Alone s := ⟨.called, ⟨false, h.calls⟩, h.isRunning⟩

theorem launch_alone {call : Call} (h : s.calls = [call]) (stage : Stage) (x : Launch) :
    Alone (launch kind s 0 call stage x) := by
  have hadd : ∀ y, (s.addCmd y).calls = [call] := fun _ => h
  unfold launch
  split
  · exact ⟨_, at_setPc h, trivial⟩
  · cases x with
    | logErr e => exact ⟨.returned (some e), at_setPc (hadd _), trivial⟩
    | startErr e => exact ⟨.returned (some e), at_setPc (hadd _), trivial⟩
    | ok =>
        refine ⟨.launched stage, ⟨true, ?_⟩, s.cmds.length, .running false, ⟨rfl, rfl, ?_⟩,
          .inl ⟨false, rfl⟩⟩
        · unfold State.setPc
          exact congrArg (·.set 0 ⟨.launched stage, true⟩) h
        · exact List.getElem?_concat_length

/-- The command stays a process. -/
theorem Holds.spawned_terminate {c : ℕ} {x : Cmd} (h : Holds s c x) (hx : Spawned x) :
    ∃ y, Holds (ProviderProcess.terminate s) c y ∧ Spawned y := by
  rcases hx with ⟨signalled, rfl⟩ | ⟨err, rfl⟩
  · exact ⟨.running true, h.signal, .inl ⟨true, rfl⟩⟩
  · exact ⟨.exited err, h.exited_terminate, .inr ⟨err, rfl⟩⟩

theorem Holds.spawned_exit {c c' : ℕ} {x : Cmd} {err : Option String} (h : Holds s c x)
    (hx : Spawned x) (hs : stepExit s c' err = some s') : ∃ y, Holds s' c y ∧ Spawned y := by
  obtain ⟨signalled, -, rfl⟩ := stepExit_cases hs
  refine ⟨_, h.setCmd, ?_⟩
  split
  · exact .inr ⟨err, rfl⟩
  · exact hx

theorem Alone.terminate (h : Alone s) : Alone (ProviderProcess.terminate s) := by
  obtain ⟨pc, hat, h⟩ := h
  refine ⟨pc, at_terminate.mpr hat, ?_⟩
  cases pc with
  | called =>
      unfold ProviderProcess.terminate State.target
      rw [h]
      exact h
  | launched stage =>
      obtain ⟨c, x, hx, hsp⟩ := h
      exact ⟨c, hx.spawned_terminate hsp⟩
  | waiting stage c =>
      obtain ⟨x, hx, hsp⟩ := h
      exact hx.spawned_terminate hsp
  | _ => trivial

theorem Alone.exit {c : ℕ} {err : Option String} (h : Alone s)
    (hs : stepExit s c err = some s') : Alone s' := by
  obtain ⟨pc, ⟨started, hcalls⟩, h⟩ := h
  obtain ⟨hcalls', hrunning, -⟩ := stepExit_same hs
  refine ⟨pc, ⟨started, hcalls'.trans hcalls⟩, ?_⟩
  cases pc with
  | called => exact hrunning.trans h
  | launched stage =>
      obtain ⟨c, x, hx, hsp⟩ := h
      exact ⟨c, hx.spawned_exit hsp hs⟩
  | waiting stage c =>
      obtain ⟨x, hx, hsp⟩ := h
      exact hx.spawned_exit hsp hs
  | _ => trivial

theorem Alone.callStep {call : Call} {l : ProviderProcess.Label} (h : Alone s)
    (hk : s.calls[0]? = some call) (hs : CallStep kind s 0 call l s') : Alone s' := by
  obtain ⟨pc, hat, h⟩ := h
  obtain ⟨started, hcalls, hget⟩ := hat.get
  obtain rfl := Option.some.inj (hget.symm.trans hk)
  cases hs with
  | refuse x _ _ => exact ⟨_, at_setPc hcalls, trivial⟩
  | enter x _ _ => exact launch_alone hcalls .first x
  | read stage c hpc hcmd =>
      obtain rfl : pc = .launched stage := hpc
      obtain ⟨c', x, hx, hsp⟩ := h
      obtain rfl := Option.some.inj (hcmd.symm.trans hx.cmd)
      exact ⟨.waiting stage c, at_setPc hcalls, x, ⟨hx.isRunning, hx.cmd, hx.get⟩, hsp⟩
  | reap stage c err _ _ => exact ⟨_, at_setPc hcalls, trivial⟩
  | reapNotStarted stage c _ _ => exact ⟨_, at_setPc hcalls, trivial⟩
  | clear stage err _ =>
      exact ⟨.cleared stage err, at_setPc (s := { s with isRunning := false }) hcalls, trivial⟩
  | fail x matchErr stage e _ => exact ⟨_, at_setPc hcalls, trivial⟩
  | next x matchErr stage _ _ => exact launch_alone hcalls .second x
  | finish x matchErr stage _ _ => exact ⟨_, at_setPc hcalls, trivial⟩

theorem Alone.step (h : Alone s) (hs : step kind s l = some s') : Alone s' := by
  rcases step_cases hs with ⟨err, -, rfl⟩ | ⟨c, err, -, hs⟩ | ⟨call, l', hk, hs⟩
  · exact h.terminate
  · exact h.exit hs
  · exact h.callStep hk hs

/-! ### A `Run` that goes on -/

theorem Final.step (h : Final kind errs s) (hs : step kind s l = some s')
    (hc : signalErr errs s l = true) : Final kind errs s' := by
  intro ls halong
  have hcons : Lts.Along (ProviderTerminate.step kind) (fun s l => signalErr errs s l = true) s
      (l :: ls) := by
    refine ⟨hc, fun s₁ hs₁ => ?_⟩
    obtain rfl := Option.some.inj (hs.symm.trans hs₁)
    exact halong
  obtain ⟨hstarts, hends⟩ := h (l :: ls) hcons
  exact ⟨hstarts.2 s' hs, fun s'' hrun => hends s'' (Lts.run_cons.mpr ⟨s', hs, hrun⟩)⟩

theorem Final.not_starts (h : Final kind errs s) (hc : signalErr errs s l = true) :
    starts kind s l = false :=
  (h [l] ⟨hc, fun _ _ => trivial⟩).1.1

theorem Final.returned (h : Final kind errs s) {err : Option String} (hat : At s (.returned err)) :
    err ≠ none :=
  ((h [] trivial).2 s rfl).1 err hat

variable {profileOk : Bool}

/-- Behind a stage that has succeeded the next one is started, or `Run` returns nil. -/
theorem not_final_cleared {stage : Stage} (h : At s (.cleared stage none)) :
    ¬ Final (.twoStageRsync profileOk) errs s := by
  intro hf
  obtain ⟨started, hcalls, hget⟩ := h.get
  cases stage with
  | first =>
      have hns := hf.not_starts (l := .resume .ok none) rfl
      simp [starts, step, hget, stepResume, ProviderProcess.Kind.goesOn, launch,
        ProviderProcess.Kind.optionsErr, State.addCmd, State.setPc] at hns
  | second =>
      have hs : step (.twoStageRsync profileOk) s (.resume .ok none) =
          some (s.setPc 0 ⟨.cleared .second none, started⟩ (.returned none)) := by
        simp only [step, hget, Option.bind_some, stepResume, ProviderProcess.Kind.goesOn,
          ProviderProcess.Kind.result]
        rfl
      exact (hf.step hs rfl).returned (at_setPc hcalls) rfl

theorem not_final_waited {stage : Stage} (h : At s (.waited stage none)) :
    ¬ Final (.twoStageRsync profileOk) errs s := by
  intro hf
  obtain ⟨s', hs, hat⟩ := step_clear h
  exact not_final_cleared hat (hf.step hs rfl)

theorem not_final_waiting {stage : Stage} {c : ℕ} (h : At s (.waiting stage c))
    (hx : Holds s c (.exited none)) : ¬ Final (.twoStageRsync profileOk) errs s := by
  intro hf
  obtain ⟨s', hs, hat⟩ := step_reap h hx
  exact not_final_waited hat (hf.step hs rfl)

theorem not_final_launched {stage : Stage} {c : ℕ} (h : At s (.launched stage))
    (hx : Holds s c (.exited none)) : ¬ Final (.twoStageRsync profileOk) errs s := by
  intro hf
  obtain ⟨s', hs, hat, hx'⟩ := step_read h hx
  exact not_final_waiting hat hx' (hf.step hs rfl)

/-- A `Run` that has not locked yet starts its first stage. -/
theorem not_final_called (h : At s .called) (hr : s.isRunning = false)
    (hk : kind.optionsErr .first = none) : ¬ Final kind errs s := by
  intro hf
  obtain ⟨started, hcalls, hget⟩ := h.get
  have hns := hf.not_starts (l := .enter .ok) rfl
  simp [starts, step, hget, stepEnter, hr, launch, hk, State.addCmd, State.setPc] at hns

theorem isRunning_terminate (s : State) : (terminate s).isRunning = s.isRunning := by
  unfold terminate
  split <;> rfl

/-- A process that may exit with success behind a signal. -/
theorem not_final_signalled {pc : Pc} {c : ℕ} {signalled : Bool} (hat : At s pc)
    (hpc : (∃ stage, pc = .launched stage) ∨ ∃ stage, pc = .waiting stage c)
    (hx : Holds s c (.running signalled)) (herrs : errs = false) :
    ¬ Final (.twoStageRsync profileOk) errs s := by
  intro hf
  obtain ⟨s', hs, hat', hx'⟩ := step_exit none hat hx
  have hf' := hf.step hs (by rw [herrs]; rfl)
  rcases hpc with ⟨stage, rfl⟩ | ⟨stage, rfl⟩
  · exact not_final_launched hat' hx' hf'
  · exact not_final_waiting hat' hx' hf'

/-- The command of a `Run` behind which `Terminate` is final. -/
theorem Final.caught {pc : Pc} {c : ℕ} {x : Cmd}
    (hf : Final (.twoStageRsync profileOk) errs (terminate s)) (hat : At s pc)
    (hpc : (∃ stage, pc = .launched stage) ∨ ∃ stage, pc = .waiting stage c)
    (hx : Holds s c x) (hsp : Spawned x) : Caught errs x := by
  have hat' := at_terminate.mpr hat
  rcases hsp with ⟨signalled, rfl⟩ | ⟨_ | e, rfl⟩
  · cases herrs : errs with
    | true => exact .inl ⟨rfl, signalled, rfl⟩
    | false => exact absurd hf (not_final_signalled hat' hpc hx.signal herrs)
  · rcases hpc with ⟨stage, rfl⟩ | ⟨stage, rfl⟩
    · exact absurd hf (not_final_launched hat' hx.exited_terminate)
    · exact absurd hf (not_final_waiting hat' hx.exited_terminate)
  · exact .inr ⟨e, rfl⟩

/-- **`Terminate` is final.**  After a `Terminate` that returned nil while the `Run` was in
progress, the `Run` starts no further process and returns an error, exactly if its process had
failed, or was alive and fails when it is sent a signal, or there is no valid stage 1 profile. -/
theorem terminate_final_iff (profileOk errs : Bool) (s₀ s s' : State) (ls : List Label)
    (h₀ : Called s₀) (h : Lts.run (step (.twoStageRsync profileOk)) s₀ ls = some s)
    (hprogress : ∀ err, ¬ At s (.returned err))
    (hnil : step (.twoStageRsync profileOk) s (.terminate none) = some s') :
    Final (.twoStageRsync profileOk) errs s' ↔
      Bound (.twoStageRsync profileOk) (Caught errs) s := by
  have hs' : s' = terminate s := by
    simp only [step] at hnil
    split at hnil
    · exact (Option.some.inj hnil).symm
    · cases hnil
  subst hs'
  refine ⟨fun hf => ?_, fun hb => hb.terminate.final⟩
  have halone : Alone s := Lts.run_invariant' (fun s l s' ha hs => ha.step hs) h₀.alone h
  obtain ⟨pc, hat, ha⟩ := halone
  have hat' := at_terminate.mpr hat
  refine ⟨pc, hat, ?_⟩
  cases pc with
  | called =>
      intro hk
      exact not_final_called hat' ((isRunning_terminate s).trans ha) hk hf
  | launched stage =>
      obtain ⟨c, x, hx, hsp⟩ := ha
      exact ⟨c, x, hx, hf.caught hat (.inl ⟨stage, rfl⟩) hx hsp⟩
  | waiting stage c =>
      obtain ⟨x, hx, hsp⟩ := ha
      exact ⟨x, hx, hf.caught hat (.inr ⟨stage, rfl⟩) hx hsp⟩
  | waited stage err =>
      rintro rfl
      exact not_final_waited hat' hf
  | cleared stage err =>
      rintro rfl
      exact not_final_cleared hat' hf
  | returned err => exact absurd hat (hprogress err)

/-- The first stage is running, and its process fails when it is sent a signal. -/
theorem terminate_final_first_stage : ∃ s s',
    Lts.run (step (.twoStageRsync true)) { calls := [{}] } [.enter .ok, .read] = some s ∧
      step (.twoStageRsync true) s (.terminate none) = some s' ∧
      Final (.twoStageRsync true) true s' ∧ ¬ Final (.twoStageRsync true) false s' := by
  have hiff := fun errs => terminate_final_iff true errs { calls := [{}] } _ _ [.enter .ok, .read]
    ⟨rfl, rfl⟩ rfl (fun _ ⟨_, h⟩ => nomatch h) rfl
  refine ⟨_, _, rfl, rfl, (hiff true).mpr ?_, fun hf => ?_⟩
  · exact ⟨.waiting .first 0, ⟨true, rfl⟩, .running false, ⟨rfl, rfl, rfl⟩,
      .inl ⟨rfl, false, rfl⟩⟩
  · obtain ⟨pc, hat, h⟩ := (hiff false).mp hf
    obtain rfl : pc = .waiting .first 0 := hat.unique ⟨true, rfl⟩
    obtain ⟨x, hx, ⟨herrs, -⟩ | ⟨e, rfl⟩⟩ := h
    · cases herrs
    · cases hx.get

/-- Between the stages `Terminate` finds nothing running and returns nil; the second stage is
started all the same. -/
theorem terminate_between_stages_starts : ∃ s s' s'',
    Lts.run (step (.twoStageRsync true)) { calls := [{}] }
        [.enter .ok, .read, .exit 0 none, .reap, .clear] = some s ∧
      step (.twoStageRsync true) s (.terminate none) = some s' ∧
      step (.twoStageRsync true) s' (.resume .ok none) = some s'' ∧
      s''.cmds = [.exited none, .running false] :=
  ⟨_, _, _, rfl, rfl, rfl, rfl⟩

end KubeSync.ProviderTerminate
