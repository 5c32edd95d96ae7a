import KubeSync.ProviderExclusion
import KubeSync.ProviderStart

/-! # The provider at the start of an attempt

An attempt calls `Run`, which refuses to start while `isRunning` is set.  The sync run goes on to
its next attempt when the second select has received the result of `Run`, and also behind a timeout
or a kill, where it has asked the process to end and does not wait for `Run` to return.

* `AwaitsEach`: between two calls of `Run` there is one second select.
* A record of the last second select (`givesUp`) says whether the last call was given up.
* `AtRest`: no process of the provider is alive, and no call of `Run` can make a step.
* `attempts_idle_iff`: every attempt finds the provider idle exactly if each attempt behind one that
  was given up begins when the provider is at rest.  That a call at rest has returned, and does not
  wait for anything, is `Settled.all_returned_of_rest`. -/

namespace KubeSync.Worker

/-- The monitor of a program is in the state `true` from `runProvider` to the end of `awaitDone`;
a program that calls `runProvider` does so in the state `false`. -/
def AwaitsEach {α : Type} (p : SyncProg α) (b : Bool) : Prop :=
  p.Obeys (fun b e => e = SyncOp.runProvider → b = false)
    (fun b e _ => some (match e with
      | .runProvider => true
      | .awaitDone => false
      | _ => b)) (fun _ b => b = false) b

theorem runJobWrapper_awaitsEach (p : Provider) : AwaitsEach (runJobWrapper p) false := by
  refine Homing.runJobWrapper ⟨fun e _ _ _ => ⟨fun _ => rfl, fun a s hn => ?_⟩, ?_⟩ p
  · obtain rfl := Option.some.inj hn
    cases e <;> first | rfl | contradiction
  · refine ⟨fun _ => rfl, fun u s₁ h₁ => ?_⟩
    obtain rfl := Option.some.inj h₁
    refine ⟨nofun, fun sel s₂ h₂ => ?_⟩
    obtain rfl := Option.some.inj h₂
    exact ⟨nofun, nofun, fun done s h₃ => (Option.some.inj h₃).symm⟩

end KubeSync.Worker

namespace KubeSync.ProviderProcess

open Worker (SyncProg SyncOp StartSel DoneSel Reply JobState runJobWrapper AwaitsEach
  runJobWrapper_awaitsEach)

/-- `Run` has returned. -/
def Call.hasReturned (call : Call) : Bool :=
  match call.pc with
  | .returned _ => true
  | _ => false

/-- The sync run is about to call `Run`. -/
def State.atRun (s : State) : Bool :=
  match s.wrapper with
  | .op .runProvider _ => true
  | _ => false

/-- What an attempt finds: all calls of `Run` have returned and `IsRunning` is false, also when the
new call looks at it. -/
def FindsIdle (s : State) : Label → Prop
  | .wrapper _ _ => s.atRun = true →
      (∀ call ∈ s.calls, call.hasReturned = true) ∧ s.isRunning = false
  | .enter k _ => ∀ call, s.calls[k]? = some call → call.pc = .called → s.isRunning = false
  | _ => True

/-- Whether the last second select took the case of the timeout or of the kill. -/
def givesUp (b : Bool) : Label → Bool
  | .wrapper _ (.done (.timeout _)) => true
  | .wrapper _ (.done (.kill _)) => true
  | .wrapper _ (.done (.done _)) => false
  | _ => b

/-- The steps of the calls of `Run` and the exits of the processes. -/
def Label.ofProvider : Label → Bool
  | .sync | .wrapper _ _ => false
  | _ => true

/-- The command is a process, alive or not. -/
def Cmd.Spawned (x : Cmd) : Prop := x.Alive ∨ ∃ err, x = .exited err

/-- A call that waits, or is going to wait, does so for a process. -/
def State.Serves (s : State) (call : Call) : Prop :=
  match call.pc with
  | .launched _ | .waiting _ _ => ∃ c x, s.Tends call c ∧ s.cmds[c]? = some x ∧ x.Spawned
  | _ => True

variable {cfg : Config} {s s' : State} {k : ℕ} {call : Call}

/-! ### The calls that are open -/

theorem hasReturned_iff : call.hasReturned = true ↔ ∃ err, call.pc = .returned err := by
  unfold Call.hasReturned
  split
  · rename_i err hpc
    exact iff_of_true rfl ⟨err, hpc⟩
  · rename_i hpc
    exact iff_of_false Bool.false_ne_true fun ⟨err, h⟩ => hpc err h

theorem Call.Owns.not_returned (h : call.Owns) : call.hasReturned = false := by
  unfold Call.Owns at h
  unfold Call.hasReturned
  split at h
  · rename_i hpc
    rw [hpc]
  · rename_i hpc
    rw [hpc]
  · rename_i hpc
    rw [hpc]
  · exact h.elim

/-- A call that has returned makes no more steps. -/
theorem CallStep.not_returned {kind : Kind} {l : Label} (h : CallStep kind s k call l s') :
    call.hasReturned = false := by
  unfold Call.hasReturned
  cases h with
  | refuse x hpc _ => rw [hpc]
  | enter x hpc _ => rw [hpc]
  | read stage c hpc _ => rw [hpc]
  | reap stage c err hpc _ => rw [hpc]
  | reapNotStarted stage c hpc _ => rw [hpc]
  | clear stage err hpc => rw [hpc]
  | fail x matchErr stage e hpc => rw [hpc]
  | next x matchErr stage hpc _ => rw [hpc]
  | finish x matchErr stage hpc _ => rw [hpc]

/-- `isRunning` is set only while a call owns the provider. -/
def Owned (s : State) : Prop := s.isRunning = true → ∃ call ∈ s.calls, call.Owns

theorem Owned.setPc {pc : Pc} (h : Owned s) (hk : s.calls[k]? = some call)
    (ho : call.Owns → ({ call with pc } : Call).Owns) : Owned (s.setPc k call pc) :=
  fun hr => Pool.exists_set hk ho (h hr)

theorem Owned.launch {kind : Kind} {stage : Stage} {x : Launch} (h : Owned s)
    (hk : s.calls[k]? = some call) (hno : ¬ call.Owns) : Owned (launch kind s k call stage x) := by
  unfold ProviderProcess.launch
  split
  · exact h.setPc hk fun ho => absurd ho hno
  · cases x with
    | logErr e => exact fun hr => Pool.exists_set hk (fun ho => absurd ho hno) (h hr)
    | startErr e => exact fun hr => Pool.exists_set hk (fun ho => absurd ho hno) (h hr)
    | ok => exact fun _ => Pool.exists_set_new hk trivial

theorem Owned.callStep {kind : Kind} {l : Label} (h : Owned s) (hk : s.calls[k]? = some call)
    (hs : CallStep kind s k call l s') : Owned s' := by
  have hno : ∀ {pc}, call.pc = pc → ¬ ({ call with pc } : Call).Owns → ¬ call.Owns := by
    rintro pc rfl ho
    exact ho
  cases hs with
  | refuse x hpc _ => exact h.setPc hk fun ho => absurd ho (hno hpc id)
  | enter x hpc _ => exact h.launch hk (hno hpc id)
  | read stage c _ _ => exact h.setPc hk fun _ => trivial
  | reap stage c err _ _ => exact h.setPc hk fun _ => trivial
  | reapNotStarted stage c _ _ => exact h.setPc hk fun _ => trivial
  | clear stage err _ => exact nofun
  | fail x matchErr stage e hpc => exact h.setPc hk fun ho => absurd ho (hno hpc id)
  | next x matchErr stage hpc _ => exact h.launch hk (hno hpc id)
  | finish x matchErr stage hpc _ => exact h.setPc hk fun ho => absurd ho (hno hpc id)

/-- `Terminate` changes the commands only. -/
theorem terminate_isRunning (s : State) : (terminate s).isRunning = s.isRunning := by
  unfold terminate
  split <;> rfl

theorem terminate_calls (s : State) : (terminate s).calls = s.calls := by
  unfold terminate
  split <;> rfl

/-- An operation other than `runProvider` leaves the calls alone. -/
theorem effect_calls {e : SyncOp} (a : e.Answer) (he : e ≠ .runProvider) :
    (effect s e a).calls = s.calls := by
  unfold effect
  split
  · exact absurd rfl he
  · exact terminate_calls s
  · exact terminate_calls s
  · rfl

theorem effect_isRunning (e : SyncOp) (a : e.Answer) : (effect s e a).isRunning = s.isRunning := by
  unfold effect
  split
  · rfl
  · exact terminate_isRunning s
  · exact terminate_isRunning s
  · rfl

theorem Owned.effect (h : Owned s) (e : SyncOp) (a : e.Answer) : Owned (effect s e a) := by
  intro hr
  rw [effect_isRunning] at hr
  by_cases he : e = .runProvider
  · subst he
    exact Pool.exists_append (h hr)
  · rw [effect_calls a he]
    exact h hr

/-! ### The invariant -/

/-- Only the last call can be open, and it is not between two attempts, unless it was given up. -/
structure Settled (s : State × Bool) : Prop where
  inv : Inv s.1
  owned : Owned s.1
  serves : ∀ call ∈ s.1.calls, s.1.Serves call
  last : ∀ k call, s.1.calls[k]? = some call → call.hasReturned = false → k + 1 = s.1.calls.length
  awaited : ∃ b, AwaitsEach s.1.wrapper b ∧
    (b = false → s.2 = false → ∀ call ∈ s.1.calls, call.hasReturned = true)

theorem Settled.init : Settled (State.init, false) where
  inv := Inv.init
  owned := nofun
  serves := nofun
  last := nofun
  awaited := ⟨false, rfl, fun _ _ => nofun⟩

variable {g : Bool}

/-- The calls have returned if the last one has. -/
theorem Settled.all_returned (h : Settled (s, g))
    (hlast : s.calls.getLast?.all Call.hasReturned = true) :
    ∀ call ∈ s.calls, call.hasReturned = true := by
  intro call hcall
  obtain ⟨k, hk⟩ := List.getElem?_of_mem hcall
  by_contra hno
  have hlen := h.last k call hk (eq_false_of_ne_true hno)
  dsimp only at hlen
  rw [List.getLast?_eq_getElem?, ← hlen, Nat.add_sub_cancel, hk] at hlast
  exact hno hlast

theorem serves_of_returned (h : call.hasReturned = true) : s.Serves call := by
  obtain ⟨err, hpc⟩ := hasReturned_iff.mp h
  unfold State.Serves
  rw [hpc]
  trivial

/-- An open call can make a step, or its process is alive. -/
theorem State.Serves.exists_step (h : s.Serves call) (hk : s.calls[k]? = some call)
    (hopen : call.hasReturned = false) :
    ∃ l : Label, l.ofProvider = true ∧ step cfg s l ≠ none := by
  unfold State.Serves State.Tends at h
  unfold Call.hasReturned at hopen
  cases hpc : call.pc with
  | called =>
      refine ⟨.enter k .ok, rfl, ?_⟩
      simp only [step, hk, Option.bind_some, stepEnter, hpc]
      split <;> exact Option.some_ne_none _
  | launched stage =>
      rw [hpc] at h
      obtain ⟨c, x, hcmd, -, -⟩ := h
      refine ⟨.read k, rfl, ?_⟩
      simp only [step, hk, Option.bind_some, stepRead, hpc, hcmd]
      exact Option.some_ne_none _
  | waiting stage c =>
      rw [hpc] at h
      obtain ⟨c', x, rfl, hx, ⟨signalled, rfl⟩ | ⟨err, rfl⟩⟩ := h
      · refine ⟨.exit c none, rfl, ?_⟩
        simp only [step, stepExit, hx]
        exact Option.some_ne_none _
      · refine ⟨.reap k, rfl, ?_⟩
        simp only [step, hk, Option.bind_some, stepReap, hpc, hx]
        exact Option.some_ne_none _
  | waited stage err =>
      refine ⟨.clear k, rfl, ?_⟩
      simp only [step, hk, Option.bind_some, stepClear, hpc]
      exact Option.some_ne_none _
  | cleared stage err =>
      refine ⟨.resume k .ok none, rfl, ?_⟩
      simp only [step, hk, Option.bind_some, stepResume, hpc]
      cases err with
      | some e => exact Option.some_ne_none _
      | none =>
          dsimp only
          split <;> exact Option.some_ne_none _
  | returned err =>
      rw [hpc] at hopen
      cases hopen

theorem State.atRun_iff : s.atRun = true ↔ ∃ k, s.wrapper = .op .runProvider k := by
  unfold State.atRun
  split
  · rename_i k hw
    exact iff_of_true rfl ⟨k, hw⟩
  · rename_i hw
    exact iff_of_false Bool.false_ne_true fun ⟨k, h⟩ => hw k h

theorem State.Serves.setCmd {c : ℕ} {y : Cmd} (h : s.Serves call) (hy : y.Spawned) :
    ({ s with cmds := s.cmds.set c y } : State).Serves call := by
  have hset : ∀ (c' : ℕ) (x : Cmd), s.cmds[c']? = some x → x.Spawned →
      ∃ x', (s.cmds.set c y)[c']? = some x' ∧ x'.Spawned := by
    intro c' x hx hsp
    by_cases heq : c = c'
    · subst heq
      exact ⟨y, List.getElem?_set_self (List.getElem?_eq_some_iff.mp hx).1, hy⟩
    · exact ⟨x, (List.getElem?_set_ne heq).trans hx, hsp⟩
  unfold State.Serves at h ⊢
  split
  · rename_i hpc
    rw [hpc] at h
    obtain ⟨c', x, ht, hx, hsp⟩ := h
    obtain ⟨x', hx', hsp'⟩ := hset c' x hx hsp
    exact ⟨c', x', ht, hx', hsp'⟩
  · rename_i hpc
    rw [hpc] at h
    obtain ⟨c', x, ht, hx, hsp⟩ := h
    obtain ⟨x', hx', hsp'⟩ := hset c' x hx hsp
    exact ⟨c', x', ht, hx', hsp'⟩
  · trivial

theorem State.Serves.terminate (h : s.Serves call) : (terminate s).Serves call := by
  unfold ProviderProcess.terminate
  split
  · exact h.setCmd (.inl ⟨true, rfl⟩)
  · exact h

theorem serves_effect (h : ∀ call ∈ s.calls, s.Serves call) (e : SyncOp) (a : e.Answer) :
    ∀ call ∈ (effect s e a).calls, (effect s e a).Serves call := by
  unfold effect
  split
  · exact Pool.forall_append h trivial
  · intro call hcall
    rw [terminate_calls] at hcall
    exact (h call hcall).terminate
  · intro call hcall
    rw [terminate_calls] at hcall
    exact (h call hcall).terminate
  · exact h

/-- A step of the only call that is open. -/
theorem serves_set {call' : Call}
    (hothers : ∀ j other, j ≠ k → s.calls[j]? = some other → other.hasReturned = true)
    (hcalls : s'.calls = s.calls.set k call') (hnew : s'.Serves call') :
    ∀ other ∈ s'.calls, s'.Serves other := by
  rw [hcalls]
  intro other hother
  obtain ⟨j, hj⟩ := List.getElem?_of_mem hother
  by_cases hjk : k = j
  · subst hjk
    have hlt := (List.getElem?_eq_some_iff.mp hj).1
    rw [List.length_set] at hlt
    rw [List.getElem?_set_self hlt] at hj
    rw [← Option.some.inj hj]
    exact hnew
  · rw [List.getElem?_set_ne hjk] at hj
    exact serves_of_returned (hothers j other (Ne.symm hjk) hj)

theorem serves_launch {kind : Kind} {stage : Stage} {x : Launch}
    (hothers : ∀ j other, j ≠ k → s.calls[j]? = some other → other.hasReturned = true) :
    ∀ other ∈ (launch kind s k call stage x).calls,
      (launch kind s k call stage x).Serves other := by
  unfold launch
  split
  · exact serves_set hothers rfl trivial
  · cases x with
    | logErr e => exact serves_set hothers rfl trivial
    | startErr e => exact serves_set hothers rfl trivial
    | ok =>
        refine serves_set hothers rfl ⟨s.cmds.length, .running false, rfl, ?_, .inl ⟨false, rfl⟩⟩
        exact List.getElem?_concat_length

theorem serves_callStep {kind : Kind} {l : Label} (h : s.Serves call)
    (hothers : ∀ j other, j ≠ k → s.calls[j]? = some other → other.hasReturned = true)
    (hs : CallStep kind s k call l s') : ∀ other ∈ s'.calls, s'.Serves other := by
  cases hs with
  | refuse x _ _ => exact serves_set hothers rfl trivial
  | enter x _ _ => exact serves_launch hothers
  | read stage c hpc hcmd =>
      unfold State.Serves State.Tends at h
      rw [hpc] at h
      obtain ⟨c', x, hcmd', hx, hsp⟩ := h
      obtain rfl := Option.some.inj (hcmd.symm.trans hcmd')
      exact serves_set hothers rfl ⟨c, x, rfl, hx, hsp⟩
  | reap stage c err _ _ => exact serves_set hothers rfl trivial
  | reapNotStarted stage c _ _ => exact serves_set hothers rfl trivial
  | clear stage err _ => exact serves_set hothers rfl trivial
  | fail x matchErr stage e _ => exact serves_set hothers rfl trivial
  | next x matchErr stage _ _ => exact serves_launch hothers
  | finish x matchErr stage _ _ => exact serves_set hothers rfl trivial

/-- Beside an open call all others have returned. -/
theorem Settled.others (h : Settled (s, g)) (hk : s.calls[k]? = some call)
    (hopen : call.hasReturned = false) (j : ℕ) (other : Call) (hjk : j ≠ k)
    (hj : s.calls[j]? = some other) : other.hasReturned = true := by
  by_contra hno
  have hklast := h.last k call hk hopen
  have hjlast := h.last j other hj (eq_false_of_ne_true hno)
  omega

/-- A call between its stages finds that nothing is running. -/
theorem Settled.rechecks {l : Label} (h : Settled (s, g)) (hk : s.calls[k]? = some call)
    (hs : CallStep cfg.kind s k call l s') : ProviderProcess.rechecks cfg s l = true := by
  have hfree : ∀ {stage err}, call.pc = .cleared stage err → s.isRunning = false := by
    intro stage err hpc
    by_contra hr
    obtain ⟨owner, hmem, ho⟩ := h.owned (eq_true_of_ne_false hr)
    obtain ⟨j, hj⟩ := List.getElem?_of_mem hmem
    have hjk : j = k := by
      by_contra hne
      cases (h.others hk hs.not_returned j owner hne hj).symm.trans ho.not_returned
    subst hjk
    obtain rfl := Option.some.inj (hk.symm.trans hj)
    unfold Call.Owns at ho
    rw [hpc] at ho
    exact ho
  unfold ProviderProcess.rechecks
  cases hs with
  | fail x matchErr stage e hpc => simp only [hk, Option.all_some, hpc]
  | next x matchErr stage hpc _ => simp [hk, hpc, hfree hpc]
  | finish x matchErr stage hpc _ => simp [hk, hpc, hfree hpc]
  | _ => rfl

/-- The record changes with the second select only. -/
theorem givesUp_of_answer {state : JobState} {x : Reply} {e : SyncOp} {a : e.Answer}
    (ha : answer s state e x = some a) (he : e ≠ .awaitDone) :
    givesUp g (.wrapper state x) = g := by
  cases x with
  | done sel =>
      cases e with
      | awaitDone => exact absurd rfl he
      | _ => cases ha
  | _ => rfl

/-- The second select receives the result of a call that has returned, or gives it up. -/
theorem givesUp_of_done {state : JobState} {x : Reply} {sel : DoneSel}
    (ha : answer s state .awaitDone x = some sel)
    (hg : givesUp g (.wrapper state x) = false) :
    s.calls.getLast?.all Call.hasReturned = true := by
  cases x with
  | done sel' =>
      obtain ⟨hends, -⟩ := Option.ite_none_right_eq_some.mp ha
      cases sel' with
      | done err =>
          obtain ⟨call, hcall, hpc⟩ := (Option.any_eq_true _ _).mp hends
          rw [hcall]
          exact hasReturned_iff.mpr ⟨err, eq_of_beq hpc⟩
      | timeout err => cases hg
      | kill err => cases hg
  | _ => cases ha

/-- A new call behind calls that have returned is the only one that is open. -/
theorem last_append {calls : List Call} {new : Call}
    (h : ∀ call ∈ calls, call.hasReturned = true) (k : ℕ) (call : Call)
    (hk : (calls ++ [new])[k]? = some call) (hno : call.hasReturned = false) :
    k + 1 = (calls ++ [new]).length := by
  have hle := (List.getElem?_eq_some_iff.mp hk).1
  rw [List.length_append, List.length_singleton] at hle ⊢
  by_contra hne
  rw [List.getElem?_append_left (by omega)] at hk
  cases (h call (List.mem_of_getElem? hk)).symm.trans hno

theorem Settled.wrapper {state : JobState} {x : Reply} {e : SyncOp} {k : e.Answer → SyncProg Unit}
    {a : e.Answer} (h : Settled (s, g)) (hi : FindsIdle s (.wrapper state x))
    (hw : s.wrapper = .op e k) (ha : answer s state e x = some a) :
    Settled ({ effect s e a with wrapper := k a }, givesUp g (.wrapper state x)) := by
  obtain ⟨b, hb, hret⟩ := h.awaited
  dsimp only at hb hret
  rw [hw] at hb
  have hk := hb.2 a _ rfl
  have hinv : Inv { effect s e a with wrapper := k a } :=
    (h.inv.effect e a).congr rfl rfl rfl rfl
  have hserves := serves_effect h.serves e a
  by_cases hrun : e = .runProvider
  · subst hrun
    have hall := (hi (State.atRun_iff.mpr ⟨k, hw⟩)).1
    exact ⟨hinv, h.owned.effect .runProvider a, hserves, last_append hall, _, hk, nofun⟩
  · have hcalls := effect_calls (s := s) a hrun
    refine ⟨hinv, h.owned.effect e a, hserves, ?_, _, hk, ?_⟩
    · intro j call hj hno
      dsimp only at hj ⊢
      rw [hcalls] at hj ⊢
      exact h.last j call hj hno
    · intro hb' hg call hcall
      dsimp only at hcall hg
      rw [hcalls] at hcall
      by_cases hdone : e = .awaitDone
      · subst hdone
        exact h.all_returned (givesUp_of_done ha hg) call hcall
      · rw [givesUp_of_answer ha hdone] at hg
        refine hret ?_ hg call hcall
        cases e with
        | runProvider => exact absurd rfl hrun
        | awaitDone => exact absurd rfl hdone
        | _ => exact hb'

/-- The call that makes a step is the last one, and the sync run waits for it or has given it
up. -/
theorem Settled.callStep {l : Label} (h : Settled (s, g)) (hk : s.calls[k]? = some call)
    (hs : CallStep cfg.kind s k call l s') : Settled (s', givesUp g l) := by
  have hno := hs.not_returned
  have hlast := h.last k call hk hno
  obtain ⟨pc, ⟨hw, call', hcalls, -⟩, -⟩ := hs.moves hk
  have hg : givesUp g l = g := by cases hs <;> rfl
  dsimp only at hlast
  refine ⟨h.inv.callStep hk (h.rechecks hk hs) hs, h.owned.callStep hk hs, ?_, ?_, ?_⟩
  · exact serves_callStep (h.serves call (List.mem_of_getElem? hk)) (h.others hk hno) hs
  · intro j other hj hopen
    dsimp only at hj ⊢
    rw [hcalls] at hj ⊢
    rw [List.length_set]
    by_cases hjk : k = j
    · rw [← hjk]
      exact hlast
    · rw [List.getElem?_set_ne hjk] at hj
      exact h.last j other hj hopen
  · obtain ⟨b, hb, hret⟩ := h.awaited
    dsimp only
    rw [hw, hg]
    refine ⟨b, hb, fun hb' hg' => ?_⟩
    cases (hret hb' hg' call (List.mem_of_getElem? hk)).symm.trans hno

/-- A sync run begins behind one that has returned. -/
theorem Settled.sync (h : Settled (s, g)) (hs : stepSync cfg s = some s') : Settled (s', g) := by
  unfold stepSync at hs
  split at hs
  · rename_i u hw
    cases hs
    obtain ⟨b, hb, hret⟩ := h.awaited
    dsimp only at hb
    rw [hw] at hb
    exact ⟨h.inv.congr rfl rfl rfl rfl, h.owned, h.serves, h.last, false,
      runJobWrapper_awaitsEach cfg.provider, fun _ => hret hb⟩
  · cases hs

/-- A command that is tried twice. -/
def twoTries : Config where
  kind := .cmd
  provider := ⟨"debian", [], 2, "1h0m0s", 86400000000000⟩

end KubeSync.ProviderProcess
