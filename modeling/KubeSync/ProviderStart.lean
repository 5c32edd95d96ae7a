import KubeSync.Lts
import KubeSync.ProviderSteps

/-! # The start of a provider

The first select of a sync run waits for a message on `started` or for the result of `Run`; it takes
that result for an error and calls `Error` on it.

* `Homing` is the rule for monitors of a sync run: it is enough to follow one round.
* `Paired` says how a sync run reaches that select: right behind its call of `Run`, and in no other
  way.  So the call that the select waits for is the one that was just made.
* `start_err_iff`: the select can receive no nil error exactly as long as no `Run` succeeds while it
  is waiting. -/

namespace KubeSync.Worker

/-! ### Monitors of a sync run -/

section Monitors

variable {σ α β : Type}

/-- A monitor that is in the state `s₀` outside of the calls of `Run`, and comes back to it behind
`awaitDone`. -/
structure Homing (ok : σ → SyncOp → Prop) (next : σ → (e : SyncOp) → e.Answer → Option σ) (s₀ : σ) :
    Prop where
  quiet : ∀ e, e ≠ .runProvider → e ≠ .awaitStart → e ≠ .awaitDone →
    ok s₀ e ∧ ∀ a s, next s₀ e a = some s → s = s₀
  round : ok s₀ .runProvider ∧ ∀ u s₁, next s₀ .runProvider u = some s₁ →
    ok s₁ .awaitStart ∧ ∀ sel s₂, next s₁ .awaitStart sel = some s₂ →
      ok s₂ .panic ∧ ok s₂ .awaitDone ∧ ∀ done s, next s₂ .awaitDone done = some s → s = s₀

variable {ok : σ → SyncOp → Prop} {next : σ → (e : SyncOp) → e.Answer → Option σ} {s₀ : σ}

theorem obeys_ret (a : α) : Prog.Obeys ok next (fun _ s => s = s₀) (.ret a) s₀ := rfl

theorem obeys_seq {p : SyncProg α} {f : α → SyncProg β} {s : σ}
    (hp : p.Obeys ok next (fun _ s => s = s₀) s)
    (hf : ∀ a, (f a).Obeys ok next (fun _ s => s = s₀) s₀) :
    (p >>= f).Obeys ok next (fun _ s => s = s₀) s := by
  refine Prog.obeys_bind.mpr (Prog.Obeys.mono hp fun a s hs => ?_)
  rw [hs]
  exact hf a

variable (h : Homing ok next s₀)
include h

/-- An operation that has nothing to do with `Run`. -/
theorem Homing.call {e : SyncOp} (hr : e ≠ .runProvider) (hs : e ≠ .awaitStart)
    (hd : e ≠ .awaitDone) : (Prog.call e).Obeys ok next (fun _ s => s = s₀) s₀ :=
  ⟨(h.quiet e hr hs hd).1, (h.quiet e hr hs hd).2⟩

theorem Homing.runHooks (ph : Phase) (hs : List ℕ) :
    (runHooks ph hs).Obeys ok next (fun _ s => s = s₀) s₀ := by
  induction hs with
  | nil => exact obeys_ret false
  | cons x hs ih =>
      refine obeys_seq (h.call nofun nofun nofun) fun err => ?_
      cases err with
      | none => exact ih
      | some err => exact obeys_seq (h.call nofun nofun nofun) fun _ => obeys_ret true

/-- Hooks whose failure ends the loop. -/
theorem Homing.hooks (ph : Phase) (hs : List ℕ) {p : SyncProg Bool}
    (hp : p.Obeys ok next (fun _ s => s = s₀) s₀) :
    (do if ← Worker.runHooks ph hs then return false else p).Obeys ok next
      (fun _ s => s = s₀) s₀ := by
  refine obeys_seq (h.runHooks ph hs) fun failed => ?_
  cases failed with
  | true => exact obeys_ret false
  | false => exact hp

theorem Homing.failedSchedule (p : Provider) (retry : ℤ) :
    (failedSchedule p retry).Obeys ok next (fun _ s => s = s₀) s₀ := by
  unfold Worker.failedSchedule
  split
  · exact obeys_seq (h.call nofun nofun nofun) fun _ => obeys_ret _
  · exact obeys_ret false

theorem Homing.report (p : Provider) (retry : ℤ) (r : Outcome) :
    (report p retry r).Obeys ok next (fun _ s => s = s₀) s₀ := by
  unfold Worker.report
  refine h.hooks _ _ ?_
  cases r.syncErr with
  | none =>
      refine h.hooks _ _ ?_
      refine obeys_seq (h.call nofun nofun nofun) fun _ => ?_
      refine obeys_seq (h.call nofun nofun nofun) fun _ => ?_
      exact obeys_seq (h.call nofun nofun nofun) fun _ => obeys_ret false
  | some err =>
      refine h.hooks _ _ ?_
      refine obeys_seq (h.failedSchedule p retry) fun _ => ?_
      exact obeys_seq (h.call nofun nofun nofun) fun _ => obeys_ret _

theorem Homing.attempt (p : Provider) (retry : ℤ) :
    (attempt p retry).Obeys ok next (fun _ s => s = s₀) s₀ := by
  unfold Worker.attempt
  refine h.hooks _ _ (obeys_seq (h.call nofun nofun nofun) fun _ => ?_)
  refine ⟨h.round.1, fun u s₁ h₁ => ?_⟩
  obtain ⟨hstart, hround⟩ := h.round.2 u s₁ h₁
  refine ⟨hstart, fun sel s₂ h₂ => ?_⟩
  obtain ⟨hpanic, hdone, hback⟩ := hround sel s₂ h₂
  change Prog.Obeys ok next _ (if sel = .done none then SyncProg.panic else _) s₂
  split
  · exact ⟨hpanic, fun a => a.elim⟩
  · refine ⟨hdone, fun done s₃ h₃ => ?_⟩
    rw [hback done s₃ h₃]
    dsimp only [Prog.bind]
    split
    · exact obeys_ret false
    · exact h.report p retry _

theorem Homing.attempts (p : Provider) (n : ℕ) (retry : ℤ) :
    (attempts p n retry).Obeys ok next (fun _ s => s = s₀) s₀ := by
  induction n generalizing retry with
  | zero => exact obeys_ret ()
  | succ n ih =>
      refine obeys_seq (h.attempt p retry) fun again => ?_
      cases again with
      | true => exact ih (retry + 1)
      | false => exact obeys_ret ()

theorem Homing.runJobWrapper (p : Provider) :
    (runJobWrapper p).Obeys ok next (fun _ s => s = s₀) s₀ := by
  refine obeys_seq (h.call nofun nofun nofun) fun _ => ?_
  refine obeys_seq (h.runHooks _ _) fun failed => ?_
  cases failed with
  | true => exact obeys_ret ()
  | false => exact h.attempts p _ 0

end Monitors

/-! ### The way to the first select -/

/-- The monitor of a program is in the state `true` right behind `runProvider`, which is where
`awaitStart` has its place. -/
def Paired {α : Type} (p : SyncProg α) (b : Bool) : Prop :=
  p.Obeys (fun b e => b = true ↔ e = SyncOp.awaitStart)
    (fun _ e _ => some (decide (e = SyncOp.runProvider))) (fun _ b => b = false) b

theorem paired_op {α : Type} {e : SyncOp} {k : e.Answer → SyncProg α} {b : Bool} :
    Paired (.op e k) b ↔
      (b = true ↔ e = .awaitStart) ∧ ∀ a, Paired (k a) (decide (e = .runProvider)) := by
  refine and_congr_right fun _ => ⟨fun h a => h a _ rfl, fun h a b hb => ?_⟩
  obtain rfl := Option.some.inj hb
  exact h a

theorem runJobWrapper_paired (p : Provider) : Paired (runJobWrapper p) false := by
  refine Homing.runJobWrapper ⟨fun e hr hs _ => ⟨by simp [hs], fun a s hn => ?_⟩, ?_⟩ p
  · obtain rfl := Option.some.inj hn
    exact decide_eq_false hr
  · refine ⟨by simp, fun u s₁ h₁ => ?_⟩
    obtain rfl := Option.some.inj h₁
    refine ⟨by simp, fun sel s₂ h₂ => ?_⟩
    obtain rfl := Option.some.inj h₂
    exact ⟨by simp, by simp, fun done s h₃ => (Option.some.inj h₃).symm⟩

end KubeSync.Worker

namespace KubeSync.ProviderProcess

open Worker (SyncProg SyncOp StartSel DoneSel Reply JobState runJobWrapper Paired paired_op
  runJobWrapper_paired)

/-- The sync run waits in its first select. -/
def State.atStart (s : State) : Bool :=
  match s.wrapper with
  | .op .awaitStart _ => true
  | _ => false

/-- The step in which the call that the sync run waits for returns nil. -/
def succeeds (cfg : Config) (s : State) : Label → Bool
  | .resume k _ matchErr =>
      k + 1 = s.calls.length ∧ s.calls[k]?.any fun call =>
        match call.pc with
        | .cleared stage none => !cfg.kind.goesOn stage && (cfg.kind.result matchErr).isNone
        | _ => false
  | _ => false

/-- What the first select can receive from `syncDone` is an error. -/
def StartErr (s : State) : Prop :=
  s.atStart = true → ∀ err, starts s (.done err) = true → err ≠ none

variable {cfg : Config} {s s' : State}

theorem atStart_eq {b : Bool} (h : Paired s.wrapper b) : s.atStart = b := by
  unfold State.atStart
  cases hw : s.wrapper with
  | ret a =>
      rw [hw] at h
      exact Eq.symm h
  | op e k =>
      rw [hw] at h
      have hb := (paired_op.mp h).1
      cases e with
      | awaitStart => exact (hb.mpr rfl).symm
      | _ => exact (eq_false_of_ne_true fun hc => nomatch hb.mp hc).symm

theorem startErr_iff : StartErr s ↔
    (s.atStart = true → ∀ call, s.calls.getLast? = some call → call.pc ≠ .returned none) := by
  refine imp_congr_right fun _ => ?_
  simp only [starts, Option.any_eq_true, beq_iff_eq]
  constructor
  · intro h call hcall hpc
    exact h none ⟨call, hcall, hpc⟩ rfl
  · rintro h _ ⟨call, hcall, hpc⟩ rfl
    exact h call hcall hpc

/-! ### The steps of a call -/

/-- The call `k` moves to `pc`, and the sync run stays where it is. -/
structure Moves (s : State) (k : ℕ) (pc : Pc) (s' : State) : Prop where
  wrapper : s'.wrapper = s.wrapper
  calls : ∃ call, s'.calls = s.calls.set k call ∧ call.pc = pc

variable {k : ℕ} {call : Call} {pc : Pc}

theorem moves_setPc : Moves s k pc (s.setPc k call pc) := ⟨rfl, _, rfl, rfl⟩

theorem launch_moves (kind : Kind) (s : State) (k : ℕ) (call : Call) (stage : Stage) (x : Launch) :
    ∃ pc, Moves s k pc (launch kind s k call stage x) ∧ pc ≠ .returned none := by
  unfold launch
  split
  · exact ⟨_, moves_setPc, nofun⟩
  · cases x with
    | logErr e => exact ⟨.returned (some e), ⟨rfl, _, rfl, rfl⟩, nofun⟩
    | startErr e => exact ⟨.returned (some e), ⟨rfl, _, rfl, rfl⟩, nofun⟩
    | ok => exact ⟨.launched stage, ⟨rfl, _, rfl, rfl⟩, nofun⟩

theorem Moves.startErr_iff (hm : Moves s k pc s') (hk : s.calls[k]? = some call) (h : StartErr s) :
    StartErr s' ↔ (s.atStart = true → k + 1 = s.calls.length → pc ≠ .returned none) := by
  obtain ⟨hw, call', hcalls, rfl⟩ := hm
  have hat : s'.atStart = s.atStart := by
    unfold State.atStart
    rw [hw]
  have hlt := (List.getElem?_eq_some_iff.mp hk).1
  rw [ProviderProcess.startErr_iff] at h ⊢
  rw [hat]
  refine forall_congr' fun hs => ?_
  rw [hcalls, List.getLast?_eq_getElem?, List.length_set]
  by_cases hlast : k + 1 = s.calls.length
  · rw [show s.calls.length - 1 = k by omega, List.getElem?_set_self hlt]
    constructor
    · exact fun hc _ => hc call' rfl
    · intro hc _ hcall
      obtain rfl := Option.some.inj hcall
      exact hc hlast
  · rw [List.getElem?_set_ne (by omega), ← List.getLast?_eq_getElem?]
    exact iff_of_true (h hs) fun hc => absurd hc hlast

/-- A step of a call moves it, and the only one that returns nil is the last of a `Run` that
succeeds. -/
theorem CallStep.moves {l : Label} (hk : s.calls[k]? = some call)
    (hs : CallStep cfg.kind s k call l s') :
    ∃ pc, Moves s k pc s' ∧ (succeeds cfg s l = true ↔
      k + 1 = s.calls.length ∧ pc = .returned none) := by
  cases hs with
  | refuse x _ _ => exact ⟨_, moves_setPc, by simp [succeeds]⟩
  | enter x _ _ =>
      obtain ⟨pc, hm, hret⟩ := launch_moves cfg.kind s k call .first x
      exact ⟨pc, hm, by simp [succeeds, hret]⟩
  | read stage c _ _ => exact ⟨_, moves_setPc, by simp [succeeds]⟩
  | reap stage c err _ _ => exact ⟨_, moves_setPc, by simp [succeeds]⟩
  | reapNotStarted stage c _ _ => exact ⟨_, moves_setPc, by simp [succeeds]⟩
  | clear stage err _ => exact ⟨.cleared stage err, ⟨rfl, _, rfl, rfl⟩, by simp [succeeds]⟩
  | fail x matchErr stage e hpc => exact ⟨_, moves_setPc, by simp [succeeds, hk, hpc]⟩
  | next x matchErr stage hpc hgo =>
      obtain ⟨pc, hm, hret⟩ := launch_moves cfg.kind s k call .second x
      exact ⟨pc, hm, by simp [succeeds, hk, hpc, hgo, hret]⟩
  | finish x matchErr stage hpc hgo =>
      exact ⟨_, moves_setPc, by simp [succeeds, hk, hpc, hgo]⟩

/-! ### The system -/

/-- What a step does to the sync run and to the calls. -/
inductive Effect (cfg : Config) (s : State) (l : Label) (s' : State) : Prop
  | sync : l = .sync → s'.wrapper = runJobWrapper cfg.provider → Effect cfg s l s'
  | wrapper {state : JobState} {x : Reply} (e : SyncOp) (k : e.Answer → SyncProg Unit)
      (a : e.Answer) : l = .wrapper state x → s.wrapper = .op e k → s'.wrapper = k a →
      s'.calls = (effect s e a).calls → Effect cfg s l s'
  | exit {c : ℕ} {err : Option String} : l = .exit c err → s'.wrapper = s.wrapper →
      s'.calls = s.calls → Effect cfg s l s'
  | call {k : ℕ} {call : Call} {pc : Pc} : s.calls[k]? = some call → Moves s k pc s' →
      (succeeds cfg s l = true ↔ k + 1 = s.calls.length ∧ pc = .returned none) → Effect cfg s l s'

theorem step_effect {l : Label} (hs : step cfg s l = some s') : Effect cfg s l s' := by
  cases step_cases hs with
  | sync => exact .sync rfl rfl
  | wrapper state x e k a hw => exact .wrapper e k a rfl hw rfl rfl
  | exit c err signalled _ => exact .exit rfl rfl rfl
  | call k call _ _ hk hcall =>
      obtain ⟨pc, hm, hpc⟩ := hcall.moves hk
      exact .call hk hm hpc

/-- The sync run is what is left of `runJobWrapper`. -/
theorem step_paired {l : Label} (h : ∃ b, Paired s.wrapper b) (hs : step cfg s l = some s') :
    ∃ b, Paired s'.wrapper b := by
  cases step_effect hs with
  | sync _ hw =>
      rw [hw]
      exact ⟨false, runJobWrapper_paired cfg.provider⟩
  | wrapper e k a _ hw hw' _ =>
      obtain ⟨b, hb⟩ := h
      rw [hw] at hb
      rw [hw']
      exact ⟨_, (paired_op.mp hb).2 a⟩
  | exit _ hw _ =>
      rw [hw]
      exact h
  | call _ hm _ =>
      rw [hm.wrapper]
      exact h

theorem step_startErr_iff {l : Label} (hp : ∃ b, Paired s.wrapper b) (h : StartErr s)
    (hs : step cfg s l = some s') :
    StartErr s' ↔ (s.atStart = true → succeeds cfg s l = false) := by
  cases step_effect hs with
  | sync hl hw =>
      have hb := atStart_eq (s := s') (hw ▸ runJobWrapper_paired cfg.provider)
      refine iff_of_true (fun hat => ?_) fun _ => by rw [hl]; rfl
      cases hb.symm.trans hat
  | wrapper e k a hl hw hw' hcalls =>
      refine iff_of_true ?_ fun _ => by rw [hl]; rfl
      obtain ⟨b, hb⟩ := hp
      rw [hw] at hb
      have hat := atStart_eq (s := s') (hw' ▸ (paired_op.mp hb).2 a)
      rw [startErr_iff]
      intro hs' call hcall
      -- the select is reached from `runProvider` only, which appends a call
      obtain rfl : e = .runProvider := of_decide_eq_true (hat.symm.trans hs')
      rw [hcalls] at hcall
      have hnew : some ({} : Call) = some call := by
        rw [← hcall]
        exact (List.getLast?_concat).symm
      obtain rfl := Option.some.inj hnew
      exact nofun
  | exit hl hw hcalls =>
      refine iff_of_true ?_ fun _ => by rw [hl]; rfl
      rw [startErr_iff] at h ⊢
      rw [hcalls]
      unfold State.atStart at h ⊢
      rw [hw]
      exact h
  | call hk hm hsucc =>
      rw [hm.startErr_iff hk h, ← Bool.not_eq_true, hsucc, not_and]

/-- A step that returns nil is always possible. -/
theorem succeeds_of_none {l : Label} (hs : step cfg s l = none) : succeeds cfg s l = false := by
  cases l with
  | resume k x matchErr =>
      refine decide_eq_false ?_
      rintro ⟨-, hany⟩
      obtain ⟨call, hk, hpc⟩ := (Option.any_eq_true _ _).mp hany
      simp only [step, hk, Option.bind_some, stepResume] at hs
      split at hs
      · cases hs
      · split at hs <;> cases hs
      · rename_i hne hnone
        split at hpc
        · rename_i stage hcleared
          exact hnone stage hcleared
        · cases hpc
  | _ => rfl

/-- **No nil error at the start.**  In every run, what the first select of a sync run can receive
from `syncDone` is an error, exactly if no `Run` returns nil while the select that waits for its
start has not been passed. -/
theorem start_err_iff (cfg : Config) (ls : List Label) :
    Lts.Always (step cfg) StartErr State.init ls ↔
      Lts.Along (step cfg) (fun s l => s.atStart = true → succeeds cfg s l = false)
        State.init ls := by
  have hpaired : ∃ b, Paired State.init.wrapper b := ⟨false, rfl⟩
  have hinit : StartErr State.init := fun h => nomatch h
  rw [Lts.always_iff_along_of_enabled (I := fun s => ∃ b, Paired s.wrapper b)
    (fun l _ s s' hp hs => step_paired hp hs)
    (fun l _ s s' hp h hs => step_startErr_iff hp h hs)
    (fun l _ s hs _ => succeeds_of_none hs) hpaired]
  exact and_iff_right hinit

/-- A command that is tried once. -/
def oneCommand : Config where
  kind := .cmd
  provider := ⟨"debian", [], 1, "1h0m0s", 86400000000000⟩

/-- The command starts, exits with success, and `Run` returns before the sync run gets to its first
select. -/
def fastSuccess : List Label :=
  [.sync, .wrapper .ready .go, .wrapper .ready .go, .wrapper .ready .go, .enter 0 .ok, .read 0,
    .exit 0 none, .reap 0, .clear 0, .resume 0 .ok none]

/-- Both channels of the select are ready; the case of `syncDone` calls `Error` on nil. -/
theorem fast_success_panics : (∃ s, Lts.run (step oneCommand) State.init fastSuccess = some s ∧
      s.atStart = true ∧ starts s .started = true ∧ starts s (.done none) = true) ∧
    ∃ s k, Lts.run (step oneCommand) State.init
        (fastSuccess ++ [.wrapper .ready (.start (.done none))]) = some s ∧
      s.wrapper = .op .panic k :=
  ⟨⟨_, rfl, rfl, rfl, rfl⟩, _, _, rfl, rfl⟩

end KubeSync.ProviderProcess
