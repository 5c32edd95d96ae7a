import KubeSync.Lts
import KubeSync.Pool
import KubeSync.RunLoop

/-! # A killed sync run

A goroutine looks at its `kill` channel in two places: in the select before `runJobWrapper`, and in
the select that waits for the end of the provider.  Everything in between runs on.

* `SyncOp.inTime` lists the operations at which a close of `kill` comes in time: those between the
  call of `Run` and the second select, those of an attempt that is known to be the last one, and the
  messages that are the last ones of a run.
* `Stops p`: the code `p` calls `Run` of the provider no more, if the next select that waits for the
  end takes the case `kill`.  `runJobWrapper_marked` says that `runJobWrapper` has this property
  wherever it stands at one of these operations.
* `run_killed_starts_nothing`: if `kill` is closed only while the goroutine stands at its first
  select or at one of these operations, and its selects prefer `kill` from then on, the goroutine
  does not call `Run` again. -/

namespace KubeSync.Worker

/-- The operations at which a close of `kill` keeps the run of the provider from calling `Run`
again. -/
def SyncOp.inTime (p : Provider) : SyncOp → Bool
  | .awaitStart => true
  | .awaitDone => true
  -- with one attempt there is none behind these hooks
  | .hook .postExec _ => decide (p.Retry ≤ 1)
  | .hook .postFail _ => decide (p.Retry ≤ 1)
  | .hook .postSuccess _ => true
  | .dataSize => true
  -- the state is read behind a success and behind the last attempt
  | .getState => true
  -- a failure is scheduled behind the last attempt and behind a failing hook
  | .send m =>
      m.schedule || m.status == .success || m.status == .failed && decide (p.Retry ≤ 1)
  | .panic => true
  | .hook .preJob _ => false
  | .hook .preExec _ => false
  | .runProvider => false

/-- The case `kill` is taken where there is one. -/
def heedsKill : (e : SyncOp) → e.Answer → Bool
  | .awaitDone, .kill _ => true
  | .awaitDone, _ => false
  | _, _ => true

/-- The code calls `Run` no more, provided that it heeds `kill`; `Q` holds of what it returns. -/
def StopsWith {α : Type} (Q : α → Prop) (p : SyncProg α) : Prop :=
  p.Obeys (fun _ e => e ≠ SyncOp.runProvider)
    (fun _ e a => if heedsKill e a then some () else none) (fun a _ => Q a) ()

/-- The code of a goroutine calls `Run` no more, provided that it heeds `kill`. -/
def Stops (p : SyncProg Unit) : Prop := StopsWith (fun _ => True) p

variable {α β : Type} {Q : α → Prop} {p : Provider} {retry : ℤ}

theorem stopsWith_op {e : SyncOp} {k : e.Answer → SyncProg α} :
    StopsWith Q (.op e k) ↔
      e ≠ .runProvider ∧ ∀ a, heedsKill e a = true → StopsWith Q (k a) := by
  refine and_congr_right fun _ => ⟨fun h a ha => h a () (if_pos ha), fun h a b hb => ?_⟩
  by_cases ha : heedsKill e a = true
  · exact h a ha
  · cases (if_neg ha).symm.trans hb

theorem stopsWith_bind {q : SyncProg α} {f : α → SyncProg β} {Q : β → Prop}
    (h : StopsWith (fun a => StopsWith Q (f a)) q) : StopsWith Q (q >>= f) :=
  Prog.obeys_bind.mpr h

theorem stopsWith_call {e : SyncOp} {Q : e.Answer → Prop} (he : e ≠ .runProvider)
    (h : ∀ a, Q a) : StopsWith Q (Prog.call e) :=
  stopsWith_op.mpr ⟨he, fun a _ => h a⟩

theorem runHooks_stops {Q : Bool → Prop} (hQ : ∀ failed, Q failed) (ph : Phase) (hs : List ℕ) :
    StopsWith Q (runHooks ph hs) := by
  induction hs with
  | nil => exact hQ false
  | cons h hs ih =>
      refine stopsWith_bind (stopsWith_call nofun fun err => ?_)
      cases err with
      | none => exact ih
      | some err => exact stopsWith_bind (stopsWith_call nofun fun _ => hQ true)

/-- Hooks whose failure ends the loop; `Q` holds of what makes it end. -/
theorem hooks_stop {Q : Bool → Prop} (hfalse : Q false) (ph : Phase) (hs : List ℕ)
    {q : SyncProg Bool} (h : StopsWith Q q) :
    StopsWith Q (do if ← runHooks ph hs then return false else q) := by
  refine stopsWith_bind (runHooks_stops (fun failed => ?_) _ _)
  cases failed with
  | true => exact hfalse
  | false => exact h

theorem success_stops {Q : Bool → Prop} (hfalse : Q false) :
    StopsWith Q (do
      let _ ← SyncProg.dataSize
      let s ← SyncProg.getState
      SyncProg.send ⟨.success, "", s == .ready⟩
      return false) := by
  refine stopsWith_bind (stopsWith_call nofun fun _ => ?_)
  refine stopsWith_bind (stopsWith_call nofun fun _ => ?_)
  exact stopsWith_bind (stopsWith_call nofun fun _ => hfalse)

theorem failure_stops {Q : Bool → Prop} {r : Outcome} (hend : Q (!r.stopASAP)) (p : Provider)
    (retry : ℤ) (err : String) :
    StopsWith Q (do
      let schedule ← failedSchedule p retry
      SyncProg.send ⟨.failed, err, schedule⟩
      return !r.stopASAP) := by
  refine stopsWith_bind ?_
  unfold failedSchedule
  split
  · exact stopsWith_bind
      (stopsWith_call nofun fun _ => stopsWith_bind (stopsWith_call nofun fun _ => hend))
  · exact stopsWith_bind (stopsWith_call nofun fun _ => hend)

/-- Behind a kill, and behind an attempt after which the loop ends, the code stops. -/
theorem report_stops {Q : Bool → Prop} (hfalse : Q false) (p : Provider) (retry : ℤ) (r : Outcome)
    (hend : Q (!r.stopASAP)) : StopsWith Q (report p retry r) := by
  unfold report
  refine hooks_stop hfalse _ _ ?_
  cases r.syncErr with
  | none => exact hooks_stop hfalse _ _ (success_stops hfalse)
  | some err => exact hooks_stop hfalse _ _ (failure_stops hend p retry err)

/-- The second select of an attempt. -/
theorem awaitDone_stops {Q : Bool → Prop} (hfalse : Q false) (p : Provider) (retry : ℤ)
    (start : StartSel) :
    StopsWith Q (do
      let r := outcome p start (← SyncProg.awaitDone)
      if r.termErr.isSome then
        return false
      report p retry r) := by
  refine stopsWith_bind (stopsWith_op.mpr ⟨nofun, fun sel hsel => ?_⟩)
  cases sel with
  | kill t =>
      change StopsWith _ (if t.isSome then _ else _)
      split
      · exact hfalse
      · exact report_stops hfalse p retry _ hfalse
  | done err => cases hsel
  | timeout t => cases hsel

/-- The two selects of an attempt. -/
theorem awaitStart_stops {Q : Bool → Prop} (hfalse : Q false) (p : Provider) (retry : ℤ) :
    StopsWith Q (do
      let start ← SyncProg.awaitStart
      if start = .done none then
        SyncProg.panic
      else do
        let r := outcome p start (← SyncProg.awaitDone)
        if r.termErr.isSome then
          return false
        report p retry r) := by
  refine stopsWith_bind (stopsWith_call nofun fun start => ?_)
  split
  · exact stopsWith_op.mpr ⟨nofun, nofun⟩
  · exact awaitDone_stops hfalse p retry start

/-! ### The places of the code -/

/-- Wherever the code stands at an operation that is in time, it stops; `Q` says which values of it
are followed by code that stops. -/
def Marked (p : Provider) (Q : α → Prop) : SyncProg α → Prop
  | .ret _ => True
  | .op e k => (e.inTime p = true → StopsWith Q (.op e k)) ∧ ∀ a, Marked p Q (k a)

theorem marked_bind {q : SyncProg α} {f : α → SyncProg β} {Q : β → Prop}
    (hq : Marked p (fun a => StopsWith Q (f a)) q) (hf : ∀ a, Marked p Q (f a)) :
    Marked p Q (q >>= f) := by
  induction q with
  | ret a => exact hf a
  | op e k ih => exact ⟨fun he => stopsWith_bind (hq.1 he), fun a => ih a (hq.2 a)⟩

/-- An operation, with the code behind it. -/
theorem marked_call {e : SyncOp} {f : e.Answer → SyncProg α}
    (he : e.inTime p = true → StopsWith Q (Prog.call e >>= f)) (hf : ∀ a, Marked p Q (f a)) :
    Marked p Q (Prog.call e >>= f) := ⟨he, hf⟩

theorem runHooks_marked {Q : Bool → Prop} (htrue : Q true) {ph : Phase}
    (hfalse : ∀ h, (SyncOp.hook ph h).inTime p = true → Q false) (hs : List ℕ) :
    Marked p Q (runHooks ph hs) := by
  have hQ : ∀ h, (SyncOp.hook ph h).inTime p = true → ∀ failed, Q failed := by
    intro h hin failed
    cases failed with
    | true => exact htrue
    | false => exact hfalse h hin
  induction hs with
  | nil => exact trivial
  | cons h hs ih =>
      refine marked_call (fun hin => runHooks_stops (hQ h hin) ph (h :: hs)) fun err => ?_
      cases err with
      | none => exact ih
      | some err =>
          exact marked_call (fun _ => stopsWith_bind (stopsWith_call nofun fun _ => htrue))
            fun _ => trivial

/-- Hooks whose failure ends the loop. -/
theorem hooks_marked {Q : Bool → Prop} (hQ : Q false) {ph : Phase} (hs : List ℕ)
    {q : SyncProg Bool} (hstop : ∀ h, (SyncOp.hook ph h).inTime p = true → StopsWith Q q)
    (hq : Marked p Q q) :
    Marked p Q (do if ← runHooks ph hs then return false else q) := by
  refine marked_bind (runHooks_marked hQ hstop hs) fun failed => ?_
  cases failed with
  | true => exact trivial
  | false => exact hq

theorem success_marked {Q : Bool → Prop} (hfalse : Q false) :
    Marked p Q (do
      let _ ← SyncProg.dataSize
      let s ← SyncProg.getState
      SyncProg.send ⟨.success, "", s == .ready⟩
      return false) := by
  refine marked_call (fun _ => success_stops hfalse) fun _ => ?_
  refine marked_call (fun _ => ?_) fun _ => ?_
  · refine stopsWith_bind (stopsWith_call nofun fun _ => ?_)
    exact stopsWith_bind (stopsWith_call nofun fun _ => hfalse)
  · exact marked_call (fun _ => stopsWith_bind (stopsWith_call nofun fun _ => hfalse))
      fun _ => trivial

/-- The last message of an attempt: it is in time if it is scheduled, or if there is one attempt. -/
theorem failure_marked {Q : Bool → Prop} {r : Outcome} (hlast : p.Retry ≤ retry + 1 → Q true)
    (hfalse : Q false) (hretry : 0 ≤ retry) (err : String) :
    Marked p Q (do
      let schedule ← failedSchedule p retry
      SyncProg.send ⟨.failed, err, schedule⟩
      return !r.stopASAP) := by
  have hend : p.Retry ≤ retry + 1 → Q (!r.stopASAP) := by
    intro hle
    cases !r.stopASAP with
    | true => exact hlast hle
    | false => exact hfalse
  have hsend : ∀ schedule, (schedule = true → p.Retry ≤ retry + 1) →
      Marked p Q (SyncProg.send ⟨.failed, err, schedule⟩ >>= fun _ => return !r.stopASAP) := by
    intro schedule hschedule
    refine marked_call (fun hin => ?_) fun _ => trivial
    refine stopsWith_bind (stopsWith_call nofun fun _ => hend ?_)
    cases schedule with
    | true => exact hschedule rfl
    | false =>
        have hone : p.Retry ≤ 1 := by simpa [SyncOp.inTime] using hin
        omega
  unfold failedSchedule
  split
  · rename_i hindex
    have hle : p.Retry ≤ retry + 1 := by omega
    refine marked_call (fun _ => ?_) fun s => hsend _ fun _ => hle
    exact stopsWith_bind
      (stopsWith_call nofun fun _ => stopsWith_bind (stopsWith_call nofun fun _ => hend hle))
  · exact hsend false nofun

theorem report_marked {Q : Bool → Prop} (hlast : p.Retry ≤ retry + 1 → Q true) (hfalse : Q false)
    (hretry : 0 ≤ retry) (r : Outcome) : Marked p Q (report p retry r) := by
  have hend : p.Retry ≤ 1 → Q (!r.stopASAP) := by
    intro hone
    cases !r.stopASAP with
    | true => exact hlast (by omega)
    | false => exact hfalse
  unfold report
  cases r.syncErr with
  | none =>
      refine hooks_marked hfalse _
        (fun h hin => hooks_stop hfalse _ _ (success_stops hfalse)) ?_
      exact hooks_marked hfalse _ (fun _ _ => success_stops hfalse) (success_marked hfalse)
  | some err =>
      refine hooks_marked hfalse _ (fun h hin => ?_) ?_
      · exact hooks_stop hfalse _ _ (failure_stops (hend (of_decide_eq_true hin)) p retry err)
      · refine hooks_marked hfalse _ (fun h hin => ?_) (failure_marked hlast hfalse hretry err)
        exact failure_stops (hend (of_decide_eq_true hin)) p retry err

theorem attempt_marked {Q : Bool → Prop} (hlast : p.Retry ≤ retry + 1 → Q true) (hfalse : Q false)
    (hretry : 0 ≤ retry) : Marked p Q (attempt p retry) := by
  unfold attempt
  refine hooks_marked hfalse _ nofun ?_
  refine marked_call nofun fun _ => marked_call nofun fun _ => ?_
  refine marked_call (fun _ => awaitStart_stops hfalse p retry) fun start => ?_
  split
  · exact ⟨fun _ => stopsWith_op.mpr ⟨nofun, nofun⟩, nofun⟩
  · refine marked_call (fun _ => awaitDone_stops hfalse p retry start) fun sel => ?_
    dsimp only
    split
    · exact trivial
    · exact report_marked hlast hfalse hretry _

/-- The retry loop, `n` rounds before its end. -/
theorem attempts_marked (n : ℕ) (hretry : 0 ≤ retry) (hn : n = (p.Retry - retry).toNat) :
    Marked p (fun _ => True) (attempts p n retry) := by
  induction n generalizing retry with
  | zero => exact trivial
  | succ n ih =>
      refine marked_bind (attempt_marked (fun hle => ?_) trivial hretry) fun again => ?_
      · -- no round is left behind the last index
        have hzero : n = 0 := by omega
        subst hzero
        exact trivial
      · cases again with
        | true => exact ih (by omega) (by omega)
        | false => exact trivial

theorem runJobWrapper_marked (p : Provider) : Marked p (fun _ => True) (runJobWrapper p) := by
  unfold runJobWrapper
  refine marked_call nofun fun _ => ?_
  refine marked_bind (runHooks_marked trivial nofun _) fun failed => ?_
  cases failed with
  | true => exact trivial
  | false => exact attempts_marked _ (Int.le_refl 0) (by rw [Int.sub_zero])

end KubeSync.Worker

namespace KubeSync.RunLoop

open Worker (JobState CtrlAction RunPc SyncPc SyncMove SyncProg SyncOp Reply DoneSel Stops Marked
  stopsWith_op heedsKill runJobWrapper runJobWrapper_marked answer)

/-! ### The condition -/

/-- The goroutine stands at its first select, at an operation that is in time, or behind its last
operation. -/
def Goroutine.inTime (p : Worker.Provider) (g : Goroutine) : Bool :=
  match g.pc with
  | .body (.op e _) => e.inTime p
  | _ => true

/-- The condition on `close(kill)`: it comes in time for the goroutine of the round. -/
def closesInTime (cfg : Worker.Config) (s : State) : Label → Bool
  | .run =>
      match s.pc with
      | .killing _ => s.syncs.head?.all (Goroutine.inTime cfg.provider)
      | _ => true
  | _ => true

/-- The condition on a goroutine whose `kill` is closed: its selects take that case. -/
def takesKill (s : State) : Label → Bool
  | .sync i x => s.syncs[i]?.all fun g => g.kills == 0 ||
      match g.pc, x with
      | .select, .kill => true
      | .select, _ => false
      | .body (.op .awaitDone _), .op (.done (.kill _)) => true
      | .body (.op .awaitDone _), _ => false
      | _, _ => true
  | _ => true

/-- A step in which a goroutine calls `Run` although its `kill` is closed. -/
def startsKilled (s : State) : Label → Bool
  | .sync i (.op _) => s.syncs[i]?.any fun g => 0 < g.kills &&
      match g.pc with
      | .body (.op .runProvider _) => true
      | _ => false
  | _ => false

/-- The code that a goroutine has left stops where it is in time, and all of it stops once `kill` is
closed. -/
def Goroutine.Placed (p : Worker.Provider) (g : Goroutine) : Prop :=
  ∀ q, g.pc = .body q → Marked p (fun _ => True) q ∧ (0 < g.kills → Stops q)

def Placed (cfg : Worker.Config) (s : State) : Prop := ∀ g ∈ s.syncs, g.Placed cfg.provider

variable {cfg : Worker.Config} {s s' : State} {i : ℕ} {g : Goroutine}

/-! ### The steps keep it -/

/-- A goroutine that enters `runJobWrapper`. -/
theorem Goroutine.placed_enter {p : Worker.Provider} (hpc : g.pc = .body (runJobWrapper p))
    (hk : ¬ 0 < g.kills) : g.Placed p := by
  intro q hq
  obtain rfl := SyncPc.body.inj (hpc.symm.trans hq)
  exact ⟨runJobWrapper_marked p, fun h => absurd h hk⟩

theorem Goroutine.placed_of_ne {p : Worker.Provider} (hpc : ∀ q, g.pc ≠ .body q) : g.Placed p :=
  fun q hq => absurd hq (hpc q)

theorem Goroutine.Placed.close {p : Worker.Provider} (h : g.Placed p) (hin : g.inTime p = true) :
    ({ g with kills := g.kills + 1 } : Goroutine).Placed p := by
  intro q hq
  obtain ⟨hmarked, -⟩ := h q hq
  refine ⟨hmarked, fun _ => ?_⟩
  have hpc : g.pc = .body q := hq
  unfold Goroutine.inTime at hin
  rw [hpc] at hin
  cases q with
  | ret u => exact trivial
  | op e k => exact hmarked.1 hin

theorem Goroutine.Placed.op {p : Worker.Provider} {e : SyncOp} {k : e.Answer → SyncProg Unit}
    {a : e.Answer} (h : g.Placed p) (hpc : g.pc = .body (.op e k))
    (ha : 0 < g.kills → heedsKill e a = true) :
    ({ g with pc := .body (k a) } : Goroutine).Placed p := by
  intro q hq
  obtain rfl := SyncPc.body.inj hq
  obtain ⟨hmarked, hstop⟩ := h _ hpc
  exact ⟨hmarked.2 a, fun hk => (stopsWith_op.mp (hstop hk)).2 a (ha hk)⟩

theorem Placed.join {pc : RunPc} (h : Placed cfg s) (hs : join s pc = some s') :
    Placed cfg s' := by
  obtain ⟨g, gs, g', hsyncs, hg', rfl⟩ := join_cases hs
  unfold Placed at h
  rw [hsyncs] at h
  intro x hx
  rcases List.mem_cons.mp hx with hx | hx
  · subst hx
    rcases receive_cases hg' with ⟨-, rfl⟩ | ⟨-, -, rfl⟩
    · exact Goroutine.placed_of_ne nofun
    · exact h _ List.mem_cons_self
  · exact h x (List.mem_cons_of_mem _ hx)

theorem Placed.closeKill (h : Placed cfg s)
    (hin : s.syncs.head?.all (Goroutine.inTime cfg.provider) = true) :
    ∀ g ∈ closeKill s.syncs, g.Placed cfg.provider := by
  unfold Placed at h
  cases hsyncs : s.syncs with
  | nil => exact fun g hmem => nomatch hmem
  | cons g gs =>
      rw [hsyncs] at h hin
      intro x hx
      rcases List.mem_cons.mp hx with hx | hx
      · subst hx
        exact (h g List.mem_cons_self).close hin
      · exact h x (List.mem_cons_of_mem _ hx)

theorem Placed.run (h : Placed cfg s) (hc : closesInTime cfg s .run = true)
    (hs : stepRun s = some s') : Placed cfg s' := by
  unfold stepRun at hs
  split at hs
  · cases hs
    exact h
  · cases hs
    exact h
  · cases hs
    intro x hx
    rcases List.mem_cons.mp hx with rfl | hx
    · exact Goroutine.placed_of_ne nofun
    · exact h x hx
  · obtain ⟨a, -, rfl⟩ := Option.map_eq_some_iff.mp hs
    exact h
  · cases hs
    exact h
  · rename_i a hpc
    cases hs
    unfold closesInTime at hc
    rw [hpc] at hc
    exact h.closeKill hc
  · exact h.join hs
  · cases hs
    exact h
  · obtain ⟨a, -, rfl⟩ := Option.map_eq_some_iff.mp hs
    exact h
  · cases hs
    exact h
  · cases hs
    exact h
  · cases hs

/-- The answer of an operation of a goroutine that takes `kill` where it can. -/
theorem heedsKill_of_answer {e : SyncOp} {x : Reply} {a : e.Answer} {k : e.Answer → SyncProg Unit}
    (hg : s.syncs[i]? = some g) (hpc : g.pc = .body (.op e k)) (hk : 0 < g.kills)
    (hc : takesKill s (.sync i (.op x)) = true) (st : Worker.State) (b : Bool)
    (ha : answer st b e x = some a) : heedsKill e a = true := by
  have hk' : g.kills ≠ 0 := by omega
  simp only [takesKill, hg, Option.all_some, hpc, beq_eq_false_iff_ne.mpr hk', Bool.false_or] at hc
  cases e with
  | awaitDone =>
      cases x with
      | done sel =>
          cases sel with
          | kill t =>
              change (if b then some (DoneSel.kill t) else none) = some a at ha
              split at ha
              · cases ha
                rfl
              · cases ha
          | _ => cases hc
      | _ => cases hc
  | _ => rfl

theorem Placed.sync {x : SyncMove} (h : Placed cfg s) (hg : s.syncs[i]? = some g)
    (hc : takesKill s (.sync i x) = true) (hs : stepSync cfg s i g x = some s') :
    Placed cfg s' := by
  have hsel : g.pc = .select → x ≠ .kill → ¬ 0 < g.kills := by
    intro hpc hx hk
    have hk' : g.kills ≠ 0 := by omega
    simp only [takesKill, hg, Option.all_some, hpc, beq_eq_false_iff_ne.mpr hk',
      Bool.false_or] at hc
    cases x with
    | kill => exact hx rfl
    | _ => cases hc
  cases stepSync_cases hs with
  | acquire hpc _ | bypass hpc _ =>
      exact Pool.forall_set h (Goroutine.placed_enter rfl (hsel hpc nofun))
  | kill _ _ | finish _ _ => exact Pool.forall_set h (Goroutine.placed_of_ne nofun)
  | op x e k a hpc ha =>
      refine Pool.forall_set h ((h g (List.mem_of_getElem? hg)).op hpc fun hk => ?_)
      exact heedsKill_of_answer hg hpc hk hc _ _ ha

theorem step_placed {l : Label} (h : Placed cfg s) (hc : takesKill s l = true)
    (ht : closesInTime cfg s l = true) (hs : step cfg s l = some s') : Placed cfg s' := by
  cases l with
  | action a =>
      simp only [step] at hs
      split at hs
      · cases hs
        exact h
      · cases hs
  | setState state =>
      cases hs
      exact h
  | run => exact h.run ht hs
  | done =>
      simp only [step, stepDone] at hs
      split at hs
      · exact h.join hs
      · cases hs
  | sync i x =>
      obtain ⟨g, hg, hs⟩ := Option.bind_eq_some_iff.mp hs
      exact h.sync hg hc hs
  | release i =>
      obtain ⟨g, hg, hs⟩ := Option.bind_eq_some_iff.mp hs
      obtain ⟨-, -, -, rfl⟩ := stepRelease_cases hs
      exact Pool.forall_set h (h g (List.mem_of_getElem? hg))

/-- Code that stops does not stand at `Run`. -/
theorem not_startsKilled {l : Label} (h : Placed cfg s) : startsKilled s l = false := by
  unfold startsKilled
  split
  · rw [Option.any_eq_false]
    intro g hg
    refine eq_false_of_ne_true fun hany => ?_
    obtain ⟨hk, hpc⟩ := Bool.and_eq_true_iff.mp hany
    split at hpc
    · rename_i heq
      have hstop := (h g (List.mem_of_getElem? hg) _ heq).2 (of_decide_eq_true hk)
      exact (stopsWith_op.mp hstop).1 rfl
    · cases hpc
  · rfl

/-- **A killed run starts nothing more.**  In every run in which `kill` is closed in time and the
selects of a goroutine take the case `kill` once it is closed, no goroutine calls `Run` behind the
close of its `kill`. -/
theorem run_killed_starts_nothing (cfg : Worker.Config) (state : JobState) (ls : List Label)
    (hc : Lts.Along (step cfg) (fun s l => takesKill s l = true ∧ closesInTime cfg s l = true)
      (State.init state) ls) :
    Lts.Along (step cfg) (fun s l => startsKilled s l = false) (State.init state) ls := by
  have hkeep : ∀ s l s', Placed cfg s → takesKill s l = true ∧ closesInTime cfg s l = true →
      step cfg s l = some s' → Placed cfg s' := fun s l s' h hc hs => step_placed h hc.1 hc.2 hs
  have hinit : Placed cfg (State.init state) := fun _ hg => nomatch hg
  exact Lts.Along.of_invariant hkeep (fun s l h _ => not_startsKilled h) hinit hc

/-- A provider that is tried twice. -/
def twoTries : Worker.Config where
  provider := ⟨"debian", [], 2, "1h0m0s", 86400000000000⟩
  concurrent := 1

/-- The provider has started when `stop` is received. -/
def stopReceived : List Label :=
  [.run, .run, .run, .sync 0 .acquire, .sync 0 (.op .go), .sync 0 (.op .go), .sync 0 (.op .go),
    .sync 0 (.op (.start .started)), .action .stop, .run, .run]

/-- The goroutine takes the case `kill` and returns. -/
theorem killed_in_select_starts_nothing :
    (∃ s, Lts.run (step twoTries) (State.init .ready)
        (stopReceived ++ [.run, .sync 0 (.op (.done (.kill none))), .sync 0 (.op .go),
          .sync 0 .finish]) = some s) ∧
      Lts.Along (step twoTries) (fun s l => startsKilled s l = false) (State.init .ready)
        (stopReceived ++ [.run, .sync 0 (.op (.done (.kill none))), .sync 0 (.op .go),
          .sync 0 .finish]) :=
  ⟨⟨_, rfl⟩, run_killed_starts_nothing twoTries .ready _
    (.and (Lts.along_of_check rfl) (Lts.along_of_check rfl))⟩

/-- The attempt fails while `kill` is closed; the select takes the failure, and the next attempt
calls `Run`. -/
theorem killed_run_retries : ∃ s s',
    Lts.run (step twoTries) (State.init .ready)
        (stopReceived ++ [.run, .sync 0 (.op (.done (.done (some "exit status 10")))),
          .sync 0 (.op .go), .sync 0 (.op .go)]) = some s ∧
      startsKilled s (.sync 0 (.op .go)) = true ∧ step twoTries s (.sync 0 (.op .go)) = some s' :=
  ⟨_, _, rfl, rfl, rfl⟩

end KubeSync.RunLoop
