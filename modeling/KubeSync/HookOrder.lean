import KubeSync.RunProtocol

/-! # The order of the hooks and the retries

The calls that a sync run makes are read off its trace (`calls`), and so are the outcomes of its
syncs (`outcomes`).

* `attemptCalls` are the calls of one attempt, `RetryLaw` says which outcomes the attempts of one
  run may have, and a run is `Lawful` if it returns and its calls are those of such attempts behind
  the pre-job hooks.
* `runJobWrapper_lawful_iff`: a run whose hooks and `Terminate` succeed and that is not killed is
  lawful exactly if its first select never receives a nil error. -/

namespace KubeSync.Worker

open Prog (Ends ends_ret ends_op ends_call_bind)

/-- A call of a sync run: a method of a hook, or the sync. -/
inductive RunCall where
  | hook (ph : Phase) (h : ℕ)
  | sync
deriving DecidableEq, Repr

/-- The calls along a trace. -/
def calls (tr : List SyncEvent) : List RunCall :=
  tr.filterMap fun ev => match ev with
    | ⟨.hook ph h, _⟩ => some (.hook ph h)
    | ⟨.runProvider, _⟩ => some .sync
    | _ => none

/-- The outcomes of the syncs along a trace, where `start` is the case that the first select took
last. -/
def outcomesFrom (p : Provider) : StartSel → List SyncEvent → List Bool
  | _, [] => []
  | _, ⟨.awaitStart, sel⟩ :: tr => outcomesFrom p sel tr
  | start, ⟨.awaitDone, sel⟩ :: tr =>
      (outcome p start sel).syncErr.isNone :: outcomesFrom p start tr
  | start, ⟨.hook _ _, _⟩ :: tr => outcomesFrom p start tr
  | start, ⟨.send _, _⟩ :: tr => outcomesFrom p start tr
  | start, ⟨.runProvider, _⟩ :: tr => outcomesFrom p start tr
  | start, ⟨.dataSize, _⟩ :: tr => outcomesFrom p start tr
  | start, ⟨.getState, _⟩ :: tr => outcomesFrom p start tr
  | start, ⟨.panic, _⟩ :: tr => outcomesFrom p start tr

def outcomes (p : Provider) (tr : List SyncEvent) : List Bool := outcomesFrom p .started tr

/-- The calls of one attempt. -/
def attemptCalls (hooks : List ℕ) (ok : Bool) : List RunCall :=
  hooks.map (.hook .preExec) ++ [.sync] ++ hooks.reverse.map (.hook .postExec) ++
    hooks.reverse.map (.hook (if ok then .postSuccess else .postFail))

/-- The outcomes of the attempts of one run: only the last one may be a success, there are at most
`retry` of them, and fewer only if the last one is a success. -/
structure RetryLaw (retry : ℕ) (oks : List Bool) : Prop where
  failed : ∀ ok ∈ oks.dropLast, ok = false
  bounded : oks.length ≤ retry
  ended : oks.getLast? = some true ∨ oks.length = retry

/-- The run returns, and its calls are the pre-job hooks in order and then those of its attempts. -/
structure Lawful (p : Provider) (tr : List SyncEvent) (o : Option Unit) : Prop where
  returns : o = some ()
  attempts : RetryLaw p.Retry.toNat (outcomes p tr)
  calls : calls tr =
    p.hooks.map (.hook .preJob) ++ (outcomes p tr).flatMap (attemptCalls p.hooks)

/-- No hook fails, `Terminate` does not fail and there is no kill. -/
structure Undisturbed (tr : List SyncEvent) : Prop where
  hooks : ∀ ph, tr.any (hookFails ph) = false
  terminate : tr.any termFails = false
  kill : tr.any killed = false

variable {p : Provider} {start : StartSel} {tr tr' : List SyncEvent}

theorem undisturbed_append : Undisturbed (tr ++ tr') ↔ Undisturbed tr ∧ Undisturbed tr' := by
  constructor
  · rintro ⟨hh, ht, hk⟩
    simp only [List.any_append, Bool.or_eq_false_iff] at hh ht hk
    exact ⟨⟨fun ph => (hh ph).1, ht.1, hk.1⟩, ⟨fun ph => (hh ph).2, ht.2, hk.2⟩⟩
  · rintro ⟨⟨hh, ht, hk⟩, ⟨hh', ht', hk'⟩⟩
    refine ⟨fun ph => ?_, ?_, ?_⟩
    · rw [List.any_append, hh ph, hh' ph]
      rfl
    · rw [List.any_append, ht, ht']
      rfl
    · rw [List.any_append, hk, hk']
      rfl

theorem Undisturbed.tail {ev : SyncEvent} (h : Undisturbed (ev :: tr)) : Undisturbed tr := by
  have h' : Undisturbed ([ev] ++ tr) := h
  exact (undisturbed_append.mp h').2

theorem calls_append (tr tr' : List SyncEvent) : calls (tr ++ tr') = calls tr ++ calls tr' :=
  List.filterMap_append

/-! ### The hooks -/

theorem runHooks_calls {ph : Phase} {hs : List ℕ} {o : Option Bool}
    (h : Ends (runHooks ph hs) tr o) (hu : Undisturbed tr) :
    o = some false ∧ calls tr = hs.map (.hook ph) ∧
      ∀ start tr', outcomesFrom p start (tr ++ tr') = outcomesFrom p start tr' := by
  induction hs generalizing tr with
  | nil =>
      obtain ⟨rfl, rfl⟩ := ends_ret.mp h
      exact ⟨rfl, rfl, fun _ _ => rfl⟩
  | cons x hs ih =>
      obtain ⟨r, tr₁, rfl, h₁⟩ := ends_op.mp h
      cases r with
      | none =>
          obtain ⟨ho, hcalls, houts⟩ := ih h₁ hu.tail
          exact ⟨ho, congrArg (RunCall.hook ph x :: ·) hcalls, houts⟩
      | some err =>
          have hfail := hu.hooks ph
          simp [hookFails] at hfail

/-! ### One attempt -/

/-- The calls behind the sync. -/
theorem report_calls {retry : ℤ} {r : Outcome} {o : Option Bool}
    (h : Ends (report p retry r) tr o) (hu : Undisturbed tr) (hs : r.stopASAP = false) :
    o = some (!r.syncErr.isNone) ∧
      calls tr = p.hooks.reverse.map (.hook .postExec) ++
        p.hooks.reverse.map (.hook (if r.syncErr.isNone then .postSuccess else .postFail)) ∧
      ∀ start tr', outcomesFrom p start (tr ++ tr') = outcomesFrom p start tr' := by
  rcases report_cases h with ⟨-, h₁⟩ | ⟨tr₁, tr₂, rfl, h₁, h₂⟩
  · cases (runHooks_calls (p := p) h₁ hu).1
  obtain ⟨hu₁, hu₂⟩ := undisturbed_append.mp hu
  obtain ⟨-, hc₁, ho₁⟩ := runHooks_calls (p := p) h₁ hu₁
  rcases h₂ with ⟨-, h₃⟩ | ⟨tr₃, tr₄, rfl, h₃, hf⟩
  · cases (runHooks_calls (p := p) h₃ hu₂).1
  obtain ⟨hu₃, -⟩ := undisturbed_append.mp hu₂
  obtain ⟨-, hc₃, ho₃⟩ := runHooks_calls (p := p) h₃ hu₃
  -- what follows the hooks is no call
  have hfinish : o = some (!r.syncErr.isNone) ∧ calls tr₄ = [] ∧
      ∀ start tr', outcomesFrom p start (tr₄ ++ tr') = outcomesFrom p start tr' := by
    cases hf with
    | success n s hr => exact ⟨by rw [hr]; rfl, rfl, fun _ _ => rfl⟩
    | last err s hr hl => exact ⟨by rw [hr, hs]; rfl, rfl, fun _ _ => rfl⟩
    | again err hr hl => exact ⟨by rw [hr, hs]; rfl, rfl, fun _ _ => rfl⟩
  obtain ⟨ho, hc₄, ho₄⟩ := hfinish
  refine ⟨ho, ?_, fun start tr' => ?_⟩
  · rw [calls_append, calls_append, hc₁, hc₃, hc₄, List.append_nil]
    rfl
  · rw [List.append_assoc, ho₁, List.append_assoc, ho₃, ho₄]

/-- An attempt that comes to an end. -/
theorem attempt_calls {retry : ℤ} {more : Bool} (h : Ends (attempt p retry) tr (some more))
    (hu : Undisturbed tr) :
    ∃ ok sel, more = !ok ∧ calls tr = attemptCalls p.hooks ok ∧
      ∀ start tr', outcomesFrom p start (tr ++ tr') = ok :: outcomesFrom p sel tr' := by
  rcases attempt_cases h with ⟨-, h₁⟩ | ⟨tr₁, tr₂, rfl, h₁, hsync⟩
  · cases (runHooks_calls (p := p) h₁ hu).1
  obtain ⟨hu₁, hu₂⟩ := undisturbed_append.mp hu
  obtain ⟨-, hc₁, ho₁⟩ := runHooks_calls (p := p) h₁ hu₁
  have hterminate := hu₂.terminate
  have hkill := hu₂.kill
  cases hsync with
  | termErr start sel e hne hterm =>
      cases sel with
      | done err => cases hterm
      | timeout t =>
          obtain rfl : t = some e := hterm
          simp [termFails] at hterminate
      | kill t => simp [killed] at hkill
  | report start sel tr₃ _ hne hterm hr =>
      have hstop : (outcome p start sel).stopASAP = false := by
        cases sel with
        | done err => rfl
        | timeout t => rfl
        | kill t => simp [killed] at hkill
      obtain ⟨hmore, hc₃, ho₃⟩ := report_calls hr hu₂.tail.tail.tail.tail hstop
      refine ⟨(outcome p start sel).syncErr.isNone, start, Option.some.inj hmore, ?_,
        fun start' tr' => ?_⟩
      · have hcalls : calls (⟨.send ⟨.syncing, "", false⟩, ()⟩ :: ⟨.runProvider, ()⟩ ::
            ⟨.awaitStart, start⟩ :: ⟨.awaitDone, sel⟩ :: tr₃) = .sync :: calls tr₃ := rfl
        rw [calls_append, hcalls, hc₁, hc₃]
        simp only [attemptCalls, List.append_assoc, List.cons_append, List.nil_append]
      · rw [List.append_assoc, ho₁]
        exact congrArg ((outcome p start sel).syncErr.isNone :: ·) (ho₃ start tr')

/-! ### The retry loop -/

theorem RetryLaw.last (n : ℕ) : RetryLaw (n + 1) [true] :=
  ⟨nofun, Nat.le_add_left 1 n, .inl rfl⟩

theorem RetryLaw.again {n : ℕ} {oks : List Bool} (h : RetryLaw n oks) :
    RetryLaw (n + 1) (false :: oks) := by
  obtain ⟨hf, hb, he⟩ := h
  refine ⟨?_, Nat.succ_le_succ hb, ?_⟩
  · cases oks with
    | nil => exact nofun
    | cons ok oks =>
        intro x hx
        rcases List.mem_cons.mp hx with rfl | hx
        · rfl
        · exact hf x hx
  · rcases he with he | he
    · refine .inl ?_
      rw [List.getLast?_cons, he]
      rfl
    · exact .inr (congrArg (· + 1) he)

theorem attempts_calls {n : ℕ} {retry : ℤ} (h : Ends (attempts p n retry) tr (some ()))
    (hu : Undisturbed tr) (start : StartSel) :
    RetryLaw n (outcomesFrom p start tr) ∧
      calls tr = (outcomesFrom p start tr).flatMap (attemptCalls p.hooks) := by
  induction n generalizing retry tr start with
  | zero =>
      obtain ⟨rfl, -⟩ := ends_ret.mp h
      exact ⟨⟨nofun, Nat.le_refl 0, .inr rfl⟩, rfl⟩
  | succ n ih =>
      rcases attempts_cases h with ⟨tr₁, tr₂, rfl, h₁, h₂⟩ | ⟨-, h₁⟩ | ⟨ho, -⟩
      · obtain ⟨hu₁, hu₂⟩ := undisturbed_append.mp hu
        obtain ⟨ok, sel, hok, hcalls, houts⟩ := attempt_calls h₁ hu₁
        obtain rfl : ok = false := by simpa using hok
        obtain ⟨hlaw, hrest⟩ := ih h₂ hu₂ sel
        rw [houts, calls_append, hcalls, List.flatMap_cons]
        exact ⟨hlaw.again, by rw [hrest]⟩
      · obtain ⟨ok, sel, hok, hcalls, houts⟩ := attempt_calls h₁ hu
        obtain rfl : ok = true := by simpa using hok
        have hlast : outcomesFrom p start tr = [true] := by
          rw [← List.append_nil tr, houts]
          rfl
        rw [hlast, hcalls, List.flatMap_singleton]
        exact ⟨.last n, rfl⟩
      · cases ho

/-- A run that returns has received no nil error in its first select. -/
theorem attempts_nilStart {n : ℕ} {retry : ℤ} (h : Ends (attempts p n retry) tr (some ())) :
    tr.any nilStart = false := by
  induction n generalizing retry tr with
  | zero =>
      obtain ⟨rfl, -⟩ := ends_ret.mp h
      rfl
  | succ n ih =>
      have hround : ∀ {tr more}, Ends (attempt p retry) tr (some more) →
          tr.any nilStart = false := by
        intro tr more h
        cases attempt_ends h with
        | preExec err hs hc => exact hc.2.2.1
        | termErr hs hn ht => exact hn
        | postHook ph err hs hn ht => exact hn
        | success b hs hn ht hb => exact hn
        | failed err b _ hs hn ht hb hl hm => exact hn
      rcases attempts_cases h with ⟨tr₁, tr₂, rfl, h₁, h₂⟩ | ⟨-, h₁⟩ | ⟨ho, -⟩
      · rw [List.any_append, hround h₁, Bool.false_or]
        exact ih h₂
      · exact hround h₁
      · cases ho

/-- A run that does not return has received one. -/
theorem attempts_stuck {n : ℕ} {retry : ℤ} (h : Ends (attempts p n retry) tr none) :
    tr.any nilStart = true := by
  induction n generalizing retry tr with
  | zero => cases (ends_ret.mp h).2
  | succ n ih =>
      rcases attempts_cases h with ⟨tr₁, tr₂, rfl, h₁, h₂⟩ | ⟨ho, -⟩ | ⟨-, h₁⟩
      · rw [List.any_append, ih h₂, Bool.or_true]
      · cases ho
      · cases attempt_ends h₁ with
        | nilStart hs hn => exact hn

/-- **Hook order and retries.**  A run without a failing hook, a failing `Terminate` or a kill
calls pre-job of all hooks and then makes its attempts, each with pre-exec of all hooks, the sync,
and post-exec and post-success or post-fail in reverse order, up to the first success and at most
`Retry` of them, exactly if its first select receives no nil error. -/
theorem runJobWrapper_lawful_iff {p : Provider} {tr : List SyncEvent} {o : Option Unit}
    (h : Ends (runJobWrapper p) tr o) (hu : Undisturbed tr) :
    Lawful p tr o ↔ tr.any nilStart = false := by
  unfold runJobWrapper at h
  obtain ⟨u, tr₁, rfl, h₁⟩ := ends_call_bind.mp h
  rcases ends_runHooks h₁ with ⟨-, h₂⟩ | ⟨tr₂, tr₃, rfl, h₂, h₃⟩
  · cases (runHooks_calls (p := p) h₂ hu.tail).1
  obtain ⟨hu₂, hu₃⟩ := undisturbed_append.mp hu.tail
  obtain ⟨-, hcalls, houts⟩ := runHooks_calls (p := p) h₂ hu₂
  have hn₂ : tr₂.any nilStart = false := (runHooks_passed h₂).1.2.2.1
  have hnil : ((⟨.send ⟨.preSyncing, "", false⟩, u⟩ :: (tr₂ ++ tr₃) : List SyncEvent).any
      nilStart) = tr₃.any nilStart := by
    rw [List.any_cons, List.any_append, hn₂]
    rfl
  rw [hnil]
  constructor
  · rintro ⟨rfl, -, -⟩
    exact attempts_nilStart h₃
  · intro hn
    cases o with
    | none =>
        rw [attempts_stuck h₃] at hn
        cases hn
    | some r =>
        obtain ⟨hlaw, hrest⟩ := attempts_calls h₃ hu₃ .started
        have houts' : outcomes p (⟨.send ⟨.preSyncing, "", false⟩, u⟩ :: (tr₂ ++ tr₃)) =
            outcomesFrom p .started tr₃ := houts .started tr₃
        have hcalls' : calls (⟨.send ⟨.preSyncing, "", false⟩, u⟩ :: (tr₂ ++ tr₃)) =
            calls tr₂ ++ calls tr₃ := calls_append tr₂ tr₃
        refine ⟨rfl, ?_, ?_⟩
        · rw [houts']
          exact hlaw
        · rw [hcalls', houts', hcalls, hrest]

/-- A provider with two hooks that makes two attempts. -/
def hookedProvider : Provider := ⟨"debian", [0, 1], 2, "1h0m0s", 86400000000000⟩

/-- The first attempt times out, the second one succeeds. -/
def secondAttempt : List SyncEvent :=
  [⟨.send ⟨.preSyncing, "", false⟩, ()⟩, ⟨.hook .preJob 0, none⟩, ⟨.hook .preJob 1, none⟩,
    ⟨.hook .preExec 0, none⟩, ⟨.hook .preExec 1, none⟩, ⟨.send ⟨.syncing, "", false⟩, ()⟩,
    ⟨.runProvider, ()⟩, ⟨.awaitStart, .started⟩, ⟨.awaitDone, .timeout none⟩,
    ⟨.hook .postExec 1, none⟩, ⟨.hook .postExec 0, none⟩, ⟨.hook .postFail 1, none⟩,
    ⟨.hook .postFail 0, none⟩, ⟨.send ⟨.failed, "debian timeout after 1h0m0s", false⟩, ()⟩,
    ⟨.hook .preExec 0, none⟩, ⟨.hook .preExec 1, none⟩, ⟨.send ⟨.syncing, "", false⟩, ()⟩,
    ⟨.runProvider, ()⟩, ⟨.awaitStart, .started⟩, ⟨.awaitDone, .done none⟩,
    ⟨.hook .postExec 1, none⟩, ⟨.hook .postExec 0, none⟩, ⟨.hook .postSuccess 1, none⟩,
    ⟨.hook .postSuccess 0, none⟩, ⟨.dataSize, 7⟩, ⟨.getState, .ready⟩,
    ⟨.send ⟨.success, "", true⟩, ()⟩]

theorem runJobWrapper_lawful_second_attempt :
    Lawful hookedProvider secondAttempt (some ()) := by
  refine (runJobWrapper_lawful_iff (p := hookedProvider) ?_ ?_).mpr rfl
  · unfold secondAttempt
    iterate 27 refine .op _ ?_
    exact .ret ()
  · refine ⟨fun ph => ?_, rfl, rfl⟩
    cases ph <;> rfl

/-- The command of the first attempt exits with success before the first select looks at it: the
run ends there, and the hooks behind the sync are not called. -/
theorem fast_success_skips_hooks : ∃ tr : List SyncEvent,
    Ends (runJobWrapper hookedProvider) tr none ∧ Undisturbed tr ∧
      calls tr = [.hook .preJob 0, .hook .preJob 1, .hook .preExec 0, .hook .preExec 1, .sync] ∧
      ∀ oks : List Bool, calls tr ≠ hookedProvider.hooks.map (.hook .preJob) ++
        oks.flatMap (attemptCalls hookedProvider.hooks) := by
  refine ⟨[⟨.send ⟨.preSyncing, "", false⟩, ()⟩, ⟨.hook .preJob 0, none⟩,
    ⟨.hook .preJob 1, none⟩, ⟨.hook .preExec 0, none⟩, ⟨.hook .preExec 1, none⟩,
    ⟨.send ⟨.syncing, "", false⟩, ()⟩, ⟨.runProvider, ()⟩, ⟨.awaitStart, .done none⟩],
    ?_, ?_, rfl, fun oks hoks => ?_⟩
  · iterate 8 refine .op _ ?_
    exact .stop _ _ ⟨fun e => e.elim⟩
  · refine ⟨fun ph => ?_, rfl, rfl⟩
    cases ph <;> rfl
  · cases oks with
    | nil => cases hoks
    | cons ok oks =>
        have hlen := congrArg List.length hoks
        simp [calls, attemptCalls, hookedProvider] at hlen

end KubeSync.Worker
