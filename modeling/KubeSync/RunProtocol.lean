import KubeSync.SyncRun

/-! # The message protocol of a sync run

The messages of a complete run are read off its trace (`sent`).  Four kinds of answers can
disturb a run: the kill signal, a `Terminate` that fails after a timeout, a nil error in the
first select, and a job state that is not `ready` when a final message is built.

* `attempt_cases`, `report_cases` and `attempts_cases` say what a round of the retry loop does;
* `attempt_ends` lists the six ways in which one round of the retry loop ends, with the messages
  it sends and the disturbances it met;
* `attempts_ends` and `attempts_schedules_le` carry this through the loop by induction on the
  rounds that are left;
* `runJobWrapper_followsProtocol_iff` says when a run follows the protocol;
* `runJobWrapper_spends` and `runJobWrapper_owes` bound the scheduling messages of a run from
  above and from below. -/

namespace KubeSync.Worker

open Prog (Ends ends_ret ends_op ends_call_bind ends_stop ends_bind)

/-! ### What a trace shows -/

/-- The messages sent along a trace. -/
def sent (tr : List SyncEvent) : List JobMessage :=
  tr.filterMap fun ev => match ev with
    | ⟨.send m, _⟩ => some m
    | _ => none

/-- The provider was terminated because of the kill signal. -/
def killed : SyncEvent → Bool
  | ⟨.awaitDone, .kill _⟩ => true
  | _ => false

/-- `Terminate` failed after a timeout. -/
def termFails : SyncEvent → Bool
  | ⟨.awaitDone, .timeout (some _)⟩ => true
  | _ => false

/-- The first select received a nil error. -/
def nilStart : SyncEvent → Bool
  | ⟨.awaitStart, .done none⟩ => true
  | _ => false

/-- The job state was read and was not `ready`. -/
def unready : SyncEvent → Bool
  | ⟨.getState, s⟩ => s != .ready
  | _ => false

/-- A hook of the phase failed. -/
def hookFails (ph : Phase) : SyncEvent → Bool
  | ⟨.hook ph' _, some _⟩ => ph' == ph
  | _ => false

/-- No disturbance at all. -/
def Calm (tr : List SyncEvent) : Prop :=
  tr.any killed = false ∧ tr.any termFails = false ∧ tr.any nilStart = false ∧
    tr.any unready = false

@[simp] theorem sent_nil : sent [] = [] := rfl

@[simp] theorem sent_append (tr₁ tr₂ : List SyncEvent) :
    sent (tr₁ ++ tr₂) = sent tr₁ ++ sent tr₂ := List.filterMap_append

@[simp] theorem sent_send (m : JobMessage) (u : Unit) (tr : List SyncEvent) :
    sent (⟨.send m, u⟩ :: tr) = m :: sent tr := rfl

@[simp] theorem sent_hook (ph : Phase) (h : ℕ) (r : Option String) (tr : List SyncEvent) :
    sent (⟨.hook ph h, r⟩ :: tr) = sent tr := rfl

@[simp] theorem sent_runProvider (u : Unit) (tr : List SyncEvent) :
    sent (⟨.runProvider, u⟩ :: tr) = sent tr := rfl

@[simp] theorem sent_awaitStart (r : StartSel) (tr : List SyncEvent) :
    sent (⟨.awaitStart, r⟩ :: tr) = sent tr := rfl

@[simp] theorem sent_awaitDone (r : DoneSel) (tr : List SyncEvent) :
    sent (⟨.awaitDone, r⟩ :: tr) = sent tr := rfl

@[simp] theorem sent_dataSize (n : ℕ) (tr : List SyncEvent) :
    sent (⟨.dataSize, n⟩ :: tr) = sent tr := rfl

@[simp] theorem sent_getState (s : JobState) (tr : List SyncEvent) :
    sent (⟨.getState, s⟩ :: tr) = sent tr := rfl

/-! ### Hooks -/

theorem runHooks_ends {ph : Phase} {hs : List ℕ} {tr : List SyncEvent} {o : Option Bool}
    (h : Ends (runHooks ph hs) tr o) :
    Calm tr ∧
      ((o = some false ∧ sent tr = [] ∧ tr.any (hookFails ph) = false) ∨
        (o = some true ∧ (∃ err, sent tr = [hookFailed ph err]) ∧
          tr.any (hookFails ph) = true)) := by
  induction hs generalizing tr with
  | nil =>
      obtain ⟨rfl, rfl⟩ := ends_ret.mp h
      exact ⟨⟨rfl, rfl, rfl, rfl⟩, .inl ⟨rfl, rfl, rfl⟩⟩
  | cons x hs ih =>
      obtain ⟨r, tr₁, rfl, h₁⟩ := ends_op.mp h
      cases r with
      | none =>
          obtain ⟨⟨hk, ht, hn, hu⟩, ho⟩ := ih h₁
          refine ⟨⟨hk, ht, hn, hu⟩, ?_⟩
          rcases ho with ⟨ho, hs, hf⟩ | ⟨ho, hs, hf⟩
          · exact .inl ⟨ho, hs, hf⟩
          · exact .inr ⟨ho, hs, hf⟩
      | some err =>
          obtain ⟨u, tr₂, rfl, h₂⟩ := ends_op.mp h₁
          obtain ⟨rfl, rfl⟩ := ends_ret.mp h₂
          refine ⟨⟨rfl, rfl, rfl, rfl⟩, .inr ⟨rfl, ⟨err, rfl⟩, ?_⟩⟩
          simp [hookFails]

/-- The hooks of a phase in front of `q`: one of them fails, or `q` follows. -/
theorem ends_runHooks {α : Type} {ph : Phase} {hs : List ℕ} {a : α} {q : SyncProg α}
    {tr : List SyncEvent} {o : Option α}
    (h : Ends (runHooks ph hs >>= fun failed => if failed then .ret a else q) tr o) :
    (o = some a ∧ Ends (runHooks ph hs) tr (some true)) ∨
      ∃ tr₁ tr₂, tr = tr₁ ++ tr₂ ∧ Ends (runHooks ph hs) tr₁ (some false) ∧ Ends q tr₂ o := by
  rcases ends_bind.mp h with ⟨tr₁, b, tr₂, rfl, h₁, h₂⟩ | ⟨_, h₁⟩
  · cases b with
    | true =>
        obtain ⟨rfl, rfl⟩ := ends_ret.mp h₂
        rw [List.append_nil]
        exact .inl ⟨rfl, h₁⟩
    | false => exact .inr ⟨tr₁, tr₂, rfl, h₁, h₂⟩
  · obtain ⟨_, ⟨ho, _⟩ | ⟨ho, _⟩⟩ := runHooks_ends h₁ <;> cases ho

theorem runHooks_failed {ph : Phase} {hs : List ℕ} {tr : List SyncEvent}
    (h : Ends (runHooks ph hs) tr (some true)) :
    Calm tr ∧ (∃ err, sent tr = [hookFailed ph err]) ∧ tr.any (hookFails ph) = true := by
  obtain ⟨hc, ⟨ho, -⟩ | ⟨-, hs, hf⟩⟩ := runHooks_ends h
  · cases ho
  · exact ⟨hc, hs, hf⟩

theorem runHooks_passed {ph : Phase} {hs : List ℕ} {tr : List SyncEvent}
    (h : Ends (runHooks ph hs) tr (some false)) :
    Calm tr ∧ sent tr = [] ∧ tr.any (hookFails ph) = false := by
  obtain ⟨hc, ⟨-, hs, hf⟩ | ⟨ho, -⟩⟩ := runHooks_ends h
  · exact ⟨hc, hs, hf⟩
  · cases ho

/-! ### What a round does -/

section rounds

variable {p : Provider} {retry : ℤ} {r : Outcome} {tr : List SyncEvent}

/-- The end of a round behind its last hooks. -/
inductive Finish (p : Provider) (retry : ℤ) (r : Outcome) : List SyncEvent → Option Bool → Prop
  | success (n : ℕ) (s : JobState) : r.syncErr = none →
      Finish p retry r [⟨.dataSize, n⟩, ⟨.getState, s⟩, ⟨.send ⟨.success, "", s == .ready⟩, ()⟩]
        (some false)
  | last (err : String) (s : JobState) : r.syncErr = some err → retry = p.Retry - 1 →
      Finish p retry r [⟨.getState, s⟩, ⟨.send ⟨.failed, err, s == .ready⟩, ()⟩]
        (some !r.stopASAP)
  | again (err : String) : r.syncErr = some err → retry ≠ p.Retry - 1 →
      Finish p retry r [⟨.send ⟨.failed, err, false⟩, ()⟩] (some !r.stopASAP)

/-- The phase of the last hooks. -/
def Outcome.phase (r : Outcome) : Phase := if r.syncErr.isNone then .postSuccess else .postFail

/-- `report`: post-exec hooks, the hooks of the outcome, and the final message. -/
theorem report_cases {o : Option Bool} (h : Ends (report p retry r) tr o) :
    (o = some false ∧ Ends (runHooks .postExec p.hooks.reverse) tr (some true)) ∨
      ∃ tr₁ tr₂, tr = tr₁ ++ tr₂ ∧ Ends (runHooks .postExec p.hooks.reverse) tr₁ (some false) ∧
        ((o = some false ∧ Ends (runHooks r.phase p.hooks.reverse) tr₂ (some true)) ∨
          ∃ tr₃ tr₄, tr₂ = tr₃ ++ tr₄ ∧ Ends (runHooks r.phase p.hooks.reverse) tr₃ (some false) ∧
            Finish p retry r tr₄ o) := by
  unfold report at h
  refine (ends_runHooks h).imp id ?_
  rintro ⟨tr₁, tr₂, rfl, h₁, h₂⟩
  refine ⟨tr₁, tr₂, rfl, h₁, ?_⟩
  unfold Outcome.phase
  cases hr : r.syncErr with
  | none =>
      rw [hr] at h₂
      refine (ends_runHooks h₂).imp id ?_
      rintro ⟨tr₃, tr₄, rfl, h₃, h₄⟩
      obtain ⟨n, tr₅, rfl, h₅⟩ := ends_call_bind.mp h₄
      obtain ⟨s, tr₆, rfl, h₆⟩ := ends_call_bind.mp h₅
      obtain ⟨_, tr₇, rfl, h₇⟩ := ends_call_bind.mp h₆
      obtain ⟨rfl, rfl⟩ := ends_ret.mp h₇
      exact ⟨tr₃, _, rfl, h₃, .success n s hr⟩
  | some err =>
      rw [hr] at h₂
      refine (ends_runHooks h₂).imp id ?_
      rintro ⟨tr₃, tr₄, rfl, h₃, h₄⟩
      refine ⟨tr₃, tr₄, rfl, h₃, ?_⟩
      unfold failedSchedule at h₄
      by_cases hl : retry = p.Retry - 1
      · rw [if_pos hl] at h₄
        obtain ⟨s, tr₅, rfl, h₅⟩ := ends_call_bind.mp h₄
        obtain ⟨_, tr₆, rfl, h₆⟩ := ends_call_bind.mp h₅
        obtain ⟨rfl, rfl⟩ := ends_ret.mp h₆
        exact .last err s hr hl
      · rw [if_neg hl] at h₄
        obtain ⟨_, tr₅, rfl, h₅⟩ := ends_call_bind.mp h₄
        obtain ⟨rfl, rfl⟩ := ends_ret.mp h₅
        exact .again err hr hl

/-- What an attempt does behind its pre-exec hooks. -/
inductive Synced (p : Provider) (retry : ℤ) : List SyncEvent → Option Bool → Prop
  | nilStart : Synced p retry
      [⟨.send ⟨.syncing, "", false⟩, ()⟩, ⟨.runProvider, ()⟩, ⟨.awaitStart, .done none⟩] none
  | termErr (start : StartSel) (sel : DoneSel) (e : String) : start ≠ .done none →
      (outcome p start sel).termErr = some e → Synced p retry
        [⟨.send ⟨.syncing, "", false⟩, ()⟩, ⟨.runProvider, ()⟩, ⟨.awaitStart, start⟩,
          ⟨.awaitDone, sel⟩] (some false)
  | report (start : StartSel) (sel : DoneSel) (tr : List SyncEvent) (o : Option Bool) :
      start ≠ .done none → (outcome p start sel).termErr = none →
      Ends (report p retry (outcome p start sel)) tr o → Synced p retry
        (⟨.send ⟨.syncing, "", false⟩, ()⟩ :: ⟨.runProvider, ()⟩ :: ⟨.awaitStart, start⟩ ::
          ⟨.awaitDone, sel⟩ :: tr) o

theorem attempt_cases {o : Option Bool} (h : Ends (attempt p retry) tr o) :
    (o = some false ∧ Ends (runHooks .preExec p.hooks) tr (some true)) ∨
      ∃ tr₁ tr₂, tr = tr₁ ++ tr₂ ∧ Ends (runHooks .preExec p.hooks) tr₁ (some false) ∧
        Synced p retry tr₂ o := by
  unfold attempt at h
  refine (ends_runHooks h).imp id ?_
  rintro ⟨tr₁, tr₂, rfl, h₁, h₂⟩
  refine ⟨tr₁, tr₂, rfl, h₁, ?_⟩
  obtain ⟨_, tr₃, rfl, h₃⟩ := ends_call_bind.mp h₂
  obtain ⟨_, tr₄, rfl, h₄⟩ := ends_call_bind.mp h₃
  obtain ⟨start, tr₅, rfl, h₅⟩ := ends_call_bind.mp h₄
  by_cases hs : start = .done none
  · rw [if_pos hs] at h₅
    obtain ⟨rfl, rfl⟩ := ends_stop.mp h₅
    rw [hs]
    exact .nilStart
  rw [if_neg hs] at h₅
  obtain ⟨sel, tr₆, rfl, h₆⟩ := ends_call_bind.mp h₅
  dsimp only at h₆
  cases ht : (outcome p start sel).termErr with
  | some e =>
      rw [ht, Option.isSome_some, if_pos rfl] at h₆
      obtain ⟨rfl, rfl⟩ := ends_ret.mp h₆
      exact .termErr start sel e hs ht
  | none =>
      rw [ht, Option.isSome_none, if_neg Bool.false_ne_true] at h₆
      exact .report start sel tr₆ o hs ht h₆

/-- The loop goes on behind an attempt that returns true. -/
theorem attempts_cases {n : ℕ} {o : Option Unit} (h : Ends (attempts p (n + 1) retry) tr o) :
    (∃ tr₁ tr₂, tr = tr₁ ++ tr₂ ∧ Ends (attempt p retry) tr₁ (some true) ∧
        Ends (attempts p n (retry + 1)) tr₂ o) ∨
      (o = some () ∧ Ends (attempt p retry) tr (some false)) ∨
      (o = none ∧ Ends (attempt p retry) tr none) := by
  unfold attempts at h
  rcases ends_bind.mp h with ⟨tr₁, more, tr₂, rfl, h₁, h₂⟩ | ⟨rfl, h₁⟩
  · cases more with
    | true => exact .inl ⟨tr₁, tr₂, rfl, h₁, h₂⟩
    | false =>
        obtain ⟨rfl, rfl⟩ := ends_ret.mp h₂
        rw [List.append_nil]
        exact .inr (.inl ⟨rfl, h₁⟩)
  · exact .inr (.inr ⟨rfl, h₁⟩)

end rounds

/-! ### One round of the retry loop -/

/-- The ways in which a round ends, by its messages and disturbances.  `last` says whether the
round has the last retry index. -/
inductive RoundEnd (last : Bool) (tr : List SyncEvent) : Option Bool → Prop
  | preExec (err : String) : sent tr = [hookFailed .preExec err] → Calm tr →
      RoundEnd last tr (some false)
  | nilStart : sent tr = [⟨.syncing, "", false⟩] → tr.any nilStart = true →
      RoundEnd last tr none
  | termErr : sent tr = [⟨.syncing, "", false⟩] → tr.any nilStart = false →
      (tr.any termFails || tr.any killed) = true → RoundEnd last tr (some false)
  | postHook (ph : Phase) (err : String) :
      sent tr = [⟨.syncing, "", false⟩, hookFailed ph err] → tr.any nilStart = false →
      tr.any termFails = false → RoundEnd last tr (some false)
  | success (b : Bool) : sent tr = [⟨.syncing, "", false⟩, ⟨.success, "", b⟩] →
      tr.any nilStart = false → tr.any termFails = false → (b || tr.any unready) = true →
      RoundEnd last tr (some false)
  | failed (err : String) (b more : Bool) :
      sent tr = [⟨.syncing, "", false⟩, ⟨.failed, err, b⟩] →
      tr.any nilStart = false → tr.any termFails = false →
      (b = true → last = true) → (last = true → (b || tr.any unready) = true) →
      (more || tr.any killed) = true → RoundEnd last tr (some more)

/-- The final part of a round, behind a prefix that sent `Syncing` and met no failing
`Terminate`. -/
theorem report_ends {p : Provider} {retry : ℤ} {r : Outcome} {pre tr : List SyncEvent}
    {o : Option Bool} (h : Ends (report p retry r) tr o)
    (hs : sent pre = [⟨.syncing, "", false⟩]) (hn : pre.any nilStart = false)
    (ht : pre.any termFails = false) (hk : (!r.stopASAP || pre.any killed) = true) :
    RoundEnd (decide (retry = p.Retry - 1)) (pre ++ tr) o := by
  rcases report_cases h with ⟨rfl, h₁⟩ | ⟨tr₁, tr₂, rfl, h₁, ⟨rfl, h₂⟩ | ⟨tr₃, tr₄, rfl, h₂, hf⟩⟩
  · obtain ⟨⟨-, c₂, c₃, -⟩, ⟨err, he⟩, -⟩ := runHooks_failed h₁
    exact .postHook .postExec err (by simp [hs, he]) (by simp [hn, c₃]) (by simp [ht, c₂])
  · obtain ⟨⟨-, c₂, c₃, -⟩, he, -⟩ := runHooks_passed h₁
    obtain ⟨⟨-, d₂, d₃, -⟩, ⟨err, he'⟩, -⟩ := runHooks_failed h₂
    exact .postHook r.phase err (by simp [hs, he, he']) (by simp [hn, c₃, d₃])
      (by simp [ht, c₂, d₂])
  obtain ⟨⟨-, c₂, c₃, -⟩, he, -⟩ := runHooks_passed h₁
  obtain ⟨⟨-, d₂, d₃, -⟩, he', -⟩ := runHooks_passed h₂
  have hmore : ∀ l : List SyncEvent, (!r.stopASAP || (pre ++ l).any killed) = true := by
    intro l
    rw [Bool.or_eq_true] at hk ⊢
    exact hk.imp id fun hk => by simp [hk]
  cases hf with
  | success n s hr =>
      refine .success (s == .ready) ?_ ?_ ?_ ?_
      · simp [hs, he, he']
      · simp [hn, c₃, d₃, nilStart]
      · simp [ht, c₂, d₂, termFails]
      · by_cases e : s = .ready <;> simp [e, unready]
  | last err s hr hl =>
      refine .failed err (s == .ready) _ ?_ ?_ ?_ (fun _ => by simp [hl]) (fun _ => ?_) (hmore _)
      · simp [hs, he, he']
      · simp [hn, c₃, d₃, nilStart]
      · simp [ht, c₂, d₂, termFails]
      · by_cases e : s = .ready <;> simp [e, unready]
  | again err hr hl =>
      refine .failed err false _ ?_ ?_ ?_ (fun hb => by cases hb) (fun hb => ?_) (hmore _)
      · simp [hs, he, he']
      · simp [hn, c₃, d₃, nilStart]
      · simp [ht, c₂, d₂, termFails]
      · simp [hl] at hb

theorem attempt_ends {p : Provider} {retry : ℤ} {tr : List SyncEvent} {o : Option Bool}
    (h : Ends (attempt p retry) tr o) : RoundEnd (decide (retry = p.Retry - 1)) tr o := by
  rcases attempt_cases h with ⟨rfl, h₁⟩ | ⟨pre, tr₁, rfl, h₁, hs⟩
  · obtain ⟨hc, ⟨err, he⟩, -⟩ := runHooks_failed h₁
    exact .preExec err he hc
  obtain ⟨⟨-, c₂, c₃, -⟩, he, -⟩ := runHooks_passed h₁
  have hstart : ∀ {start : StartSel}, start ≠ .done none →
      nilStart ⟨.awaitStart, start⟩ = false := by
    rintro ((_ | _) | _) hne
    · exact absurd rfl hne
    · rfl
    · rfl
  have hn : ∀ (start : StartSel) (sel : DoneSel), start ≠ .done none →
      (pre ++ ([⟨.send ⟨.syncing, "", false⟩, ()⟩, ⟨.runProvider, ()⟩, ⟨.awaitStart, start⟩,
        ⟨.awaitDone, sel⟩] : List SyncEvent)).any nilStart = false := by
    intro start sel hne
    simp only [List.any_append, List.any_cons, c₃, hstart hne]
    rfl
  cases hs with
  | nilStart => exact .nilStart (by simp [he]) (by simp [nilStart])
  | termErr start sel e hne hterm =>
      refine .termErr (by simp [he]) (hn start sel hne) ?_
      cases sel with
      | done err => simp [outcome] at hterm
      | timeout t =>
          obtain rfl : t = some e := hterm
          simp [termFails]
      | kill t => simp [killed]
  | report start sel tr o hne hterm hr =>
      have key := report_ends hr (by simp [he]) (hn start sel hne) ?_ ?_
      · simpa using key
      · cases sel with
        | done err => simp [c₂, termFails]
        | timeout t =>
            obtain rfl : t = none := hterm
            simp [c₂, termFails]
        | kill t => simp [c₂, termFails]
      · cases sel <;> simp [outcome, killed]

/-! ### The protocol -/

/-- A message that reports the end of an attempt. -/
def JobMessage.Terminal (m : JobMessage) : Prop := m.status = .success ∨ m.status = .failed

/-- A sequence of `Syncing` messages, each followed by one `Success` or `Failed`; a failing
pre-job or pre-exec hook gives a `Failed` alone. -/
inductive Rounds : List JobMessage → Prop
  | nil : Rounds []
  | round {m : JobMessage} {ms : List JobMessage} : m.Terminal → Rounds ms →
      Rounds (⟨.syncing, "", false⟩ :: m :: ms)
  | hook {m : JobMessage} : m.status = .failed → Rounds [m]

/-- The messages of one finished run as the manager should see them: `PreSyncing`, the rounds,
and the schedule flag on the last message only, which reports the end of an attempt. -/
structure FollowsProtocol (ms : List JobMessage) : Prop where
  rounds : ∃ rest, ms = ⟨.preSyncing, "", false⟩ :: rest ∧ Rounds rest
  last : ∃ m, ms.getLast? = some m ∧ m.Terminal ∧ m.schedule = true
  earlier : ∀ m ∈ ms.dropLast, m.schedule = false

/-- The shape of the rounds of an undisturbed run. -/
inductive GoodRounds : List JobMessage → Prop
  | hook {m : JobMessage} : m.status = .failed → m.schedule = true → GoodRounds [m]
  | last {m : JobMessage} : m.Terminal → m.schedule = true →
      GoodRounds [⟨.syncing, "", false⟩, m]
  | again {err : String} {ms : List JobMessage} : GoodRounds ms →
      GoodRounds (⟨.syncing, "", false⟩ :: ⟨.failed, err, false⟩ :: ms)

theorem GoodRounds.rounds {ms : List JobMessage} (h : GoodRounds ms) : Rounds ms := by
  induction h with
  | hook hf _ => exact .hook hf
  | last ht _ => exact .round ht .nil
  | again _ ih => exact .round (.inr rfl) ih

theorem GoodRounds.last_schedules {ms : List JobMessage} (h : GoodRounds ms) :
    ∃ m, ms.getLast? = some m ∧ m.Terminal ∧ m.schedule = true := by
  induction h with
  | hook hf hs => exact ⟨_, rfl, .inr hf, hs⟩
  | last ht hs => exact ⟨_, rfl, ht, hs⟩
  | again _ ih =>
      obtain ⟨m, hm, ht⟩ := ih
      exact ⟨m, by simp [List.getLast?_cons, hm], ht⟩

theorem GoodRounds.earlier {ms : List JobMessage} (h : GoodRounds ms) :
    ∀ m ∈ ms.dropLast, m.schedule = false := by
  induction h with
  | hook _ _ => simp
  | last _ _ => simp
  | @again err ms h ih =>
      have hne : ms ≠ [] := by cases h <;> simp
      intro m hm
      rw [List.dropLast_cons_of_ne_nil (by simp), List.dropLast_cons_of_ne_nil hne] at hm
      simp only [List.mem_cons] at hm
      rcases hm with rfl | rfl | hm
      · rfl
      · rfl
      · exact ih m hm

theorem GoodRounds.followsProtocol {ms : List JobMessage} (h : GoodRounds ms) :
    FollowsProtocol (⟨.preSyncing, "", false⟩ :: ms) := by
  have hne : ms ≠ [] := by cases h <;> simp
  refine ⟨⟨ms, rfl, h.rounds⟩, ?_, ?_⟩
  · obtain ⟨m, hm, ht⟩ := h.last_schedules
    exact ⟨m, by simp [List.getLast?_cons, hm], ht⟩
  · intro m hm
    rw [List.dropLast_cons_of_ne_nil hne] at hm
    rcases List.mem_cons.mp hm with rfl | hm
    · rfl
    · exact h.earlier m hm

/-! ### The retry loop -/

/-- The retry loop of a run that is not killed and always reads `ready`: undisturbed it sends
good rounds, and otherwise it ends right after a `Syncing`. -/
theorem attempts_ends {p : Provider} {n : ℕ} {retry : ℤ} {tr : List SyncEvent} {o : Option Unit}
    (h : Ends (attempts p n retry) tr o) (hn : retry + n = p.Retry) (hpos : 0 < n)
    (hk : tr.any killed = false) (hu : tr.any unready = false) :
    (tr.any termFails = false ∧ tr.any nilStart = false ∧ GoodRounds (sent tr)) ∨
      ((tr.any termFails = true ∨ tr.any nilStart = true ∧ o = none) ∧
        (sent tr).getLast? = some ⟨.syncing, "", false⟩) := by
  induction n generalizing retry tr with
  | zero => omega
  | succ n ih =>
      rcases attempts_cases h with ⟨tr₁, tr₂, rfl, h₁, h₂⟩ | ⟨rfl, h₁⟩ | ⟨rfl, h₁⟩
      · rw [List.any_append, Bool.or_eq_false_iff] at hk hu
        cases attempt_ends h₁ with
        | failed err b _ hs hn' ht hb hl hm =>
            rw [sent_append, hs, List.any_append, List.any_append, ht, hn', Bool.false_or,
              Bool.false_or]
            by_cases hlast : retry = p.Retry - 1
            · have hn0 : n = 0 := by omega
              subst hn0
              obtain ⟨rfl, rfl⟩ := ends_ret.mp h₂
              have hb' := hl (by simp [hlast])
              rw [hu.1, Bool.or_false] at hb'
              exact .inl ⟨rfl, rfl, by rw [hb']; exact .last (.inr rfl) rfl⟩
            · have hb' : b = false := by
                cases b with
                | false => rfl
                | true => exact absurd (of_decide_eq_true (hb rfl)) hlast
              rcases ih h₂ (by omega) (by omega) hk.2 hu.2 with ⟨h1, h2, h3⟩ | ⟨h1, h2⟩
              · exact .inl ⟨h1, h2, by rw [hb']; exact .again h3⟩
              · refine .inr ⟨h1, ?_⟩
                rw [List.getLast?_append, h2]
                rfl
      · cases attempt_ends h₁ with
        | preExec err hs hc =>
            exact .inl ⟨hc.2.1, hc.2.2.1, by rw [hs]; exact .hook rfl rfl⟩
        | termErr hs hn' ht =>
            rw [hk, Bool.or_false] at ht
            exact .inr ⟨.inl ht, by rw [hs]; rfl⟩
        | postHook ph err hs hn' ht =>
            exact .inl ⟨ht, hn', by rw [hs]; exact .last (.inr rfl) rfl⟩
        | success b hs hn' ht hb =>
            rw [hu, Bool.or_false] at hb
            exact .inl ⟨ht, hn', by rw [hs, hb]; exact .last (.inl rfl) rfl⟩
        | failed err b _ hs hn' ht hb hl hm =>
            rw [hk] at hm
            cases hm
      · cases attempt_ends h₁ with
        | nilStart hs hn' => exact .inr ⟨.inr ⟨hn', rfl⟩, by rw [hs]; rfl⟩

theorem Provider.one_le_Retry_iff (p : Provider) : 1 ≤ p.Retry ↔ 0 ≤ p.retry := by
  unfold Provider.Retry defaultMaxRetry
  split_ifs with h <;> omega

theorem not_followsProtocol_of_getLast {ms : List JobMessage} {m : JobMessage}
    (h : ms.getLast? = some m) (hm : m.schedule = false) : ¬ FollowsProtocol ms := by
  rintro ⟨-, ⟨m', h', -, hs⟩, -⟩
  rw [h] at h'
  obtain rfl := Option.some.inj h'
  rw [hm] at hs
  cases hs

/-- The complete runs of `runJobWrapper`: the first message, the pre-job hooks, the loop. -/
theorem runJobWrapper_ends {p : Provider} {tr : List SyncEvent} {o : Option Unit}
    (h : Ends (runJobWrapper p) tr o) :
    (o = some () ∧ Calm tr ∧ tr.any (hookFails .preJob) = true ∧
        ∃ err, sent tr = [⟨.preSyncing, "", false⟩, hookFailed .preJob err]) ∨
      ∃ tr₁ tr₂, tr = tr₁ ++ tr₂ ∧ Calm tr₁ ∧ sent tr₁ = [⟨.preSyncing, "", false⟩] ∧
        tr₁.any (hookFails .preJob) = false ∧ Ends (attempts p p.Retry.toNat 0) tr₂ o := by
  unfold runJobWrapper at h
  obtain ⟨u, tr₁, rfl, h₁⟩ := ends_call_bind.mp h
  rcases ends_runHooks h₁ with ⟨ho, h₂⟩ | ⟨tr₂, tr₃, rfl, h₂, h₃⟩
  · obtain ⟨⟨c₁, c₂, c₃, c₄⟩, ⟨err, he⟩, hf⟩ := runHooks_failed h₂
    exact .inl ⟨ho, ⟨c₁, c₂, c₃, c₄⟩, hf, err, by rw [sent_send, he]⟩
  · obtain ⟨⟨c₁, c₂, c₃, c₄⟩, he, hf⟩ := runHooks_passed h₂
    exact .inr ⟨⟨.send ⟨.preSyncing, "", false⟩, u⟩ :: tr₂, tr₃, rfl, ⟨c₁, c₂, c₃, c₄⟩,
      by rw [sent_send, he], hf, h₃⟩

/-- **The protocol of one run.**  A run that is not killed and always reads `ready` sends its
messages as the protocol says if and only if it has a round to make (the configured retry is not
negative, or a pre-job hook fails first), no `Terminate` fails after a timeout, and the first
select receives no nil error. -/
theorem runJobWrapper_followsProtocol_iff {p : Provider} {tr : List SyncEvent} {o : Option Unit}
    (h : Ends (runJobWrapper p) tr o) (hk : tr.any killed = false)
    (hu : tr.any unready = false) :
    FollowsProtocol (sent tr) ↔
      (0 ≤ p.retry ∨ tr.any (hookFails .preJob) = true) ∧ tr.any termFails = false ∧
        tr.any nilStart = false := by
  rcases runJobWrapper_ends h with ⟨-, hc, hf, err, he⟩ | ⟨tr₁, tr₂, rfl, hc, he, hf, h₂⟩
  · have hp : FollowsProtocol (sent tr) := by
      rw [he]
      exact GoodRounds.followsProtocol (.hook rfl rfl)
    exact ⟨fun _ => ⟨.inr hf, hc.2.1, hc.2.2.1⟩, fun _ => hp⟩
  · rw [List.any_append, Bool.or_eq_false_iff] at hk hu
    obtain ⟨-, c₂, c₃, -⟩ := hc
    rw [sent_append, he, List.any_append, List.any_append, List.any_append, hf, c₂, c₃,
      Bool.false_or, Bool.false_or, Bool.false_or]
    by_cases hnonneg : 0 ≤ p.retry
    case neg =>
      have hR : p.Retry.toNat = 0 := by
        have := (not_congr p.one_le_Retry_iff).mpr hnonneg
        omega
      rw [hR] at h₂
      obtain ⟨rfl, -⟩ := ends_ret.mp h₂
      constructor
      · exact fun hp => absurd hp (not_followsProtocol_of_getLast rfl rfl)
      · rintro ⟨hp | hp, -⟩
        · exact absurd hp hnonneg
        · cases hp
    case pos =>
      have hR := p.one_le_Retry_iff.mpr hnonneg
      rcases attempts_ends h₂ (by omega) (by omega) hk.2 hu.2 with ⟨ht, hn, hg⟩ | ⟨hb, hl⟩
      · exact ⟨fun _ => ⟨.inl hnonneg, ht, hn⟩, fun _ => hg.followsProtocol⟩
      · have hl' : (([⟨.preSyncing, "", false⟩] : List JobMessage) ++ sent tr₂).getLast? =
            some ⟨.syncing, "", false⟩ := by
          rw [List.getLast?_append, hl]
          rfl
        constructor
        · exact fun hp => absurd hp (not_followsProtocol_of_getLast hl' rfl)
        · rintro ⟨-, ht, hn⟩
          rcases hb with hb | ⟨hb, -⟩
          · rw [ht] at hb
            cases hb
          · rw [hn] at hb
            cases hb

/-- A provider without hooks that makes one attempt. -/
def plainProvider : Provider := ⟨"debian", [], 1, "1h0m0s", 86400000000000⟩

theorem runJobWrapper_followsProtocol_on_success :
    FollowsProtocol (sent [⟨.send ⟨.preSyncing, "", false⟩, ()⟩,
      ⟨.send ⟨.syncing, "", false⟩, ()⟩, ⟨.runProvider, ()⟩, ⟨.awaitStart, .started⟩,
      ⟨.awaitDone, .done none⟩, ⟨.dataSize, 7⟩, ⟨.getState, .ready⟩,
      ⟨.send ⟨.success, "", true⟩, ()⟩]) := by
  refine (runJobWrapper_followsProtocol_iff (p := plainProvider) (o := some ()) ?_ rfl rfl).mpr
    ⟨.inl (by decide), rfl, rfl⟩
  iterate 8 refine .op _ ?_
  exact .ret ()

/-- A timeout whose `Terminate` fails ends the run right after `Syncing`. -/
theorem runJobWrapper_breaks_protocol_on_terminate_error :
    ∃ tr : List SyncEvent, Ends (runJobWrapper plainProvider) tr (some ()) ∧
      tr.any killed = false ∧ tr.any unready = false ∧ ¬ FollowsProtocol (sent tr) := by
  refine ⟨[⟨.send ⟨.preSyncing, "", false⟩, ()⟩, ⟨.send ⟨.syncing, "", false⟩, ()⟩,
    ⟨.runProvider, ()⟩, ⟨.awaitStart, .started⟩,
    ⟨.awaitDone, .timeout (some "no such process")⟩], ?_, rfl, rfl, ?_⟩
  · iterate 5 refine .op _ ?_
    exact .ret ()
  · exact not_followsProtocol_of_getLast rfl rfl

/-! ### The scheduling message of a run

What the scheduler needs to know of a run that is under way: it sends at most one message with
the schedule flag (`Spends`), and unless it is disturbed it still sends one (`Owes`).  Both are
kept by every operation of the run. -/

/-- A message with the schedule flag is sent. -/
def schedules : SyncEvent → Bool
  | ⟨.send m, _⟩ => m.schedule
  | _ => false

/-- The run sends at most `n` more messages with the schedule flag. -/
def Spends (n : ℕ) (c : SyncProg Unit) : Prop :=
  ∀ tr o, Ends c tr o → tr.countP schedules ≤ n

/-- The run sends a message with the schedule flag before it returns, unless it is killed, reads
a job state other than `ready`, or `Terminate` fails after a timeout. -/
def Owes (c : SyncProg Unit) : Prop :=
  ∀ tr, Ends c tr (some ()) →
    tr.any schedules = true ∨ tr.any killed = true ∨ tr.any unready = true ∨
      tr.any termFails = true

theorem countP_schedules (tr : List SyncEvent) :
    tr.countP schedules = (sent tr).countP (·.schedule) := by
  induction tr with
  | nil => rfl
  | cons ev tr ih =>
      obtain ⟨e, r⟩ := ev
      rw [List.countP_cons, ih]
      cases e with
      | send m => rw [sent_send, List.countP_cons]; rfl
      | hook ph h => rfl
      | runProvider => rfl
      | awaitStart => rfl
      | awaitDone => rfl
      | dataSize => rfl
      | getState => rfl
      | panic => rfl

theorem any_schedules {tr : List SyncEvent} {m : JobMessage} (hm : m ∈ sent tr)
    (hs : m.schedule = true) : tr.any schedules = true := by
  have hpos : 0 < tr.countP schedules := by
    rw [countP_schedules]
    exact List.countP_pos_iff.mpr ⟨m, hm, hs⟩
  obtain ⟨ev, hev, h⟩ := List.countP_pos_iff.mp hpos
  exact List.any_eq_true.mpr ⟨ev, hev, h⟩

theorem Spends.step {n : ℕ} {e : SyncOp} {k : e.Answer → SyncProg Unit}
    (h : Spends n (.op e k)) (r : e.Answer) :
    (schedules ⟨e, r⟩).toNat ≤ n ∧ Spends (n - (schedules ⟨e, r⟩).toNat) (k r) := by
  have key : ∀ tr o, Ends (k r) tr o → tr.countP schedules + (schedules ⟨e, r⟩).toNat ≤ n := by
    intro tr o ht
    have := h _ o (.op r ht)
    rw [List.countP_cons] at this
    cases hs : schedules ⟨e, r⟩ <;> simpa [hs] using this
  constructor
  · obtain ⟨tr, o, ht⟩ := Prog.exists_ends (k r)
    have := key tr o ht
    omega
  · intro tr o ht
    have := key tr o ht
    omega

theorem Owes.step {e : SyncOp} {k : e.Answer → SyncProg Unit} (h : Owes (.op e k))
    {r : e.Answer} (hs : schedules ⟨e, r⟩ = false) (hk : killed ⟨e, r⟩ = false)
    (hu : unready ⟨e, r⟩ = false) (ht : termFails ⟨e, r⟩ = false) : Owes (k r) := by
  intro tr htr
  have := h _ (.op r htr)
  simpa only [List.any_cons, hs, hk, hu, ht, Bool.false_or] using this

theorem not_owes_ret : ¬ Owes (.ret ()) := by
  intro h
  rcases h [] (.ret ()) with h | h | h | h <;> cases h

theorem attempts_schedules_le {p : Provider} {n : ℕ} {retry : ℤ} {tr : List SyncEvent}
    {o : Option Unit} (h : Ends (attempts p n retry) tr o) (hn : n = 0 ∨ retry + n = p.Retry) :
    (sent tr).countP (·.schedule) ≤ 1 := by
  induction n generalizing retry tr with
  | zero =>
      obtain ⟨rfl, -⟩ := ends_ret.mp h
      exact Nat.zero_le _
  | succ n ih =>
      have hb : ∀ b : Bool, [b].countP id ≤ 1 := by decide
      rcases attempts_cases h with ⟨tr₁, tr₂, rfl, h₁, h₂⟩ | ⟨rfl, h₁⟩ | ⟨rfl, h₁⟩
      · cases attempt_ends h₁ with
        | failed err b _ hs hn' ht hb' hl hm =>
            rw [sent_append, List.countP_append, hs]
            have htail := ih h₂ (by omega)
            cases b with
            | false => simpa using htail
            | true =>
                have hlast := of_decide_eq_true (hb' rfl)
                have hn0 : n = 0 := by omega
                subst hn0
                obtain ⟨rfl, -⟩ := ends_ret.mp h₂
                exact hb true
      · cases attempt_ends h₁ with
        | preExec err hs hc => rw [hs]; exact hb true
        | termErr hs hn' ht => rw [hs]; exact hb false
        | postHook ph err hs hn' ht => rw [hs]; exact hb true
        | success b hs hn' ht hb' => rw [hs]; exact hb b
        | failed err b _ hs hn' ht hb' hl hm => rw [hs]; exact hb b
      · cases attempt_ends h₁ with
        | nilStart hs hn' => rw [hs]; exact Nat.zero_le _

theorem runJobWrapper_spends (p : Provider) : Spends 1 (runJobWrapper p) := by
  intro tr o h
  rw [countP_schedules]
  rcases runJobWrapper_ends h with ⟨-, -, -, err, he⟩ | ⟨tr₁, tr₂, rfl, -, he, -, h₂⟩
  · rw [he]
    exact Nat.le_refl 1
  · have := attempts_schedules_le h₂ (by omega)
    rw [sent_append, he, List.countP_append]
    simpa using this

theorem runJobWrapper_owes {p : Provider} (hp : 0 ≤ p.retry) : Owes (runJobWrapper p) := by
  intro tr h
  by_cases hk : tr.any killed = true
  · exact .inr (.inl hk)
  by_cases hu : tr.any unready = true
  · exact .inr (.inr (.inl hu))
  rcases runJobWrapper_ends h with ⟨-, -, -, err, he⟩ | ⟨tr₁, tr₂, rfl, -, he, -, h₂⟩
  · refine .inl (any_schedules (m := hookFailed .preJob err) ?_ rfl)
    rw [he]
    exact List.mem_cons_of_mem _ (List.mem_singleton.mpr rfl)
  · rw [Bool.not_eq_true, List.any_append, Bool.or_eq_false_iff] at hk hu
    have hR := p.one_le_Retry_iff.mpr hp
    rcases attempts_ends h₂ (by omega) (by omega) hk.2 hu.2 with ⟨-, -, hg⟩ | ⟨ht | ⟨-, ho⟩, -⟩
    · obtain ⟨m, hm, -, hs⟩ := hg.last_schedules
      refine .inl (any_schedules (m := m) ?_ hs)
      rw [sent_append]
      exact List.mem_append_right _ (List.mem_of_getLast? hm)
    · exact .inr (.inr (.inr (by rw [List.any_append, ht, Bool.or_true])))
    · cases ho

end KubeSync.Worker
