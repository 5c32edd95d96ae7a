import KubeSync.WorkerBookings

/-! # The way of the job messages

A sync run sends its messages into `managerChan`, and `runSchedule` takes them out: it reports a
message to the manager, skips it because the job is neither ready nor halting, or throws it away
when it empties the channel at its exit.

* `Event` are the four things that can happen to a message, and `events` those of one step;
* `Step.accounts`: a step moves messages along and changes nothing else about them;
* `reports_in_order`: what was sent is, in the order of the sends, what was settled, the message in
  hand and the content of the channel.  So the manager gets no message twice, none that was not
  sent, and none before an earlier one;
* `exit_reports_final`: when `runSchedule` empties the channel at its exit it reports every final
  message, in order. -/

namespace KubeSync.Worker

variable {cfg : Config} {s s' : State} {l : Label} {ls : List Label}

/-! ### Events -/

inductive Event where
  | sent (m : JobMessage)
  | reported (m : JobMessage)
  | skipped (m : JobMessage)
  | discarded (m : JobMessage)
deriving DecidableEq, Repr

namespace Event

def send : Event → Option JobMessage
  | sent m => some m
  | _ => none

def report : Event → Option JobMessage
  | reported m => some m
  | _ => none

/-- The message whose way ends. -/
def settle : Event → Option JobMessage
  | reported m | skipped m | discarded m => some m
  | sent _ => none

end Event

/-- What `runSchedule` does to a message in its next step, unless it waits in its select. -/
def schedEvents (s : State) : List Event :=
  match s.sched with
  | .check2 m => if s.state ≠ .halting then [.skipped m] else []
  | .update m => [.reported m]
  | .flush =>
      match s.managerChan with
      | [] => []
      | m :: _ => if m.status = .failed ∨ m.status = .success then [] else [.discarded m]
  | .flushUpdate m => [.reported m]
  | _ => []

/-- What a sync goroutine sends in its next operation. -/
def syncEvents (s : State) (i : ℕ) : List Event :=
  match s.runs[i]?.bind Run.sync with
  | some ⟨_, _, .body (.op e _)⟩ => (sends e).map .sent
  | _ => []

def events (s : State) : Label → List Event
  | .sched _ => schedEvents s
  | .sync i (.op _) => syncEvents s i
  | _ => []

/-- The message that `runSchedule` has taken and not settled. -/
def SchedPc.hand : SchedPc → List JobMessage
  | check m | check2 m | update m | flushUpdate m => [m]
  | _ => []

/-! ### One step -/

theorem hand_startPc (cfg : Config) (st : JobStatus) : (startPc cfg st).hand = [] := by
  unfold startPc
  split <;> rfl

theorem hand_afterSpawn (t : Option ℤ) : (afterSpawn t).hand = [] := by
  cases t <;> rfl

/-- What a step does to the messages that are under way. -/
def Accounts (s : State) (evs : List Event) (s' : State) : Prop :=
  s.sched.hand ++ s.managerChan ++ evs.filterMap Event.send =
    evs.filterMap Event.settle ++ (s'.sched.hand ++ s'.managerChan)

theorem Accounts.trans {s₁ : State} {evs evs' : List Event} (h : Accounts s evs s₁)
    (h' : Accounts s₁ evs' s') : Accounts s (evs ++ evs') s' := by
  unfold Accounts at h h' ⊢
  rw [List.filterMap_append, List.filterMap_append, ← List.append_assoc, h, List.append_assoc,
    h', List.append_assoc]

/-- A step of `runSchedule` that neither holds nor takes a message. -/
theorem accounts_of_idle {t : State} (hs : s.sched.hand = []) (ht : t.sched.hand = [])
    (hc : t.managerChan = s.managerChan) : Accounts s [] t := by
  unfold Accounts
  rw [hs, ht, hc]
  exact List.append_nil _

/-- A step of another party that leaves the channel. -/
theorem accounts_of_same {t : State} (hs : t.sched = s.sched)
    (hc : t.managerChan = s.managerChan) : Accounts s [] t := by
  unfold Accounts
  rw [hs, hc]
  exact List.append_nil _

theorem Step.accounts_schedule (h : Step cfg s l s') (hl : l.party = .schedule) :
    Accounts s (events s l) s' := by
  have idle : ∀ {now : ℤ} {t : State} {pc : SchedPc}, s.sched = pc → schedEvents s = [] →
      pc.hand = [] → t.sched.hand = [] → t.managerChan = s.managerChan →
      Accounts s (events s (.sched now)) t := by
    intro now t pc hs he hpc ht hc
    unfold events
    rw [he]
    exact accounts_of_idle (by rw [hs, hpc]) ht hc
  have quiet : ∀ {pc : SchedPc}, s.sched = pc →
      (∀ m, pc ≠ .check2 m ∧ pc ≠ .update m ∧ pc ≠ .flushUpdate m) → pc ≠ .flush →
      schedEvents s = [] := by
    intro pc hs hne hf
    unfold schedEvents
    rw [hs]
    cases pc with
    | check2 m => exact absurd rfl (hne m).1
    | update m => exact absurd rfl (hne m).2.1
    | flushUpdate m => exact absurd rfl (hne m).2.2
    | flush => exact absurd rfl hf
    | _ => rfl
  cases h with
  | schedLock now hs _ | unlock now hs | getJob now hs | upload now _ hs | start now hs _
  | exitLock now hs _ | add now _ hs _ _ | addBlocked now _ hs _ | addJob now _ hs _ _ _
  | addJobBlocked now _ hs _ _ | addJobPlain now _ hs _ =>
      exact idle hs (quiet hs (by simp) (by simp)) rfl rfl rfl
  | fetched st hs => exact accounts_of_idle (by rw [hs]; rfl) rfl rfl
  | setup now st hs =>
      exact idle hs (quiet hs (by simp) (by simp)) rfl (hand_startPc cfg st) rfl
  | schedSpawn now t hs =>
      exact idle hs (quiet hs (by simp) (by simp)) rfl (hand_afterSpawn t) rfl
  | message m ms hs hm =>
      unfold Accounts
      rw [hs, hm]
      exact List.append_nil _
  | checkReady now m hs _ | checkOther now m hs _ =>
      unfold Accounts events
      rw [quiet hs (by simp) (by simp), hs]
      exact List.append_nil _
  | check2Go now m hs hst =>
      unfold Accounts events schedEvents
      simp only [hs, hst]
      exact List.append_nil _
  | check2Skip now m hs hst =>
      unfold Accounts events schedEvents
      simp only [hs, if_pos hst]
      exact List.append_nil _
  | update now m hs | flushUpdate now m hs =>
      unfold Accounts events schedEvents
      simp only [hs]
      exact List.append_nil _
  | flushReport now m ms hs hm hst =>
      unfold Accounts events schedEvents
      simp only [hs, hm, if_pos hst]
      exact List.append_nil _
  | flushDrop now m ms hs hm hst =>
      unfold Accounts events schedEvents
      simp only [hs, hm, if_neg hst]
      exact List.append_nil _
  | flushEnd now hs hm =>
      unfold Accounts events schedEvents
      simp only [hs, hm]
      rfl
  | tickStart now hs _ _ _ => exact accounts_of_idle (by rw [hs]; rfl) rfl rfl
  | tickNone now hs _ _ => exact accounts_of_same rfl rfl
  | exited hs _ => exact accounts_of_idle (by rw [hs]; rfl) rfl rfl
  | _ => cases hl

theorem filterMap_send_sent (ms : List JobMessage) :
    (ms.map Event.sent).filterMap Event.send = ms := by
  rw [List.filterMap_map]
  exact List.filterMap_some

theorem filterMap_settle_sent (ms : List JobMessage) :
    (ms.map Event.sent).filterMap Event.settle = [] := by
  rw [List.filterMap_map]
  exact List.filterMap_eq_nil_iff.mpr fun _ _ => rfl

/-- **Accounting.**  A step settles messages at the front, and puts new ones at the end. -/
theorem Step.accounts (h : Step cfg s l s') : Accounts s (events s l) s' := by
  cases hl : l.party with
  | schedule => exact h.accounts_schedule hl
  | handler | halt | run =>
      cases h <;> first | exact accounts_of_same rfl rfl | cases hl
  | sync =>
      cases h with
      | op i r sy x e k a hr hsy hp ha =>
          have hev : events s (.sync i (.op x)) = (sends e).map .sent := by
            obtain ⟨kill, held, pc⟩ := sy
            obtain rfl : pc = .body (.op e k) := hp
            simp only [events, syncEvents, hr, Option.bind_some, hsy]
          unfold Accounts
          rw [hev, filterMap_send_sent, filterMap_settle_sent]
          exact List.append_assoc _ _ _
      | acquire | bypass | kill | finish | release => exact accounts_of_same rfl rfl
      | _ => cases hl

/-! ### Whole runs -/

/-- What happened to the messages in a run. -/
def messageLog (cfg : Config) (s : State) (ls : List Label) : List Event :=
  Lts.collect (step cfg) events s ls

theorem run_accounts (hr : Lts.run (step cfg) s ls = some s') :
    Accounts s (messageLog cfg s ls) s' := by
  unfold messageLog
  induction ls generalizing s with
  | nil =>
      cases hr
      exact accounts_of_same rfl rfl
  | cons l ls ih =>
      obtain ⟨s₁, hstep, hr⟩ := Lts.run_cons.mp hr
      rw [Lts.collect_cons hstep]
      exact (step_cases hstep).accounts.trans (ih hr)

/-- A report settles its message. -/
theorem reports_sublist_settled (evs : List Event) :
    (evs.filterMap Event.report).Sublist (evs.filterMap Event.settle) := by
  induction evs with
  | nil => exact .slnil
  | cons ev evs ih =>
      cases ev with
      | sent m => exact ih
      | reported m => exact ih.cons_cons m
      | skipped m | discarded m => exact ih.cons m

/-- **No message is lost, doubled or overtaken.**  In every run of the worker the messages that the
sync runs sent are, in the order in which they were sent, those that were settled, the one that
`runSchedule` has in hand and those in the channel; the messages reported to the manager are among
the settled ones, each once and in the same order. -/
theorem reports_in_order (hr : Lts.run (step cfg) .init ls = some s) :
    (messageLog cfg .init ls).filterMap Event.send =
        (messageLog cfg .init ls).filterMap Event.settle ++ (s.sched.hand ++ s.managerChan) ∧
      ((messageLog cfg .init ls).filterMap Event.report).Sublist
        ((messageLog cfg .init ls).filterMap Event.send) := by
  have hacc : (messageLog cfg .init ls).filterMap Event.send =
      (messageLog cfg .init ls).filterMap Event.settle ++ (s.sched.hand ++ s.managerChan) :=
    run_accounts hr
  refine ⟨hacc, ?_⟩
  rw [hacc]
  exact (reports_sublist_settled _).trans (List.sublist_append_left _ _)

/-- A successful sync run, of whose three messages the loop has handled two. -/
theorem reports_in_order_on_success : ∃ s,
    Lts.run (step plainConfig) .init (bootNew ++ popAndLaunch ++ startProvider ++ succeed ++
      handleMessage ++ handleMessage) = some s ∧
      s.managerChan = [⟨.success, "", true⟩] ∧
      ((messageLog plainConfig .init (bootNew ++ popAndLaunch ++ startProvider ++ succeed ++
        handleMessage ++ handleMessage)).filterMap Event.report).Sublist
        [⟨.preSyncing, "", false⟩, ⟨.syncing, "", false⟩, ⟨.success, "", true⟩] := by
  obtain ⟨s, hr, hc⟩ : ∃ s, Lts.run (step plainConfig) .init (bootNew ++ popAndLaunch ++
    startProvider ++ succeed ++ handleMessage ++ handleMessage) = some s ∧
      s.managerChan = [⟨.success, "", true⟩] := ⟨_, rfl, rfl⟩
  exact ⟨s, hr, hc, (reports_in_order hr).2⟩

/-! ### The exit -/

/-- A message with the result of an attempt. -/
def JobMessage.final (m : JobMessage) : Bool :=
  decide (m.status = .failed ∨ m.status = .success)

/-- Inside the loop that empties the channel, or behind it. -/
def Flushing (s : State) : Prop :=
  s.sched = .flush ∨ s.sched = .returned ∨ ∃ m, s.sched = .flushUpdate m ∧ m.final = true

/-- Final messages are reported, and only the others are settled in another way. -/
def Event.fair : Event → Bool
  | sent _ => true
  | reported m => m.final
  | skipped _ => false
  | discarded m => !m.final

theorem filter_settled_of_fair {evs : List Event} (h : ∀ ev ∈ evs, ev.fair = true) :
    (evs.filterMap Event.settle).filter JobMessage.final = evs.filterMap Event.report := by
  induction evs with
  | nil => rfl
  | cons ev evs ih =>
      have ih' := ih fun e he => h e (List.mem_cons_of_mem ev he)
      have hev := h ev List.mem_cons_self
      cases ev with
      | sent m => exact ih'
      | reported m =>
          have hm : m.final = true := hev
          simp only [List.filterMap_cons, Event.settle, Event.report]
          rw [List.filter_cons_of_pos hm, ih']
      | skipped m => cases hev
      | discarded m =>
          have hm : m.final = false := by simpa [Event.fair] using hev
          simp only [List.filterMap_cons, Event.settle, Event.report]
          rw [List.filter_cons_of_neg (by simp [hm]), ih']

theorem fair_sent (ms : List JobMessage) : ∀ ev ∈ ms.map Event.sent, ev.fair = true := by
  intro ev hev
  obtain ⟨m, -, rfl⟩ := List.mem_map.mp hev
  rfl

theorem fair_syncEvents (s : State) (i : ℕ) : ∀ ev ∈ syncEvents s i, ev.fair = true := by
  unfold syncEvents
  split
  · exact fair_sent _
  · intro ev hev
    cases hev

theorem fair_schedEvents (hs : Flushing s) : ∀ ev ∈ schedEvents s, ev.fair = true := by
  unfold schedEvents
  rcases hs with hs | hs | ⟨m, hs, hm⟩
  · rw [hs]
    cases s.managerChan with
    | nil =>
        intro ev hev
        cases hev
    | cons m ms =>
        dsimp only
        split
        · intro ev hev
          cases hev
        · next hst =>
            intro ev hev
            rw [List.mem_singleton.mp hev]
            simpa [Event.fair, JobMessage.final] using hst
  · rw [hs]
    intro ev hev
    cases hev
  · rw [hs]
    intro ev hev
    rw [List.mem_singleton.mp hev]
    exact hm

theorem fair_events (hs : Flushing s) (l : Label) : ∀ ev ∈ events s l, ev.fair = true := by
  unfold events
  split
  · exact fair_schedEvents hs
  · exact fair_syncEvents s _
  · intro ev hev
    cases hev

theorem Step.flushing (h : Step cfg s l s') (hi : Flushing s) : Flushing s' := by
  have out : ∀ {pc : SchedPc}, s.sched = pc → pc ≠ .flush → pc ≠ .returned →
      (∀ m, pc ≠ .flushUpdate m) → False := by
    rintro pc rfl h₁ h₂ h₃
    rcases hi with hs | hs | ⟨m, hs, -⟩
    · exact h₁ hs
    · exact h₂ hs
    · exact h₃ m hs
  cases h with
  | flushReport now m ms _ _ hst => exact .inr (.inr ⟨m, rfl, decide_eq_true hst⟩)
  | flushDrop now m ms _ _ _ => exact .inl rfl
  | flushEnd now _ _ => exact .inr (.inl rfl)
  | flushUpdate now m _ => exact .inl rfl
  | schedLock _ hs _ | setup _ _ hs | schedSpawn _ _ hs | add _ _ hs _ _ | addBlocked _ _ hs _
  | unlock _ hs | getJob _ hs | upload _ _ hs | message _ _ hs _ | checkReady _ _ hs _
  | checkOther _ _ hs _ | check2Go _ _ hs _ | check2Skip _ _ hs _ | update _ _ hs
  | addJob _ _ hs _ _ _ | addJobBlocked _ _ hs _ _ | addJobPlain _ _ hs _ | start _ hs _
  | exitLock _ hs _ => exact (out hs (by simp) (by simp) (by simp)).elim
  | fetched _ hs | exited hs _ => exact (out hs (by simp) (by simp) (by simp)).elim
  | tickStart _ hs _ _ _ => exact (out hs (by simp) (by simp) (by simp)).elim
  | _ => exact hi

theorem run_fair (hi : Flushing s) (hr : Lts.run (step cfg) s ls = some s') :
    ∀ ev ∈ messageLog cfg s ls, ev.fair = true := by
  unfold messageLog
  induction ls generalizing s with
  | nil =>
      intro ev hev
      cases hev
  | cons l ls ih =>
      obtain ⟨s₁, hstep, hr⟩ := Lts.run_cons.mp hr
      rw [Lts.collect_cons hstep]
      intro ev hev
      rcases List.mem_append.mp hev with hev | hev
      · exact fair_events hi l ev hev
      · exact ih ((step_cases hstep).flushing hi) hr ev hev

/-- **The last word.**  From the moment `runSchedule` begins to empty the channel until it has
returned, the results that are reported to the manager, followed by those still in the channel, are
exactly the results that were in the channel and those sent meanwhile, in their order: a shutdown
loses no result of an attempt. -/
theorem exit_reports_final (hs : s.sched = .flush) (hr : Lts.run (step cfg) s ls = some s')
    (hend : s'.sched = .returned) :
    (messageLog cfg s ls).filterMap Event.report ++ s'.managerChan.filter JobMessage.final =
      (s.managerChan ++ (messageLog cfg s ls).filterMap Event.send).filter JobMessage.final := by
  have hacc := run_accounts hr
  unfold Accounts at hacc
  have hhand : s.sched.hand = [] := by
    rw [hs]
    rfl
  have hhand' : s'.sched.hand = [] := by
    rw [hend]
    rfl
  rw [hhand, hhand', List.nil_append, List.nil_append] at hacc
  rw [hacc, List.filter_append, filter_settled_of_fair (run_fair (.inl hs) hr)]

/-- The provider runs when `Halt` is called: the sync run is killed and `runSchedule` exits. -/
def haltRunning : List Label :=
  [.halt, .halt, .halt, .run 0, .run 0, .run 0, .sync 0 (.op (.done (.kill none))),
    .sync 0 (.op .go), .sync 0 (.op .go), .sync 0 .finish, .run 0, .run 0, .halt, .halt, .exited,
    .sched due]

theorem exit_reports_final_on_halt : ∃ s s',
    Lts.run (step plainConfig) .init (bootNew ++ popAndLaunch ++ startProvider ++ haltRunning) =
      some s ∧
      Lts.run (step plainConfig) s (List.replicate 5 (.sched due)) = some s' ∧
      (messageLog plainConfig s (List.replicate 5 (.sched due))).filterMap Event.report ++
          s'.managerChan.filter JobMessage.final =
        (s.managerChan ++ (messageLog plainConfig s
          (List.replicate 5 (.sched due))).filterMap Event.send).filter JobMessage.final := by
  obtain ⟨s, s', hboot, hs, hr, hend⟩ : ∃ s s',
      Lts.run (step plainConfig) .init
        (bootNew ++ popAndLaunch ++ startProvider ++ haltRunning) = some s ∧ s.sched = .flush ∧
        Lts.run (step plainConfig) s (List.replicate 5 (.sched due)) = some s' ∧
        s'.sched = .returned := ⟨_, _, rfl, rfl, rfl, rfl⟩
  exact ⟨s, s', hboot, hr, exit_reports_final hs hr hend⟩

end KubeSync.Worker
