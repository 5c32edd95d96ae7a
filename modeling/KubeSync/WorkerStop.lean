import KubeSync.WorkerBookings

/-! # The stop command

A stop command flushes the schedule slot, reads the job state and sends `jobStop`.  The action
travels behind the actions sent before it: the queue of a worker (`queue`) is what its invocation
of `Run` has in hand, the content of `ctrlChan`, and what the handler or `Halt` is about to send.

* `Pending n`: a stop action is in the queue, no start action stands behind it, and `n` further
  stop actions do; the slot is empty and `runSchedule` is not about to fill it;
* `Effective`: the stop has been executed.  The job state is `paused` or `disabled`, no start
  action is in the queue, the slot is empty, `runSchedule` will not fill it and no invocation is
  about to launch a sync run.  Every step but the arrival of a start or restart command keeps
  this;
* `run_stop_sticks`: from the flush of a stop command on, once its action has been executed, the
  job state is never `ready` and no sync run is launched, under three conditions on the steps
  around the stop (`SchedPc.quiet` at the flush, `stopClear` until the action is executed,
  `guardClear` before). -/

namespace KubeSync.Worker

variable {cfg : Config} {s s' : State} {l : Label}

/-! ### The queue of actions -/

/-- What the handler and `Halt` are about to send. -/
def queueTail (s : State) : List CtrlAction :=
  (s.handler.bind HandlerPc.carries).toList ++ if s.halt = .send then [.halt] else []

/-- The actions on their way to the code that executes them, the next one first. -/
def queue (s : State) : List CtrlAction :=
  s.runs.filterMap Run.hand ++ (s.ctrlChan.toList ++ queueTail s)

theorem hand_of_not_live {r : Run} (h : ¬ r.live = true) : r.hand = none := by
  have hp : r.pc = .gone := by simpa [Run.live] using h
  rw [Run.hand, hp]

theorem hands_of_live {i : ℕ} {r : Run} (hs : SoloLive s) (hr : s.runs[i]? = some r)
    (hl : r.live = true) : s.runs.filterMap Run.hand = r.hand.toList :=
  Pool.filterMap_of_one hr fun j x hj hne =>
    hand_of_not_live fun hx => hne (hs j i x r hj hr hx hl)

theorem hands_set {i : ℕ} {r : Run} (r' : Run) (hs : SoloLive s) (hr : s.runs[i]? = some r)
    (hl : r.live = true) : (s.runs.set i r').filterMap Run.hand = r'.hand.toList := by
  have hi := (List.getElem?_eq_some_iff.mp hr).1
  refine Pool.filterMap_of_one (List.getElem?_set_self hi) fun j x hj hne => ?_
  rw [List.getElem?_set_ne (Ne.symm hne)] at hj
  exact hand_of_not_live fun hx => hne (hs j i x r hj hr hx hl)

theorem hand_at {r : Run} {pc : RunPc} (hp : r.pc = pc) :
    r.hand = ({ r with pc := pc } : Run).hand := by
  subst hp
  rfl

theorem hands_append (rs : List Run) :
    (rs ++ [({} : Run)]).filterMap Run.hand = rs.filterMap Run.hand := by
  rw [List.filterMap_append]
  exact List.append_nil _

theorem Exclusive.of_halt (hi : Exclusive s) (h : s.halt.holdsL = true) : s.handler = none := by
  unfold Exclusive at hi
  rw [h] at hi
  cases hh : s.handler with
  | none => rfl
  | some pc =>
      rw [hh] at hi
      simp at hi

theorem halt_ne_send (h : s.halt.holdsL = false) : s.halt ≠ .send := by
  intro hs
  rw [hs] at h
  cases h

/-- The part of `Run` in which no sync run exists or is about to be launched, or in which it is
being killed. -/
def RunPc.settled : RunPc → Bool
  | launch | wait | waitGot _ => false
  | _ => true

/-- How a step changes the queue: it adds an action at the back, drops the stop that a handler
decides not to send, executes the action at the front, or lets a start action fall through to the
next case of its switch. -/
inductive QueueStep (s : State) (l : Label) (s' : State) : Prop
  | same : queue s' = queue s → QueueStep s l s'
  | push (a : CtrlAction) : queue s' = queue s ++ [a] →
      a = .halt ∨ (∃ c, l = .command (some c) ∧ (HandlerPc.remove c).carries = some a) →
      QueueStep s l s'
  | skip : l = .handler → s.handler = some .check → s.state = .disabled →
      s' = { s with handler := some (.reply 200) } → queue s = queue s' ++ [.stop] →
      QueueStep s l s'
  | exec (a : CtrlAction) : queue s = a :: queue s' →
      (a = .stop → s'.state = .paused ∧ ∀ r ∈ s'.runs, r.pc.settled = true) → QueueStep s l s'
  | fall (a b : CtrlAction) (q : List CtrlAction) : a.starts = true → b.starts = true →
      queue s = a :: q → queue s' = b :: q → QueueStep s l s'

theorem queueTail_of_free (h : s.locked = false) : queueTail s = [] := by
  obtain ⟨h₁, -, h₃⟩ := locked_eq_false.mp h
  rw [queueTail, h₁, if_neg (halt_ne_send h₃)]
  rfl

theorem queueTail_of_handler {pc : HandlerPc} (hx : Exclusive s) (h : s.handler = some pc) :
    queueTail s = pc.carries.toList := by
  rw [queueTail, h, if_neg (halt_ne_send (hx.of_handler h).2), List.append_nil]
  rfl

/-- A step of the handler that changes neither `ctrlChan` nor the hands. -/
theorem queue_handler {pc : HandlerPc} (hx : Exclusive s) (h : s.handler = some pc)
    (pc' : HandlerPc) (hc : pc'.carries = pc.carries) (q : Schedule) :
    queue { s with handler := some pc', schedule := q } = queue s := by
  have ht : queueTail { s with handler := some pc', schedule := q } = pc'.carries.toList := by
    rw [queueTail, if_neg (halt_ne_send (hx.of_handler h).2), List.append_nil]
    rfl
  rw [queue, queue, ht, queueTail_of_handler hx h, hc]

theorem queue_run {i : ℕ} {r : Run} (hs : SoloLive s) (hr : s.runs[i]? = some r)
    (hl : r.live = true) : queue s = r.hand.toList ++ (s.ctrlChan.toList ++ queueTail s) := by
  rw [queue, hands_of_live hs hr hl]

/-- A step of an invocation that leaves its hand and `ctrlChan` as they are. -/
theorem queue_set_same {i : ℕ} {r r' : Run} (hs : SoloLive s) (hr : s.runs[i]? = some r)
    (hl : r.live = true) (hh : r'.hand = r.hand) :
    (s.runs.set i r').filterMap Run.hand ++ (s.ctrlChan.toList ++ queueTail s) = queue s := by
  rw [queue_run hs hr hl, hands_set r' hs hr hl, hh]

theorem settled_of_solo {i : ℕ} {r r' : Run} (hs : SoloLive s) (hr : s.runs[i]? = some r)
    (hl : r.live = true) (hp : r'.pc.settled = true) :
    ∀ x ∈ s.runs.set i r', x.pc.settled = true := by
  intro x hx
  rcases hs.others hr hl x hx with rfl | hn
  · exact hp
  · have hg : x.pc = .gone := by simpa [Run.live] using hn
    rw [hg]
    rfl

theorem Step.queueStep_handler (h : Step cfg s l s') (hl : l.party = .handler) (hx : Exclusive s) :
    QueueStep s l s' := by
  cases h with
  | badCommand hlock =>
      refine .same ?_
      have ht : queueTail { s with handler := some (.reply 400) } = [] := by
        rw [queueTail, if_neg (halt_ne_send (locked_eq_false.mp hlock).2.2)]
        rfl
      rw [queue, queue, ht, queueTail_of_free hlock]
  | command c hlock =>
      have ht : queueTail { s with handler := some (.remove c) } =
          (HandlerPc.remove c).carries.toList := by
        rw [queueTail, if_neg (halt_ne_send (locked_eq_false.mp hlock).2.2), List.append_nil]
        rfl
      cases hc : (HandlerPc.remove c).carries with
      | none =>
          refine .same ?_
          rw [queue, queue, ht, queueTail_of_free hlock, hc]
          rfl
      | some a =>
          refine .push a ?_ (.inr ⟨c, rfl, hc⟩)
          rw [queue, queue, ht, queueTail_of_free hlock, hc, List.append_nil, List.append_assoc]
          rfl
  | remove c hh _ => exact .same (queue_handler hx hh _ (carries_afterRemove c) _)
  | guardSpawn a hh _ | guardSend a hh _ => exact .same (queue_handler hx hh _ rfl s.schedule)
  | checkSend hh _ => exact .same (queue_handler hx hh _ rfl s.schedule)
  | spawn a hh =>
      refine .same ?_
      have hq := queue_handler hx hh (.send a) rfl s.schedule
      rw [queue] at hq ⊢
      rw [← hq, ← hands_append s.runs]
      rfl
  | checkSkip hh hst =>
      refine .skip rfl hh hst rfl ?_
      have ht : queueTail { s with handler := some (.reply 200) } = [] := by
        rw [queueTail, if_neg (halt_ne_send (hx.of_handler hh).2)]
        rfl
      rw [queue, queue, ht, queueTail_of_handler hx hh, List.append_nil, List.append_assoc]
      rfl
  | send a hh hc =>
      refine .same ?_
      have ht : queueTail { s with ctrlChan := some a, handler := some (.reply 200) } = [] := by
        rw [queueTail, if_neg (halt_ne_send (hx.of_handler hh).2)]
        rfl
      rw [queue, queue, ht, queueTail_of_handler hx hh, hc]
      rfl
  | reply code hh =>
      refine .same ?_
      have ht : queueTail { s with handler := none } = [] := by
        rw [queueTail, if_neg (halt_ne_send (hx.of_handler hh).2)]
        rfl
      rw [queue, queue, ht, queueTail_of_handler hx hh]
      rfl
  | _ => cases hl

theorem Step.queueStep_halt (h : Step cfg s l s') (hl : l.party = .halt) (hx : Exclusive s) :
    QueueStep s l s' := by
  cases h with
  | halt hh hlock =>
      refine .same ?_
      have ht : queueTail { s with halt := .check } = [] := by
        rw [queueTail, (locked_eq_false.mp hlock).1]
        rfl
      rw [queue, queue, ht, queueTail_of_free hlock]
  | haltCheck hh _ =>
      have hn := hx.of_halt (by rw [hh]; rfl)
      refine .push .halt ?_ (.inl rfl)
      have ht : queueTail s = [] := by
        rw [queueTail, hn, hh]
        rfl
      have ht' : queueTail { s with halt := .send } = [.halt] := by
        rw [queueTail, hn]
        rfl
      rw [queue, queue, ht, ht', List.append_nil, List.append_assoc]
  | haltSend hh hc =>
      have hn := hx.of_halt (by rw [hh]; rfl)
      refine .same ?_
      rw [queue, queue, queueTail, queueTail, hn, hh, hc]
      rfl
  | haltSkip hh _ | haltWait hh _ | haltClose hh =>
      refine .same ?_
      rw [queue, queue, queueTail, queueTail, hh]
      rfl
  | _ => cases hl

theorem Step.queueStep_run (h : Step cfg s l s') (hl : l.party = .run) (hs : SoloLive s) :
    QueueStep s l s' := by
  cases h with
  | prologue i r hr hp | topReady i r hr hp _ | topIdle i r hr hp _ | launch i r hr hp
  | wake i r hr hp | ret i r hr hp _ | done i r hr hp _ =>
      exact .same (queue_set_same hs hr (live_of_pc hp nofun) (hand_at hp).symm)
  | closeKill i r a hr hp | join i r a hr hp _ =>
      refine .same (queue_set_same hs hr (live_of_pc hp nofun) ?_)
      rw [hand_at hp]
      cases a <;> rfl
  | waitRecv i r a hr hp hc | idleRecv i r a hr hp hc =>
      refine .same ?_
      rw [queue_run hs hr (live_of_pc hp nofun), hand_at hp, hc]
      show (s.runs.set i _).filterMap Run.hand ++ ([] ++ queueTail s) = _
      rw [hands_set _ hs hr (live_of_pc hp nofun)]
      rfl
  | waitAct i r a hr hp =>
      have hlive : r.live = true := live_of_pc hp nofun
      have hq := queue_run hs hr hlive
      rw [hand_at hp] at hq
      have hq' : queue ({ s with state := waitState s.state a }.setRun i (waitRun r a)) =
          (waitRun r a).hand.toList ++ (s.ctrlChan.toList ++ queueTail s) :=
        congrArg (· ++ _) (hands_set _ hs hr hlive)
      cases a with
      | forceStart => exact .fall .forceStart .start _ rfl rfl hq hq'
      | stop =>
          exact .exec .stop (by rw [hq']; exact hq) fun _ => ⟨rfl, settled_of_solo hs hr hlive rfl⟩
      | start | disable | restart | ping | halt =>
          exact .exec _ (by rw [hq']; exact hq) fun h => by cases h
  | idleAct i r a hr hp =>
      have hlive : r.live = true := live_of_pc hp nofun
      have hq := queue_run hs hr hlive
      rw [hand_at hp] at hq
      have hq' : queue ({ s with state := idleState s.state a }.setRun i (idleRun r a)) =
          (idleRun r a).hand.toList ++ (s.ctrlChan.toList ++ queueTail s) :=
        congrArg (· ++ _) (hands_set _ hs hr hlive)
      cases a with
      | forceStart => exact .fall .forceStart .restart _ rfl rfl hq hq'
      | restart => exact .fall .restart .start _ rfl rfl hq hq'
      | stop =>
          exact .exec .stop (by rw [hq']; exact hq) fun _ => ⟨rfl, settled_of_solo hs hr hlive rfl⟩
      | start | disable | ping | halt =>
          exact .exec _ (by rw [hq']; exact hq) fun h => by cases h
  | _ => cases hl

theorem Step.queueStep (h : Step cfg s l s') (hw : WF s) (hs : SoloLive s)
    (hstart : s.sched ≠ .start) : QueueStep s l s' := by
  cases hl : l.party with
  | handler => exact h.queueStep_handler hl hw.lock
  | halt => exact h.queueStep_halt hl hw.lock
  | run => exact h.queueStep_run hl hs
  | schedule =>
      cases h with
      | start now h _ => exact (hstart h).elim
      | schedSpawn now t _ =>
          refine .same ?_
          rw [queue, queue]
          dsimp only
          rw [hands_append]
          rfl
      | _ => first | cases hl; done | exact .same rfl
  | sync =>
      cases h with
      | acquire i r sy hr hsy _ _ | bypass i r sy hr hsy _ _ | kill i r sy hr hsy _ _
      | op i r sy _ _ _ _ hr hsy _ _ | finish i r sy hr hsy _ =>
          exact .same (queue_set_same hs hr ((hw.sync r (List.mem_of_getElem? hr)).live hsy) rfl)
      | _ => first | cases hl; done | exact .same rfl

/-! ### A stop action in the queue -/

/-- A stop action with no start action and `n` stop actions behind it. -/
def StopInFlight (n : ℕ) (q : List CtrlAction) : Prop :=
  ∃ xs ys, q = xs ++ .stop :: ys ∧ (∀ y ∈ ys, y.starts = false) ∧ ys.count .stop = n

theorem StopInFlight.lt_count {n : ℕ} {q : List CtrlAction} (h : StopInFlight n q) :
    n < q.count .stop := by
  obtain ⟨xs, ys, rfl, -, rfl⟩ := h
  rw [List.count_append, List.count_cons_self]
  omega

theorem StopInFlight.push {n : ℕ} {q : List CtrlAction} {a : CtrlAction} (h : StopInFlight n q)
    (ha : a.starts = false) : StopInFlight (n + [a].count .stop) (q ++ [a]) := by
  obtain ⟨xs, ys, rfl, hy, rfl⟩ := h
  refine ⟨xs, ys ++ [a], ?_, Pool.forall_append hy ha, List.count_append⟩
  rw [List.append_assoc, List.cons_append]

/-- The action at the front is this stop, or the stop is still behind it. -/
theorem StopInFlight.pop {n : ℕ} {q : List CtrlAction} {a : CtrlAction}
    (h : StopInFlight n (a :: q)) :
    (a = .stop ∧ ∀ y ∈ q, y.starts = false) ∨ StopInFlight n q := by
  obtain ⟨xs, ys, hq, hy, hn⟩ := h
  cases xs with
  | nil =>
      obtain ⟨ha, rfl⟩ := List.cons.inj hq
      exact .inl ⟨ha, hy⟩
  | cons x xs =>
      obtain ⟨-, rfl⟩ := List.cons.inj hq
      exact .inr ⟨xs, ys, rfl, hy, hn⟩

theorem StopInFlight.cons {n : ℕ} {q : List CtrlAction} (h : StopInFlight n q) (b : CtrlAction) :
    StopInFlight n (b :: q) := by
  obtain ⟨xs, ys, rfl, hy, hn⟩ := h
  exact ⟨b :: xs, ys, rfl, hy, hn⟩

/-! ### The conditions -/

/-- `runSchedule` has finished its start-up, holds no popped entry and handles no message with
the schedule flag. -/
def SchedPc.quiet : SchedPc → Bool
  | getJob | upload _ | loop | exitLock | flush | flushUpdate _ | returned => true
  | check m | check2 m | update m | addJob m => !m.schedule
  | _ => false

/-- The condition on a step while a stop is pending: the loop takes no message with the schedule
flag, and the handler of a stop does not read `disabled` while a start action is pending. -/
def stopClear (s : State) (l : Label) : Bool :=
  match l with
  | .message => !s.managerChan.head?.any (·.schedule)
  | .handler =>
      !(s.handler == some .check && s.state == .disabled && startPending s)
  | _ => true

def Label.isStart : Label → Bool
  | command (some ⟨.start, _⟩) | command (some ⟨.restart, _⟩) => true
  | _ => false

def Label.isStop : Label → Bool
  | command (some ⟨.stop, _⟩) => true
  | _ => false

/-- No sync run is going on to be launched. -/
structure Stopped (s : State) : Prop where
  state : s.state ≠ .ready
  launch : ∀ r ∈ s.runs, r.pc ≠ .launch

/-! ### The two phases -/

def SlotQuiet (s : State) : Prop := s.schedule.sched = false ∧ s.sched.quiet = true

structure Pending (n : ℕ) (s : State) : Prop where
  inv : SoloInv s
  slot : SlotQuiet s
  queue : StopInFlight n (queue s)

/-- `runSchedule` is not about to fill the slot, as long as it does not read `ready` or
`halting`. -/
def SchedPc.passive : SchedPc → Bool
  | check _ | check2 _ => true
  | pc => pc.quiet

structure Effective (s : State) : Prop where
  inv : SoloInv s
  state : s.state = .paused ∨ s.state = .disabled
  slot : s.schedule.sched = false
  sched : s.sched.passive = true
  queue : ∀ a ∈ queue s, a.starts = false
  runs : ∀ r ∈ s.runs, r.pc.settled = true

theorem SchedPc.passive_of_quiet {pc : SchedPc} (h : pc.quiet = true) : pc.passive = true := by
  cases pc <;> first | rfl | exact h

theorem SchedPc.ne_start_of_passive {pc : SchedPc} (h : pc.passive = true) : pc ≠ .start := by
  rintro rfl
  cases h

theorem Effective.stopped (h : Effective s) : Stopped s := by
  refine ⟨fun hr => ?_, fun r hr hp => ?_⟩
  · rcases h.state with hs | hs <;> rw [hs] at hr <;> cases hr
  · have := h.runs r hr
    rw [hp] at this
    cases this

theorem carries_starts {c : ClientCmd} {a : CtrlAction} (h : (HandlerPc.remove c).carries = some a)
    (hl : (Label.command (some c)).isStart = false) : a = .stop := by
  obtain ⟨cmd, force⟩ := c
  cases cmd with
  | start | restart => cases hl
  | stop => cases h; rfl
  | ping | update => cases h

theorem mem_queue_of_handler {pc : HandlerPc} {a : CtrlAction} (h : s.handler = some pc)
    (ha : pc.carries = some a) : a ∈ queue s := by
  rw [queue, queueTail, h]
  simp [ha]

/-- Without a start action in the queue the spawn guard is not evaluated. -/
theorem guardClear_of_queue (hg : GuardStarts s) (h : ∀ a ∈ queue s, a.starts = false) (l : Label) :
    guardClear s l = true := by
  unfold guardClear
  split
  · next a hh =>
      have := h a (mem_queue_of_handler hh rfl)
      rw [hg a (.inl hh)] at this
      cases this
  · rfl

theorem StopInFlight.handler {n : ℕ} {pc : HandlerPc} {a : CtrlAction} (hx : Exclusive s)
    (hq : StopInFlight n (Worker.queue s)) (hh : s.handler = some pc) (ha : pc.carries = some a) :
    a.starts = false := by
  obtain ⟨xs, ys, hq, hy, -⟩ := hq
  have hlast : (Worker.queue s).getLast? = some a := by
    rw [Worker.queue, queueTail_of_handler hx hh, ha, ← List.append_assoc]
    exact List.getLast?_concat
  rw [hq, List.getLast?_append, List.getLast?_cons] at hlast
  cases hy' : ys.getLast? with
  | none =>
      rw [hy'] at hlast
      obtain rfl := Option.some.inj hlast
      rfl
  | some y =>
      rw [hy'] at hlast
      obtain rfl := Option.some.inj hlast
      exact hy y (List.mem_of_getLast? hy')

theorem guardClear_of_pending {n : ℕ} (h : Pending n s) (l : Label) : guardClear s l = true := by
  unfold guardClear
  split
  · next a hh =>
      have := StopInFlight.handler h.inv.wf.lock h.queue hh rfl
      rw [h.inv.guards a (.inl hh)] at this
      cases this
  · rfl

theorem Step.slotQuiet (h : Step cfg s l s') (hc : stopClear s l = true) (hi : SlotQuiet s) :
    SlotQuiet s' := by
  obtain ⟨hn, hq⟩ := hi
  cases h with
  | remove c _ _ => exact ⟨rfl, hq⟩
  | message m ms h hm =>
      refine ⟨hn, ?_⟩
      unfold stopClear at hc
      rw [hm] at hc
      exact hc
  | checkReady _ m h _ | checkOther _ m h _ | check2Go _ m h _ | update _ m h =>
      rw [h] at hq
      exact ⟨hn, hq⟩
  | addJob _ m h hm _ _ | addJobBlocked _ m h hm _ =>
      rw [h] at hq
      rw [SchedPc.quiet, hm] at hq
      cases hq
  | tickStart _ _ _ hs _ =>
      rw [hn] at hs
      cases hs
  | getJob _ _ | upload _ _ _ | check2Skip _ _ _ _ | addJobPlain _ _ _ _ | exited _ _
  | exitLock _ _ _ | flushReport _ _ _ _ _ _ | flushDrop _ _ _ _ _ _ | flushEnd _ _ _
  | flushUpdate _ _ _ => exact ⟨hn, rfl⟩
  | schedLock _ h _ | fetched _ h | setup _ _ h | schedSpawn _ _ h | add _ _ h _ _
  | addBlocked _ _ h _ | unlock _ h | start _ h _ =>
      rw [h] at hq
      cases hq
  | _ => exact ⟨hn, hq⟩

theorem mem_queue_of_hand {i : ℕ} {r : Run} {a : CtrlAction} (hr : s.runs[i]? = some r)
    (ha : r.hand = some a) : a ∈ queue s :=
  List.mem_append_left _ (List.mem_filterMap.mpr ⟨r, List.mem_of_getElem? hr, ha⟩)

theorem settled_idleRun (r : Run) (a : CtrlAction) : (idleRun r a).pc.settled = true := by
  cases a <;> rfl

theorem Step.effective_queue (h : Step cfg s l s') (hl : l.isStart = false)
    (hi : Effective s) : ∀ a ∈ queue s', a.starts = false := by
  rcases h.queueStep hi.inv.wf hi.inv.solo (SchedPc.ne_start_of_passive hi.sched) with
    hq | ⟨a, hq, rfl | ⟨c, rfl, hc⟩⟩ | ⟨-, -, -, -, hq⟩ | ⟨a, hq, -⟩ | ⟨a, b, q, ha, -, hq, -⟩
  · rw [hq]
    exact hi.queue
  · rw [hq]
    exact Pool.forall_append hi.queue rfl
  · rw [hq, carries_starts hc hl]
    exact Pool.forall_append hi.queue rfl
  · exact fun a ha => hi.queue a (by rw [hq]; exact List.mem_append_left _ ha)
  · exact fun b hb => hi.queue b (by rw [hq]; exact List.mem_cons_of_mem _ hb)
  · have := hi.queue a (by rw [hq]; exact List.mem_cons_self)
    rw [ha] at this
    cases this

/-- Every step but the arrival of a start or restart command keeps an executed stop. -/
theorem Step.effective (h : Step cfg s l s') (hl : l.isStart = false) (hi : Effective s) :
    Effective s' := by
  have hinv := h.soloInv (guardClear_of_queue hi.inv.guards hi.queue l) hi.inv
  have hq := h.effective_queue hl hi
  obtain ⟨-, hst, hn, hp, hqs, hr⟩ := hi
  have not_ready : s.state ≠ .ready := by
    rcases hst with hst | hst <;> rw [hst] <;> exact nofun
  have not_halting : s.state ≠ .halting := by
    rcases hst with hst | hst <;> rw [hst] <;> exact nofun
  have unsettled : ∀ {i : ℕ} {r : Run} {pc : RunPc}, s.runs[i]? = some r → r.pc = pc →
      pc.settled = false → False := by
    intro i r pc hri hpc hf
    have := hr r (List.mem_of_getElem? hri)
    rw [hpc, hf] at this
    cases this
  have keep : ∀ {t : State}, SoloInv t → (∀ a ∈ queue t, a.starts = false) →
      t.state = s.state → t.schedule.sched = false → t.sched.passive = true →
      (∀ r ∈ t.runs, r.pc.settled = true) → Effective t :=
    fun h₁ h₂ h₃ h₄ h₅ h₆ => ⟨h₁, by rw [h₃]; exact hst, h₄, h₅, h₂, h₆⟩
  cases h with
  | remove c _ _ => exact keep hinv hq rfl rfl hp hr
  | spawn a _ => exact keep hinv hq rfl hn hp (Pool.forall_append hr rfl)
  | checkReady _ m _ hrd => exact (not_ready hrd).elim
  | check2Go _ m _ hh => exact (not_halting hh).elim
  | update _ m h =>
      rw [h] at hp
      exact keep hinv hq rfl hn hp hr
  | addJob _ m h hm _ _ | addJobBlocked _ m h hm _ =>
      rw [h, SchedPc.passive, SchedPc.quiet, hm] at hp
      · cases hp
      all_goals exact nofun
  | tickStart _ _ _ hs _ =>
      rw [hn] at hs
      cases hs
  | message _ _ _ _ | checkOther _ _ _ _ | check2Skip _ _ _ _ | getJob _ _ | upload _ _ _
  | addJobPlain _ _ _ _ | exited _ _ | exitLock _ _ _ | flushReport _ _ _ _ _ _
  | flushDrop _ _ _ _ _ _ | flushEnd _ _ _ | flushUpdate _ _ _ =>
      exact keep hinv hq rfl hn rfl hr
  | schedLock _ h _ | fetched _ h | setup _ _ h | schedSpawn _ _ h | add _ _ h _ _
  | addBlocked _ _ h _ | unlock _ h | start _ h _ =>
      rw [h] at hp
      cases hp
  | topReady i r hri hpc hrd => exact (not_ready hrd).elim
  | launch i r hri hpc | waitRecv i r _ hri hpc _ | waitAct i r _ hri hpc
  | done i r hri hpc _ => exact (unsettled hri hpc rfl).elim
  | prologue i r hri hpc | topIdle i r hri hpc _ | wake i r hri hpc | idleRecv i r _ hri hpc _
  | ret i r hri hpc _ => exact keep hinv hq rfl hn hp (Pool.forall_set hr rfl)
  | closeKill i r a hri hpc | join i r a hri hpc _ =>
      exact keep hinv hq rfl hn hp (Pool.forall_set hr (by cases a <;> rfl))
  | idleAct i r a hri hpc =>
      have ha := hqs a (mem_queue_of_hand hri (by rw [Run.hand, hpc]))
      have hr' := Pool.forall_set (i := i) hr (settled_idleRun r a)
      cases a with
      | start | restart | forceStart => cases ha
      | stop => exact ⟨hinv, .inl rfl, hn, hp, hq, hr'⟩
      | disable => exact ⟨hinv, .inr rfl, hn, hp, hq, hr'⟩
      | halt | ping => exact keep hinv hq rfl hn hp hr'
  | acquire i r sy hri _ _ _ | bypass i r sy hri _ _ _ | kill i r sy hri _ _ _
  | op i r sy _ _ _ _ hri _ _ _ | finish i r sy hri _ _ =>
      exact keep hinv hq rfl hn hp (Pool.forall_set hr (hr r (List.mem_of_getElem? hri)))
  | _ => exact keep hinv hq rfl hn hp hr

theorem queue_isStop (h : Step cfg s l s') (hl : l.isStop = true) :
    queue s' = queue s ++ [.stop] := by
  cases h with
  | command c hlock =>
      obtain ⟨cmd, force⟩ := c
      cases cmd with
      | stop =>
          have ht : queueTail { s with handler := some (.remove ⟨.stop, force⟩) } = [.stop] := by
            rw [queueTail, if_neg (halt_ne_send (locked_eq_false.mp hlock).2.2)]
            rfl
          rw [queue, queue, ht, queueTail_of_free hlock, List.append_nil, List.append_assoc]
      | start | restart | ping | update => cases hl
  | _ => cases hl

theorem queue_of_not_startPending (h : startPending s = false) (ht : queueTail s = []) :
    ∀ a ∈ queue s, a.starts = false := by
  rw [startPending, Bool.or_eq_false_iff] at h
  intro a ha
  rw [queue, ht, List.append_nil, List.mem_append] at ha
  rcases ha with ha | ha
  · obtain ⟨r, hr, hh⟩ := List.mem_filterMap.mp ha
    by_contra hs
    have : s.runs.any Run.holdsStart = true :=
      List.any_eq_true.mpr ⟨r, hr, by rw [Run.holdsStart, hh]; exact Bool.not_eq_false _ ▸ hs⟩
    rw [h.2] at this
    cases this
  · rw [Option.mem_toList] at ha
    rw [ha] at h
    exact h.1

/-- A pending stop stays pending, with the later ones behind it, until it is executed. -/
theorem Step.pending {n : ℕ} (h : Step cfg s l s') (hl : l.isStart = false)
    (hc : stopClear s l = true) (hi : Pending n s) :
    Pending (n + l.isStop.toNat) s' ∨ Effective s' := by
  have hinv := h.soloInv (guardClear_of_pending hi l) hi.inv
  have hslot := h.slotQuiet hc hi.slot
  have hpass := SchedPc.passive_of_quiet hslot.2
  have hstart := SchedPc.ne_start_of_passive (SchedPc.passive_of_quiet hi.slot.2)
  cases hstop : l.isStop with
  | true =>
      refine .inl ⟨hinv, hslot, ?_⟩
      rw [queue_isStop h hstop]
      exact hi.queue.push rfl
  | false =>
      rcases h.queueStep hi.inv.wf hi.inv.solo hstart with
        hq | ⟨a, hq, rfl | ⟨c, rfl, hcar⟩⟩ | ⟨rfl, hh, hst, rfl, hq⟩ | ⟨a, hq, hexec⟩ |
          ⟨a, b, q, ha, -, hq, hq'⟩
      · exact .inl ⟨hinv, hslot, by rw [hq]; exact hi.queue⟩
      · exact .inl ⟨hinv, hslot, by rw [hq]; exact hi.queue.push rfl⟩
      · rw [carries_starts hcar hl] at hcar
        obtain ⟨cmd, force⟩ := c
        cases cmd with
        | start | restart => cases hl
        | stop => cases hstop
        | ping | update => cases hcar
      · have hno : startPending s = false := by
          rw [stopClear, hh, hst] at hc
          simpa using hc
        have hgone := hi.inv.awaited.no_live hst hno (by rw [hh]; rfl)
        have ht : queueTail { s with handler := some (.reply 200) } = [] := by
          rw [queueTail, if_neg (halt_ne_send (hi.inv.wf.lock.of_handler hh).2)]
          rfl
        refine .inr ⟨hinv, .inr hst, hslot.1, hpass, queue_of_not_startPending hno ht, ?_⟩
        intro r hr
        have hp : r.pc = .gone := by simpa [Run.live] using hgone r hr
        rw [hp]
        rfl
      · have hfl := hi.queue
        rw [hq] at hfl
        rcases hfl.pop with ⟨rfl, hno⟩ | hfl
        · obtain ⟨hst, hset⟩ := hexec rfl
          exact .inr ⟨hinv, .inl hst, hslot.1, hpass, hno, hset⟩
        · exact .inl ⟨hinv, hslot, hfl⟩
      · have hfl := hi.queue
        rw [hq] at hfl
        rcases hfl.pop with ⟨rfl, -⟩ | hfl
        · cases ha
        · exact .inl ⟨hinv, hslot, by rw [hq']; exact hfl.cons b⟩

/-! ### Whole runs -/

theorem run_effective {ls : List Label} (hl : ∀ l ∈ ls, l.isStart = false) (hi : Effective s)
    (hr : Lts.run (step cfg) s ls = some s') : Effective s' := by
  have hc : Lts.Along (step cfg) (fun _ l => l.isStart = false) s ls := Lts.along_of_labels s hl
  exact Lts.run_invariant (fun _ _ _ hi hl h => (step_cases h).effective hl hi) hi hc hr

theorem run_pending {n : ℕ} {ls : List Label} (hl : ∀ l ∈ ls, l.isStart = false)
    (hc : Lts.Along (step cfg) (fun s l => stopClear s l = true) s ls) (hi : Pending n s)
    (hr : Lts.run (step cfg) s ls = some s') :
    Pending (n + ls.countP Label.isStop) s' ∨ Effective s' := by
  induction ls generalizing s n with
  | nil =>
      obtain rfl := Option.some.inj hr
      exact .inl hi
  | cons l ls ih =>
      obtain ⟨s₁, hs, hr⟩ := Lts.run_cons.mp hr
      have hl' : ∀ l ∈ ls, l.isStart = false := fun l hm => hl l (List.mem_cons_of_mem _ hm)
      rcases (step_cases hs).pending (hl l List.mem_cons_self) hc.1 hi with hi | hi
      · have hcount : n + l.isStop.toNat + ls.countP Label.isStop =
            n + (l :: ls).countP Label.isStop := by
          rw [List.countP_cons]
          cases l.isStop <;> (simp; try omega)
        have := ih hl' (hc.2 s₁ hs) hi hr
        rwa [hcount] at this
      · exact .inr (run_effective hl' hi hr)

/-- The flush of a stop command, taken while `runSchedule` is quiet, leaves its action pending. -/
theorem pending_of_flush {force : Bool} (hi : SoloInv s)
    (hh : s.handler = some (.remove ⟨.stop, force⟩)) (hq : s.sched.quiet = true)
    (h : step cfg s .handler = some s') : Pending 0 s' := by
  have hs := step_cases h
  have hc : guardClear s .handler = true := by
    unfold guardClear
    rw [hh]
  have hinv := hs.soloInv hc hi
  generalize hl : Label.handler = l at hs
  cases hs with
  | remove c hh' _ =>
      obtain rfl : c = ⟨.stop, force⟩ := by
        rw [hh] at hh'
        cases hh'
        rfl
      refine ⟨hinv, ⟨rfl, hq⟩, ?_⟩
      rw [queue, queueTail_of_handler hinv.wf.lock rfl, ← List.append_assoc]
      exact ⟨_, [], rfl, fun _ h => absurd h List.not_mem_nil, rfl⟩
  | guardSpawn a hh' _ | guardSend a hh' _ | spawn a hh' | send a hh' _ | reply _ hh' =>
      rw [hh] at hh'
      cases hh'
  | checkSend hh' _ | checkSkip hh' _ =>
      rw [hh] at hh'
      cases hh'
  | _ => cases hl

/-- **A stop sticks.**  `s₀` is the state in which the handler of a stop command flushes the
schedule, and `mid` leads to a state in which that stop has been executed: no more stop actions
are in the queue than stop commands have arrived since.  If no start or restart command arrives,
the job is stopped in every state from then on. -/
theorem run_stop_sticks {pre mid post : List Label} {s₀ s₂ s₃ : State} {force : Bool}
    (h₀ : Lts.run (step cfg) .init pre = some s₀)
    (hh : s₀.handler = some (.remove ⟨.stop, force⟩))
    (h₂ : Lts.run (step cfg) s₀ (.handler :: mid) = some s₂)
    (heff : (queue s₂).count .stop ≤ mid.countP Label.isStop)
    (h₃ : Lts.run (step cfg) s₂ post = some s₃)
    (hl : ∀ l ∈ mid ++ post, l.isStart = false)
    (hpre : Lts.Along (step cfg) (fun s l => guardClear s l = true) .init pre)
    (hq : s₀.sched.quiet = true)
    (hmid : Lts.Along (step cfg) (fun s l => stopClear s l = true) s₀ (.handler :: mid)) :
    Stopped s₃ := by
  have hi := run_soloInv hpre h₀
  obtain ⟨s₁, hs, h₂⟩ := Lts.run_cons.mp h₂
  have hlmid : ∀ l ∈ mid, l.isStart = false := fun l hm => hl l (List.mem_append_left _ hm)
  have hlpost : ∀ l ∈ post, l.isStart = false := fun l hm => hl l (List.mem_append_right _ hm)
  rcases run_pending hlmid (hmid.2 s₁ hs) (pending_of_flush hi hh hq hs) h₂ with hp | he
  · have := hp.queue.lt_count
    omega
  · exact (run_effective hlpost he h₃).stopped

/-- The invocation spawned by the start-up reaches its idle loop, and a stop command arrives. -/
def stopWhenIdle : List Label :=
  bootNew ++ [.run 0, .run 0, .command (some ⟨.stop, false⟩)]

/-- The handler behind the flush sends its action and answers, and the invocation executes the
action. -/
def takeStop : List Label := [.handler, .handler, .handler, .run 0, .run 0]

theorem run_stop_sticks_when_idle :
    ∃ s₀ s₂ s₃, Lts.run (step plainConfig) .init stopWhenIdle = some s₀ ∧
      Lts.run (step plainConfig) s₀ (.handler :: takeStop) = some s₂ ∧
      Lts.run (step plainConfig) s₂ [.tick due, .run 0] = some s₃ ∧ Stopped s₃ := by
  have heval : ((Lts.run (step plainConfig) .init stopWhenIdle).bind fun s₀ =>
      (Lts.run (step plainConfig) s₀ (.handler :: takeStop)).bind fun s₂ =>
        (Lts.run (step plainConfig) s₂ [.tick due, .run 0]).map fun _ =>
          (s₀.handler, s₀.sched.quiet,
            Lts.check (step plainConfig) stopClear s₀ (.handler :: takeStop),
            (queue s₂).count .stop)) =
      some (some (.remove ⟨.stop, false⟩), true, true, 0) := by rfl
  obtain ⟨s₀, h₀, heval⟩ := Option.bind_eq_some_iff.mp heval
  obtain ⟨s₂, h₂, heval⟩ := Option.bind_eq_some_iff.mp heval
  obtain ⟨s₃, h₃, heval⟩ := Option.map_eq_some_iff.mp heval
  simp only [Prod.mk.injEq] at heval
  obtain ⟨hh, hq, hmid, hcount⟩ := heval
  have hpre : Lts.check (step plainConfig) guardClear .init stopWhenIdle = true := by rfl
  exact ⟨s₀, s₂, s₃, h₀, h₂, h₃, run_stop_sticks h₀ hh h₂ (by rw [hcount]; exact Nat.zero_le _) h₃
    (by decide) (Lts.along_of_check hpre) hq (Lts.along_of_check hmid)⟩

/-- A tick pops the entry, and the stop command is handled and executed before the popped start
is sent: the job is `ready` again without any command. -/
theorem popped_start_undoes_stop :
    ∃ s₀ s₂ s₃, Lts.run (step plainConfig) .init
        (bootNew ++ [.run 0, .run 0, .tick due, .command (some ⟨.stop, false⟩)]) = some s₀ ∧
      s₀.handler = some (.remove ⟨.stop, false⟩) ∧
      Lts.run (step plainConfig) s₀ (.handler :: takeStop) = some s₂ ∧
      (queue s₂).count .stop = 0 ∧ s₂.handler = none ∧
      Lts.run (step plainConfig) s₂ [.run 0, .sched due, .run 0, .run 0, .run 0] = some s₃ ∧
      ¬ Stopped s₃ := by
  have heval : ((Lts.run (step plainConfig) .init
        (bootNew ++ [.run 0, .run 0, .tick due, .command (some ⟨.stop, false⟩)])).bind fun s₀ =>
      (Lts.run (step plainConfig) s₀ (.handler :: takeStop)).bind fun s₂ =>
        (Lts.run (step plainConfig) s₂ [.run 0, .sched due, .run 0, .run 0, .run 0]).map
          fun s₃ => (s₀.handler, (queue s₂).count .stop, s₂.handler, s₃.state)) =
      some (some (.remove ⟨.stop, false⟩), 0, none, .ready) := by rfl
  obtain ⟨s₀, h₀, heval⟩ := Option.bind_eq_some_iff.mp heval
  obtain ⟨s₂, h₂, heval⟩ := Option.bind_eq_some_iff.mp heval
  obtain ⟨s₃, h₃, heval⟩ := Option.map_eq_some_iff.mp heval
  simp only [Prod.mk.injEq] at heval
  obtain ⟨hh, hcount, hdone, hready⟩ := heval
  exact ⟨s₀, s₂, s₃, h₀, hh, h₂, hcount, hdone, h₃, fun h => h.state hready⟩

end KubeSync.Worker
