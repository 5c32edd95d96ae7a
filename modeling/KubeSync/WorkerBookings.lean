import KubeSync.WorkerRuns

/-! # Calls on the schedule slot

`AddJob` over a pending entry waits for the mutex it holds itself, so the worker has to take
care that an entry is never added twice.  An entry is added by the start-up and by every message
with the schedule flag that the loop handles.

* `bookings`: the pending entry, and the calls of `AddJob` that the start-up, the queued messages
  and the message in hand are going to make;
* `CallsReturn`: no call of `AddJob`, `Pop` or `Remove` blocks, in one reachable state;
* `run_callsReturn`: the property holds in every state of every run in which each sync run is
  launched without a booking and after every earlier sync run has finished.  The invariant
  (`BookInv`) counts the scheduling message that a sync run has not yet sent (`Spends`) together
  with the bookings, and keeps the sum below two. -/

namespace KubeSync.Worker

variable {cfg : Config} {s s' : State} {l : Label}

/-- The calls of `AddJob` that lie ahead of `runSchedule` for what it has in hand. -/
def SchedPc.books : SchedPc → ℕ
  | spawn (some _) | add _ => 1
  | check m | check2 m | update m | addJob m => m.schedule.toNat
  | _ => 0

def bookings (s : State) : ℕ :=
  s.schedule.sched.toNat + s.managerChan.countP (·.schedule) + s.sched.books

/-- `runSchedule` stands before a call of `AddJob`. -/
def SchedPc.adds : SchedPc → Bool
  | add _ => true
  | addJob m => m.schedule
  | _ => false

/-- No call on the schedule slot blocks. -/
structure CallsReturn (s : State) : Prop where
  addJob : s.sched.adds = true → s.schedule.sched = false ∧
    ∀ t, ∃ q, s.schedule.addJob t = .done q ()
  pop : ∀ now, s.sched = .loop → ∃ q b, s.schedule.pop now = .done q b
  remove : ∀ c, s.handler = some (.remove c) → ∃ q, s.schedule.remove = .done q ()
  stuck : ∀ b, s.sched ≠ .stuck b

/-- What a sync goroutine still has to run. -/
def Run.rest (cfg : Config) (r : Run) : Option (SyncProg Unit) :=
  match r.sync with
  | none => none
  | some sy =>
      match sy.pc with
      | .select => some (runJobWrapper cfg.provider)
      | .body c => some c
      | .handoff | .done => none

def Run.unfinished (r : Run) : Bool :=
  match r.sync with
  | none => false
  | some sy =>
      match sy.pc with
      | .select | .body _ => true
      | .handoff | .done => false

/-- The condition on a step: a sync run is launched only when nothing is booked and no other sync
run is unfinished. -/
def launchClear (s : State) (l : Label) : Bool :=
  match l with
  | .run i =>
      !(s.runs[i]?.any fun r => r.pc == .launch) ||
        (bookings s == 0 && s.runs.all fun r => !r.unfinished)
  | _ => true

/-! ### The invariant -/

def SoloSync (s : State) : Prop := Pool.Solo (fun r : Run => r.unfinished = true) s.runs

def Booked (cfg : Config) (s : State) : Prop :=
  bookings s ≤ 1 ∧ ∀ r ∈ s.runs, ∀ c, r.rest cfg = some c → Spends (1 - bookings s) c

def Unblocked (s : State) : Prop := s.schedule.mu = false ∧ ∀ b, s.sched ≠ .stuck b

structure BookInv (cfg : Config) (s : State) : Prop where
  wf : WF s
  solo : SoloSync s
  booked : Booked cfg s
  free : Unblocked s

theorem Spends.mono {n m : ℕ} {c : SyncProg Unit} (h : Spends n c) (hn : n ≤ m) : Spends m c :=
  fun tr o ht => Nat.le_trans (h tr o ht) hn

theorem Run.unfinished_of_rest {r : Run} {c : SyncProg Unit} (h : r.rest cfg = some c) :
    r.unfinished = true := by
  unfold Run.rest at h
  unfold Run.unfinished
  split at h
  · cases h
  · next sy hs =>
      split at h
      · simp
      · simp
      · cases h
      · cases h

theorem Run.rest_congr {r r' : Run} (h : r'.sync = r.sync) : r'.rest cfg = r.rest cfg := by
  unfold Run.rest
  rw [h]

theorem Run.unfinished_congr {r r' : Run} (h : r'.sync = r.sync) :
    r'.unfinished = r.unfinished := by
  unfold Run.unfinished
  rw [h]

/-- `close(kill)` leaves the code of the goroutine as it is. -/
theorem Run.rest_kill (r : Run) (pc : RunPc) :
    ({ r with sync := r.sync.map fun sy => { sy with kill := true }, pc := pc } : Run).rest cfg =
      r.rest cfg := by
  obtain ⟨pc₀, bypass, sync⟩ := r
  cases sync <;> rfl

theorem Run.unfinished_kill (r : Run) (pc : RunPc) :
    ({ r with sync := r.sync.map fun sy => { sy with kill := true },
              pc := pc } : Run).unfinished = r.unfinished := by
  obtain ⟨pc₀, bypass, sync⟩ := r
  cases sync <;> rfl

theorem Run.unfinished_sync {r : Run} {sy : Sync} (hs : r.sync = some sy) :
    r.unfinished = match sy.pc with
      | .select | .body _ => true
      | .handoff | .done => false := by
  unfold Run.unfinished
  rw [hs]

/-- What `launchClear` says of a launch. -/
theorem launchClear_launch {i : ℕ} {r : Run} (hc : launchClear s (.run i) = true)
    (hr : s.runs[i]? = some r) (hp : r.pc = .launch) :
    bookings s = 0 ∧ ∀ r ∈ s.runs, r.unfinished = false := by
  unfold launchClear at hc
  simp only [hr, hp, Option.any_some, beq_self_eq_true, Bool.not_true, Bool.false_or,
    Bool.and_eq_true, beq_iff_eq, List.all_eq_true, Bool.not_eq_true'] at hc
  exact hc

theorem Step.soloSync (h : Step cfg s l s') (hc : launchClear s l = true) (hi : SoloSync s) :
    SoloSync s' := by
  cases h with
  | spawn a _ | schedSpawn now t _ => exact hi.append_not Bool.false_ne_true
  | launch i r hr hp =>
      have hnone := (launchClear_launch hc hr hp).2
      exact Pool.solo_set_of_none fun x hx => by rw [hnone x hx]; exact Bool.false_ne_true
  | prologue i r hr hp | topReady i r hr hp _ | topIdle i r hr hp _ | waitRecv i r _ hr hp _
  | wake i r hr hp | idleRecv i r _ hr hp _ | ret i r hr hp _ => exact hi.set hr id
  | waitAct i r a hr hp =>
      exact hi.set hr fun h => by rwa [Run.unfinished_congr (sync_waitRun r a)] at h
  | idleAct i r a hr hp =>
      exact hi.set hr fun h => by rwa [Run.unfinished_congr (sync_idleRun r a)] at h
  | closeKill i r a hr hp => exact hi.set hr fun h => by rwa [Run.unfinished_kill] at h
  | join i r a hr hp _ | done i r hr hp _ => exact hi.set hr fun h => by cases h
  | acquire i r sy hr hsy hpc _ | bypass i r sy hr hsy hpc _ | kill i r sy hr hsy hpc _
  | op i r sy _ _ _ _ hr hsy hpc _ | finish i r sy hr hsy hpc =>
      exact hi.set hr fun _ => by rw [Run.unfinished_sync hsy, hpc]
  | _ => exact hi

/-! ### Bookings -/

/-- Fewer bookings, and no code that was not there before. -/
theorem Booked.mono (hi : Booked cfg s) (hb : bookings s' ≤ bookings s)
    (hr : ∀ r ∈ s'.runs, ∀ c, r.rest cfg = some c → ∃ r₀ ∈ s.runs, r₀.rest cfg = some c) :
    Booked cfg s' := by
  refine ⟨Nat.le_trans hb hi.1, fun r hrm c hc => ?_⟩
  obtain ⟨r₀, hr₀, hc₀⟩ := hr r hrm c hc
  exact (hi.2 r₀ hr₀ c hc₀).mono (by omega)

theorem Booked.same (hi : Booked cfg s) (hb : bookings s' ≤ bookings s)
    (hr : s'.runs = s.runs) : Booked cfg s' :=
  hi.mono hb fun r hrm _ hc => ⟨r, hr ▸ hrm, hc⟩

/-- The replacement of an invocation by one with the same code left, or with none. -/
theorem Booked.set {i : ℕ} {r r' : Run} (hi : Booked cfg s) (hr : s.runs[i]? = some r)
    (hb : bookings s' ≤ bookings s) (hs : s'.runs = s.runs.set i r')
    (hrest : ∀ c, r'.rest cfg = some c → r.rest cfg = some c) : Booked cfg s' := by
  refine hi.mono hb ?_
  rw [hs]
  exact Pool.forall_set (fun x hx c hc => ⟨x, hx, hc⟩)
    fun c hc => ⟨r, List.mem_of_getElem? hr, hrest c hc⟩

theorem books_startPc_le (cfg : Config) (st : JobStatus) : (startPc cfg st).books ≤ 1 := by
  unfold startPc
  split
  · exact Nat.zero_le 1
  · exact Nat.zero_le 1
  · exact Nat.le_refl 1

theorem books_afterSpawn (t : Option ℤ) : (afterSpawn t).books = (SchedPc.spawn t).books := by
  cases t <;> rfl

theorem SchedPc.books_of_adds {pc : SchedPc} (h : pc.adds = true) : pc.books = 1 := by
  cases pc with
  | add t => rfl
  | addJob m =>
      rw [SchedPc.books, show m.schedule = true from h]
      rfl
  | _ => cases h

theorem countP_sends (e : SyncOp) (a : e.Answer) :
    (sends e).countP (·.schedule) = (schedules ⟨e, a⟩).toNat := by
  cases e with
  | send m =>
      cases hm : m.schedule <;> simp [sends, schedules, hm]
  | hook ph h => rfl
  | runProvider => rfl
  | awaitStart => rfl
  | awaitDone => rfl
  | dataSize => rfl
  | getState => rfl
  | panic => exact a.elim

theorem bookings_of_sched {pc : SchedPc} (hb : pc.books ≤ s.sched.books) :
    bookings { s with sched := pc } ≤ bookings s := by
  unfold bookings
  dsimp only
  omega

theorem Step.booked_schedule (h : Step cfg s l s') (hl : l.party = .schedule) (hf : Fresh s)
    (hi : Booked cfg s) : Booked cfg s' := by
  cases h with
  | setup now st h =>
      obtain ⟨h₁, h₂, h₃⟩ := hf.1 (by rw [h]; rfl)
      constructor
      · unfold bookings
        dsimp only
        rw [h₂, h₃]
        simpa using books_startPc_le cfg st
      · dsimp only
        rw [h₁]
        intro r hr
        cases hr
  | schedSpawn now t h =>
      refine hi.mono ?_ (Pool.forall_append (fun r hr c hc => ⟨r, hr, hc⟩) ?_)
      · unfold bookings
        dsimp only
        rw [books_afterSpawn, h]
      · intro c hc
        cases hc
  | add now t h _ hn =>
      refine hi.same ?_ rfl
      unfold bookings
      rw [h, hn]
      simp only [SchedPc.books, Bool.toNat_true, Bool.toNat_false]
      omega
  | schedLock _ h _ | fetched _ h | addBlocked _ _ h _ | unlock _ h | getJob _ h | upload _ _ h
  | exited h _ | exitLock _ h _ | flushEnd _ h _ | flushUpdate _ _ h =>
      refine hi.same ?_ rfl
      unfold bookings
      simp [SchedPc.books]
  | checkReady _ m h _ | checkOther _ m h _ | check2Go _ m h _ | update _ m h
  | check2Skip _ m h _ | addJobPlain _ m h _ =>
      refine hi.same (bookings_of_sched ?_) rfl
      rw [h]
      simp [SchedPc.books]
  | message m ms h hm =>
      refine hi.same ?_ rfl
      unfold bookings
      rw [h, hm, List.countP_cons]
      cases hsch : m.schedule with
      | false => simp [SchedPc.books, hsch]
      | true =>
          simp only [SchedPc.books, hsch, if_true, Bool.toNat_true]
          omega
  | addJob now m h hm _ hn =>
      refine hi.same ?_ rfl
      unfold bookings
      rw [h, hn]
      simp only [SchedPc.books, hm, Bool.toNat_true, Bool.toNat_false]
      omega
  | addJobBlocked _ _ h _ _ =>
      refine hi.same ?_ rfl
      unfold bookings
      simp [SchedPc.books]
  | tickStart now h _ _ _ =>
      refine hi.same ?_ rfl
      unfold bookings
      simp [SchedPc.books]
      omega
  | start now h _ =>
      refine hi.same ?_ rfl
      unfold bookings
      simp [SchedPc.books]
  | flushReport _ m ms h hm _ | flushDrop _ m ms h hm _ =>
      refine hi.same ?_ rfl
      unfold bookings
      rw [hm, List.countP_cons]
      simp only [SchedPc.books]
      omega
  | _ => first | cases hl; done | exact hi

theorem Step.booked_run (h : Step cfg s l s') (hl : l.party = .run)
    (hc : launchClear s l = true) (hi : Booked cfg s) : Booked cfg s' := by
  cases h with
  | launch i r hr hp =>
      obtain ⟨h₀, hnone⟩ := launchClear_launch hc hr hp
      constructor
      · exact hi.1
      · refine Pool.forall_set ?_ ?_
        · intro x hx c hc
          have := Run.unfinished_of_rest hc
          rw [hnone x hx] at this
          cases this
        · intro c hc
          obtain rfl := Option.some.inj hc
          show Spends (1 - bookings s) _
          rw [h₀]
          exact runJobWrapper_spends cfg.provider
  | prologue i r hr hp | topReady i r hr hp _ | topIdle i r hr hp _ | waitRecv i r _ hr hp _
  | wake i r hr hp | idleRecv i r _ hr hp _ | ret i r hr hp _ =>
      exact hi.set hr (Nat.le_refl _) rfl fun _ hc => hc
  | waitAct i r a hr hp =>
      refine hi.set hr (Nat.le_refl _) rfl fun _ hc => ?_
      rwa [Run.rest_congr (sync_waitRun r a)] at hc
  | idleAct i r a hr hp =>
      refine hi.set hr (Nat.le_refl _) rfl fun _ hc => ?_
      rwa [Run.rest_congr (sync_idleRun r a)] at hc
  | closeKill i r a hr hp =>
      refine hi.set hr (Nat.le_refl _) rfl fun _ hc => ?_
      rwa [Run.rest_kill] at hc
  | join i r a hr hp _ | done i r hr hp _ =>
      refine hi.set hr (Nat.le_refl _) rfl fun _ hc => ?_
      cases hc
  | _ => cases hl

theorem Step.booked_sync (h : Step cfg s l s') (hl : l.party = .sync) (hs : SoloSync s)
    (hi : Booked cfg s) : Booked cfg s' := by
  cases h with
  | acquire i r sy hr hsy hpc _ | bypass i r sy hr hsy hpc _ =>
      refine hi.set hr (Nat.le_refl _) rfl fun c hc => ?_
      simp only [Run.rest, hsy, hpc]
      exact hc
  | kill i r sy hr hsy hpc _ | finish i r sy hr hsy hpc =>
      refine hi.set hr (Nat.le_refl _) rfl fun c hc => ?_
      cases hc
  | op i r sy x e k a hr hsy hpc ha =>
      have hrest : r.rest cfg = some (.op e k) := by
        simp only [Run.rest, hsy, hpc]
      obtain ⟨hle, hk⟩ := (hi.2 r (List.mem_of_getElem? hr) _ hrest).step a
      have hb : bookings ((effect s e a).setRun i { r with
          sync := some { sy with pc := .body (k a) } }) =
          bookings s + (schedules ⟨e, a⟩).toNat := by
        unfold bookings effect State.setRun
        dsimp only
        rw [List.countP_append, countP_sends e a]
        omega
      have hle' := hi.1
      constructor
      · rw [hb]
        omega
      · rw [hb]
        intro r' hr' c hc
        rcases hs.others hr (Run.unfinished_of_rest hrest) r' hr' with rfl | hn
        · obtain rfl := Option.some.inj hc
          rwa [Nat.sub_add_eq]
        · exact absurd (Run.unfinished_of_rest hc) hn
  | _ => first | cases hl; done | exact hi

theorem Step.booked (h : Step cfg s l s') (hc : launchClear s l = true) (hf : Fresh s)
    (hs : SoloSync s) (hi : Booked cfg s) : Booked cfg s' := by
  cases hl : l.party with
  | schedule => exact h.booked_schedule hl hf hi
  | run => exact h.booked_run hl hc hi
  | sync => exact h.booked_sync hl hs hi
  | handler =>
      cases h with
      | remove c _ _ =>
          refine hi.same ?_ rfl
          unfold bookings
          simp only [Bool.toNat_false]
          omega
      | spawn a _ =>
          refine hi.mono (Nat.le_refl _) (Pool.forall_append (fun r hr c hc => ⟨r, hr, hc⟩) ?_)
          intro c hc
          cases hc
      | _ => first | cases hl; done | exact hi
  | halt =>
      cases h with
      | _ => first | cases hl; done | exact hi

theorem Step.unblocked (h : Step cfg s l s') (hb : Booked cfg s) (hi : Unblocked s) :
    Unblocked s' := by
  obtain ⟨hmu, hst⟩ := hi
  have twice : ∀ {pc : SchedPc}, s.sched = pc → pc.books = 1 →
      ¬ (s.schedule.mu = true ∨ s.schedule.sched = true) := by
    intro pc h hbook hcall
    have hle := hb.1
    unfold bookings at hle
    rw [h, hbook] at hle
    rcases hcall with hcall | hcall
    · rw [hmu] at hcall
      cases hcall
    · rw [hcall, Bool.toNat_true] at hle
      omega
  cases h with
  | addBlocked now t h hcall => exact (twice h rfl hcall).elim
  | addJobBlocked now m h hm hcall =>
      exact (twice h (by rw [SchedPc.books, hm, Bool.toNat_true]) hcall).elim
  | setup now st h =>
      refine ⟨hmu, fun b hp => ?_⟩
      dsimp only at hp
      unfold startPc at hp
      split at hp <;> cases hp
  | schedSpawn now t h => exact ⟨hmu, by cases t <;> exact nofun⟩
  | schedLock _ _ _ | fetched _ _ | add _ _ _ _ _ | unlock _ _ | getJob _ _ | upload _ _ _
  | message _ _ _ _ | checkReady _ _ _ _ | checkOther _ _ _ _ | check2Go _ _ _ _
  | check2Skip _ _ _ _ | update _ _ _ | addJob _ _ _ _ _ _ | addJobPlain _ _ _ _
  | tickStart _ _ _ _ _ | start _ _ _ | exited _ _ | exitLock _ _ _ | flushReport _ _ _ _ _ _
  | flushDrop _ _ _ _ _ _ | flushEnd _ _ _ | flushUpdate _ _ _ => exact ⟨hmu, nofun⟩
  | _ => exact ⟨hmu, hst⟩

theorem bookInv_init : BookInv cfg .init where
  wf := wf_init
  solo := Pool.solo_of_none fun _ h => by cases h
  booked := ⟨Nat.zero_le 1, fun _ h => by cases h⟩
  free := ⟨rfl, fun _ h => by cases h⟩

theorem Step.bookInv (h : Step cfg s l s') (hc : launchClear s l = true) (hi : BookInv cfg s) :
    BookInv cfg s' where
  wf := h.wf hi.wf
  solo := h.soloSync hc hi.solo
  booked := h.booked hc hi.wf.fresh hi.solo hi.booked
  free := h.unblocked hi.booked hi.free

/-- **The scheduler does not lock itself out.**  In every run in which each sync run is launched
when nothing is booked and no other sync run is unfinished, every call on the schedule slot
returns in every state reached. -/
theorem run_callsReturn {ls : List Label}
    (hc : Lts.Along (step cfg) (fun s l => launchClear s l = true) .init ls)
    (hr : Lts.run (step cfg) .init ls = some s) : CallsReturn s := by
  have hi : BookInv cfg s :=
    Lts.run_invariant (fun _ _ _ hi hc h => (step_cases h).bookInv hc hi) bookInv_init hc hr
  obtain ⟨hmu, hst⟩ := hi.free
  refine ⟨fun ha => ?_, fun now _ => ?_, fun c _ => ⟨_, Schedule.remove_free hmu⟩, hst⟩
  · have hn : s.schedule.sched = false := by
      have hbook := SchedPc.books_of_adds ha
      have hle := hi.booked.1
      unfold bookings at hle
      rw [hbook] at hle
      cases hs : s.schedule.sched with
      | false => rfl
      | true =>
          rw [hs, Bool.toNat_true] at hle
          omega
    exact ⟨hn, fun t => ⟨_, Schedule.addJob_free t hmu hn⟩⟩
  · rw [Schedule.pop_free now hmu]
    split_ifs
    · exact ⟨_, _, rfl⟩
    · exact ⟨_, _, rfl⟩

/-! ### A restart during the last attempt -/

/-- Start-up with a job that has never been synced, into the loop. -/
def bootNew : List Label :=
  [.sched 0, .fetched {}, .sched 0, .sched 0, .sched 0, .sched 0, .sched 0, .sched 0]

/-- A clock reading at which the entry of the start-up is due. -/
def due : ℤ := 86401000000000

/-- A tick pops the entry, and the invocation launches the sync run. -/
def popAndLaunch : List Label :=
  [.tick due, .sched due, .run 0, .run 0, .run 0, .run 0, .run 0, .run 0]

/-- The sync run takes a slot and gets its provider started. -/
def startProvider : List Label :=
  [.sync 0 .acquire, .sync 0 (.op .go), .sync 0 (.op .go), .sync 0 (.op .go),
    .sync 0 (.op (.start .started))]

/-- The provider succeeds and the sync run reports and returns. -/
def succeed : List Label :=
  [.sync 0 (.op (.done (.done none))), .sync 0 (.op (.size 7)), .sync 0 (.op .go),
    .sync 0 (.op .go), .sync 0 .finish]

/-- A restart command is answered and taken, the sync run is killed and reports the failure of
its last attempt with the schedule flag, and the invocation launches the next sync run. -/
def restart : List Label :=
  [.command (some ⟨.restart, false⟩), .handler, .handler, .handler, .handler, .run 0, .run 0,
    .run 0, .sync 0 (.op (.done (.kill none))), .sync 0 (.op .go), .sync 0 (.op .go),
    .sync 0 .finish, .run 0, .run 0, .run 0, .run 0, .release]

/-- The loop handles one message. -/
def handleMessage : List Label :=
  [.message, .sched due, .sched due, .sched due, .sched due, .sched due]

def handleThree : List Label := handleMessage ++ handleMessage ++ handleMessage

theorem run_callsReturn_on_success :
    ∃ s, Lts.run (step plainConfig) .init
        (bootNew ++ popAndLaunch ++ startProvider ++ succeed ++ handleThree) = some s ∧
      s.schedule.sched = true ∧ CallsReturn s := by
  have heval : (Lts.run (step plainConfig) .init
      (bootNew ++ popAndLaunch ++ startProvider ++ succeed ++ handleThree)).map
        (fun s => s.schedule.sched) = some true := by rfl
  obtain ⟨s, hs, hb⟩ := Option.map_eq_some_iff.mp heval
  exact ⟨s, hs, hb, run_callsReturn (Lts.along_of_check rfl) hs⟩

/-- With one attempt per run, the killed run and the run after the restart both send a message
with the schedule flag, and the second `AddJob` never returns. -/
theorem restart_locks_scheduler :
    ∃ s, Lts.run (step plainConfig) .init
        (bootNew ++ popAndLaunch ++ startProvider ++ restart ++ handleThree ++ startProvider ++
          succeed ++ handleMessage ++ handleMessage ++ [.message, .sched due, .sched due]) =
        some s ∧
      s.sched.adds = true ∧ s.schedule.addJob 0 = .blocked { s.schedule with mu := true } ∧
      ¬ CallsReturn s := by
  have heval : (Lts.run (step plainConfig) .init
      (bootNew ++ popAndLaunch ++ startProvider ++ restart ++ handleThree ++ startProvider ++
        succeed ++ handleMessage ++ handleMessage ++ [.message, .sched due, .sched due])).map
        (fun s => (s.sched.adds, s.schedule.mu, s.schedule.sched)) =
      some (true, false, true) := by rfl
  obtain ⟨s, hs, hb⟩ := Option.map_eq_some_iff.mp heval
  simp only [Prod.mk.injEq] at hb
  obtain ⟨hadds, hmu, hsched⟩ := hb
  refine ⟨s, hs, hadds, Schedule.addJob_blocked 0 hmu hsched, fun h => ?_⟩
  rw [(h.addJob hadds).1] at hsched
  cases hsched

end KubeSync.Worker
