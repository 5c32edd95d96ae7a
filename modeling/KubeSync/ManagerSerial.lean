import KubeSync.Manager

/-! # Concurrent requests to the manager

`gin` serves every request in a goroutine of its own.  A handler of the group `/job/:id` is the
sequence of its calls to the API server and to the worker (`code`), and other handlers may run
between two of them, as far as `m.rwmu` admits it.

* `call` is the lock around the sequence: `Lock` where the handler writes, `RLock` where it reads,
  and none for a command that is not a stop, which only posts.  A stop holds the lock while it waits
  for the worker.
* `requests_serial`: for every interleaving the answers and the store are those of the requests
  served one at a time, in the order in which they got the lock.
* `requests_answered`: no interleaving blocks, and no request takes more than five moves. -/

namespace KubeSync.Manager

open CriticalSections (Call Mode)

def Reply.returned (r : Reply) : Returned := ⟨r.written, r.posted⟩

/-- The lock that a request takes. -/
def mode (q : Request) : Mode :=
  match q.op with
  | .cmd cmd => if cmd.value.cmd = .stop then .write else .free
  | .get | .getConfig => .read
  | _ => .write

theorem code_reads (q : Request) (h : mode q = .read) : (code q).Reads := by
  obtain ⟨id, op, env⟩ := q
  cases op with
  | get =>
      refine fun s => ⟨rfl, ?_⟩
      dsimp only
      split <;> trivial
  | getConfig =>
      refine fun s => ⟨rfl, ?_⟩
      dsimp only
      split <;> trivial
  | cmd cmd =>
      simp only [mode] at h
      split at h <;> cases h
  | _ => cases h

theorem code_yields (q : Request) (h : mode q = .free) : ∃ a, (code q).Yields a := by
  obtain ⟨id, op, env⟩ := q
  cases op with
  | cmd cmd =>
      simp only [mode] at h
      split at h
      · cases h
      · rename_i hstop
        have hcode : Code.handleClientCmd env id cmd = Code.postCommand env id cmd := by
          unfold Code.handleClientCmd
          cases hverb : cmd.value.cmd with
          | stop => exact absurd hverb hstop
          | _ => rfl
        simp only [code, hcode]
        exact ⟨_, fun s => ⟨rfl, rfl⟩⟩
  | _ => cases h

def call (q : Request) : Call Jobs Returned where
  mode := mode q
  code := code q
  reads := code_reads q
  yields := code_yields q

/-! ### One at a time -/

section

variable {ι : Type} [DecidableEq ι] {requests : ι → Request} {s₀ : Jobs}

omit [DecidableEq ι] in
theorem run_after (requests : ι → Request) (s₀ : Jobs) (order : List ι) :
    Lts.run step s₀ (order.map requests) =
      some (CriticalSections.after (fun i => call (requests i)) s₀ order) := by
  induction order generalizing s₀ with
  | nil => rfl
  | cons i order ih =>
      have hrun : Lts.run step s₀ ((i :: order).map requests) =
          Lts.run step (serve s₀ (requests i)).store (order.map requests) := rfl
      rw [hrun, ih]
      rfl

/-- **The manager is serial.**  For every interleaving of the API calls of any number of requests
that the lock admits, every answer is the one that the request gets when the requests are served
one at a time in the order in which they were admitted, each once; and so is the store, whenever no
handler that writes is at work. -/
theorem requests_serial {moves : List (CriticalSections.Move ι)}
    {s : CriticalSections.State ι Jobs Returned}
    (hr : Lts.run (CriticalSections.step fun i => call (requests i)) (CriticalSections.start s₀)
      moves = some s) :
    let order := CriticalSections.entered moves
    order.Nodup ∧ (∀ i, i ∈ order ↔ s.threads i ≠ .waiting) ∧
      (∀ i a, s.threads i = .answered a → ∃ pre post s₁, order = pre ++ i :: post ∧
        Lts.run step s₀ (pre.map requests) = some s₁ ∧ a = (serve s₁ (requests i)).returned) ∧
      (s.writer = none → Lts.run step s₀ (order.map requests) = some s.store) := by
  obtain ⟨hnodup, hmem⟩ := CriticalSections.admitted_run hr
  obtain ⟨hanswered, hquiet⟩ := CriticalSections.serial_of_run hr
  refine ⟨hnodup, hmem, fun i a hi => ?_, fun hwriter => ?_⟩
  · obtain ⟨pre, post, horder, ha⟩ := hanswered i a hi
    refine ⟨pre, post, _, horder, run_after requests s₀ pre, ?_⟩
    rw [← ha]
    rfl
  · rw [run_after, hquiet hwriter]

/-- A report and a stop at the same time: the stop is admitted when the report is stored. -/
def reportAndStop (stop : Bool) : Request :=
  if stop then { id := "m", op := .cmd ⟨{ cmd := .stop }, true⟩ }
  else { id := "m", op := .report ⟨{ status := .syncing }, true⟩ }

def reportThenStop : List (CriticalSections.Move Bool) :=
  [.enter false, .exec false, .exec false, .leave false, .enter true, .exec true, .exec true,
    .exec true, .leave true]

def storedJob : Jobs :=
  Versioned.Store.empty.write "m" { name := "m", ns := "", uid := "", spec := {} }

theorem reportAndStop_serial : ∃ s,
    Lts.run (CriticalSections.step fun i => call (reportAndStop i))
      (CriticalSections.start storedJob) reportThenStop = some s ∧
      Lts.run step storedJob [reportAndStop false, reportAndStop true] = some s.store := by
  obtain ⟨s, hr, hwriter⟩ : ∃ s,
      Lts.run (CriticalSections.step fun i => call (reportAndStop i))
        (CriticalSections.start storedJob) reportThenStop = some s ∧ s.writer = none :=
    ⟨_, rfl, rfl⟩
  exact ⟨s, hr, (requests_serial hr).2.2.2 hwriter⟩

end

/-! ### No deadlock -/

namespace Code

theorem within_get {env : Env} {id : String} {k : Except String (ℕ × Job) → Code} {n : ℕ}
    (h : ∀ c, (k c).Within n) : (get env id k).Within (n + 1) := fun s => h (Manager.get s env id)

theorem within_write {w : Jobs → Except String Jobs} {failed : String → Returned} {k : Code}
    {n : ℕ} (h : k.Within n) : (write w failed k).Within (n + 1) := by
  intro s
  dsimp only
  split
  · exact h
  · cases n <;> trivial

theorem within_store {env : Env} {id : String} {n : ℕ} {st : JobStatus} {err : String → String}
    {before : List Response} {ok : Response} : (store env id n st err before ok).Within 2 :=
  within_write (n := 1) trivial

theorem within_applySpec {env : Env} {id : String} {spec : JobSpec} {before : List Response} :
    (applySpec env id spec before).Within 2 := within_write (n := 1) trivial

theorem within_postCommand {env : Env} {id : String} {cmd : Decoded ClientCmd} :
    (postCommand env id cmd).Within 1 := fun _ => trivial

end Code

/-- A handler makes at most three calls. -/
theorem code_within (q : Request) : (code q).Within 3 := by
  obtain ⟨id, op, env⟩ := q
  cases op with
  | register | schedule next | report status | size size | enable | disable =>
      simp only [code, Code.registerMirror, Code.updateSchedule, Code.updateJob,
        Code.updateMirrorSize, Code.enableJob, Code.disableJob, Code.setStatus]
      refine Code.within_get fun c => ?_
      cases c with
      | error e => trivial
      | ok c => exact Code.within_store
  | cmd cmd =>
      simp only [code, Code.handleClientCmd]
      cases cmd.value.cmd with
      | stop =>
          refine Code.within_get fun c => ?_
          cases c with
          | error e => trivial
          | ok c => exact Code.within_write Code.within_postCommand
      | start | restart | ping | update => exact fun _ => trivial
  | create body =>
      simp only [code, Code.createJob]
      refine Code.within_get fun c => ?_
      cases c with
      | error e => exact Code.within_applySpec
      | ok c =>
          dsimp only
          cases body.merge.value c.2.spec with
          | some spec => exact Code.within_applySpec
          | none => trivial
  | delete =>
      simp only [code, Code.deleteJob]
      refine Code.within_get fun c => ?_
      cases c with
      | error e => trivial
      | ok c => exact Code.within_write (n := 1) trivial
  | get | getConfig =>
      simp only [code, Code.getJob, Code.getJobConfig]
      refine Code.within_get fun c => ?_
      cases c with
      | error e => trivial
      | ok c => trivial

/-- **The manager answers.**  In every interleaving of any number of requests, as long as one of
them has no answer some handler can go on, and a request makes at most five moves: it gets the lock,
makes three calls and returns.  So the handlers never block each other for good. -/
theorem requests_answered {ι : Type} [DecidableEq ι] {requests : ι → Request} {s₀ : Jobs}
    {moves : List (CriticalSections.Move ι)} {s : CriticalSections.State ι Jobs Returned}
    (hr : Lts.run (CriticalSections.step fun i => call (requests i)) (CriticalSections.start s₀)
      moves = some s) :
    (∀ i, moves.countP (fun m => m.thread = i) ≤ 5) ∧
      ((∃ i, ∀ a, s.threads i ≠ .answered a) → ∃ m s',
        CriticalSections.step (fun i => call (requests i)) s m = some s') := by
  refine ⟨fun i => CriticalSections.moves_le (code_within (requests i)) hr, ?_⟩
  rintro ⟨i, hi⟩
  exact CriticalSections.exists_step (CriticalSections.sound_run CriticalSections.sound_start hr)
    (CriticalSections.readersInside_run hr) hi

/-- The report has the lock, and the stop waits. -/
theorem reportAndStop_answered : ∃ s m s',
    Lts.run (CriticalSections.step fun i => call (reportAndStop i))
      (CriticalSections.start storedJob) [.enter false] = some s ∧
      CriticalSections.step (fun i => call (reportAndStop i)) s (.enter true) = none ∧
      CriticalSections.step (fun i => call (reportAndStop i)) s m = some s' := by
  obtain ⟨s, hr, hwait, hstop⟩ : ∃ s,
      Lts.run (CriticalSections.step fun i => call (reportAndStop i))
        (CriticalSections.start storedJob) [.enter false] = some s ∧ s.threads true = .waiting ∧
        CriticalSections.step (fun i => call (reportAndStop i)) s (.enter true) = none :=
    ⟨_, rfl, rfl, rfl⟩
  obtain ⟨m, s', hm⟩ := (requests_answered hr).2 ⟨true, fun a ha => by rw [hwait] at ha; cases ha⟩
  exact ⟨s, m, s', hr, hstop, hm⟩

end KubeSync.Manager
