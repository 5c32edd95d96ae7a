import KubeSync.Types

/-! # The schedule slot of the worker (`worker/schedule.go`)

The worker has one slot for the next run of its only job.  Every method but `GetJob` locks the
embedded `sync.Mutex`, which is not reentrant: a `Lock` on a held mutex never returns to the
caller while the caller itself is the holder.

* `Call` is the outcome of a method call: it returns (`done`) or blocks forever with the slot in
  the state it left behind (`blocked`);
* `addJob`, `pop` and `remove` follow the source, with the lock taken and released explicitly;
* `addJob` on a slot with a pending entry calls `remove` while it holds the mutex, so it blocks
  and leaves the mutex locked (`addJob_blocked`); in every other state with a free mutex all
  three calls return. -/

namespace KubeSync.Worker

/-- `schedule`: the mutex, the entry and its time.  The `job` field is always the worker's only
job and is left out. -/
structure Schedule where
  mu : Bool := false
  sched : Bool := false
  nextScheduled : ℤ := 0
deriving DecidableEq, Repr

/-- Outcome of a call on the slot. -/
inductive Call (α : Type) where
  | done (q : Schedule) (a : α)
  | blocked (q : Schedule)
deriving DecidableEq, Repr

namespace Schedule

/-- `sync.Mutex.Lock`. -/
def lock (q : Schedule) : Call Unit :=
  if q.mu then .blocked q else .done { q with mu := true } ()

/-- `sync.Mutex.Unlock`. -/
def unlock (q : Schedule) : Schedule := { q with mu := false }

/-- `newSchedule`. -/
def new : Schedule := {}

/-- `GetJob`, the only method without the lock. -/
def getJob (q : Schedule) : ℤ := if q.sched then q.nextScheduled else 0

/-- `Remove`. -/
def remove (q : Schedule) : Call Unit :=
  match q.lock with
  | .blocked q => .blocked q
  | .done q _ => .done { q with sched := false }.unlock ()

/-- `AddJob`. -/
def addJob (q : Schedule) (schedTime : ℤ) : Call Unit :=
  match q.lock with
  | .blocked q => .blocked q
  | .done q _ =>
      match (if q.sched then q.remove else .done q ()) with
      | .blocked q => .blocked q
      | .done q _ => .done { q with sched := true, nextScheduled := schedTime }.unlock ()

/-- `Pop` at the clock reading `now`, in nanoseconds.  It returns whether an entry was due. -/
def pop (q : Schedule) (now : ℤ) : Call Bool :=
  match q.lock with
  | .blocked q => .blocked q
  | .done q _ =>
      if !q.sched then .done q.unlock false
      else if q.nextScheduled * 1000000000 < now then .done { q with sched := false }.unlock true
      else .done q.unlock false

theorem remove_free {q : Schedule} (h : q.mu = false) :
    q.remove = .done { q with sched := false } () := by
  simp [remove, lock, unlock, h]

theorem addJob_free {q : Schedule} (t : ℤ) (h : q.mu = false) (hs : q.sched = false) :
    q.addJob t = .done { q with sched := true, nextScheduled := t } () := by
  simp [addJob, lock, unlock, h, hs]

/-- `AddJob` over a pending entry waits for the mutex that it holds itself. -/
theorem addJob_blocked {q : Schedule} (t : ℤ) (h : q.mu = false) (hs : q.sched = true) :
    q.addJob t = .blocked { q with mu := true } := by
  simp [addJob, remove, lock, h, hs]

theorem pop_free {q : Schedule} (now : ℤ) (h : q.mu = false) :
    q.pop now = if q.sched && q.nextScheduled * 1000000000 < now then
      .done { q with sched := false } true else .done q false := by
  obtain ⟨mu, sched, t⟩ := q
  obtain rfl : mu = false := h
  cases sched <;> simp [pop, lock, unlock]

/-- On a locked mutex no method returns. -/
theorem locked_blocks {q : Schedule} (h : q.mu = true) (t : ℤ) :
    q.remove = .blocked q ∧ q.addJob t = .blocked q ∧ q.pop t = .blocked q := by
  simp [remove, addJob, pop, lock, h]

end Schedule

end KubeSync.Worker
