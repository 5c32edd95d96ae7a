import KubeSync.ManagerDecisions
import KubeSync.WorkerRequests

/-! # What becomes of the worker's reports

The worker's reports against a manager whose cache lags.

* `Attempt.Stored` is the effect of one attempt on the store, `Takes` the condition for it on what
  the attempt meets: it reaches the manager, and there the API calls succeed on the current version
  of the job, or nothing had to change.
* `Kept` is what a call of the worker owes: a report is stored or sent again, and `registerWorker`
  gives up its remaining attempts only when the registration was stored.
* `run_kept_iff` says under which traffic every call keeps it. -/

namespace KubeSync.Worker

open Manager (Jobs Op Env Request serve accepted UpToDate)

/-! ### One attempt -/

/-- The manager stored what the attempt asked for. -/
def Attempt.Stored (id : String) (a : Attempt) : Prop :=
  ∃ env f job, a.net.env = some env ∧ a.op.effect = some f ∧ a.store.value id = some job ∧
    (a.net.store a.store id a.op).value id = some { job with status := f env job.status }

/-- The request reaches the manager while its copy of the job is up to date, or it asks for the
status that is stored already. -/
def Takes (s : Jobs) (id : String) (op : Op) (net : Net) : Prop :=
  ∃ env, net.env = some env ∧
    (UpToDate s env id ∨
      ∃ f job, op.effect = some f ∧ s.value id = some job ∧ f env job.status = job.status)

variable {s : Jobs} {id : String} {op : Op} {f : Env → JobStatus → JobStatus}

theorem store_of_env {net : Net} {env : Env} (h : net.env = some env) :
    net.store s id op = (serve s ⟨id, op, env⟩).store := by
  unfold Net.store
  rw [h]

/-- What a request with an effect does to the store, in the terms of the copy in the cache. -/
theorem serve_cases (s : Jobs) (id : String) (he : op.effect = some f) (env : Env) :
    (¬ UpToDate s env id ∧ (serve s ⟨id, op, env⟩).store = s) ∨
      ∃ job, UpToDate s env id ∧ s.value id = some job ∧
        (serve s ⟨id, op, env⟩).store = s.write id { job with status := f env job.status } := by
  have ho := Manager.serve_outcome s ⟨id, op, env⟩
  generalize (serve s ⟨id, op, env⟩).store = s' at ho ⊢
  cases ho with
  | reads h =>
      have h' : op.effect = none := h
      rw [he] at h'
      cases h'
  | refused h ha =>
      left
      refine ⟨fun hu => ?_, rfl⟩
      rw [Manager.accepted_iff.mpr hu] at ha
      cases ha
  | @status g job h ha hv =>
      have h' : op.effect = some g := h
      rw [he] at h'
      cases h'
      exact .inr ⟨job, Manager.accepted_iff.mp ha, hv, rfl⟩
  | unapplied h | spec h | new h | removed h | kept h =>
      have h' : op = _ := h
      rw [h'] at he
      cases he

theorem stored_iff_takes (he : op.effect = some f) (net : Net) :
    Attempt.Stored id ⟨s, op, net⟩ ↔ Takes s id op net := by
  constructor
  · rintro ⟨env, g, job, henv, hg, hv, hstored⟩
    have hg' : op.effect = some g := hg
    rw [he] at hg'
    cases hg'
    refine ⟨env, henv, ?_⟩
    rcases serve_cases s id he env with ⟨-, hs⟩ | ⟨_, hu, -⟩
    · right
      have hst : s.value id = some { job with status := f env job.status } := by
        rw [← hs, ← store_of_env henv]
        exact hstored
      have heq := Option.some.inj (hv.symm.trans hst)
      exact ⟨f, job, he, hv, (congrArg Job.status heq).symm⟩
    · exact .inl hu
  · rintro ⟨env, henv, h⟩
    rcases serve_cases s id he env with ⟨hn, hs⟩ | ⟨job, hu, hv, hs⟩
    · rcases h with hu | ⟨g, job, hg, hv, hsame⟩
      · exact absurd hu hn
      · refine ⟨env, g, job, henv, hg, hv, ?_⟩
        rw [store_of_env henv, hs, hsame]
        exact hv
    · refine ⟨env, f, job, henv, he, hv, ?_⟩
      rw [store_of_env henv, hs]
      exact Versioned.Store.value_write_self s id _

/-- An attempt that is not taken changes nothing. -/
theorem store_of_not_takes (he : op.effect = some f) {net : Net} (h : ¬ Takes s id op net) :
    net.store s id op = s := by
  cases henv : net.env with
  | none =>
      unfold Net.store
      rw [henv]
  | some env =>
      rw [store_of_env henv]
      rcases serve_cases s id he env with ⟨-, hs⟩ | ⟨job, hu, -⟩
      · exact hs
      · exact absurd ⟨env, henv, .inl hu⟩ h

/-! ### `registerWorker` -/

theorem registerLoop_answered {net : ℕ → Net} {retry k : ℕ} (h : (net k).isAnswered = true) :
    registerLoop id net (retry + 1) k s = [⟨s, .register, net k⟩] := by
  unfold registerLoop
  cases hn : net k with
  | answered env => rfl
  | lost | unanswered =>
      rw [hn] at h
      cases h

theorem registerLoop_failed {net : ℕ → Net} {retry k : ℕ} (h : (net k).isAnswered = false) :
    registerLoop id net (retry + 1) k s =
      ⟨s, .register, net k⟩ ::
        registerLoop id net retry (k + 1) ((net k).store s id .register) := by
  conv_lhs => unfold registerLoop
  cases hn : net k with
  | answered env =>
      rw [hn] at h
      cases h
  | lost | unanswered => rfl

/-- The loop ends with the first attempt that is answered. -/
theorem length_of_first (id : String) (s : Jobs) {net : ℕ → Net} {retry i k : ℕ} (hi : i < retry)
    (hans : (net (k + i)).isAnswered = true)
    (hbefore : ∀ j < i, (net (k + j)).isAnswered = false) :
    (registerLoop id net retry k s).length = i + 1 := by
  induction i generalizing retry k s with
  | zero =>
      obtain ⟨r, rfl⟩ : ∃ r, retry = r + 1 := ⟨retry - 1, by omega⟩
      have hk : (net k).isAnswered = true := hans
      rw [registerLoop_answered hk]
      rfl
  | succ i ih =>
      obtain ⟨r, rfl⟩ : ∃ r, retry = r + 1 := ⟨retry - 1, by omega⟩
      have hk : (net k).isAnswered = false := hbefore 0 (by omega)
      rw [registerLoop_failed hk, List.length_cons]
      have hans' : (net (k + 1 + i)).isAnswered = true := by
        rw [show k + 1 + i = k + (i + 1) by omega]
        exact hans
      rw [ih _ (by omega) hans' fun j hj => ?_]
      rw [show k + 1 + j = k + (j + 1) by omega]
      exact hbefore (j + 1) (by omega)

/-- A loop that makes fewer attempts than it may has one that was answered. -/
theorem exists_first {net : ℕ → Net} {retry k : ℕ}
    (h : (registerLoop id net retry k s).length < retry) :
    ∃ i < retry, (net (k + i)).isAnswered = true ∧
      ∀ j < i, (net (k + j)).isAnswered = false := by
  induction retry generalizing k s with
  | zero => omega
  | succ retry ih =>
      cases hans : (net k).isAnswered with
      | true => exact ⟨0, by omega, hans, by omega⟩
      | false =>
          rw [registerLoop_failed hans, List.length_cons] at h
          obtain ⟨i, hi, hi', hbefore⟩ := ih (Nat.lt_of_succ_lt_succ h)
          refine ⟨i + 1, by omega, ?_, fun j hj => ?_⟩
          · rw [show k + (i + 1) = k + 1 + i by omega]
            exact hi'
          · cases j with
            | zero => exact hans
            | succ j =>
                rw [show k + (j + 1) = k + 1 + j by omega]
                exact hbefore j (by omega)

/-- Until one of them is taken, the attempts of the loop all find the store as it was, so that it
is stored by one of them exactly when that store takes one of them. -/
theorem exists_stored_iff (id : String) (s : Jobs) (net : ℕ → Net) (retry k : ℕ) :
    (∃ a ∈ registerLoop id net retry k s, a.Stored id) ↔
      ∃ j < (registerLoop id net retry k s).length, Takes s id .register (net (k + j)) := by
  induction retry generalizing k s with
  | zero => simp [registerLoop]
  | succ retry ih =>
      by_cases ht : Takes s id .register (net k)
      · refine iff_of_true ⟨⟨s, .register, net k⟩, ?_, (stored_iff_takes rfl _).mpr ht⟩
          ⟨0, ?_, ht⟩
        · unfold registerLoop
          exact List.mem_cons_self
        · unfold registerLoop
          exact Nat.succ_pos _
      · have hhead : ¬ Attempt.Stored id ⟨s, .register, net k⟩ :=
          fun h => ht ((stored_iff_takes rfl _).mp h)
        cases hans : (net k).isAnswered with
        | true =>
            rw [registerLoop_answered hans]
            refine iff_of_false ?_ ?_
            · rintro ⟨a, ha, hs⟩
              obtain rfl := List.mem_singleton.mp ha
              exact hhead hs
            · rintro ⟨j, hj, h⟩
              obtain rfl : j = 0 := by simpa using hj
              exact ht h
        | false =>
            rw [registerLoop_failed hans, store_of_not_takes rfl ht]
            rw [List.exists_mem_cons_iff, List.length_cons]
            constructor
            · rintro (h | h)
              · exact absurd h hhead
              · obtain ⟨j, hj, h⟩ := (ih s (k + 1)).mp h
                refine ⟨j + 1, by omega, ?_⟩
                rw [show k + (j + 1) = k + 1 + j by omega]
                exact h
            · rintro ⟨j, hj, h⟩
              cases j with
              | zero => exact absurd h ht
              | succ j =>
                  right
                  refine (ih s (k + 1)).mpr ⟨j, by omega, ?_⟩
                  rw [show k + 1 + j = k + (j + 1) by omega]
                  exact h

/-! ### The traffic of a worker -/

/-- A call of one of the worker's three reporting functions. -/
inductive Sending where
  | register (net : ℕ → Net)
  | status (upstream : String) (size : ℕ) (jobMsg : JobMessage) (net : Net)
  | schedule (nextScheduled : ℤ) (net : Net)

/-- The attempts that a call makes. -/
def Sending.attempts (id : String) (s : Jobs) : Sending → List Attempt
  | .register net => registerWorker id net s
  | .status upstream size jobMsg net => updateStatus upstream size jobMsg net s
  | .schedule nextScheduled net => updateSchedInfo nextScheduled net s

/-- What the manager serves: the calls of the worker of `id`, and the requests of others. -/
inductive Traffic where
  | worker (call : Sending)
  | other (q : Request)

def trafficStep (id : String) (s : Jobs) : Traffic → Option Jobs
  | .worker call =>
      some (((call.attempts id s).getLast?.map fun a => a.net.store a.store id a.op).getD s)
  | .other q => some (serve s q).store

/-- A report that is issued is stored or issued again; a registration that is stopped before its
tenth attempt is stored. -/
def Kept (id : String) (s : Jobs) : Traffic → Prop
  | .worker (.register net) =>
      (registerWorker id net s).length < 10 → ∃ a ∈ registerWorker id net s, a.Stored id
  | .worker call =>
      ∀ pre a post, call.attempts id s = pre ++ a :: post →
        a.Stored id ∨ ∃ b ∈ post, b.op = a.op
  | .other _ => True

/-- The report is taken at once; the registration is taken by the first attempt that is answered
or by one before it. -/
def Arrives (id : String) (s : Jobs) : Traffic → Prop
  | .worker (.register net) =>
      ∀ i < 9, (net i).isAnswered = true → (∀ j < i, (net j).isAnswered = false) →
        ∃ j ≤ i, Takes s id .register (net j)
  | .worker (.status upstream size jobMsg net) =>
      Takes s id (.report ⟨statusReport upstream size jobMsg, true⟩) net
  | .worker (.schedule nextScheduled net) => Takes s id (.schedule ⟨nextScheduled, true⟩) net
  | .other _ => True

/-- A call that makes one attempt does not repeat it. -/
theorem kept_single {a : Attempt} :
    (∀ pre b post, [a] = pre ++ b :: post → b.Stored id ∨ ∃ c ∈ post, c.op = b.op) ↔
      a.Stored id := by
  constructor
  · intro h
    rcases h [] a [] rfl with hs | ⟨c, hc, -⟩
    · exact hs
    · cases hc
  · intro hs pre b post he
    cases pre with
    | nil =>
        cases he
        exact .inl hs
    | cons c pre => simp at he

theorem kept_register_iff (net : ℕ → Net) :
    Kept id s (.worker (.register net)) ↔ Arrives id s (.worker (.register net)) := by
  have hiff := exists_stored_iff id s net 10 0
  simp only [Nat.zero_add] at hiff
  constructor
  · intro h i hi hans hbefore
    have hlen : (registerLoop id net 10 0 s).length = i + 1 :=
      length_of_first id s (by omega) (by simpa using hans) (by simpa using hbefore)
    obtain ⟨j, hj, ht⟩ := hiff.mp (h (by unfold registerWorker; omega))
    exact ⟨j, by omega, ht⟩
  · intro h hlen
    obtain ⟨i, hi, hans, hbefore⟩ := exists_first hlen
    have hlen' := length_of_first id s hi hans hbefore
    simp only [Nat.zero_add] at hans hbefore
    unfold registerWorker at hlen ⊢
    obtain ⟨j, hj, ht⟩ := h i (by omega) hans hbefore
    exact hiff.mpr ⟨j, by omega, ht⟩

/-- **When reports survive.**  In every traffic, the worker's reports are stored or sent again and
its registrations are stored before it stops trying, exactly when each of them meets a manager
that takes it. -/
theorem run_kept_iff (id : String) (s : Jobs) (ts : List Traffic) :
    Lts.Along (trafficStep id) (Kept id) s ts ↔ Lts.Along (trafficStep id) (Arrives id) s ts := by
  have hiff : ∀ s t, Kept id s t ↔ Arrives id s t := by
    intro s t
    cases t with
    | other q => exact Iff.rfl
    | worker call =>
        cases call with
        | register net => exact kept_register_iff net
        | status upstream size jobMsg net => exact kept_single.trans (stored_iff_takes rfl net)
        | schedule nextScheduled net => exact kept_single.trans (stored_iff_takes rfl net)
  exact ⟨.mono fun s t => (hiff s t).mp, .mono fun s t => (hiff s t).mpr⟩

/-- The two requests of one turn of the loop, the second one before the cache has seen the write of
the first. -/
def hastyTurn : List Traffic :=
  [.worker (.status "" 0 ⟨.syncing, "", false⟩ (.answered { now := 11 })),
    .worker (.schedule 90 (.answered { now := 11, lag := 1 }))]

/-- The schedule report of that turn is refused with 500, and so is a registration before the cache
has the Job; the worker takes both answers for success. -/
theorem stale_cache_loses_reports :
    ¬ Lts.Along (trafficStep "debian") (Kept "debian") Manager.debian hastyTurn ∧
      handleRequest
          ((Net.answered { now := 11 }).store Manager.debian "debian"
            (.report ⟨statusReport "" 0 ⟨.syncing, "", false⟩, true⟩))
          "debian" (.schedule ⟨90, true⟩) (.answered { now := 11, lag := 1 }) = .ok 500 ∧
      handleRequest Manager.debian "debian" .register (.answered { now := 12, lag := 1 }) =
        .ok 500 ∧
      (registerWorker "debian" (fun _ => .answered { now := 12, lag := 1 })
        Manager.debian).length = 1 ∧
      ¬ Kept "debian" Manager.debian
        (.worker (.register fun _ => .answered { now := 12, lag := 1 })) := by
  refine ⟨?_, rfl, rfl, rfl, ?_⟩
  · rintro ⟨-, h⟩
    have hs := kept_single.mp (h _ rfl).1
    obtain ⟨env, henv, hu | ⟨f, job, hf, hv, hsame⟩⟩ := (stored_iff_takes rfl _).mp hs
    · cases henv
      exact absurd hu.2.2.2 (by decide)
    · cases henv
      cases hf
      cases hv
      exact absurd hsame (by decide)
  · intro h
    have hk := (kept_register_iff _).mp h 0 (by decide) rfl (by decide)
    obtain ⟨j, -, env, henv, hu | ⟨f, job, hf, hv, hsame⟩⟩ := hk
    · cases henv
      exact absurd hu.2.2.2 (by decide)
    · cases henv
      cases hf
      cases hv
      exact absurd hsame (by decide)

end KubeSync.Worker
