import Mathlib.Data.List.Induction
import KubeSync.Latest
import KubeSync.ManagerDecisions

/-! # The timestamps of a job as its history

Seven requests rewrite the status of a job, and a status report replaces the whole record by one
that the client sends.  This module says what the timestamps in the stored record mean.

* `Recorded s id rs st` relates the stored status to the requests `rs` served since the store `s`:
  each timestamp is the clock of the last request of its kind, in the words of `History.Latest`,
  and the timestamps are ordered.
* `Recorded.serve` is the step, `run_recorded` the run: whatever the reports claim, the record
  stays that history. -/

namespace KubeSync.Manager

open History (Latest)

/-- The store after the manager has served `rs`. -/
def after (s : Jobs) (rs : List Request) : Jobs := rs.foldl (fun s q => (serve s q).store) s

theorem after_concat (s : Jobs) (rs : List Request) (q : Request) :
    after s (rs ++ [q]) = (serve (after s rs) q).store := by
  unfold after
  rw [List.foldl_append]
  rfl

theorem run_eq_after (s : Jobs) (rs : List Request) : Lts.run step s rs = some (after s rs) := by
  induction rs generalizing s with
  | nil => rfl
  | cons q rs ih => exact ih (serve s q).store

/-- The request is a report of the status `st`. -/
def Op.reports (st : SyncStatus) : Op → Bool
  | .report b => b.value.status = st
  | _ => false

def Op.registers : Op → Bool
  | .register => true
  | _ => false

/-- The readings of the clock that the handler takes, in their order. -/
def Request.readings (q : Request) : List ℤ :=
  match q.op with
  | .register => [q.env.now, q.env.now']
  | .schedule _ | .report _ | .enable | .disable => [q.env.now]
  | .cmd c =>
      match c.value.cmd with
      | .stop => [q.env.now]
      | _ => []
  | _ => []

/-! ### What a request does to the record -/

/-- The timestamps of `st'`, which a request stores over `st`, and its size. -/
structure Stamped (op : Op) (env : Env) (st st' : JobStatus) : Prop where
  lastUpdate :
    st'.lastUpdate = if op.reports .success = true then env.now else st.lastUpdate
  lastEnded :
    st'.lastEnded =
      if op.reports .success = true ∨ op.reports .failed = true then env.now else st.lastEnded
  lastStarted :
    st'.lastStarted =
      if op.reports .preSyncing = true ∧ st.status ≠ .preSyncing then env.now else st.lastStarted
  lastRegister : st'.lastRegister = if op.registers = true then env.now' else st.lastRegister
  lastOnline :
    (st'.lastOnline = env.now ∧ ∀ n, op ≠ .size n) ∨
      (st'.lastOnline = st.lastOnline ∧ ∃ n, op = .size n)
  size : 0 < st.size → st'.size = 0 → ∃ n, op = .size n

theorem effect_stamped {op : Op} {f : Env → JobStatus → JobStatus} (he : op.effect = some f)
    (env : Env) (st : JobStatus) : Stamped op env st (f env st) := by
  cases op with
  | report b =>
      cases he
      refine ⟨by simp [reported, Op.reports], by simp [reported, Op.reports],
        by simp [reported, Op.reports], rfl, .inl ⟨rfl, by simp⟩, fun hs h0 => ?_⟩
      have hsize : (if st.size > 0 ∧ b.value.size = 0 then st.size else b.value.size) = 0 := h0
      split at hsize <;> omega
  | size n =>
      cases he
      exact ⟨rfl, by simp [Op.reports], by simp [Op.reports], rfl, .inr ⟨rfl, n, rfl⟩,
        fun _ _ => ⟨n, rfl⟩⟩
  | cmd c =>
      unfold Op.effect at he
      cases hc : c.value.cmd <;> simp only [hc] at he <;> cases he
      refine ⟨rfl, by simp [Op.reports], by simp [Op.reports], rfl, .inl ⟨rfl, by simp⟩, ?_⟩
      intro hs h0
      have h : st.size = 0 := h0
      omega
  | register | schedule | enable | disable =>
      cases he
      refine ⟨rfl, by simp [Op.reports], by simp [Op.reports], rfl, .inl ⟨rfl, by simp⟩, ?_⟩
      intro hs h0
      have h : st.size = 0 := h0
      omega
  | create | delete | get | getConfig => cases he

/-- An accepted request stores its effect. -/
theorem value_serve_of_accepted {s : Jobs} {q : Request} {f : Env → JobStatus → JobStatus}
    {job : Job} (he : q.op.effect = some f) (ha : accepted s q.env q.id = true)
    (hv : s.value q.id = some job) :
    (serve s q).store.value q.id = some { job with status := f q.env job.status } := by
  have ho := serve_outcome s q
  generalize (serve s q).store = s' at ho ⊢
  cases ho with
  | reads h =>
      rw [he] at h
      cases h
  | refused h hr =>
      rw [ha] at hr
      cases hr
  | status h _ hv' =>
      rw [he] at h
      cases h
      rw [hv] at hv'
      cases hv'
      exact Versioned.Store.value_write_self s _ _
  | unapplied h | spec h | new h | removed h | kept h =>
      rw [h] at he
      cases he

/-! ### The record is the history -/

/-- The stored status of `id`, as it follows from the requests served since `s`. -/
structure Recorded (s : Jobs) (id : String) (rs : List Request) (st : JobStatus) : Prop where
  lastUpdate :
    Latest (fun _ q => q.op.reports .success = true) (fun q => q.env.now) 0 rs st.lastUpdate
  lastEnded :
    Latest (fun _ q => q.op.reports .success = true ∨ q.op.reports .failed = true)
      (fun q => q.env.now) 0 rs st.lastEnded
  lastStarted :
    Latest
      (fun before q =>
        q.op.reports .preSyncing = true ∧ ¬ StatusIs id .preSyncing (after s before))
      (fun q => q.env.now) 0 rs st.lastStarted
  lastRegister :
    Latest (fun _ q => q.op.registers = true) (fun q => q.env.now') 0 rs st.lastRegister
  update_le_ended : st.lastUpdate ≤ st.lastEnded
  ended_le_online : st.lastEnded ≤ st.lastOnline
  started_le_online : st.lastStarted ≤ st.lastOnline

/-- The last contact is one of the clock readings, so that every later reading is above it. -/
def OnlineRead (rs : List Request) (st : JobStatus) : Prop :=
  st.lastOnline ∈ 0 :: rs.flatMap Request.readings

theorem recorded_zero (s : Jobs) (id : String) : Recorded s id [] {} :=
  ⟨.nil _ _ _, .nil _ _ _, .nil _ _ _, .nil _ _ _, Int.le_refl _, Int.le_refl _, Int.le_refl _⟩

theorem mem_readings {q : Request} {f : Env → JobStatus → JobStatus} (he : q.op.effect = some f)
    (hs : ∀ n, q.op ≠ .size n) : q.env.now ∈ q.readings := by
  unfold Request.readings
  cases hq : q.op with
  | size n => exact absurd hq (hs n)
  | cmd c =>
      rw [hq] at he
      unfold Op.effect at he
      cases hc : c.value.cmd <;> simp only [hc] at he <;> cases he
      simp [hc]
  | register | schedule | report | enable | disable => simp
  | create | delete | get | getConfig =>
      rw [hq] at he
      cases he

theorem Recorded.serve {s : Jobs} {id : String} {rs : List Request} {q : Request} {job : Job}
    {f : Env → JobStatus → JobStatus} (hr : Recorded s id rs job.status)
    (ho : OnlineRead rs job.status) (hv : (after s rs).value id = some job)
    (he : q.op.effect = some f)
    (hclock : (0 :: (rs ++ [q]).flatMap Request.readings).Pairwise (· ≤ ·)) :
    Recorded s id (rs ++ [q]) (f q.env job.status) ∧
      OnlineRead (rs ++ [q]) (f q.env job.status) := by
  have hst := effect_stamped he q.env job.status
  have hreadings : (rs ++ [q]).flatMap Request.readings =
      rs.flatMap Request.readings ++ q.readings := by simp
  rw [hreadings, ← List.cons_append, List.pairwise_append] at hclock
  have hpre : StatusIs id .preSyncing (after s rs) ↔ job.status.status = .preSyncing := by
    unfold StatusIs
    simp [hv]
  have horder : (f q.env job.status).lastUpdate ≤ (f q.env job.status).lastEnded ∧
      (f q.env job.status).lastEnded ≤ (f q.env job.status).lastOnline ∧
      (f q.env job.status).lastStarted ≤ (f q.env job.status).lastOnline ∧
      OnlineRead (rs ++ [q]) (f q.env job.status) := by
    have h₁ := hr.update_le_ended
    have h₂ := hr.ended_le_online
    have h₃ := hr.started_le_online
    unfold OnlineRead
    rw [hst.lastUpdate, hst.lastEnded, hst.lastStarted, hreadings]
    rcases hst.lastOnline with ⟨hon, hsize⟩ | ⟨hon, n, hn⟩
    · have hmem := mem_readings he hsize
      have hnow := hclock.2.2 _ ho _ hmem
      rw [hon]
      refine ⟨?_, ?_, ?_, ?_⟩
      · by_cases hs : q.op.reports .success = true <;>
          by_cases hf : q.op.reports .failed = true <;> simp [hs, hf] <;> omega
      · split_ifs <;> omega
      · split_ifs <;> omega
      · exact List.mem_cons_of_mem _ (List.mem_append_right _ hmem)
    · rw [hon, hn]
      simp only [Op.reports, Bool.false_eq_true, false_or, false_and, if_false]
      exact ⟨h₁, h₂, h₃, List.mem_append_left _ ho⟩
  refine ⟨⟨?_, ?_, ?_, ?_, horder.1, horder.2.1, horder.2.2.1⟩, horder.2.2.2⟩
  · rw [hst.lastUpdate]
    exact hr.lastUpdate.concat
  · rw [hst.lastEnded]
    exact hr.lastEnded.concat
  · rw [hst.lastStarted]
    by_cases hp : q.op.reports .preSyncing = true ∧ job.status.status ≠ .preSyncing
    · rw [if_pos hp]
      exact .hit ⟨hp.1, fun h => hp.2 (hpre.mp h)⟩
    · rw [if_neg hp]
      exact hr.lastStarted.miss fun h => hp ⟨h.1, fun h' => h.2 (hpre.mpr h')⟩
  · rw [hst.lastRegister]
    exact hr.lastRegister.concat

/-- A positive size is set to zero by a size request only. -/
def SizeKept (id : String) (s : Jobs) (q : Request) : Prop :=
  ∀ job job', s.value id = some job → (serve s q).store.value id = some job' →
    0 < job.status.size → job'.status.size = 0 → ∃ n, q.op = .size n

/-- The requests `rs` are register, schedule, report, size, enable, disable and stop requests for
the job `id`, served on the current version of a Job whose status is still empty. -/
structure Sequence (s : Jobs) (id : String) (rs : List Request) : Prop where
  start : ∃ job, s.value id = some job ∧ job.status = {}
  kinds : ∀ q ∈ rs, q.id = id ∧ q.op.effect.isSome = true
  stored : Lts.Along step (fun s q => accepted s q.env q.id = true) s rs
  clock : (0 :: rs.flatMap Request.readings).Pairwise (· ≤ ·)

theorem Sequence.init {s : Jobs} {id : String} {rs : List Request} {q : Request}
    (h : Sequence s id (rs ++ [q])) : Sequence s id rs := by
  refine ⟨h.start, fun r hr => h.kinds r (List.mem_append_left _ hr),
    (Lts.along_concat.mp h.stored).1, ?_⟩
  have hclock := h.clock
  rw [List.flatMap_append, ← List.cons_append, List.pairwise_append] at hclock
  exact hclock.1

/-- **The stored timestamps are the history of the job.** -/
theorem run_recorded (s : Jobs) (id : String) (rs : List Request) (h : Sequence s id rs) :
    (∃ job, (after s rs).value id = some job ∧ Recorded s id rs job.status) ∧
      Lts.Along step (SizeKept id) s rs := by
  suffices hs : (∃ job, (after s rs).value id = some job ∧ Recorded s id rs job.status ∧
      OnlineRead rs job.status) ∧ Lts.Along step (SizeKept id) s rs by
    obtain ⟨⟨job, hv, hr, -⟩, hsize⟩ := hs
    exact ⟨⟨job, hv, hr⟩, hsize⟩
  induction rs using List.reverseRecOn with
  | nil =>
      obtain ⟨job, hv, hzero⟩ := h.start
      refine ⟨⟨job, hv, ?_, ?_⟩, trivial⟩
      · rw [hzero]
        exact recorded_zero s id
      · rw [hzero]
        exact List.mem_cons_self
  | append_singleton rs q ih =>
      obtain ⟨⟨job, hv, hr, ho⟩, hsize⟩ := ih h.init
      obtain ⟨hid, hkind⟩ := h.kinds q (List.mem_append_right _ List.mem_cons_self)
      obtain ⟨f, he⟩ := Option.isSome_iff_exists.mp hkind
      have ha := (Lts.along_concat.mp h.stored).2 _ (run_eq_after s rs)
      subst hid
      have hv' := value_serve_of_accepted he ha hv
      refine ⟨⟨{ job with status := f q.env job.status }, ?_, hr.serve ho hv he h.clock⟩,
        Lts.along_concat.mpr ⟨hsize, fun s₁ h₁ => ?_⟩⟩
      · rw [after_concat]
        exact hv'
      · obtain rfl := Option.some.inj ((run_eq_after s rs).symm.trans h₁)
        intro j j' hj hj'
        obtain rfl := Option.some.inj (hv.symm.trans hj)
        obtain rfl := Option.some.inj (hv'.symm.trans hj')
        exact (effect_stamped he q.env job.status).size

/-- A registration, and a run whose success report claims to have ended long ago. -/
def debianRun : List Request :=
  [⟨"debian", .register, { now := 5, now' := 6 }⟩,
    ⟨"debian", .report ⟨{ status := .preSyncing }, true⟩, { now := 7 }⟩,
    ⟨"debian", .report ⟨{ status := .success, lastEnded := 1, size := 40 }, true⟩, { now := 9 }⟩,
    ⟨"debian", .schedule ⟨90, true⟩, { now := 9 }⟩]

theorem run_recorded_debian :
    (∃ job, (after debian debianRun).value "debian" = some job ∧
      Recorded debian "debian" debianRun job.status) ∧
      Lts.Along step (SizeKept "debian") debian debianRun :=
  run_recorded debian "debian" debianRun
    ⟨⟨_, rfl, rfl⟩, by decide, Lts.along_of_check (by decide), by decide⟩

end KubeSync.Manager
