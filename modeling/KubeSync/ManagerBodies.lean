import KubeSync.ManagerFiles
import KubeSync.ManagerLookups

/-! # Bodies that do not decode

Seven handlers of the manager read a body with `BindJSON`, which answers 400 to a body that does not
decode and leaves behind what it has decoded so far.  None of the handlers looks at its error.

* `Submission` is a request to one of them, `submit` the handler; the objects of all kinds are in
  `Stores`.
* `Undecodable` says that the body does not give the value the handler is about to use.
* `Rejected` is what such a body should meet with: a client error, no write, no command, no nil
  dereference.  `submit_rejected_iff` says when it does. -/

namespace KubeSync.Manager

open Versioned (Store)

structure Stores where
  jobs : Jobs
  news : News
  files : Files

/-- A request with a body. -/
inductive Submission where
  | job (q : Request)
  | news (id : String) (env : Env) (body : NewsBody)
  | file (id : String) (env : FileEnv) (body : Decoded FileBase)

structure Served where
  stores : Stores
  reply : Reply

/-- The handlers on the objects of all kinds. -/
def submit (s : Stores) : Submission → Served
  | .job q => ⟨{ s with jobs := (serve s.jobs q).store }, serve s.jobs q⟩
  | .news id env body =>
      let r := createAnnouncement s.news env id body
      ⟨{ s with news := r.store }, ⟨s.jobs, r.written, []⟩⟩
  | .file id env body =>
      let r := updateFile s.files env id body
      ⟨{ s with files := r.store }, ⟨s.jobs, r.written, []⟩⟩

/-- The body does not decode to what the handler is going to use: a spec for an unknown object, a
change for a known one. -/
def Undecodable (s : Stores) : Submission → Prop
  | .job q =>
      match q.op with
      | .schedule next => next.ok = false
      | .report status => status.ok = false
      | .size n => n.ok = false
      | .cmd c => c.ok = false
      | .create body =>
          match get s.jobs q.env q.id with
          | .error _ => body.spec.ok = false
          | .ok (_, ojb) => body.merge.ok = false ∨ body.merge.value ojb.spec = none
      | _ => False
  | .news id env body =>
      match getNews s.news env id with
      | none => body.spec.ok = false
      | some _ => body.fields.ok = false
  | .file _ _ body => body.ok = false

/-- A client error, no nil dereference, no write and no command. -/
structure Rejected (s : Stores) (r : Served) : Prop where
  clientError : 400 ≤ r.reply.code ∧ r.reply.code < 500
  sound : r.reply.panicked = false
  unchanged : r.stores = s
  silent : r.reply.posted = []

/-! ### When nothing happens -/

/-- The status update of the request is refused or changes nothing. -/
def StatusStays (s : Jobs) (q : Request) : Prop :=
  ∀ f, q.op.effect = some f → UpToDate s q.env q.id →
    ∀ job, s.value q.id = some job → f q.env job.status = job.status

/-- The patch of the request fails or changes nothing. -/
def SpecStays (s : Jobs) (q : Request) (spec : JobSpec) : Prop :=
  q.env.writeFails = true ∨ ∃ job, s.value q.id = some job ∧ job.spec = spec

/-- The update of the file list, for the copy that was read, is refused or changes nothing. -/
def ListStays (s : Files) (env : FileEnv) (id : String) (copy : Option (ℕ × File))
    (infos : List FileInfo) : Prop :=
  ∀ n f g, copy = some (n, f) → env.statusFails = false → s.current id = some (n, g) →
    g.status = { files := infos, updateTime := env.now }

/-- Neither write of `updateFile` changes anything. -/
def FileStays (s : Files) (env : FileEnv) (id : String) (nFile : FileBase)
    (infos : List FileInfo) : Prop :=
  let oFile := getFile s env.getFails env.lag id
  let spec := newSpec nFile oFile
  if spec = oldSpec oFile then infos ≠ [] → ListStays s env id oFile infos
  else
    env.patchFails = true ∨
      (∃ f, s.value id = some f ∧ f.spec = spec) ∧
        (infos ≠ [] → ListStays s env id (getFile s env.getFails' env.lag' id) infos)

/-- When a body that does not decode does no harm: for a schedule or a status the job can be read
and the update is refused or changes nothing, for a size the update is refused or changes nothing, a
command is a stop whose update is refused, and a spec, an announcement or a file that is left of
the body is not written or is the stored one. -/
def Harmless (s : Stores) : Submission → Prop
  | .job q =>
      match q.op with
      | .schedule _ | .report _ => readable s.jobs q.env q.id = true ∧ StatusStays s.jobs q
      | .size _ => StatusStays s.jobs q
      | .cmd c => c.value.cmd = .stop ∧ ¬ UpToDate s.jobs q.env q.id
      | .create body =>
          match get s.jobs q.env q.id with
          | .error _ => SpecStays s.jobs q body.spec.value
          | .ok (_, ojb) =>
              ∃ spec, body.merge.value ojb.spec = some spec ∧ SpecStays s.jobs q spec
      | _ => True
  | .news id env body =>
      env.writeFails = true ∨
        ∃ news, s.news.value id = some news ∧ news.spec = (newsSpec s.news env id body).1
  | .file id env body =>
      ∃ infos, fileInfos body.value.files = some infos ∧
        FileStays s.files env id body.value infos

/-! ### The answers -/

theorem panicked_append (s : Jobs) (ws ws' : List Response) (p : List (Url × ClientCmd)) :
    (⟨s, ws ++ ws', p⟩ : Reply).panicked =
      ((⟨s, ws, []⟩ : Reply).panicked || (⟨s, ws', []⟩ : Reply).panicked) :=
  List.any_append

/-- The answer of `BindJSON` comes first. -/
theorem code_of_answer {α : Type} {b : Decoded α} (hb : b.ok = false) (s : Jobs)
    (ws : List Response) (p : List (Url × ClientCmd)) :
    400 ≤ (⟨s, b.answer ++ ws, p⟩ : Reply).code ∧ (⟨s, b.answer ++ ws, p⟩ : Reply).code < 500 := by
  unfold Decoded.answer
  rw [hb]
  exact ⟨Nat.le_refl 400, (by decide : 400 < 500)⟩

theorem panicked_of_answer {α : Type} (b : Decoded α) (s : Jobs) (ws : List Response)
    (p : List (Url × ClientCmd)) :
    (⟨s, b.answer ++ ws, p⟩ : Reply).panicked = (⟨s, ws, []⟩ : Reply).panicked := by
  rw [panicked_append]
  unfold Decoded.answer
  split <;> rfl

/-! ### The job handlers -/

/-- `Rejected` for a reply of the job handlers. -/
def RejectedJob (s : Jobs) (r : Reply) : Prop :=
  (400 ≤ r.code ∧ r.code < 500) ∧ r.panicked = false ∧ r.store = s ∧ r.posted = []

theorem rejected_job_iff (s : Stores) (q : Request) :
    Rejected s (submit s (.job q)) ↔ RejectedJob s.jobs (serve s.jobs q) := by
  constructor
  · rintro ⟨hcode, hsound, hstores, hposted⟩
    exact ⟨hcode, hsound, congrArg Stores.jobs hstores, hposted⟩
  · rintro ⟨hcode, hsound, hstore, hposted⟩
    refine ⟨hcode, hsound, ?_, hposted⟩
    change { s with jobs := (serve s.jobs q).store } = s
    rw [hstore]

variable {s : Jobs} {env : Env} {id : String}

/-- A reply that begins with the answer of `BindJSON`, ends in order and changes nothing. -/
theorem rejectedJob_of_answer {α : Type} {b : Decoded α} (hb : b.ok = false) {ws : List Response}
    (hws : (⟨s, ws, []⟩ : Reply).panicked = false) (s' : Jobs) :
    RejectedJob s ⟨s', b.answer ++ ws, []⟩ ↔ s' = s := by
  constructor
  · exact fun h => h.2.2.1
  · rintro rfl
    exact ⟨code_of_answer hb _ _ _, by rw [panicked_of_answer]; exact hws, rfl, rfl⟩

theorem not_rejectedJob_of_panic {r : Reply} (h : r.panicked = true) : ¬ RejectedJob s r := by
  rintro ⟨-, hsound, -⟩
  rw [h] at hsound
  cases hsound

theorem write_status_eq_self_iff {job : Job} (hv : s.value id = some job) (st : JobStatus) :
    s.write id { job with status := st } = s ↔ st = job.status := by
  rw [Store.write_eq_self_iff, hv]
  constructor
  · intro h
    exact (congrArg Job.status (Option.some.inj h)).symm
  · rintro rfl
    rfl

/-- The handlers that end in `store`. -/
theorem store_rejected_iff {α : Type} {b : Decoded α} (hb : b.ok = false) {n : ℕ} {job : Job}
    (hg : get s env id = .ok (n, job)) (st : JobStatus) (err : String → String)
    (ws : List Response) (ok : Response) (hws : (⟨s, ws ++ [ok], []⟩ : Reply).panicked = false)
    (hwe : ∀ e, (⟨s, ws ++ [returnErrJSON 500 e], []⟩ : Reply).panicked = false) :
    RejectedJob s ((Code.store env id n st err (b.answer ++ ws) ok).reply s) ↔
      (accepted s env id = true → st = job.status) := by
  rw [Code.reply_store]
  rcases updateStatus_of_get hg st with ⟨ha, hu⟩ | ⟨ha, hv, hu⟩
  · rw [hu, ha]
    simp only [List.append_assoc]
    exact iff_of_true ((rejectedJob_of_answer hb (hwe _) s).mpr rfl) nofun
  · rw [hu]
    simp only [List.append_assoc]
    rw [rejectedJob_of_answer hb hws, write_status_eq_self_iff hv]
    exact ⟨fun h _ => h, fun h => h ha⟩

theorem statusStays_iff {q : Request} {f : Env → JobStatus → JobStatus} {n : ℕ} {job : Job}
    (he : q.op.effect = some f) (hg : get s q.env q.id = .ok (n, job)) :
    StatusStays s q ↔ (accepted s q.env q.id = true → f q.env job.status = job.status) := by
  have hval : accepted s q.env q.id = true → s.value q.id = some job := by
    intro ha
    rcases updateStatus_of_get hg job.status with ⟨hr, -⟩ | ⟨-, hv, -⟩
    · rw [ha] at hr
      cases hr
    · exact hv
  unfold StatusStays
  constructor
  · intro h ha
    exact h f he (accepted_iff.mp ha) job (hval ha)
  · intro h g hg' hup job' hv
    obtain rfl := Option.some.inj (he.symm.trans hg')
    have ha := accepted_iff.mpr hup
    obtain rfl := Option.some.inj ((hval ha).symm.trans hv)
    exact h ha

theorem readable_of_get {c : ℕ × Job} (h : get s env id = .ok c) : readable s env id = true := by
  unfold readable
  rw [h]

theorem readable_of_error {e : String} (h : get s env id = .error e) :
    readable s env id = false := by
  unfold readable
  rw [h]

/-- The handlers that go on with the job they have not found. -/
theorem rejected_iff_of_unreadable {r : Reply} {e : String} {P : Prop}
    (hg : get s env id = .error e) (hr : r.panicked = true) :
    RejectedJob s r ↔ readable s env id = true ∧ P := by
  refine iff_of_false (not_rejectedJob_of_panic hr) fun h => ?_
  rw [readable_of_error hg] at h
  cases h.1

theorem schedule_rejected_iff {q : Request} {next : Decoded ℤ} (hq : q.op = .schedule next)
    (hb : next.ok = false) :
    RejectedJob s (serve s q) ↔ readable s q.env q.id = true ∧ StatusStays s q := by
  have he := congrArg Op.effect hq
  simp only [serve, code, hq, Code.updateSchedule, Code.reply_get]
  cases hg : get s q.env q.id with
  | error e =>
      refine rejected_iff_of_unreadable hg ?_
      dsimp only
      rw [Code.reply_ret, panicked_of_answer]
      rfl
  | ok c =>
      rw [statusStays_iff he hg, readable_of_get hg]
      simp only [true_and]
      refine store_rejected_iff hb hg _ _ _ _ ?_ fun e => ?_ <;> split <;> rfl

theorem report_rejected_iff {q : Request} {status : Decoded JobStatus} (hq : q.op = .report status)
    (hb : status.ok = false) :
    RejectedJob s (serve s q) ↔ readable s q.env q.id = true ∧ StatusStays s q := by
  have he := congrArg Op.effect hq
  simp only [serve, code, hq, Code.updateJob, Code.reply_get]
  cases hg : get s q.env q.id with
  | error e =>
      refine rejected_iff_of_unreadable hg ?_
      dsimp only
      rw [Code.reply_ret, panicked_of_answer]
      rfl
  | ok c =>
      rw [statusStays_iff he hg, readable_of_get hg]
      simp only [true_and]
      rw [← List.append_nil status.answer]
      exact store_rejected_iff hb hg _ _ [] _ rfl fun _ => rfl

theorem size_rejected_iff {q : Request} {n : Decoded ℕ} (hq : q.op = .size n)
    (hb : n.ok = false) : RejectedJob s (serve s q) ↔ StatusStays s q := by
  have he := congrArg Op.effect hq
  simp only [serve, code, hq, Code.updateMirrorSize, Code.reply_get]
  cases hg : get s q.env q.id with
  | error e =>
      refine iff_of_true ((rejectedJob_of_answer hb rfl s).mpr rfl) fun f _ hup => ?_
      have ha := accepted_iff.mpr hup
      rw [accepted_of_error hg] at ha
      cases ha
  | ok c =>
      rw [statusStays_iff he hg, ← List.append_nil n.answer]
      exact store_rejected_iff hb hg _ _ [] _ rfl fun _ => rfl

theorem posted_postCommand (s : Jobs) (env : Env) (id : String) (cmd : Decoded ClientCmd) :
    ((Code.postCommand env id cmd).reply s).posted ≠ [] := List.cons_ne_nil _ _

theorem cmd_rejected_iff {q : Request} {c : Decoded ClientCmd} (hq : q.op = .cmd c)
    (hb : c.ok = false) :
    RejectedJob s (serve s q) ↔ c.value.cmd = .stop ∧ ¬ UpToDate s q.env q.id := by
  have hposts : ∀ s', ¬ RejectedJob s ((Code.postCommand q.env q.id c).reply s') :=
    fun s' h => posted_postCommand s' q.env q.id c h.2.2.2
  simp only [serve, code, hq]
  unfold Code.handleClientCmd
  cases hc : c.value.cmd with
  | stop =>
      dsimp only
      rw [← accepted_iff, Code.reply_get]
      cases hg : get s q.env q.id with
      | error e =>
          refine iff_of_true ((rejectedJob_of_answer hb rfl s).mpr rfl) ⟨rfl, ?_⟩
          rw [accepted_of_error hg]
          exact Bool.false_ne_true
      | ok x =>
          dsimp only
          rw [Code.reply_write]
          rcases updateStatus_of_get hg
            { x.2.status with status := .paused, lastOnline := q.env.now } with
            ⟨ha, hu⟩ | ⟨ha, -, hu⟩
          · simp only [hu, ha]
            rw [← List.append_nil c.answer]
            exact iff_of_true ((rejectedJob_of_answer hb rfl s).mpr rfl)
              ⟨trivial, Bool.false_ne_true⟩
          · simp only [hu, ha]
            exact iff_of_false (hposts _) fun h => h.2 trivial
  | start | restart | ping | update =>
      exact iff_of_false (hposts s) fun h => by cases h.1

theorem applySpec_rejected_iff {α : Type} {b : Decoded α} (hb : b.ok = false) (q : Request)
    (spec : JobSpec) :
    RejectedJob s (applySpec s q.env q.id spec b.answer) ↔ SpecStays s q spec := by
  rw [applySpec_eq]
  unfold patch SpecStays
  cases hf : q.env.writeFails with
  | true =>
      simp only [if_true]
      exact iff_of_true ((rejectedJob_of_answer hb rfl s).mpr rfl) (.inl trivial)
  | false =>
      simp only [Bool.false_eq_true, if_false, false_or]
      cases hv : s.value q.id with
      | none =>
          simp only [reduceCtorEq, false_and, exists_false, iff_false]
          rw [rejectedJob_of_answer hb rfl, Store.write_eq_self_iff, hv]
          exact nofun
      | some job =>
          by_cases hs : job.spec = spec
          · simp only [hs, if_true]
            refine iff_of_true ((rejectedJob_of_answer hb rfl s).mpr rfl) ⟨job, rfl, hs⟩
          · simp only [hs, if_false]
            rw [rejectedJob_of_answer hb rfl, Store.write_eq_self_iff, hv]
            refine iff_of_false (fun h => ?_) ?_
            · exact hs (congrArg Job.spec (Option.some.inj h))
            · rintro ⟨job', hj, hs'⟩
              obtain rfl := Option.some.inj hj
              exact hs hs'

theorem create_rejected_iff {q : Request} {body : SpecBody} (hq : q.op = .create body)
    (hb : match get s q.env q.id with
      | .error _ => body.spec.ok = false
      | .ok (_, ojb) => body.merge.ok = false ∨ body.merge.value ojb.spec = none) :
    RejectedJob s (serve s q) ↔
      match get s q.env q.id with
      | .error _ => SpecStays s q body.spec.value
      | .ok (_, ojb) => ∃ spec, body.merge.value ojb.spec = some spec ∧ SpecStays s q spec := by
  simp only [serve, code, hq, Code.createJob, Code.reply_get]
  cases hg : get s q.env q.id with
  | error e =>
      rw [hg] at hb
      exact applySpec_rejected_iff hb q body.spec.value
  | ok c =>
      obtain ⟨n, ojb⟩ := c
      rw [hg] at hb
      cases hm : body.merge.value ojb.spec with
      | none =>
          refine iff_of_false (not_rejectedJob_of_panic ?_) ?_
          · simp only [hm, Code.reply_ret, panicked_of_answer]
            rfl
          · rintro ⟨spec, hspec, -⟩
            cases hm.symm.trans hspec
      | some spec =>
          have hok : body.merge.ok = false := by
            rcases hb with hb | hb
            · exact hb
            · rw [hm] at hb
              cases hb
          simp only [hm, Option.some.injEq, exists_eq_left']
          exact applySpec_rejected_iff hok q spec

/-! ### Announcements and files -/

theorem applyObject_eq_self_iff {α : Type} [DecidableEq α] (s : Store String α) (id : String)
    (new : α) (set : α → α) :
    applyObject s id new set = s ↔ ∃ v, s.value id = some v ∧ set v = v := by
  unfold applyObject
  cases hv : s.value id with
  | none =>
      simp only [Store.write_eq_self_iff, hv, reduceCtorEq, false_and, exists_false]
  | some v =>
      simp only [Store.write_eq_self_iff, hv, Option.some.injEq, exists_eq_left']
      exact eq_comm

/-- `Rejected` for a handler that answers `BindJSON`'s way first and posts nothing. -/
theorem rejected_of_answer {α : Type} {b : Decoded α} (hb : b.ok = false) {s s' : Stores}
    {ws : List Response} (hws : (⟨s.jobs, ws, []⟩ : Reply).panicked = false) :
    Rejected s ⟨s', ⟨s.jobs, b.answer ++ ws, []⟩⟩ ↔ s' = s := by
  constructor
  · exact fun h => h.unchanged
  · rintro rfl
    exact ⟨code_of_answer hb _ _ _, by rw [panicked_of_answer]; exact hws, rfl, rfl⟩

theorem news_rejected_iff {s : Stores} {body : NewsBody} (hb : Undecodable s (.news id env body)) :
    Rejected s (submit s (.news id env body)) ↔ Harmless s (.news id env body) := by
  have hanswer : ∃ b : Decoded Unit, b.ok = false ∧ (newsSpec s.news env id body).2 = b.answer := by
    refine ⟨⟨(), false⟩, rfl, ?_⟩
    dsimp only [Undecodable] at hb
    unfold newsSpec
    cases hget : getNews s.news env id with
    | none =>
        rw [hget] at hb
        simp only [Decoded.answer, hb]
    | some oNews =>
        rw [hget] at hb
        simp only [Decoded.answer, hb]
  obtain ⟨b, hok, hbefore⟩ := hanswer
  simp only [submit, Harmless, createAnnouncement, hbefore]
  cases hf : env.writeFails with
  | true =>
      simp only [if_true, true_or, iff_true]
      exact (rejected_of_answer hok rfl).mpr rfl
  | false =>
      simp only [Bool.false_eq_true, if_false, false_or]
      rw [rejected_of_answer hok rfl]
      have hstores : ∀ news : News, { s with news } = s ↔ news = s.news := by
        intro news
        constructor
        · exact fun h => congrArg Stores.news h
        · rintro rfl
          rfl
      rw [hstores, applyObject_eq_self_iff]
      constructor
      · rintro ⟨news, hv, hs⟩
        exact ⟨news, hv, (congrArg Announcement.spec hs).symm⟩
      · rintro ⟨news, hv, hs⟩
        exact ⟨news, hv, by rw [← hs]⟩

theorem rev_applyObject_of_ne {α : Type} [DecidableEq α] (s : Store String α) (id : String)
    (new : α) (set : α → α) (h : applyObject s id new set ≠ s) :
    (applyObject s id new set).rev = s.rev + 1 := by
  unfold applyObject at h ⊢
  split
  · rename_i v hv
    rw [hv] at h
    exact s.rev_write_of_ne id _ h
  · rename_i hv
    rw [hv] at h
    exact s.rev_write_of_ne id _ h

/-- The status update of a file leaves the store as it is exactly when it is refused or stores what
is there. -/
theorem updateFiles_stays_iff (s : Files) (env : FileEnv) (id : String) (copy : Option (ℕ × File))
    (infos : List FileInfo) :
    (∀ s', updateFiles s env id copy infos = some s' → s' = s) ↔ ListStays s env id copy infos := by
  have hsome : ∀ s', updateFiles s env id copy infos = some s' ↔
      ∃ n f g, copy = some (n, f) ∧ env.statusFails = false ∧ s.current id = some (n, g) ∧
        s' = s.write id { g with status := { files := infos, updateTime := env.now } } := by
    intro s'
    unfold updateFiles
    cases copy with
    | none => simp
    | some c =>
        obtain ⟨n, f⟩ := c
        cases hf : env.statusFails with
        | true => simp
        | false =>
            simp only [Bool.false_eq_true, if_false, Store.modify_eq_some]
            constructor
            · rintro ⟨g, hc, rfl⟩
              exact ⟨n, f, g, rfl, trivial, hc, rfl⟩
            · rintro ⟨n', f', g, hcopy, -, hc, rfl⟩
              cases hcopy
              exact ⟨g, hc, rfl⟩
  have hvalue : ∀ {n g}, s.current id = some (n, g) → s.value id = some g := by
    intro n g hc
    rw [Store.value, hc]
    rfl
  unfold ListStays
  constructor
  · intro h n f g hcopy hf hc
    have hs := h _ ((hsome _).mpr ⟨n, f, g, hcopy, hf, hc, rfl⟩)
    rw [Store.write_eq_self_iff, hvalue hc] at hs
    exact congrArg File.status (Option.some.inj hs)
  · intro h s' hs'
    obtain ⟨n, f, g, hcopy, hf, hc, rfl⟩ := (hsome s').mp hs'
    rw [Store.write_eq_self_iff, hvalue hc, ← h n f g hcopy hf hc]

theorem rev_le_updateFiles {s s' : Files} {env : FileEnv} {id : String} {copy : Option (ℕ × File)}
    {infos : List FileInfo} (h : updateFiles s env id copy infos = some s') : s.rev ≤ s'.rev := by
  unfold updateFiles at h
  split at h
  · cases h
  · split at h
    · cases h
    · obtain ⟨v, -, rfl⟩ := Store.modify_eq_some.mp h
      exact s.rev_le_write id _

theorem finishFile_stays_iff (s : Files) (env : FileEnv) (id : String) (copy : Option (ℕ × File))
    (infos : List FileInfo) (before : List Response) :
    (finishFile s env id copy infos before).store = s ↔
      (infos ≠ [] → ListStays s env id copy infos) := by
  rw [← updateFiles_stays_iff]
  unfold finishFile
  by_cases hi : infos = []
  · simp only [hi, if_true]
    exact iff_of_true trivial fun h => absurd rfl h
  · simp only [hi, if_false]
    cases hu : updateFiles s env id copy infos with
    | none => exact iff_of_true rfl nofun
    | some s' =>
        constructor
        · rintro h - s'' hs''
          obtain rfl := Option.some.inj hs''
          exact h
        · intro h
          exact h hi s' rfl

theorem rev_le_finishFile (s : Files) (env : FileEnv) (id : String) (copy : Option (ℕ × File))
    (infos : List FileInfo) (before : List Response) :
    s.rev ≤ (finishFile s env id copy infos before).store.rev := by
  unfold finishFile
  dsimp only
  split
  · exact Nat.le_refl _
  · split
    · rename_i hu
      exact rev_le_updateFiles hu
    · exact Nat.le_refl _

/-- What happens behind a patch that went through. -/
theorem afterPatch_stays_iff (s s' : Files) (env : FileEnv) (id : String)
    (copy : Option (ℕ × File)) (infos : List FileInfo) (before : List Response)
    (hs' : s' = s ∨ s'.rev = s.rev + 1) :
    (finishFile s' env id copy infos before).store = s ↔
      s' = s ∧ (infos ≠ [] → ListStays s env id copy infos) := by
  rcases hs' with rfl | hrev
  · rw [finishFile_stays_iff]
    exact ⟨fun h => ⟨rfl, h⟩, fun h => h.2⟩
  · refine iff_of_false (fun h => ?_) fun h => ?_
    · have hle := rev_le_finishFile s' env id copy infos before
      rw [h] at hle
      omega
    · rw [h.1] at hrev
      omega

theorem updateFile_stays_iff (s : Files) (env : FileEnv) (id : String) (nFile : Decoded FileBase)
    {infos : List FileInfo} (hi : fileInfos nFile.value.files = some infos) :
    (updateFile s env id nFile).store = s ↔ FileStays s env id nFile.value infos := by
  unfold updateFile FileStays
  simp only [hi]
  split
  · exact finishFile_stays_iff s env id _ infos _
  · cases hp : env.patchFails with
    | true => simp only [if_true, true_or]
    | false =>
        simp only [Bool.false_eq_true, if_false, false_or]
        generalize newSpec nFile.value (getFile s env.getFails env.lag id) = spec
        have hself := applyObject_eq_self_iff s id ({ spec } : File) fun f => { f with spec }
        have hspec : (∃ v : File, s.value id = some v ∧ ({ v with spec } : File) = v) ↔
            ∃ f, s.value id = some f ∧ f.spec = spec := by
          refine exists_congr fun f => and_congr_right fun _ => ⟨fun h => ?_, fun h => ?_⟩
          · exact (congrArg File.spec h).symm
          · rw [← h]
        have hrev := rev_applyObject_of_ne s id ({ spec } : File) fun f => { f with spec }
        rw [← hspec, ← hself]
        generalize applyObject s id ({ spec } : File) (fun f => { f with spec }) = s' at hrev
        have hs' : s' = s ∨ s'.rev = s.rev + 1 := by
          by_cases h : s' = s
          · exact .inl h
          · exact .inr (hrev h)
        split
        · rename_i hget
          refine ⟨fun h => ⟨h, fun _ => ?_⟩, fun h => h.1⟩
          subst h
          rw [hget]
          exact nofun
        · rw [afterPatch_stays_iff s s' env id _ _ _ hs']
          refine and_congr_right fun h => ?_
          subst h
          rfl

/-- Where the recogniser does not panic, `updateFile` writes one response behind the answer of
`BindJSON`. -/
theorem updateFile_written (s : Files) (env : FileEnv) (id : String) (nFile : Decoded FileBase)
    {infos : List FileInfo} (hi : fileInfos nFile.value.files = some infos) :
    ∃ w, (updateFile s env id nFile).written = nFile.answer ++ [w] ∧ w.body ≠ .nothing := by
  have hfinish : ∀ s copy, ∃ w, (finishFile s env id copy infos nFile.answer).written =
      nFile.answer ++ [w] ∧ w.body ≠ .nothing := by
    intro s copy
    unfold finishFile
    dsimp only
    split
    · exact ⟨_, rfl, nofun⟩
    · split
      · exact ⟨_, rfl, nofun⟩
      · exact ⟨_, rfl, nofun⟩
  unfold updateFile
  simp only [hi]
  split
  · exact hfinish s _
  · split
    · exact ⟨_, rfl, nofun⟩
    · split
      · exact ⟨_, rfl, nofun⟩
      · exact hfinish _ _

theorem panicked_single {w : Response} (h : w.body ≠ .nothing) (s : Jobs) :
    (⟨s, [w], []⟩ : Reply).panicked = false := by
  obtain ⟨code, body⟩ := w
  cases body with
  | nothing => exact absurd rfl h
  | empty | error | message | text | status | job | config => rfl

theorem file_rejected_iff {s : Stores} {env : FileEnv} {body : Decoded FileBase}
    (hb : body.ok = false) :
    Rejected s (submit s (.file id env body)) ↔ Harmless s (.file id env body) := by
  simp only [submit, Harmless]
  cases hi : fileInfos body.value.files with
  | none =>
      refine iff_of_false (fun h => ?_) ?_
      · have hsound := h.sound
        simp only [updateFile, hi, panicked_of_answer] at hsound
        cases hsound
      · rintro ⟨infos, h, -⟩
        cases h
  | some infos =>
      obtain ⟨w, hw, hbody⟩ := updateFile_written s.files env id body hi
      simp only [hw, Option.some.injEq, exists_eq_left']
      rw [rejected_of_answer hb (panicked_single hbody _),
        ← updateFile_stays_iff s.files env id body hi]
      constructor
      · exact fun h => congrArg Stores.files h
      · intro h
        rw [h]

/-- **When a body that does not decode is rejected.**  For every content of the store and every body
that does not decode, the handler answers a client error without a nil dereference, writes nothing
and sends no command exactly when what it goes on with is harmless. -/
theorem submit_rejected_iff (s : Stores) (sub : Submission) (h : Undecodable s sub) :
    Rejected s (submit s sub) ↔ Harmless s sub := by
  cases sub with
  | news id env body => exact news_rejected_iff h
  | file id env body => exact file_rejected_iff h
  | job q =>
      rw [rejected_job_iff]
      dsimp only [Undecodable] at h
      dsimp only [Harmless]
      cases hq : q.op with
      | schedule next =>
          rw [hq] at h
          exact schedule_rejected_iff hq h
      | report status =>
          rw [hq] at h
          exact report_rejected_iff hq h
      | size n =>
          rw [hq] at h
          exact size_rejected_iff hq h
      | cmd c =>
          rw [hq] at h
          exact cmd_rejected_iff hq h
      | create body =>
          rw [hq] at h
          exact create_rejected_iff hq h
      | register | enable | disable | delete | get | getConfig =>
          rw [hq] at h
          exact h.elim

/-- An empty namespace but for one Job. -/
def oneJob : Stores := ⟨debian, Store.empty, Store.empty⟩

/-- A size for a job that does not exist. -/
theorem size_missing_rejected :
    Rejected oneJob (submit oneJob (.job ⟨"ubuntu", .size ⟨0, false⟩, {}⟩)) :=
  (submit_rejected_iff oneJob (.job ⟨"ubuntu", .size ⟨0, false⟩, {}⟩) rfl).mpr
    fun _ _ hup => absurd hup.2.2.1 (by decide)

/-- A command that does not decode leaves the zero value behind: it is answered with 400, and the
worker is sent a start. -/
theorem undecodable_command_starts :
    Undecodable oneJob (.job ⟨"debian", .cmd ⟨{ cmd := .start }, false⟩, {}⟩) ∧
      (submit oneJob (.job ⟨"debian", .cmd ⟨{ cmd := .start }, false⟩, {}⟩)).reply.code = 400 ∧
      (submit oneJob (.job ⟨"debian", .cmd ⟨{ cmd := .start }, false⟩, {}⟩)).reply.posted =
        [(commandUrl "debian", { cmd := .start, force := false })] :=
  ⟨rfl, rfl, rfl⟩

end KubeSync.Manager
