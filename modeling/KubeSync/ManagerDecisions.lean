import KubeSync.Lts
import KubeSync.Manager

/-! # The operator's decisions in the store

What one request does to the stored Jobs, and how long a stop or a disable lasts.

* `Op.effect` is the meaning of a request for the status of its job, free of reads, versions and
  answers; `serve_outcome` says that the handlers implement it: a request either changes nothing
  or replaces the status that is stored at that moment by its effect.
* `StatusIs id st` says that the stored status of `id` is `st`.  `serve_statusIs_iff` decides, for
  every request that is not one of the operator's commands for the job, whether it leaves the
  status alone: it does unless it is a report of another status that is accepted, or a deletion.
* `run_decision_stays_iff` follows an answered stop or disable through every later sequence of
  requests. -/

namespace KubeSync.Manager

open Versioned (Store)

/-- What a request stores as the status of its job, as a function of the status it finds. -/
def Op.effect : Op → Option (Env → JobStatus → JobStatus)
  | .register => some fun env st => { st with lastOnline := env.now, lastRegister := env.now' }
  | .schedule next =>
      some fun env st => { st with scheduled := next.value, lastOnline := env.now }
  | .report new => some fun env st => reported env.now st new.value
  | .size n => some fun _ st => { st with size := n.value }
  | .enable => some fun env st => { st with status := .created, lastOnline := env.now }
  | .disable => some fun env st => { st with status := .disabled, lastOnline := env.now }
  | .cmd c =>
      match c.value.cmd with
      | .stop => some fun env st => { st with status := .paused, lastOnline := env.now }
      | _ => none
  | _ => none

/-- The cache has a copy of the job. -/
def readable (s : Jobs) (env : Env) (id : String) : Bool :=
  match get s env id with
  | .ok _ => true
  | .error _ => false

/-- The status update of a handler that reads now is accepted. -/
def accepted (s : Jobs) (env : Env) (id : String) : Bool :=
  match get s env id with
  | .ok (n, _) => !env.writeFails && (s.current id).any fun c => c.1 = n
  | .error _ => false

/-! ### What a request does -/

/-- The outcomes of a request for the store. -/
inductive Outcome (s : Jobs) (q : Request) : Jobs → Prop
  | reads (h : q.op.effect = none) (hd : ∀ b, q.op ≠ .create b) (hr : q.op ≠ .delete) :
      Outcome s q s
  | refused {f} (h : q.op.effect = some f) (ha : accepted s q.env q.id = false) : Outcome s q s
  | status {f job} (h : q.op.effect = some f) (ha : accepted s q.env q.id = true)
      (hv : s.value q.id = some job) :
      Outcome s q (s.write q.id { job with status := f q.env job.status })
  | unapplied {b} (h : q.op = .create b) : Outcome s q s
  | spec {b job spec generation} (h : q.op = .create b) (hv : s.value q.id = some job) :
      Outcome s q (s.write q.id { job with spec, generation })
  | new {b job} (h : q.op = .create b) (hv : s.value q.id = none) :
      Outcome s q (s.write q.id job)
  | removed (h : q.op = .delete) (ha : (readable s q.env q.id && !q.env.writeFails) = true) :
      Outcome s q (s.remove q.id)
  | kept (h : q.op = .delete)
      (ha : (readable s q.env q.id && !q.env.writeFails) = false ∨ s.value q.id = none) :
      Outcome s q s

theorem accepted_of_error {s : Jobs} {env : Env} {id e : String} (h : get s env id = .error e) :
    accepted s env id = false := by
  unfold accepted
  rw [h]

theorem seen_of_get {s : Jobs} {env : Env} {id : String} {n : ℕ} {job : Job}
    (h : get s env id = .ok (n, job)) : s.seen env.lag id = some (n, job) := by
  unfold get at h
  split at h
  · cases h
  · split at h
    · rename_i hs
      cases h
      exact hs
    · cases h

/-- Neither API call of a handler fails, and the copy in the cache is the current one. -/
def UpToDate (s : Jobs) (env : Env) (id : String) : Prop :=
  env.getFails = false ∧ env.writeFails = false ∧ (s.current id).isSome = true ∧
    s.seen env.lag id = s.current id

/-- An update is accepted exactly when nothing fails and the read was not stale. -/
theorem accepted_iff {s : Jobs} {env : Env} {id : String} :
    accepted s env id = true ↔ UpToDate s env id := by
  unfold accepted get UpToDate
  cases hf : env.getFails with
  | true => simp
  | false =>
      cases hseen : s.seen env.lag id with
      | none =>
          cases hc : s.current id <;> simp
      | some c =>
          cases hc : s.current id with
          | none => simp
          | some d =>
              have heq : d.1 = c.1 → c = d := by
                intro hv
                have hd : (c.1, some d.2) ∈ s.log id := by
                  rw [← hv]
                  exact Store.mem_log_of_seen hc
                have hval := Store.eq_of_version (Store.mem_log_of_seen hseen) hd
                exact Prod.ext hv.symm (Option.some.inj hval)
              have hiff : d.1 = c.1 ↔ c = d := ⟨heq, fun h => by rw [h]⟩
              simp [hiff]

/-- A status update for the copy that was read is accepted exactly when `accepted` says so, and
it then replaces the status of the current value. -/
theorem updateStatus_of_get {s : Jobs} {env : Env} {id : String} {n : ℕ} {job : Job}
    (hg : get s env id = .ok (n, job)) (st : JobStatus) :
    accepted s env id = false ∧ updateStatus s env id n st = .error env.err ∨
      accepted s env id = true ∧ s.value id = some job ∧
        updateStatus s env id n st = .ok (s.write id { job with status := st }) := by
  have hsome := s.modify_isSome id n fun job => { job with status := st }
  have ha : accepted s env id = (!env.writeFails && (s.current id).any fun c => c.1 = n) := by
    unfold accepted
    rw [hg]
  rw [← hsome] at ha
  unfold updateStatus
  by_cases hf : env.writeFails = true
  · left
    rw [hf] at ha
    exact ⟨ha, if_pos hf⟩
  · rw [Bool.not_eq_true] at hf
    rw [hf] at ha ⊢
    cases hm : s.modify id n fun job => { job with status := st } with
    | some s' =>
        rw [hm] at ha
        obtain ⟨hv, rfl⟩ := Store.modify_seen (seen_of_get hg) hm
        exact .inr ⟨ha, hv, rfl⟩
    | none =>
        rw [hm] at ha
        exact .inl ⟨ha, rfl⟩

/-- The handlers that end in `store` implement the effect of their request. -/
theorem outcome_store {s : Jobs} {q : Request} {n : ℕ} {job : Job} {f : Env → JobStatus → JobStatus}
    (he : q.op.effect = some f) (hg : get s q.env q.id = .ok (n, job)) (err : String → String)
    (before : List Response) (ok : Response) :
    Outcome s q
      ((Code.store q.env q.id n (f q.env job.status) err before ok).reply s).store := by
  rw [Code.reply_store]
  rcases updateStatus_of_get hg (f q.env job.status) with ⟨ha, hu⟩ | ⟨ha, hv, hu⟩
  · rw [hu]
    exact .refused he ha
  · rw [hu]
    exact .status he ha hv

/-- The handlers that read the job and end in `store`. -/
theorem outcome_get {s : Jobs} {q : Request} {f : Env → JobStatus → JobStatus}
    {k : Except String (ℕ × Job) → Code} (he : q.op.effect = some f)
    (herror : ∀ e, ((k (.error e)).reply s).store = s)
    (hok : ∀ n job, ∃ err before ok,
      k (.ok (n, job)) = Code.store q.env q.id n (f q.env job.status) err before ok) :
    Outcome s q ((Code.get q.env q.id k).reply s).store := by
  rw [Code.reply_get]
  cases hg : get s q.env q.id with
  | error e =>
      rw [herror]
      exact .refused he (accepted_of_error hg)
  | ok c =>
      obtain ⟨err, before, ok, hk⟩ := hok c.1 c.2
      rw [hk]
      exact outcome_store he hg err before ok

theorem outcome_handleClientCmd {s : Jobs} {q : Request} {cmd : Decoded ClientCmd}
    (hq : q.op = .cmd cmd) : Outcome s q (handleClientCmd s q.env q.id cmd).store := by
  unfold handleClientCmd Code.handleClientCmd
  cases hc : cmd.value.cmd with
  | stop =>
      have he : q.op.effect =
          some fun env st => { st with status := .paused, lastOnline := env.now } := by
        rw [hq]
        simp only [Op.effect, hc]
      dsimp only
      rw [Code.reply_get]
      cases hg : get s q.env q.id with
      | error e => exact .refused he (accepted_of_error hg)
      | ok c =>
          dsimp only
          rw [Code.reply_write]
          rcases updateStatus_of_get hg
            { c.2.status with status := .paused, lastOnline := q.env.now } with
            ⟨ha, hu⟩ | ⟨ha, hv, hu⟩
          · simp only [hu]
            exact .refused he ha
          · simp only [hu]
            exact .status he ha hv
  | start | restart | ping | update =>
      refine .reads ?_ (by rw [hq]; simp) (by rw [hq]; simp)
      rw [hq]
      simp only [Op.effect, hc]

theorem outcome_applySpec {s : Jobs} {q : Request} {b : SpecBody} (hq : q.op = .create b)
    (spec : JobSpec) (before : List Response) :
    Outcome s q (applySpec s q.env q.id spec before).store := by
  rw [applySpec_eq]
  unfold patch
  split
  · exact .unapplied hq
  · rename_i s' hp
    split at hp
    · cases hp
    · split at hp
      · rename_i job hv
        split at hp
        · cases hp
          exact .unapplied hq
        · cases hp
          exact .spec hq hv
      · rename_i hv
        cases hp
        exact .new hq hv

theorem outcome_createJob {s : Jobs} {q : Request} {b : SpecBody} (hq : q.op = .create b) :
    Outcome s q (createJob s q.env q.id b).store := by
  unfold createJob Code.createJob
  rw [Code.reply_get]
  split
  · exact outcome_applySpec hq _ _
  · split
    · exact outcome_applySpec hq _ _
    · exact .unapplied hq

theorem outcome_deleteJob {s : Jobs} {q : Request} (hq : q.op = .delete) :
    Outcome s q ((Code.deleteJob q.env q.id).reply s).store := by
  unfold Code.deleteJob
  rw [Code.reply_get]
  cases hg : get s q.env q.id with
  | error e => exact .kept hq (.inl (by unfold readable; rw [hg]; rfl))
  | ok c =>
      have hr : readable s q.env q.id = true := by unfold readable; rw [hg]
      dsimp only
      rw [Code.reply_write]
      unfold delete
      by_cases hf : q.env.writeFails = true
      · rw [if_pos hf]
        exact .kept hq (.inl (by rw [hr, hf]; rfl))
      · rw [if_neg hf]
        cases hv : s.value q.id with
        | none => exact .kept hq (.inr hv)
        | some job => exact .removed hq (by rw [hr, Bool.not_eq_true] at *; rw [hf]; rfl)

/-- **The handlers implement the effects.** -/
theorem serve_outcome (s : Jobs) (q : Request) : Outcome s q (serve s q).store := by
  unfold serve code
  cases hq : q.op with
  | register | schedule | report | size =>
      exact outcome_get (congrArg Op.effect hq) (fun _ => rfl) fun _ _ => ⟨_, _, _, rfl⟩
  | enable | disable =>
      simp only [Code.enableJob, Code.disableJob, Code.setStatus]
      exact outcome_get (congrArg Op.effect hq) (fun _ => rfl) fun _ _ => ⟨_, _, _, rfl⟩
  | cmd cmd => exact outcome_handleClientCmd hq
  | create body => exact outcome_createJob hq
  | delete => exact outcome_deleteJob hq
  | get =>
      have hs : ((Code.getJob q.env q.id).reply s).store = s := by
        unfold Code.getJob
        rw [Code.reply_get]
        split <;> rfl
      simp only [hs]
      exact .reads (congrArg Op.effect hq) (by simp [hq]) (by simp [hq])
  | getConfig =>
      have hs : ((Code.getJobConfig q.env q.id).reply s).store = s := by
        unfold Code.getJobConfig
        rw [Code.reply_get]
        split <;> rfl
      simp only [hs]
      exact .reads (congrArg Op.effect hq) (by simp [hq]) (by simp [hq])

theorem Outcome.value_of_ne {s s' : Jobs} {q : Request} (h : Outcome s q s') {id : String}
    (hne : id ≠ q.id) : s'.value id = s.value id := by
  cases h with
  | reads => rfl
  | refused => rfl
  | unapplied => rfl
  | kept => rfl
  | status | spec | new => exact s.value_write_of_ne _ hne
  | removed => exact s.value_remove_of_ne hne

/-! ### Decisions -/

/-- The stored status of the job `id` is `st`. -/
def StatusIs (id : String) (st : SyncStatus) (s : Jobs) : Prop :=
  ∃ job, s.value id = some job ∧ job.status.status = st

/-- The operator's enable, disable, stop, start and restart. -/
def Op.commands : Op → Bool
  | .enable => true
  | .disable => true
  | .cmd c =>
      match c.value.cmd with
      | .start | .stop | .restart => true
      | _ => false
  | _ => false

/-- The status that a stop or a disable decides on. -/
def Op.decides : Op → Option SyncStatus
  | .disable => some .disabled
  | .cmd c =>
      match c.value.cmd with
      | .stop => some .paused
      | _ => none
  | _ => none

/-- The request leaves the status `st` of the job `id` alone: it is no accepted report of another
status and no deletion that goes through. -/
def keeps (id : String) (st : SyncStatus) (s : Jobs) (q : Request) : Bool :=
  q.id != id ||
    match q.op with
    | .report new => new.value.status = st || !accepted s q.env q.id
    | .delete => !(readable s q.env q.id && !q.env.writeFails)
    | _ => true

theorem keeps_of_ne {id : String} {st : SyncStatus} {s : Jobs} {q : Request} (h : id ≠ q.id) :
    keeps id st s q = true := by
  unfold keeps
  rw [bne_iff_ne.mpr h.symm]
  rfl

theorem keeps_of_op {id : String} {st : SyncStatus} {s : Jobs} {q : Request}
    (hr : ∀ b, q.op ≠ .report b) (hd : q.op ≠ .delete) : keeps id st s q = true := by
  unfold keeps
  cases hq : q.op with
  | report b => exact absurd hq (hr b)
  | delete => exact absurd hq hd
  | _ => exact Bool.or_true _

theorem keeps_of_refused {id : String} {st : SyncStatus} {s : Jobs} {q : Request}
    (ha : accepted s q.env q.id = false) (hd : q.op ≠ .delete) : keeps id st s q = true := by
  unfold keeps
  rw [ha]
  cases hq : q.op with
  | delete => exact absurd hq hd
  | report b => simp
  | _ => exact Bool.or_true _

theorem statusIs_write {id : String} {st : SyncStatus} {s : Jobs} {job : Job} :
    StatusIs id st (s.write id job) ↔ job.status.status = st := by
  unfold StatusIs
  rw [Store.value_write_self]
  constructor
  · rintro ⟨j, hj, h⟩
    obtain rfl := Option.some.inj hj
    exact h
  · intro h
    exact ⟨job, rfl, h⟩

/-- Which requests leave a status alone, apart from the operator's commands. -/
theorem serve_statusIs_iff {id : String} {st : SyncStatus} {s : Jobs} {q : Request}
    (hs : StatusIs id st s) (hq : q.id = id → q.op.commands = false) :
    StatusIs id st (serve s q).store ↔ keeps id st s q = true := by
  have ho := serve_outcome s q
  by_cases hid : id = q.id
  · subst hid
    have hc := hq rfl
    have ⟨cur, hcur, hst⟩ := hs
    generalize (serve s q).store = s' at ho
    cases ho with
    | reads he hd hr =>
        refine iff_of_true hs (keeps_of_op (fun b hb => ?_) hr)
        rw [hb] at he
        cases he
    | refused he ha =>
        refine iff_of_true hs (keeps_of_refused ha fun hd => ?_)
        rw [hd] at he
        cases he
    | @status f job he ha hv =>
        rw [statusIs_write]
        obtain rfl := Option.some.inj (hcur.symm.trans hv)
        unfold keeps
        rw [bne_self_eq_false, Bool.false_or]
        cases hop : q.op with
        | report b =>
            rw [hop] at he
            cases he
            rw [ha]
            simp [reported]
        | register | schedule | size =>
            rw [hop] at he
            cases he
            exact iff_of_true hst rfl
        | enable | disable =>
            rw [hop] at hc
            cases hc
        | cmd c =>
            rw [hop] at hc he
            unfold Op.commands at hc
            unfold Op.effect at he
            cases hcmd : c.value.cmd <;> simp [hcmd] at hc he
        | create | delete | get | getConfig =>
            rw [hop] at he
            cases he
    | unapplied h => exact iff_of_true hs (keeps_of_op (by simp [h]) (by simp [h]))
    | spec h hv =>
        obtain rfl := Option.some.inj (hcur.symm.trans hv)
        exact iff_of_true (statusIs_write.mpr hst) (keeps_of_op (by simp [h]) (by simp [h]))
    | new h hv =>
        rw [hcur] at hv
        cases hv
    | removed h ha =>
        refine iff_of_false ?_ ?_
        · rintro ⟨job, hj, -⟩
          rw [Store.remove, Store.value_push_self] at hj
          cases hj
        · unfold keeps
          rw [h, ha]
          simp
    | kept h ha =>
        refine iff_of_true hs ?_
        rcases ha with ha | hv
        · unfold keeps
          rw [h, ha]
          simp
        · rw [hcur] at hv
          cases hv
  · refine iff_of_true ?_ (keeps_of_ne hid)
    unfold StatusIs
    rw [ho.value_of_ne hid]
    exact hs

theorem effect_of_decides {op : Op} {st : SyncStatus} (h : op.decides = some st) :
    ∃ f, op.effect = some f ∧ ∀ env cur, (f env cur).status = st := by
  cases op with
  | disable =>
      cases h
      exact ⟨_, rfl, fun _ _ => rfl⟩
  | cmd c =>
      unfold Op.decides at h
      unfold Op.effect
      cases hc : c.value.cmd <;> simp only [hc] at h ⊢ <;> cases h
      exact ⟨_, rfl, fun _ _ => rfl⟩
  | _ => cases h

/-- A stop or a disable is stored exactly when its update is accepted, or the status was stored
already. -/
theorem serve_decides_iff {s : Jobs} {q : Request} {st : SyncStatus} (hd : q.op.decides = some st) :
    StatusIs q.id st (serve s q).store ↔
      accepted s q.env q.id = true ∨ StatusIs q.id st s := by
  obtain ⟨f, hf, hst⟩ := effect_of_decides hd
  have ho := serve_outcome s q
  generalize (serve s q).store = s' at ho
  cases ho with
  | reads he =>
      rw [hf] at he
      cases he
  | refused he ha =>
      rw [ha]
      simp
  | @status g job he ha hv =>
      rw [hf] at he
      cases he
      exact iff_of_true (statusIs_write.mpr (hst _ _)) (.inl ha)
  | unapplied h | spec h | new h | removed h | kept h =>
      rw [h] at hf
      cases hf

/-- A disable that is answered with success was accepted. -/
theorem accepted_of_disable {s : Jobs} {env : Env} {id : String}
    (h : ((Code.disableJob env id).reply s).code = 200) : accepted s env id = true := by
  unfold Code.disableJob Code.setStatus at h
  rw [Code.reply_get] at h
  cases hg : get s env id with
  | error e =>
      rw [hg] at h
      have h500 : 500 = 200 := h
      omega
  | ok c =>
      rw [hg] at h
      dsimp only at h
      rw [Code.reply_store] at h
      rcases updateStatus_of_get hg { c.2.status with status := .disabled, lastOnline := env.now }
        with ⟨-, hu⟩ | ⟨ha, -⟩
      · simp only [hu] at h
        have h500 : 500 = 200 := h
        omega
      · exact ha

/-- **How long a decision lasts.**  After a stop or a disable was answered with success, and for
as long as the operator sends no other command for the job, the decided status is in the store
throughout exactly when the stop was stored at all and every request that follows leaves it
alone. -/
theorem run_decision_stays_iff (s : Jobs) (q : Request) (st : SyncStatus)
    (hd : q.op.decides = some st) (hok : (serve s q).code = 200) (rs : List Request)
    (hrs : ∀ r ∈ rs, r.id = q.id → r.op.commands = false) :
    Lts.Always step (StatusIs q.id st) (serve s q).store rs ↔
      (q.op ≠ .disable → accepted s q.env q.id = true ∨ StatusIs q.id st s) ∧
        Lts.Along step (fun s' r => keeps q.id st s' r = true) (serve s q).store rs := by
  have hstep : ∀ r ∈ rs, ∀ s₁ s₂, StatusIs q.id st s₁ → step s₁ r = some s₂ →
      (StatusIs q.id st s₂ ↔ keeps q.id st s₁ r = true) := by
    intro r hr s₁ s₂ h₁ h₂
    obtain rfl := Option.some.inj h₂
    exact serve_statusIs_iff h₁ (hrs r hr)
  rw [Lts.always_iff_along hstep fun r _ s' => ⟨_, rfl⟩, serve_decides_iff hd]
  refine and_congr_left fun _ => ⟨fun h _ => h, fun h => ?_⟩
  by_cases hq : q.op = .disable
  · left
    unfold serve code at hok
    rw [hq] at hok
    exact accepted_of_disable hok
  · exact h hq

/-! ### A stop among the worker's requests -/

/-- A store with one new Job. -/
def debian : Jobs :=
  (serve Store.empty ⟨"debian", .create ⟨⟨{}, true⟩, ⟨fun _ => none, true⟩⟩, {}⟩).store

def stopDebian : Request := ⟨"debian", .cmd ⟨{ cmd := .stop }, true⟩, { now := 10 }⟩

def reportDebian (status : SyncStatus) : Request :=
  ⟨"debian", .report ⟨{ status }, true⟩, { now := 11 }⟩

theorem run_decision_stays_until_register :
    Lts.Always step (StatusIs "debian" .paused) (serve debian stopDebian).store
      [⟨"debian", .register, { now := 12 }⟩, ⟨"debian", .schedule ⟨90, true⟩, { lag := 1 }⟩] :=
  (run_decision_stays_iff debian stopDebian .paused rfl rfl _ (by decide)).mpr
    ⟨fun _ => .inl (by decide), Lts.along_of_check (by decide)⟩

/-- A report that the worker had sent before it received the stop is stored after it. -/
theorem report_overwrites_stop :
    (serve debian stopDebian).code = 200 ∧
      StatusIs "debian" .paused (serve debian stopDebian).store ∧
      (reportDebian .failed).op.commands = false ∧
      StatusIs "debian" .failed
        (serve (serve debian stopDebian).store (reportDebian .failed)).store :=
  ⟨rfl, ⟨_, rfl, rfl⟩, rfl, ⟨_, rfl, rfl⟩⟩

end KubeSync.Manager
