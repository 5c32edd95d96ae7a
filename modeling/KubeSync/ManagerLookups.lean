import KubeSync.ManagerDecisions

/-! # Requests for a job that cannot be read

Ten handlers of the group `/job/:id` begin with `GetJob`, which writes a 500 response itself when
the lookup fails and returns no job.

* `Op.onMissing` lists the responses that the handler of a request writes in that case, the answer
  to an undecodable body included; `serve_of_missing` says that they are all that happens.
* `FailsCleanly` asks for one response with an error status, an unchanged store and no nil
  dereference; `serve_failsCleanly_iff` says which handlers give that. -/

namespace KubeSync.Manager

/-- The handlers that look the job up before they do anything with it: all of the group but
`createJob` and the commands other than stop. -/
def Op.looksUp : Op → Bool
  | .create _ => false
  | .cmd c => c.value.cmd = .stop
  | _ => true

/-- A nil pointer was dereferenced on the way. -/
def Reply.panicked (r : Reply) : Bool :=
  r.written.any fun w =>
    match w.body with
    | .nothing => w.code = recovered.code
    | _ => false

/-- What the handlers write when `GetJob` fails with `e`. -/
def Op.onMissing (id e : String) : Op → List Response
  | .register => [returnErrJSON 500 (getJobErr e), returnErrJSON 500 (getJobErr e)]
  | .schedule next =>
      next.answer ++ [returnErrJSON 500 (getJobErr e), ⟨200, .empty⟩, recovered]
  | .report status => status.answer ++ [returnErrJSON 500 (getJobErr e), recovered]
  | .size n =>
      n.answer ++ [returnErrJSON 500 (getJobErr e), returnErrJSON 500 (getJobErr e)]
  | .enable | .disable | .delete => [returnErrJSON 500 (getJobErr e)]
  | .cmd c => c.answer ++ [returnErrJSON 500 (getJobErr e)]
  | .get => [returnErrJSON 500 (getJobErr e), returnErrJSON 500 (getFailed id e)]
  | .getConfig => [returnErrJSON 500 (getJobErr e), recovered]
  | .create _ => []

/-- A request for a job that cannot be read does nothing but write responses. -/
theorem serve_of_missing {s : Jobs} {q : Request} {e : String} (hl : q.op.looksUp = true)
    (hg : get s q.env q.id = .error e) : serve s q = ⟨s, q.op.onMissing q.id e, []⟩ := by
  unfold serve code
  cases hq : q.op with
  | create b =>
      rw [hq] at hl
      cases hl
  | cmd c =>
      rw [hq] at hl
      have hc : c.value.cmd = .stop := of_decide_eq_true hl
      simp only [Code.handleClientCmd, hc, Code.reply_get, hg, Op.onMissing]
      rfl
  | register | schedule | report | size | enable | disable | delete | get | getConfig =>
      simp only [Code.registerMirror, Code.updateSchedule, Code.updateJob, Code.updateMirrorSize,
        Code.enableJob, Code.disableJob, Code.setStatus, Code.deleteJob, Code.getJob,
        Code.getJobConfig, Code.reply_get, hg, Op.onMissing]
      rfl

/-! ### Clean failures -/

/-- One response, with an error status, no write, and no nil dereference. -/
structure FailsCleanly (s : Jobs) (r : Reply) : Prop where
  answer : ∃ w, r.written = [w] ∧ 400 ≤ w.code
  unchanged : r.store = s
  sound : r.panicked = false

/-- The handlers that return as soon as the lookup has failed; a stop does so too, but its body was
answered before when it did not decode. -/
def Op.returnsAtOnce : Op → Bool
  | .enable | .disable | .delete => true
  | .cmd c => c.ok
  | _ => false

theorem failsCleanly_single (s : Jobs) (text : String) :
    FailsCleanly s ⟨s, [returnErrJSON 500 text], []⟩ :=
  ⟨⟨_, rfl, Nat.le_add_right 400 100⟩, rfl, rfl⟩

theorem not_failsCleanly_of_two {s : Jobs} {r : Reply} {w w' : Response} {ws : List Response}
    (h : r.written = w :: w' :: ws) : ¬ FailsCleanly s r := by
  rintro ⟨⟨v, hv, -⟩, -, -⟩
  rw [h] at hv
  cases hv

/-- A handler that answers a body first and goes on writes two responses at least. -/
theorem not_failsCleanly_of_answer {s : Jobs} {r : Reply} {α : Type} {b : Decoded α}
    {w w' : Response} {ws : List Response} (h : r.written = b.answer ++ w :: w' :: ws) :
    ¬ FailsCleanly s r := by
  unfold Decoded.answer at h
  split at h
  · exact not_failsCleanly_of_two h
  · exact not_failsCleanly_of_two h

/-- **Which handlers fail cleanly.**  For a job whose lookup fails, the handler writes exactly one
response, with an error status, and neither writes to the store nor uses the missing job, exactly
when it is one of those that return at once. -/
theorem serve_failsCleanly_iff (s : Jobs) (q : Request) (e : String)
    (hl : q.op.looksUp = true) (hg : get s q.env q.id = .error e) :
    FailsCleanly s (serve s q) ↔ q.op.returnsAtOnce = true := by
  rw [serve_of_missing hl hg]
  cases hq : q.op with
  | enable | disable | delete => exact iff_of_true (failsCleanly_single s _) rfl
  | register | get | getConfig =>
      exact iff_of_false (not_failsCleanly_of_two rfl) Bool.false_ne_true
  | schedule | report | size =>
      exact iff_of_false (not_failsCleanly_of_answer rfl) Bool.false_ne_true
  | cmd c =>
      obtain ⟨v, ok⟩ := c
      cases ok with
      | true => exact iff_of_true (failsCleanly_single s _) rfl
      | false => exact iff_of_false (not_failsCleanly_of_two rfl) Bool.false_ne_true
  | create b =>
      rw [hq] at hl
      cases hl

theorem disable_missing_failsCleanly :
    FailsCleanly Versioned.Store.empty (serve Versioned.Store.empty ⟨"debian", .disable, {}⟩) :=
  (serve_failsCleanly_iff Versioned.Store.empty ⟨"debian", .disable, {}⟩ "" rfl rfl).mpr rfl

/-- A schedule report for a job that does not exist is answered three times, in the end by the
recovery from a nil dereference. -/
theorem schedule_missing_panics :
    Op.looksUp (.schedule ⟨90, true⟩) = true ∧
      get Versioned.Store.empty {} "debian" = .error "" ∧
      (serve Versioned.Store.empty ⟨"debian", .schedule ⟨90, true⟩, {}⟩).written.length = 3 ∧
      (serve Versioned.Store.empty ⟨"debian", .schedule ⟨90, true⟩, {}⟩).panicked = true ∧
      ¬ FailsCleanly Versioned.Store.empty
        (serve Versioned.Store.empty ⟨"debian", .schedule ⟨90, true⟩, {}⟩) :=
  ⟨rfl, rfl, rfl, rfl, not_failsCleanly_of_two rfl⟩

end KubeSync.Manager
