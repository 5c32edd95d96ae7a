import KubeSync.ManagerFiles

/-! # Requests that fail behind a write

`handleClientCmd` writes the status of the Job before it posts the command, and `updateFile` writes
the spec of the File before it reads it again and writes its status.  Neither takes its first write
back when a later step fails.

* `Failed written`: the last response that the handler has written is not a 200.
* `failed_keeps_first_write`: a request that fails leaves the store as its first write left it, and
  as it was where it fails before that. -/

namespace KubeSync.Manager

open Versioned (Store)

/-- The handler has not come to the answer of a request that succeeds. -/
def Failed (written : List Response) : Prop := ∀ r, written.getLast? = some r → r.code ≠ 200

/-- The only difference is that `new` is stored under `id`. -/
structure Wrote {α : Type} (s s' : Store String α) (id : String) (new : α) : Prop where
  self : s'.value id = some new
  other : ∀ id', id' ≠ id → s'.value id' = s.value id'

theorem wrote_write {α : Type} [DecidableEq α] (s : Store String α) (id : String) (new : α) :
    Wrote s (s.write id new) id new :=
  ⟨s.value_write_self id new, fun _ h => s.value_write_of_ne new h⟩

/-! ### Commands -/

/-- The Job as a stop command stores it. -/
def paused (job : Job) (now : ℤ) : Job :=
  { job with status := { job.status with status := .paused, lastOnline := now } }

theorem updateStatus_wrote {s s' : Jobs} {env : Env} {id : String} {n : ℕ} {job : Job}
    {st : JobStatus} (hget : get s env id = .ok (n, job))
    (h : updateStatus s env id n st = .ok s') :
    s.value id = some job ∧ Wrote s s' id { job with status := st } := by
  unfold get at hget
  unfold updateStatus at h
  split at hget
  · cases hget
  · split at hget
    · rename_i hseen
      cases hget
      split at h
      · cases h
      · split at h
        · rename_i hmodify
          cases h
          obtain ⟨hvalue, rfl⟩ := Store.modify_seen hseen hmodify
          exact ⟨hvalue, wrote_write s id _⟩
        · cases h
    · cases hget

/-- What a command does to the store, whatever becomes of the post. -/
theorem handleClientCmd_store {s : Jobs} {env : Env} {id : String} {cmd : Decoded ClientCmd}
    {r : Reply} (hr : handleClientCmd s env id cmd = r) :
    if r.posted ≠ [] ∧ cmd.value.cmd = .stop then
      ∃ job, s.value id = some job ∧ Wrote s r.store id (paused job env.now)
    else r.store = s := by
  unfold handleClientCmd Code.handleClientCmd at hr
  split at hr
  · rename_i hstop
    rw [Code.reply_get] at hr
    split at hr
    · subst hr
      rw [if_neg fun h => h.1 rfl]
      rfl
    · rename_i n job hget
      rw [Code.reply_write] at hr
      split at hr
      · subst hr
        rw [if_neg fun h => h.1 rfl]
      · rename_i s' hupdate
        subst hr
        obtain ⟨hvalue, hwrote⟩ := updateStatus_wrote hget hupdate
        rw [if_pos ⟨List.cons_ne_nil _ _, hstop⟩]
        exact ⟨job, hvalue, hwrote⟩
  · rename_i hstop
    subst hr
    rw [if_neg fun h => hstop h.2]
    rfl

/-! ### Files -/

/-- `updateFile` patches the spec of the File. -/
def patches (s : Files) (env : FileEnv) (id : String) (nFile : FileBase) : Prop :=
  fileInfos nFile.files ≠ none ∧
    newSpec nFile (getFile s env.getFails env.lag id) ≠
      oldSpec (getFile s env.getFails env.lag id) ∧
    env.patchFails = false

/-- The File as the patch stores it. -/
def patched (s : Files) (env : FileEnv) (id : String) (nFile : FileBase) : File where
  spec := newSpec nFile (getFile s env.getFails env.lag id)
  status := ((s.value id).map File.status).getD {}

theorem applyObject_wrote (s : Files) (id : String) (spec : FileSpec) :
    Wrote s (applyObject s id { spec } fun f => { f with spec }) id
      { spec, status := ((s.value id).map File.status).getD {} } := by
  unfold applyObject
  cases h : s.value id with
  | none => exact wrote_write s id _
  | some f => exact wrote_write s id _

theorem not_failed_ok {written : List Response} {r : Response} (hr : r.code = 200) :
    ¬ Failed (written ++ [r]) := by
  intro h
  exact h r List.getLast?_concat hr

/-- The last part of the handler keeps the store, if it fails. -/
theorem finishFile_store {s : Files} {env : FileEnv} {id : String} {copy : Option (ℕ × File)}
    {infos : List FileInfo} {before : List Response} {a : Answer Files}
    (ha : finishFile s env id copy infos before = a) (h : Failed a.written) : a.store = s := by
  unfold finishFile at ha
  dsimp only at ha
  split at ha
  · subst ha
    exact absurd h (not_failed_ok rfl)
  · split at ha
    · subst ha
      exact absurd h (not_failed_ok rfl)
    · subst ha
      rfl

/-- What a failed `updateFile` leaves in the store. -/
theorem updateFile_store {s : Files} {env : FileEnv} {id : String} {nFile : Decoded FileBase}
    {a : Answer Files} (ha : updateFile s env id nFile = a) (h : Failed a.written) :
    (patches s env id nFile.value → Wrote s a.store id (patched s env id nFile.value)) ∧
      (¬ patches s env id nFile.value → a.store = s) := by
  unfold updateFile at ha
  split at ha
  · rename_i hinfos
    subst ha
    exact ⟨fun hp => absurd hinfos hp.1, fun _ => rfl⟩
  · rename_i infos hinfos
    dsimp only at ha
    split at ha
    · rename_i hspec
      exact ⟨fun hp => absurd hspec hp.2.1, fun _ => finishFile_store ha h⟩
    · rename_i hspec
      split at ha
      · rename_i hfails
        subst ha
        exact ⟨fun hp => absurd hfails (by rw [hp.2.2]; exact Bool.false_ne_true), fun _ => rfl⟩
      · rename_i hfails
        have hp : patches s env id nFile.value :=
          ⟨by rw [hinfos]; nofun, hspec, eq_false_of_ne_true hfails⟩
        refine ⟨fun _ => ?_, fun hn => absurd hp hn⟩
        have hwrote := applyObject_wrote s id
          (newSpec nFile.value (getFile s env.getFails env.lag id))
        split at ha
        · subst ha
          exact hwrote
        · rw [finishFile_store ha h]
          exact hwrote

/-! ### Failed requests -/

/-- **Failed requests.**  A command that fails leaves the store alone, but for a stop that was
posted, which leaves the Job as it has stored it; a failed `updateFile` leaves the store alone, but
where it has patched the File, which keeps the new spec and the old status. -/
theorem failed_keeps_first_write (s : Jobs) (env : Env) (id : String) (cmd : Decoded ClientCmd)
    (files : Files) (fileEnv : FileEnv) (fileID : String) (nFile : Decoded FileBase) :
    (Failed (handleClientCmd s env id cmd).written →
      if (handleClientCmd s env id cmd).posted ≠ [] ∧ cmd.value.cmd = .stop then
        ∃ job, s.value id = some job ∧
          Wrote s (handleClientCmd s env id cmd).store id (paused job env.now)
      else (handleClientCmd s env id cmd).store = s) ∧
    (Failed (updateFile files fileEnv fileID nFile).written →
      (patches files fileEnv fileID nFile.value →
        Wrote files (updateFile files fileEnv fileID nFile).store fileID
          (patched files fileEnv fileID nFile.value)) ∧
      (¬ patches files fileEnv fileID nFile.value →
        (updateFile files fileEnv fileID nFile).store = files)) :=
  ⟨fun _ => handleClientCmd_store rfl, fun h => updateFile_store rfl h⟩

/-- A Job that is syncing. -/
def syncingDebian : Jobs :=
  Store.empty.write "debian" { name := "debian", status := { status := .syncing } }

def stopCommand : Decoded ClientCmd := ⟨{ cmd := .stop }, true⟩

/-- The worker cannot be reached. -/
def unreachable : Env := { now := 1700000000, post := .failed "connection refused" }

def isoList : Decoded FileBase :=
  ⟨{ type := "os", files := [("archlinux-2024.01.01-x86_64.iso".toList, 1)] }, true⟩

/-- The cache has not seen the patch when the File is read again. -/
def staleRead : FileEnv := { lag' := 1 }

theorem failed_keeps_first_write_debian :
    (∃ job, syncingDebian.value "debian" = some job ∧
      Wrote syncingDebian (handleClientCmd syncingDebian unreachable "debian" stopCommand).store
        "debian" (paused job 1700000000)) ∧
    Wrote Store.empty (updateFile Store.empty staleRead "archlinux" isoList).store "archlinux"
      (patched Store.empty staleRead "archlinux" isoList.value) := by
  obtain ⟨hcmd, hfile⟩ := failed_keeps_first_write syncingDebian unreachable "debian" stopCommand
    Store.empty staleRead "archlinux" isoList
  constructor
  · have h := hcmd fun r hr => by
      obtain rfl := Option.some.inj hr
      decide
    rwa [if_pos ⟨List.cons_ne_nil _ _, rfl⟩] at h
  · refine (hfile fun r hr => ?_).1 ⟨by decide, by decide, rfl⟩
    obtain rfl := Option.some.inj hr
    decide

/-- The client is answered 500 and the store has changed. -/
theorem failed_requests_not_undone :
    ((handleClientCmd syncingDebian unreachable "debian" stopCommand).code = 500 ∧
      (handleClientCmd syncingDebian unreachable "debian" stopCommand).store.value "debian" ≠
        syncingDebian.value "debian") ∧
    ((updateFile Store.empty staleRead "archlinux" isoList).written.map Response.code = [500] ∧
      (updateFile Store.empty staleRead "archlinux" isoList).store.value "archlinux" ≠ none) := by
  decide

end KubeSync.Manager
