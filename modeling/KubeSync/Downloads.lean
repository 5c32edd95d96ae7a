import KubeSync.Lts
import Mathlib.Data.Int.Notation
import Mathlib.Logic.Function.Basic

/-! # The downloads of the sync scripts

The loops of `github-release.py` (`do_download`, `downloading_worker`) and `anaconda.py`
(`curl_download`, `sync_repo`, `sync_installer`) that bring a destination file up to date.

* The files are a map from paths.  A label of a step is one task with all that the network and the
  machine answer to it, and the file that is on the server, `remote`, which no script can see.
* The temporary file of `do_download` has a name of its own and is gone when the function returns.
  A task changes its destination in one operation, so that the labels of a run are the tasks in the
  order of these operations, whichever worker has them.
* `Kept` says that a destination which was there holds the old or the complete new version, and
  `downloads_keep_iff` when all tasks of a run do so: the file is removed where a download fails
  (`github-release.py`) or before it is tried (`anaconda.py`). -/

namespace KubeSync.Downloads

/-! ### Files -/

abbrev Bytes := List UInt8

/-- The content and the time stamp of a file. -/
structure File where
  content : Bytes
  mtime : ℤ
deriving DecidableEq, Repr

abbrev Files := String → Option File

def unlink (files : Files) (path : String) : Files := Function.update files path none

def put (files : Files) (path : String) (file : File) : Files :=
  Function.update files path (some file)

/-- What a task does to a destination that is there: it keeps it, or puts the complete new version
in its place. -/
def Kept (dst : String) (remote : Bytes) (files files' : Files) : Prop :=
  ∀ old, files dst = some old →
    files' dst = some old ∨ ∃ new, files' dst = some new ∧ new.content = remote

/-- A step of a script keeps the destination of its task. -/
def Keeps {σ ℓ : Type} (step : σ → ℓ → Option σ) (files : σ → Files) (dst : ℓ → String)
    (remote : ℓ → Bytes) (s : σ) (l : ℓ) : Prop :=
  ∀ s', step s l = some s' → Kept (dst l) (remote l) (files s) (files s')

/-! ### `github-release.py` -/

/-- An item of the queue. -/
structure Item where
  dstFile : String
  updated : ℤ
  /-- The size that the API gives, -1 for a tarball. -/
  remoteSize : ℤ

/-- What the server answers: an error, a body in which the connection breaks, or a body that ends
without an error, which may be short. -/
inductive Answer where
  | error
  | aborted (part : Bytes)
  | body (content : Bytes)

structure ItemEnv where
  remote : Bytes
  answer : Answer
  /-- The temporary file can be written, changed and moved. -/
  stored : Bool := true

/-- `do_download`; an exception is `none`. -/
def doDownload (item : Item) (env : ItemEnv) (files : Files) : Option Files :=
  match env.answer with
  | .error => none
  | .aborted _ => none
  | .body content =>
      if item.remoteSize ≠ -1 ∧ (content.length : ℤ) ≠ item.remoteSize then none
      else if env.stored then some (put files item.dstFile ⟨content, item.updated⟩)
      else none

/-- An iteration of `downloading_worker`. -/
def downloadingWorker (files : Files) (task : Item × ItemEnv) : Option Files :=
  match doDownload task.1 task.2 files with
  | some files' => some files'
  | none => some (if (files task.1.dstFile).isSome then unlink files task.1.dstFile else files)

/-! ### `anaconda.py` -/

structure Hashes where
  sha256 : Bytes → String
  md5 : Bytes → String

/-- One attempt: `curl` fails, or it saves a file, or there is an exception of another kind behind
it.  The first and the last leave some file or none under the name of the download. -/
inductive Attempt where
  | failed (wip : Option File)
  | saved (file : File)
  | raised (wip : Option File)

/-- A checksum that is given and not empty. -/
def given (sum : Option String) : Option String := sum.filter (· ≠ "")

/-- The result of `curl_download` where `curl` succeeds. -/
def mismatch (h : Hashes) (sha256 md5 : Option String) (file : File) : Option String :=
  if (given sha256).any (· ≠ h.sha256 file.content) then some "SHA256 mismatch"
  else if (given md5).any (· ≠ h.md5 file.content) then some "MD5 mismatch"
  else none

/-- The files of a script, and whether it has left its loop. -/
structure State where
  files : Files
  stopped : Bool := false

def wipName (filename : String) : String := ".downloading." ++ filename

/-- The loop of the attempts: `n` are left and the next one is the one with the number `retry`. -/
def attempts (check : File → Option String) (filename : String) (tries : ℕ → Attempt) :
    ℕ → ℕ → Files → State
  | 0, _, files => { files }
  | n + 1, retry, files =>
      match tries retry with
      | .raised wip => { files := Function.update files (wipName filename) wip, stopped := true }
      | .failed wip =>
          attempts check filename tries n (retry + 1)
            (Function.update files (wipName filename) wip)
      | .saved file =>
          match check file with
          | some _ =>
              attempts check filename tries n (retry + 1) (put files (wipName filename) file)
          | none => { files := put (unlink files (wipName filename)) filename file }

/-- `for retry in range(3)`. -/
def download (check : File → Option String) (filename : String) (tries : ℕ → Attempt) :
    Files → State := attempts check filename tries 3 0

def excludedPackages : List String := ["pytorch-nightly", "pytorch-nightly-cpu", "ignite-nightly"]

/-- An entry of `packages`. -/
structure Package where
  filename : String
  name : String
  size : ℕ
  sha256 : Option String
  md5 : Option String

structure PackageEnv where
  remote : Bytes
  tries : ℕ → Attempt

/-- The check of a package: the MD5 sum is used only where there is no SHA256 sum. -/
def Package.check (h : Hashes) (p : Package) : File → Option String :=
  mismatch h p.sha256 (if p.sha256.isSome then none else p.md5)

/-- An iteration of `sync_repo`. -/
def syncRepo (h : Hashes) (s : State) (task : Package × PackageEnv) : Option State :=
  let p := task.1
  if s.stopped then none
  else if p.name ∈ excludedPackages then some s
  else
    match s.files p.filename with
    | none => some (download (p.check h) p.filename task.2.tries s.files)
    | some file =>
        if p.size = file.content.length then some s
        else
          some (download (p.check h) p.filename task.2.tries (unlink s.files p.filename))

/-- An entry of the table of installers. -/
structure Installer where
  filename : String
  sha256 : String

/-- The headers of `requests.head`. -/
structure Head where
  contentLength : Option ℕ
  lastModified : ℤ

structure InstallerEnv where
  remote : Bytes
  /-- `none` where the request or the reading of its headers raises an exception. -/
  head : Option Head
  /-- `random.random() < 0.95`. -/
  lucky : Bool
  tries : ℕ → Attempt

/-- The test that an installer is up to date. -/
def upToDate (h : Hashes) (i : Installer) (lucky : Bool) (r : Head) (file : File) : Bool :=
  r.contentLength.all (· = file.content.length) && decide (r.lastModified = file.mtime) &&
    (lucky || decide (h.sha256 file.content = i.sha256))

/-- An iteration of `sync_installer`. -/
def syncInstaller (h : Hashes) (fullScan : Bool) (s : State) (task : Installer × InstallerEnv) :
    Option State :=
  let i := task.1
  let check := mismatch h (some i.sha256) none
  if s.stopped then none
  else
    match s.files i.filename with
    | none => some (download check i.filename task.2.tries s.files)
    | some file =>
        match task.2.head with
        | none => some { s with stopped := true }
        | some r =>
            if upToDate h i task.2.lucky r file then some { s with stopped := !fullScan }
            else some (download check i.filename task.2.tries (unlink s.files i.filename))

/-! ### The attempts -/

/-- The attempt is followed by another one. -/
def Fails (check : File → Option String) : Attempt → Prop
  | .failed _ => True
  | .saved file => check file ≠ none
  | .raised _ => False

/-- One of the `n` attempts from `k` on brings `file`, which passes its check; those before it
fail. -/
def Brings (check : File → Option String) (tries : ℕ → Attempt) (k n : ℕ) (file : File) : Prop :=
  ∃ retry, k ≤ retry ∧ retry < k + n ∧ tries retry = .saved file ∧ check file = none ∧
    ∀ i, k ≤ i → i < retry → Fails check (tries i)

variable {check : File → Option String} {filename : String} {tries : ℕ → Attempt} {files : Files}
  {remote : Bytes} {file : File}

theorem wipName_ne (filename : String) : wipName filename ≠ filename := by
  intro h
  have hlength := congrArg String.length h
  rw [wipName, String.length_append] at hlength
  have hpos : 0 < ".downloading.".length := by decide
  omega

theorem update_wip (filename : String) (files : Files) (wip : Option File) :
    Function.update files (wipName filename) wip filename = files filename :=
  Function.update_of_ne (wipName_ne filename).symm _ _

theorem brings_of_fails {k n : ℕ} (h : Fails check (tries k)) :
    Brings check tries k (n + 1) file ↔ Brings check tries (k + 1) n file := by
  constructor
  · rintro ⟨retry, hk, hlt, hs, hc, hall⟩
    have hne : retry ≠ k := by
      rintro rfl
      rw [hs] at h
      exact h hc
    exact ⟨retry, by omega, by omega, hs, hc, fun i hi => hall i (by omega)⟩
  · rintro ⟨retry, hk, hlt, hs, hc, hall⟩
    refine ⟨retry, by omega, by omega, hs, hc, fun i hi hlt => ?_⟩
    rcases Nat.eq_or_lt_of_le hi with rfl | hi
    · exact h
    · exact hall i hi hlt

theorem brings_of_not_fails {k n : ℕ} (h : ¬ Fails check (tries k)) :
    Brings check tries k (n + 1) file ↔ tries k = .saved file ∧ check file = none := by
  constructor
  · rintro ⟨retry, hk, hlt, hs, hc, hall⟩
    rcases Nat.eq_or_lt_of_le hk with rfl | hk
    · exact ⟨hs, hc⟩
    · exact absurd (hall k (Nat.le_refl k) hk) h
  · rintro ⟨hs, hc⟩
    exact ⟨k, by omega, by omega, hs, hc, fun i hi hlt => by omega⟩

/-- The loop puts the first file that passes its check at the destination. -/
theorem attempts_eq_some (n : ℕ) {k : ℕ} (hfiles : files filename = none) :
    (attempts check filename tries n k files).files filename = some file ↔
      Brings check tries k n file := by
  induction n generalizing k files with
  | zero =>
      refine iff_of_false (by simp [attempts, hfiles]) ?_
      rintro ⟨retry, hk, hlt, -⟩
      omega
  | succ n ih =>
      unfold attempts
      cases htry : tries k with
      | raised wip =>
          rw [brings_of_not_fails (by simp [htry, Fails]), htry]
          simp [update_wip, hfiles]
      | failed wip =>
          rw [brings_of_fails (by simp [htry, Fails])]
          exact ih ((update_wip filename files wip).trans hfiles)
      | saved new =>
          cases hc : check new with
          | some err =>
              rw [brings_of_fails (by simp [htry, Fails, hc])]
              dsimp only
              rw [hc]
              exact ih ((update_wip filename files _).trans hfiles)
          | none =>
              rw [brings_of_not_fails (by simp [htry, Fails, hc]), htry]
              dsimp only
              rw [hc]
              simp only [put, Function.update_self, Option.some.injEq, Attempt.saved.injEq]
              constructor
              · rintro rfl
                exact ⟨rfl, hc⟩
              · exact And.left

/-! ### The destination of a task -/

/-- The file that is brought is the complete new version, or the old file again. -/
def Whole (remote : Bytes) (old : Option File) (new : File) : Prop :=
  new.content = remote ∨ old = some new

/-- The condition on a task of `github-release.py`: there is no file to lose, or the download
succeeds. -/
def ItemSafe (files : Files) (task : Item × ItemEnv) : Prop :=
  files task.1.dstFile = none ∨
    ∃ content, task.2.answer = .body content ∧ task.2.stored = true ∧
      (task.1.remoteSize = -1 ∨ (content.length : ℤ) = task.1.remoteSize) ∧
      Whole task.2.remote (files task.1.dstFile) ⟨content, task.1.updated⟩

/-- The condition on a task of `sync_repo`: there is no file to lose, it is left alone, or one of
the attempts brings the new one. -/
def PackageSafe (h : Hashes) (s : State) (task : Package × PackageEnv) : Prop :=
  s.stopped = true ∨ task.1.name ∈ excludedPackages ∨ s.files task.1.filename = none ∨
    (∃ file, s.files task.1.filename = some file ∧ task.1.size = file.content.length) ∨
    ∃ file, Brings (task.1.check h) task.2.tries 0 3 file ∧
      Whole task.2.remote (s.files task.1.filename) file

/-- The condition on a task of `sync_installer`. -/
def InstallerSafe (h : Hashes) (s : State) (task : Installer × InstallerEnv) : Prop :=
  s.stopped = true ∨ s.files task.1.filename = none ∨ task.2.head = none ∨
    (∃ r file, task.2.head = some r ∧ s.files task.1.filename = some file ∧
      upToDate h task.1 task.2.lucky r file = true) ∨
    ∃ file, Brings (mismatch h (some task.1.sha256) none) task.2.tries 0 3 file ∧
      Whole task.2.remote (s.files task.1.filename) file

theorem kept_of_eq {dst : String} {files' : Files} (h : files' dst = files dst) :
    Kept dst remote files files' := fun _ hold => .inl (h.trans hold)

theorem kept_of_none {dst : String} {files' : Files} (h : files dst = none) :
    Kept dst remote files files' := by
  intro old hold
  cases h.symm.trans hold

theorem keeps_of_step {σ ℓ : Type} {step : σ → ℓ → Option σ} {get : σ → Files} {dst : ℓ → String}
    {remote : ℓ → Bytes} {s s' : σ} {l : ℓ} (h : step s l = some s') :
    Keeps step get dst remote s l ↔ Kept (dst l) (remote l) (get s) (get s') := by
  unfold Keeps
  rw [h]
  exact ⟨fun hk => hk s' rfl, fun hk s₁ h₁ => Option.some.inj h₁ ▸ hk⟩

theorem keeps_of_none {σ ℓ : Type} {step : σ → ℓ → Option σ} {get : σ → Files} {dst : ℓ → String}
    {remote : ℓ → Bytes} {s : σ} {l : ℓ} (h : step s l = none) : Keeps step get dst remote s l := by
  intro s' hs'
  cases h.symm.trans hs'

/-- A destination that is replaced or removed. -/
theorem kept_iff {dst : String} {files' : Files} (hold : files dst ≠ none) :
    Kept dst remote files files' ↔ ∃ new, files' dst = some new ∧ Whole remote (files dst) new := by
  obtain ⟨old, hold⟩ := Option.ne_none_iff_exists'.mp hold
  unfold Kept Whole
  rw [hold]
  constructor
  · intro h
    rcases h old rfl with hsame | ⟨new, hnew, hremote⟩
    · exact ⟨old, hsame, .inr rfl⟩
    · exact ⟨new, hnew, .inl hremote⟩
  · rintro ⟨new, hnew, hremote | hsame⟩ old' hold'
    · exact .inr ⟨new, hnew, hremote⟩
    · exact .inl (hnew.trans (hsame.symm.trans hold'))

/-- The outcome of a download of `github-release.py`. -/
theorem doDownload_eq_some {item : Item} {env : ItemEnv} {files' : Files} :
    doDownload item env files = some files' ↔
      ∃ content, env.answer = .body content ∧ env.stored = true ∧
        (item.remoteSize = -1 ∨ (content.length : ℤ) = item.remoteSize) ∧
        files' = put files item.dstFile ⟨content, item.updated⟩ := by
  unfold doDownload
  cases env.answer with
  | error => simp
  | aborted part => simp
  | body content =>
      simp only [Answer.body.injEq, exists_eq_left', Option.ite_none_left_eq_some,
        Option.ite_none_right_eq_some, Option.some.injEq, not_and_or, not_not, ne_eq]
      constructor
      · rintro ⟨hsize, hstored, rfl⟩
        exact ⟨hstored, hsize, rfl⟩
      · rintro ⟨hstored, hsize, rfl⟩
        exact ⟨hsize, hstored, rfl⟩

theorem item_keeps_iff (files : Files) (task : Item × ItemEnv) :
    Keeps downloadingWorker id (fun task => task.1.dstFile) (fun task => task.2.remote) files task ↔
      ItemSafe files task := by
  unfold ItemSafe
  by_cases hold : files task.1.dstFile = none
  · exact iff_of_true (fun files' _ => kept_of_none hold) (.inl hold)
  rw [or_iff_right hold]
  cases hd : doDownload task.1 task.2 files with
  | none =>
      have hstep : downloadingWorker files task = some (unlink files task.1.dstFile) := by
        simp [downloadingWorker, hd, Option.isSome_iff_ne_none.mpr hold]
      rw [keeps_of_step hstep, id, id, kept_iff hold]
      refine iff_of_false (by simp [unlink]) ?_
      rintro ⟨content, ha, hs, hsize, -⟩
      cases hd.symm.trans (doDownload_eq_some.mpr ⟨content, ha, hs, hsize, rfl⟩)
  | some files' =>
      have hstep : downloadingWorker files task = some files' := by
        simp [downloadingWorker, hd]
      rw [keeps_of_step hstep, id, id, kept_iff hold]
      obtain ⟨content, ha, hs, hsize, rfl⟩ := doDownload_eq_some.mp hd
      have hput : put files task.1.dstFile ⟨content, task.1.updated⟩ task.1.dstFile =
          some ⟨content, task.1.updated⟩ := Function.update_self _ _ _
      constructor
      · rintro ⟨new, hnew, hwhole⟩
        obtain rfl := Option.some.inj (hput.symm.trans hnew)
        exact ⟨content, ha, hs, hsize, hwhole⟩
      · rintro ⟨content', ha', -, -, hwhole⟩
        obtain rfl := Answer.body.inj (ha.symm.trans ha')
        exact ⟨_, hput, hwhole⟩

/-- The destination is removed, and the attempts follow. -/
theorem download_kept_iff (hold : files filename ≠ none) :
    Kept filename remote files (download check filename tries (unlink files filename)).files ↔
      ∃ file, Brings check tries 0 3 file ∧ Whole remote (files filename) file := by
  rw [kept_iff hold]
  have hnone : unlink files filename filename = none := Function.update_self _ _ _
  exact exists_congr fun new => and_congr_left' (attempts_eq_some 3 hnone)

theorem package_keeps_iff (h : Hashes) (s : State) (task : Package × PackageEnv) :
    Keeps (syncRepo h) State.files (fun task => task.1.filename) (fun task => task.2.remote) s
      task ↔ PackageSafe h s task := by
  unfold PackageSafe
  by_cases hs : s.stopped = true
  · exact iff_of_true (keeps_of_none (if_pos hs)) (.inl hs)
  by_cases hex : task.1.name ∈ excludedPackages
  · refine iff_of_true ?_ (.inr (.inl hex))
    exact (keeps_of_step ((if_neg hs).trans (if_pos hex))).mpr (kept_of_eq rfl)
  rw [or_iff_right hs, or_iff_right hex]
  have hstep : syncRepo h s task = _ := (if_neg hs).trans (if_neg hex)
  cases hold : s.files task.1.filename with
  | none =>
      rw [hold] at hstep
      exact iff_of_true ((keeps_of_step hstep).mpr (kept_of_none hold)) (.inl rfl)
  | some file =>
      rw [hold] at hstep
      by_cases hsize : task.1.size = file.content.length
      · refine iff_of_true ?_ (.inr (.inl ⟨file, rfl, hsize⟩))
        exact (keeps_of_step (hstep.trans (if_pos hsize))).mpr (kept_of_eq rfl)
      · rw [keeps_of_step (hstep.trans (if_neg hsize)), download_kept_iff (by simp [hold]), hold]
        simp [hsize]

theorem installer_keeps_iff (h : Hashes) (fullScan : Bool) (s : State)
    (task : Installer × InstallerEnv) :
    Keeps (syncInstaller h fullScan) State.files (fun task => task.1.filename)
      (fun task => task.2.remote) s task ↔ InstallerSafe h s task := by
  unfold InstallerSafe
  by_cases hs : s.stopped = true
  · exact iff_of_true (keeps_of_none (if_pos hs)) (.inl hs)
  rw [or_iff_right hs]
  have hstep : syncInstaller h fullScan s task = _ := if_neg hs
  cases hold : s.files task.1.filename with
  | none =>
      rw [hold] at hstep
      exact iff_of_true ((keeps_of_step hstep).mpr (kept_of_none hold)) (.inl rfl)
  | some file =>
      rw [hold] at hstep
      cases hhead : task.2.head with
      | none =>
          rw [hhead] at hstep
          exact iff_of_true ((keeps_of_step hstep).mpr (kept_of_eq rfl)) (.inr (.inl rfl))
      | some r =>
          rw [hhead] at hstep
          by_cases hup : upToDate h task.1 task.2.lucky r file = true
          · refine iff_of_true ?_ (.inr (.inr (.inl ⟨r, file, rfl, rfl, hup⟩)))
            exact (keeps_of_step (hstep.trans (if_pos hup))).mpr (kept_of_eq rfl)
          · rw [keeps_of_step (hstep.trans (if_neg hup)), download_kept_iff (by simp [hold]), hold]
            simp [hup]

/-- **Downloads.**  In every run of the three loops, each task leaves a destination that was there
as it was, or puts the complete new version in its place, exactly when at each task there is no
such destination, it is skipped, or the download succeeds. -/
theorem downloads_keep_iff (h : Hashes) (fullScan : Bool) (files : Files) (s s' : State)
    (items : List (Item × ItemEnv)) (packages : List (Package × PackageEnv))
    (installers : List (Installer × InstallerEnv)) :
    (Lts.Along downloadingWorker
          (Keeps downloadingWorker id (fun task => task.1.dstFile) fun task => task.2.remote)
          files items ↔
        Lts.Along downloadingWorker ItemSafe files items) ∧
    (Lts.Along (syncRepo h)
          (Keeps (syncRepo h) State.files (fun task => task.1.filename) fun task => task.2.remote)
          s packages ↔
        Lts.Along (syncRepo h) (PackageSafe h) s packages) ∧
    (Lts.Along (syncInstaller h fullScan)
          (Keeps (syncInstaller h fullScan) State.files (fun task => task.1.filename)
            fun task => task.2.remote)
          s' installers ↔
        Lts.Along (syncInstaller h fullScan) (InstallerSafe h) s' installers) :=
  ⟨Lts.along_congr item_keeps_iff, Lts.along_congr (package_keeps_iff h),
    Lts.along_congr (installer_keeps_iff h fullScan)⟩

/-- A directory with one file in it. -/
def oneFile (path : String) : Files := put (fun _ => none) path ⟨[1], 0⟩

/-- A file that is to be replaced is gone behind an error of the server. -/
theorem failed_download_removes :
    (∃ files, downloadingWorker (oneFile "repo/v1/a.zip")
        (⟨"repo/v1/a.zip", 1, 2⟩, { remote := [2, 2], answer := .error }) = some files ∧
      files "repo/v1/a.zip" = none) ∧
    (∃ s, syncRepo ⟨fun _ => "", fun _ => ""⟩ ⟨oneFile "a-1.conda", false⟩
        (⟨"a-1.conda", "a", 2, none, none⟩, ⟨[2, 2], fun _ => .failed none⟩) = some s ∧
      s.files "a-1.conda" = none) ∧
    ∃ s, syncInstaller ⟨fun _ => "", fun _ => ""⟩ true ⟨oneFile "a.sh", false⟩
        (⟨"a.sh", "00"⟩, ⟨[2, 2], some ⟨some 2, 1⟩, true, fun _ => .failed none⟩) = some s ∧
      s.files "a.sh" = none :=
  ⟨⟨_, rfl, by decide⟩, ⟨_, rfl, by decide⟩, ⟨_, rfl, by decide⟩⟩

end KubeSync.Downloads
