import KubeSync.Dict
import KubeSync.Downloads

/-! # The index of a conda repository

The whole of `sync_repo` of `anaconda.py`: the loop over the packages of the downloaded
`repodata.json`, whose iteration is `Downloads.syncRepo`, the publication of the index files behind
it, and the removal of the packages that are not listed.

* A document has two tables, `packages` and `packages.conda`, each with one entry for a file name.
  The loop is over their union as `dict.update` builds it; the document that is published is the
  one that was downloaded, so that the entries of both tables are `listed`.
* The keys of the tables are names of files in the directory (`isFilename`).  Others are left out:
  `pathlib` would drop a slash at their end, or make another directory of them.
* A call that raises an exception outside the loop does not return (`IndexEnv.raised`), and a
  document without one of the fields that are read raises one as well.
* `Promised` says that every listed package is there with its size.  `index_iff` says when: the
  last task that touches the name of a package leaves it so (`Leaves`), which is asked of the state
  before that task.  `promised_iff` is the same for a document whose names are all different: each
  package was there, or one of its three attempts brings a file of the listed size. -/

namespace KubeSync.CondaIndex

open Downloads

/-! ### The document -/

/-- The key is the name of a file in the directory. -/
def isFilename (name : String) : Bool :=
  !name.toList.contains '/' && name != "" && name != "." && name != ".."

structure Repodata where
  packages : List Package
  /-- The table `packages.conda`; without it nothing is added. -/
  conda : List Package
  packages_nodup : (packages.map Package.filename).Nodup
  conda_nodup : (conda.map Package.filename).Nodup
  filenames : ∀ p ∈ packages ++ conda, isFilename p.filename = true

namespace Repodata

/-- `packages.update(repodata['packages.conda'])`. -/
def merged (d : Repodata) : List Package := Dict.update Package.filename d.packages d.conda

/-- The entries of the document that is published. -/
def listed (d : Repodata) : List Package := d.packages ++ d.conda

/-- The entries that the loop does not skip. -/
def wanted (d : Repodata) : List Package := d.merged.filter (·.name ∉ excludedPackages)

def remoteFilelist (d : Repodata) : List String := d.wanted.map Package.filename

def totalSize (d : Repodata) : ℕ := d.wanted.foldl (fun total p => total + p.size) 0

/-- The tasks of the loop, with what the network and the machine answer to them. -/
def tasks (d : Repodata) (env : String → PackageEnv) : List (Package × PackageEnv) :=
  d.merged.map fun p => (p, env p.filename)

end Repodata

/-! ### The publication -/

/-- What is in the temporary directory behind the downloads of the index. -/
structure IndexEnv where
  repodata : File
  repodataBz2 : File
  /-- What the download of `current_repodata.json` has left, even where it fails. -/
  currentRepodata : Option File
  /-- What `gzip` makes of the two; `none` where it fails. -/
  repodataGz : Option File
  currentGz : Option File
  /-- A download of the index, a move or a removal raises an exception. -/
  raised : Bool := false

def genMetadataJsonGzipThreshold : ℕ := 1024 * 1024

/-- The gzip file is generated. -/
def generates (file : File) : Bool := genMetadataJsonGzipThreshold < file.content.length

/-- The gzip file is generated and moved to `path`, or a dangling one is removed there. -/
def moveGzip (path : String) (gened : Bool) (gz : Option File) (files : Files) : Option Files :=
  if gened then gz.map (put files path) else some (unlink files path)

/-- The moves into the local directory. -/
def publish (ix : IndexEnv) (files : Files) : Option Files := do
  let files ← moveGzip "repodata.json.gz" (generates ix.repodata) ix.repodataGz files
  let files := put files "repodata.json" ix.repodata
  let files := put files "repodata.json.bz2" ix.repodataBz2
  let files :=
    match ix.currentRepodata with
    | some current => put files "current_repodata.json" current
    | none => files
  -- The gzip file of this one is moved first and removed last, beside the file itself.
  moveGzip "current_repodata.json.gz" (ix.currentRepodata.any generates) ix.currentGz files

/-- The patterns `*.tar.bz2` and `*.conda`, in the directory itself. -/
def isArchive (name : String) : Bool :=
  !name.toList.contains '/' &&
    (".tar.bz2".toList.isSuffixOf name.toList || ".conda".toList.isSuffixOf name.toList)

/-- The removal of `set(local_filelist) - set(remote_filelist)`. -/
def deleteLocal (d : Repodata) (files : Files) : Files := fun name =>
  if isArchive name ∧ name ∉ d.remoteFilelist then none else files name

structure Result where
  files : Files
  totalSize : ℕ

/-- `sync_repo`; `none` is an exception. -/
def syncRepo (h : Hashes) (d : Repodata) (env : String → PackageEnv) (ix : IndexEnv)
    (delete : Bool) (files : Files) : Option Result := do
  let s ← Lts.run (Downloads.syncRepo h) { files } (d.tasks env)
  if s.stopped || ix.raised then none
  else
    let files ← publish ix s.files
    some { files := if delete then deleteLocal d files else files, totalSize := d.totalSize }

/-! ### What the index promises -/

/-- There is a file of this size. -/
def Sized (size : ℕ) (file : Option File) : Prop :=
  ∃ f, file = some f ∧ f.content.length = size

/-- Every listed package that is not excluded is there with its size. -/
def Promised (d : Repodata) (files : Files) : Prop :=
  ∀ p ∈ d.listed, p.name ∉ excludedPackages → Sized p.size (files p.filename)

/-- The task is not skipped by its name, and the file is its destination or its download. -/
def Touches (name : String) (task : Package × PackageEnv) : Prop :=
  task.1.name ∉ excludedPackages ∧
    (task.1.filename = name ∨ wipName task.1.filename = name)

/-- What an attempt leaves under the name of the download. -/
def leftover : Attempt → Option File
  | .failed wip => wip
  | .saved file => some file
  | .raised wip => wip

/-- The condition on a task, in the state before it, to leave a file of this size under `name`.
At its destination, a file that is there with the size of the task stays, and otherwise one of the
attempts has to bring a file of the size asked for.  Under the name of its download, the file that
was there stays where nothing is downloaded, and otherwise the last failed attempt has to leave
one. -/
def Leaves (h : Hashes) (name : String) (size : ℕ) (s : State) (task : Package × PackageEnv) :
    Prop :=
  let p := task.1
  let brings := Brings (p.check h) task.2.tries 0 3
  if p.filename = name then
    (Sized p.size (s.files name) ∧ p.size = size) ∨
      (¬ Sized p.size (s.files name) ∧ ∃ file, brings file ∧ file.content.length = size)
  else
    (Sized p.size (s.files p.filename) ∧ Sized size (s.files name)) ∨
      (¬ Sized p.size (s.files p.filename) ∧ (∀ file, ¬ brings file) ∧
        Sized size (leftover (task.2.tries 2)))

/-- The file that the publication puts under an index name, or removes there. -/
def IndexEnv.published (ix : IndexEnv) (name : String) : Option (Option File) :=
  if name = "repodata.json" then some (some ix.repodata)
  else if name = "repodata.json.bz2" then some (some ix.repodataBz2)
  else if name = "repodata.json.gz" then
    some (if generates ix.repodata then ix.repodataGz else none)
  else if name = "current_repodata.json" then ix.currentRepodata.map some
  else if name = "current_repodata.json.gz" then
    some (if ix.currentRepodata.any generates then ix.currentGz else none)
  else none

/-- The condition on an entry of the document: its file is not removed as one that is not listed,
an index file under its name has the listed size, and otherwise the last task that touches the name
leaves a file of this size, or the file was there before the first task. -/
structure Provided (h : Hashes) (d : Repodata) (env : String → PackageEnv) (ix : IndexEnv)
    (delete : Bool) (files : Files) (p : Package) : Prop where
  listed : delete = true → isArchive p.filename = true → p.filename ∈ d.remoteFilelist
  index : ∀ file, ix.published p.filename = some file → Sized p.size file
  before : ix.published p.filename = none → (∀ task ∈ d.tasks env, ¬ Touches p.filename task) →
    Sized p.size (files p.filename)
  last : ix.published p.filename = none → ∀ pre task post s,
    d.tasks env = pre ++ task :: post → Touches p.filename task →
    (∀ task' ∈ post, ¬ Touches p.filename task') →
    Lts.run (Downloads.syncRepo h) { files } pre = some s → Leaves h p.filename p.size s task

/-! ### The attempts -/

variable {check : File → Option String} {filename name : String} {tries : ℕ → Attempt}
  {files files' : Files} {file : File} {h : Hashes} {s s' : State} {task : Package × PackageEnv}
  {size : ℕ}

/-- The attempts change no other name. -/
theorem attempts_frame (n k : ℕ) (hname : filename ≠ name) (hwip : wipName filename ≠ name) :
    (attempts check filename tries n k files).files name = files name := by
  induction n generalizing k files with
  | zero => rfl
  | succ n ih =>
      have hupdate (wip : Option File) :
          Function.update files (wipName filename) wip name = files name :=
        Function.update_of_ne hwip.symm _ _
      unfold attempts
      cases tries k with
      | raised wip => exact hupdate wip
      | failed wip => exact (ih (k + 1)).trans (hupdate wip)
      | saved file =>
          dsimp only
          cases check file with
          | some err => exact (ih (k + 1)).trans (hupdate (some file))
          | none => exact (Function.update_of_ne hname.symm _ _).trans (hupdate none)

theorem attempts_of_fails {n k : ℕ} (hf : Fails check (tries k)) :
    attempts check filename tries (n + 1) k files =
      attempts check filename tries n (k + 1)
        (Function.update files (wipName filename) (leftover (tries k))) := by
  rw [attempts]
  cases htry : tries k with
  | raised wip =>
      rw [htry] at hf
      exact hf.elim
  | failed wip => rfl
  | saved file =>
      rw [htry] at hf
      obtain ⟨err, herr⟩ := Option.ne_none_iff_exists'.mp hf
      simp only [herr, leftover, put]

theorem attempts_of_not_fails {n k : ℕ} (hf : ¬ Fails check (tries k))
    (hrun : (attempts check filename tries (n + 1) k files).stopped = false) :
    ∃ file, (tries k = .saved file ∧ check file = none) ∧
      (attempts check filename tries (n + 1) k files).files =
        put (unlink files (wipName filename)) filename file := by
  rw [attempts] at hrun ⊢
  cases htry : tries k with
  | raised wip =>
      rw [htry] at hrun
      cases hrun
  | failed wip =>
      rw [htry] at hf
      exact absurd trivial hf
  | saved file =>
      rw [htry] at hf
      have hcheck : check file = none := not_not.mp hf
      exact ⟨file, ⟨rfl, hcheck⟩, by simp only [hcheck]⟩

theorem attempts_wip_of_not_fails {n k : ℕ} (hf : ¬ Fails check (tries k))
    (hrun : (attempts check filename tries (n + 1) k files).stopped = false) :
    (attempts check filename tries (n + 1) k files).files (wipName filename) = some file ↔
      (∀ new, ¬ Brings check tries k (n + 1) new) ∧ leftover (tries (k + n)) = some file := by
  obtain ⟨new, hnew, hfiles⟩ := attempts_of_not_fails hf hrun
  have hgone : put (unlink files (wipName filename)) filename new (wipName filename) = none :=
    (Function.update_of_ne (wipName_ne filename) _ _).trans (Function.update_self _ _ _)
  refine iff_of_false ?_ fun hnone => hnone.1 new ((brings_of_not_fails hf).mpr hnew)
  rw [hfiles, hgone]
  simp

/-- The name of the download behind the attempts: the file has been moved away, or the last attempt
has left one. -/
theorem attempts_wip (n : ℕ) {k : ℕ}
    (hrun : (attempts check filename tries (n + 1) k files).stopped = false) :
    (attempts check filename tries (n + 1) k files).files (wipName filename) = some file ↔
      (∀ new, ¬ Brings check tries k (n + 1) new) ∧ leftover (tries (k + n)) = some file := by
  induction n generalizing k files with
  | zero =>
      by_cases hf : Fails check (tries k)
      · have hnone (new : File) : ¬ Brings check tries k 1 new := by
          rw [brings_of_fails hf]
          rintro ⟨retry, hk, hlt, -⟩
          omega
        rw [attempts_of_fails hf]
        simp [attempts, hnone]
      · exact attempts_wip_of_not_fails hf hrun
  | succ n ih =>
      by_cases hf : Fails check (tries k)
      · rw [attempts_of_fails hf] at hrun ⊢
        have hlast : k + 1 + n = k + (n + 1) := by omega
        simp only [ih hrun, brings_of_fails hf, hlast]
      · exact attempts_wip_of_not_fails hf hrun

/-! ### Sizes of files -/

theorem not_sized_none (size : ℕ) : ¬ Sized size none := by
  rintro ⟨file, hfile, -⟩
  cases hfile

theorem sized_some : Sized size (some file) ↔ file.content.length = size := by
  constructor
  · rintro ⟨file', hfile, hsize⟩
    rw [Option.some.inj hfile]
    exact hsize
  · exact fun hsize => ⟨file, rfl, hsize⟩

theorem Sized.iff_eq {size' : ℕ} {old : Option File} (hold : Sized size' old) :
    Sized size old ↔ size' = size := by
  obtain ⟨file, rfl, rfl⟩ := hold
  exact sized_some

/-! ### A task -/

theorem unlink_of_none (hnone : files name = none) : unlink files name = files := by
  unfold unlink
  rw [← hnone, Function.update_eq_self]

/-- What an iteration does: it passes an excluded name, it leaves a file of the listed size alone,
or it downloads the package to a name without a file. -/
theorem step_cases (hstep : Downloads.syncRepo h s task = some s') :
    s.stopped = false ∧
      ((task.1.name ∈ excludedPackages ∧ s' = s) ∨
        (task.1.name ∉ excludedPackages ∧ Sized task.1.size (s.files task.1.filename) ∧ s' = s) ∨
        (task.1.name ∉ excludedPackages ∧ ¬ Sized task.1.size (s.files task.1.filename) ∧
          s' = download (task.1.check h) task.1.filename task.2.tries
            (unlink s.files task.1.filename))) := by
  unfold Downloads.syncRepo at hstep
  rw [Option.ite_none_left_eq_some] at hstep
  obtain ⟨hrun, hstep⟩ := hstep
  refine ⟨Bool.eq_false_iff.mpr hrun, ?_⟩
  by_cases hex : task.1.name ∈ excludedPackages
  · rw [if_pos hex] at hstep
    exact .inl ⟨hex, (Option.some.inj hstep).symm⟩
  rw [if_neg hex] at hstep
  cases hold : s.files task.1.filename with
  | none =>
      simp only [hold, Option.some.injEq] at hstep
      rw [unlink_of_none hold]
      exact .inr (.inr ⟨hex, not_sized_none _, hstep.symm⟩)
  | some file =>
      simp only [hold] at hstep
      rw [sized_some]
      by_cases hsize : task.1.size = file.content.length
      · rw [if_pos hsize] at hstep
        exact .inr (.inl ⟨hex, hsize.symm, (Option.some.inj hstep).symm⟩)
      · rw [if_neg hsize] at hstep
        exact .inr (.inr ⟨hex, Ne.symm hsize, (Option.some.inj hstep).symm⟩)

/-- An iteration changes only the names that it touches. -/
theorem step_frame (hstep : Downloads.syncRepo h s task = some s') (hname : ¬ Touches name task) :
    s'.files name = s.files name := by
  obtain ⟨-, ⟨-, rfl⟩ | ⟨-, -, rfl⟩ | ⟨hex, -, rfl⟩⟩ := step_cases hstep
  · rfl
  · rfl
  · have hdst : task.1.filename ≠ name := fun heq => hname ⟨hex, .inl heq⟩
    have hwip : wipName task.1.filename ≠ name := fun heq => hname ⟨hex, .inr heq⟩
    rw [download, attempts_frame 3 0 hdst hwip]
    exact Function.update_of_ne hdst.symm _ _

/-- The step lemma: what is under a name behind the task that touches it. -/
theorem step_leaves (hstep : Downloads.syncRepo h s task = some s') (hrun : s'.stopped = false)
    (hname : Touches name task) : Sized size (s'.files name) ↔ Leaves h name size s task := by
  obtain ⟨hex, hname⟩ := hname
  unfold Leaves
  obtain ⟨-, ⟨hex', -⟩ | ⟨-, hsized, rfl⟩ | ⟨-, hsized, rfl⟩⟩ := step_cases hstep
  · exact absurd hex' hex
  · rcases hname with rfl | rfl
    · simp only [if_true, hsized, true_and, not_true_eq_false, false_and, or_false]
      exact hsized.iff_eq
    · rw [if_neg (wipName_ne task.1.filename).symm]
      simp only [hsized, true_and, not_true_eq_false, false_and, or_false]
  · rcases hname with rfl | rfl
    · have hnone : unlink s.files task.1.filename task.1.filename = none :=
        Function.update_self _ _ _
      simp only [if_true, hsized, false_and, not_false_eq_true, true_and, false_or]
      exact exists_congr fun file => and_congr_left' (attempts_eq_some 3 hnone)
    · rw [if_neg (wipName_ne task.1.filename).symm]
      simp only [hsized, false_and, not_false_eq_true, true_and, false_or]
      unfold Sized
      rw [← exists_and_left]
      refine exists_congr fun file => ?_
      rw [← and_assoc]
      exact and_congr_left' (attempts_wip 2 hrun)

/-! ### The loop -/

/-- Where the loop ends normally, none of its iterations has raised an exception. -/
theorem running_of_run {tasks : List (Package × PackageEnv)}
    (hrun : Lts.run (Downloads.syncRepo h) s tasks = some s') (hs' : s'.stopped = false) :
    s.stopped = false := by
  cases tasks with
  | nil =>
      rw [Option.some.inj hrun]
      exact hs'
  | cons task tasks =>
      obtain ⟨s₁, hstep, -⟩ := Lts.run_cons.mp hrun
      exact (step_cases hstep).1

/-- A name that no task touches is as before. -/
theorem loop_frame {tasks : List (Package × PackageEnv)}
    (hrun : Lts.run (Downloads.syncRepo h) s tasks = some s')
    (hnone : ∀ task ∈ tasks, ¬ Touches name task) : s'.files name = s.files name :=
  Lts.run_frame (fun s task s' (hstep : Downloads.syncRepo h s task = some s') hname =>
    step_frame hstep hname) hrun hnone

/-- The run lemma: what is under a name behind the loop is what the last task that touches it has
left there. -/
theorem loop_last {pre post : List (Package × PackageEnv)}
    (hrun : Lts.run (Downloads.syncRepo h) { files } (pre ++ task :: post) = some s')
    (hs' : s'.stopped = false) (hname : Touches name task)
    (hpost : ∀ task' ∈ post, ¬ Touches name task') :
    ∃ s, Lts.run (Downloads.syncRepo h) { files } pre = some s ∧
      (Sized size (s'.files name) ↔ Leaves h name size s task) := by
  obtain ⟨s, hpre, hrest⟩ := Lts.run_append_iff.mp hrun
  obtain ⟨s₁, hstep, htail⟩ := Lts.run_cons.mp hrest
  refine ⟨s, hpre, ?_⟩
  rw [loop_frame htail hpost]
  exact step_leaves hstep (running_of_run htail hs') hname

theorem loop_iff {tasks : List (Package × PackageEnv)}
    (hrun : Lts.run (Downloads.syncRepo h) { files } tasks = some s') (hs' : s'.stopped = false) :
    Sized size (s'.files name) ↔
      ((∀ task ∈ tasks, ¬ Touches name task) → Sized size (files name)) ∧
        ∀ pre task post s, tasks = pre ++ task :: post → Touches name task →
          (∀ task' ∈ post, ¬ Touches name task') →
          Lts.run (Downloads.syncRepo h) { files } pre = some s → Leaves h name size s task := by
  constructor
  · intro hsized
    constructor
    · intro hnone
      rw [loop_frame hrun hnone] at hsized
      exact hsized
    · rintro pre task post s rfl hname hpost hpre
      obtain ⟨s₀, hpre', hleaves⟩ := loop_last hrun hs' hname hpost
      obtain rfl := Option.some.inj (hpre.symm.trans hpre')
      exact hleaves.mp hsized
  · rintro ⟨hbefore, hlast⟩
    rcases Lts.split_last (Touches name) tasks with hnone | ⟨pre, task, post, rfl, hname, hpost⟩
    · rw [loop_frame hrun hnone]
      exact hbefore hnone
    · obtain ⟨s, hpre, hleaves⟩ := loop_last hrun hs' hname hpost
      exact hleaves.mpr (hlast pre task post s rfl hname hpost hpre)

/-! ### Behind the loop -/

theorem moveGzip_apply {path : String} {gened : Bool} {gz : Option File}
    (hmove : moveGzip path gened gz files = some files') (name : String) :
    files' name = if name = path then (if gened then gz else none) else files name := by
  unfold moveGzip at hmove
  cases gened with
  | true =>
      obtain ⟨file, rfl, rfl⟩ := Option.map_eq_some_iff.mp hmove
      exact Function.update_apply _ _ _ _
  | false =>
      obtain rfl := Option.some.inj hmove
      exact Function.update_apply _ _ _ _

theorem publish_apply {ix : IndexEnv} (hpublish : publish ix files = some files') (name : String) :
    files' name = (ix.published name).getD (files name) := by
  obtain ⟨files₁, hgz, hcurrent⟩ := Option.bind_eq_some_iff.mp hpublish
  rw [moveGzip_apply hcurrent]
  have hgz := moveGzip_apply hgz name
  unfold IndexEnv.published
  cases ix.currentRepodata with
  | none =>
      simp only [put, Function.update_apply, hgz, Option.any_none, Option.map_none]
      grind
  | some current =>
      simp only [put, Function.update_apply, hgz, Option.any_some, Option.map_some]
      grind

variable {d : Repodata} {env : String → PackageEnv} {ix : IndexEnv} {delete : Bool} {r : Result}
  {p : Package}

theorem syncRepo_eq_some (hret : syncRepo h d env ix delete files = some r) :
    ∃ s files₁, Lts.run (Downloads.syncRepo h) { files } (d.tasks env) = some s ∧
      s.stopped = false ∧ publish ix s.files = some files₁ ∧
      r.files = if delete then deleteLocal d files₁ else files₁ := by
  obtain ⟨s, hrun, hrest⟩ := Option.bind_eq_some_iff.mp hret
  obtain ⟨hok, hrest⟩ := Option.ite_none_left_eq_some.mp hrest
  obtain ⟨files₁, hpublish, hr⟩ := Option.bind_eq_some_iff.mp hrest
  obtain rfl := Option.some.inj hr
  have hs : s.stopped = false := by
    cases hstopped : s.stopped with
    | true => exact absurd (by simp [hstopped]) hok
    | false => rfl
  exact ⟨s, files₁, hrun, hs, hpublish, rfl⟩

theorem deleteLocal_sized : Sized size ((if delete then deleteLocal d files else files) name) ↔
    (delete = true → isArchive name = true → name ∈ d.remoteFilelist) ∧
      Sized size (files name) := by
  cases delete with
  | false => simp
  | true =>
      rw [if_pos rfl, deleteLocal]
      by_cases hgone : isArchive name = true ∧ name ∉ d.remoteFilelist
      · rw [if_pos hgone]
        exact iff_of_false (not_sized_none size) fun hkept => hgone.2 (hkept.1 rfl hgone.1)
      · rw [if_neg hgone]
        refine (and_iff_right fun _ harchive => ?_).symm
        exact not_not.mp fun hname => hgone ⟨harchive, hname⟩

/-- An entry has its file behind the call exactly when it is provided for. -/
theorem sized_iff_provided (hret : syncRepo h d env ix delete files = some r) :
    Sized p.size (r.files p.filename) ↔ Provided h d env ix delete files p := by
  obtain ⟨s, files₁, hrun, hs, hpublish, hr⟩ := syncRepo_eq_some hret
  rw [hr, deleteLocal_sized, publish_apply hpublish]
  cases hindex : ix.published p.filename with
  | some file =>
      constructor
      · rintro ⟨hlisted, hsized⟩
        refine ⟨hlisted, fun file' hfile => ?_, fun hnone => ?_, fun hnone => ?_⟩
        · rw [← Option.some.inj (hindex.symm.trans hfile)]
          exact hsized
        · cases hindex.symm.trans hnone
        · cases hindex.symm.trans hnone
      · exact fun hp => ⟨hp.listed, hp.index file hindex⟩
  | none =>
      rw [Option.getD_none, loop_iff hrun hs]
      constructor
      · rintro ⟨hlisted, hbefore, hlast⟩
        refine ⟨hlisted, fun file hfile => ?_, fun _ => hbefore, fun _ => hlast⟩
        cases hindex.symm.trans hfile
      · exact fun hp => ⟨hp.listed, hp.before hindex, hp.last hindex⟩

/-- **The conda index.**  Where `sync_repo` returns, every package that the published index lists,
the excluded ones apart, is there with the listed size exactly when each of them is provided for:
`sync_repo` itself gives up on a package after three attempts and publishes the index all the same,
and it does not look at the size of what it has downloaded. -/
theorem index_iff (h : Hashes) (d : Repodata) (env : String → PackageEnv) (ix : IndexEnv)
    (delete : Bool) (files : Files) (r : Result)
    (hret : syncRepo h d env ix delete files = some r) :
    Promised d r.files ↔
      ∀ p ∈ d.listed, p.name ∉ excludedPackages → Provided h d env ix delete files p :=
  forall₃_congr fun _ _ _ => sized_iff_provided hret

/-- A package of two bytes. -/
def onePackage : Package := ⟨"a-1.conda", "a", 2, none, none⟩

/-- A document with this package alone. -/
def oneRepodata : Repodata := ⟨[onePackage], [], by decide, by decide, by decide⟩

/-- A short index without `current_repodata.json`. -/
def oneIndex : IndexEnv := ⟨⟨[7], 0⟩, ⟨[8], 0⟩, none, none, none, false⟩

/-- The second attempt brings the package. -/
def secondAttempt (_ : String) : PackageEnv :=
  ⟨[2, 2], fun retry => if retry = 0 then .failed none else .saved ⟨[2, 2], 0⟩⟩

theorem index_secondAttempt :
    ∃ r, syncRepo ⟨fun _ => "", fun _ => ""⟩ oneRepodata secondAttempt oneIndex true
        (fun _ => none) = some r ∧ Promised oneRepodata r.files := by
  obtain ⟨r, hret⟩ : ∃ r, syncRepo ⟨fun _ => "", fun _ => ""⟩ oneRepodata secondAttempt oneIndex
      true (fun _ => none) = some r := ⟨_, rfl⟩
  refine ⟨r, hret, (index_iff _ _ _ _ _ _ _ hret).mpr fun p hp hex => ?_⟩
  obtain rfl : p = onePackage := List.mem_singleton.mp hp
  have htouch : Touches onePackage.filename (onePackage, secondAttempt onePackage.filename) :=
    ⟨hex, .inl rfl⟩
  refine ⟨fun _ _ => by decide, nofun, fun _ hnone => ?_, fun _ pre task post s htasks _ _ hs => ?_⟩
  · exact absurd htouch (hnone _ List.mem_cons_self)
  · cases pre with
    | cons task' pre => simp [Repodata.tasks, Repodata.merged, Dict.update, oneRepodata] at htasks
    | nil =>
        obtain rfl := Option.some.inj hs
        obtain ⟨rfl, -⟩ := List.cons.inj htasks
        rw [Leaves, if_pos rfl]
        refine .inr ⟨not_sized_none 2, ⟨[2, 2], 0⟩, ⟨1, by decide, by decide, rfl, rfl, ?_⟩, rfl⟩
        intro i _ hi
        obtain rfl : i = 0 := by omega
        trivial

/-- A package whose three attempts fail is listed in the index that is published, and missing. -/
theorem missing_package_listed :
    ∃ r, syncRepo ⟨fun _ => "", fun _ => ""⟩ oneRepodata (fun _ => ⟨[2, 2], fun _ => .failed none⟩)
        oneIndex false (fun _ => none) = some r ∧
      r.files "repodata.json" = some oneIndex.repodata ∧ onePackage ∈ oneRepodata.listed ∧
      onePackage.name ∉ excludedPackages ∧ r.files onePackage.filename = none :=
  ⟨_, rfl, by decide, List.mem_singleton_self _, by decide, by decide⟩

/-! ### Documents without collisions -/

/-- The names of a document are all different, and none of them is the name of an index file or of
a download. -/
structure Plain (d : Repodata) (ix : IndexEnv) : Prop where
  nodup : (d.listed.map Package.filename).Nodup
  index : ∀ p ∈ d.listed, ix.published p.filename = none
  wip : ∀ p ∈ d.listed, ∀ q ∈ d.listed, wipName q.filename ≠ p.filename

theorem Plain.merged (hplain : Plain d ix) : d.merged = d.listed :=
  Dict.update_of_nodup hplain.nodup

theorem Plain.untouched {q : Package} (hplain : Plain d ix) (hp : p ∈ d.listed) (hq : q ∈ d.listed)
    (hne : q.filename ≠ p.filename) : ¬ Touches p.filename (q, env q.filename) := by
  rintro ⟨-, heq | heq⟩
  · exact hne heq
  · exact hplain.wip p hp q hq heq

/-- The loop on a document without collisions: the file of a package is left by its own task, which
finds what was there before the first one. -/
theorem Plain.loop (hplain : Plain d ix) (hp : p ∈ d.listed) (hex : p.name ∉ excludedPackages)
    (hrun : Lts.run (Downloads.syncRepo h) { files } (d.tasks env) = some s')
    (hs' : s'.stopped = false) :
    Sized p.size (s'.files p.filename) ↔
      Sized p.size (files p.filename) ∨
        ∃ file, Brings (p.check h) (env p.filename).tries 0 3 file ∧
          file.content.length = p.size := by
  obtain ⟨pre, post, hlisted⟩ := List.append_of_mem hp
  have hnodup := hplain.nodup
  rw [hlisted, List.map_append, List.map_cons, List.nodup_append, List.nodup_cons] at hnodup
  obtain ⟨-, ⟨hpost, -⟩, hpre⟩ := hnodup
  have hother (qs : List Package) (hqs : ∀ q ∈ qs, q ∈ d.listed ∧ q.filename ≠ p.filename) :
      ∀ task ∈ qs.map fun q => (q, env q.filename), ¬ Touches p.filename task := by
    intro task htask
    obtain ⟨q, hq, rfl⟩ := List.mem_map.mp htask
    exact hplain.untouched hp (hqs q hq).1 (hqs q hq).2
  have hbefore := hother pre fun q hq =>
    ⟨by simp [hlisted, hq], hpre _ (List.mem_map_of_mem hq) _ List.mem_cons_self⟩
  have hafter := hother post fun q hq =>
    ⟨by simp [hlisted, hq], fun heq => hpost (heq ▸ List.mem_map_of_mem hq)⟩
  rw [Repodata.tasks, hplain.merged, hlisted, List.map_append, List.map_cons] at hrun
  obtain ⟨s, hs, hleaves⟩ := loop_last hrun hs' ⟨hex, .inl rfl⟩ hafter
  rw [hleaves, Leaves, if_pos rfl, loop_frame hs hbefore, and_iff_left rfl]
  by_cases hsized : Sized p.size (files p.filename)
  · simp [hsized]
  · simp [hsized]

/-- In a document without collisions, the index keeps its promise exactly when each package was
there with the listed size or one of its attempts brings a file of this size. -/
theorem promised_iff (hplain : Plain d ix) (hret : syncRepo h d env ix delete files = some r) :
    Promised d r.files ↔ ∀ p ∈ d.listed, p.name ∉ excludedPackages →
      Sized p.size (files p.filename) ∨
        ∃ file, Brings (p.check h) (env p.filename).tries 0 3 file ∧
          file.content.length = p.size := by
  refine forall₃_congr fun p hp hex => ?_
  obtain ⟨s', files₁, hrun, hs', hpublish, hr⟩ := syncRepo_eq_some hret
  have hkept : p.filename ∈ d.remoteFilelist := by
    refine List.mem_map_of_mem (List.mem_filter.mpr ⟨?_, decide_eq_true hex⟩)
    rw [hplain.merged]
    exact hp
  rw [hr, deleteLocal_sized, publish_apply hpublish, hplain.index p hp, Option.getD_none,
    and_iff_right fun _ _ => hkept]
  exact hplain.loop hp hex hrun hs'

end KubeSync.CondaIndex
