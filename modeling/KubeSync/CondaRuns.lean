import KubeSync.CondaIndex
import Mathlib.Data.List.Nodup

/-! # The runs of `anaconda.py`

`sync_repo` as the list of operations that it makes on the files of a directory, and `main`, which
calls it for one directory behind the other and goes on behind an exception.

* An operation writes or removes a file, or moves a download to its destination.  A call that ends
  with an exception, or is killed, has made a first part of its operations; a download that was
  interrupted may have left anything under its own name (`Call.torn`).
* What `sync_repo` does next depends on the files that it finds, and so does the list (`ops`).
  Behind all of it stands what `CondaIndex.syncRepo` returns (`ops_syncRepo`).
* The index files are downloaded to a temporary directory and moved from there.  Where that is on
  another file system, `shutil.move` is a copy in several operations (`Transfer`).
* The names that `glob` finds are an input.
* `sync_installer` has directories of its own.
* `package_kept` is about any number of runs: a package that upstream keeps listing, and that is not
  excluded, stays in place from one run to the next.  `repeated_sync_idle` is about a run that finds
  everything in place. -/

namespace KubeSync.CondaRuns

open Downloads CondaIndex

/-! ### Operations -/

inductive Op where
  | set (name : String) (file : Option File)
  | move (src dst : String)

def Op.apply (files : Files) : Op → Files
  | .set name file => Function.update files name file
  | .move src dst =>
      match files src with
      | some file => put (unlink files src) dst file
      | none => files

def apply (files : Files) (ops : List Op) : Files := ops.foldl Op.apply files

/-- The operations of a part of `sync_repo`, and whether it ends with an exception. -/
structure Part where
  ops : List Op
  raised : Bool := false

/-- One part behind another. -/
def Part.andThen (p : Part) (q : Part) : Part :=
  if p.raised then p else { ops := p.ops ++ q.ops, raised := q.raised }

/-! ### `sync_repo` -/

/-- `for retry in range(3)`. -/
def attemptOps (check : File → Option String) (filename : String) (tries : ℕ → Attempt) :
    ℕ → ℕ → Part
  | 0, _ => { ops := [] }
  | n + 1, retry =>
      match tries retry with
      | .raised wip => { ops := [.set (wipName filename) wip], raised := true }
      | .failed wip =>
          Part.andThen { ops := [.set (wipName filename) wip] }
            (attemptOps check filename tries n (retry + 1))
      | .saved file =>
          match check file with
          | some _ =>
              Part.andThen { ops := [.set (wipName filename) (some file)] }
                (attemptOps check filename tries n (retry + 1))
          | none =>
              { ops := [.set (wipName filename) (some file), .move (wipName filename) filename] }

/-- An iteration of the loop over the packages. -/
def taskOps (h : Hashes) (task : Package × PackageEnv) (files : Files) : Part :=
  let p := task.1
  if p.name ∈ excludedPackages then { ops := [] }
  else
    match files p.filename with
    | none => attemptOps (p.check h) p.filename task.2.tries 3 0
    | some file =>
        if p.size = file.content.length then { ops := [] }
        else
          Part.andThen { ops := [.set p.filename none] }
            (attemptOps (p.check h) p.filename task.2.tries 3 0)

/-- The loop. -/
def loopOps (h : Hashes) : List (Package × PackageEnv) → Files → Part
  | [], _ => { ops := [] }
  | task :: tasks, files =>
      let part := taskOps h task files
      part.andThen (loopOps h tasks (apply files part.ops))

/-- How `shutil.move` brings a file into the directory: by a rename, or by a copy from another file
system, which empties the old file, writes chunk after chunk and sets the time stamp last. -/
inductive Transfer where
  | rename
  | copy (sizes : List ℕ) (now : ℤ)

/-- What is there before the move is complete. -/
def Transfer.versions (file : File) : Transfer → List File
  | .rename => []
  | .copy sizes now => (0 :: sizes).map fun n => ⟨file.content.take n, now⟩

def moveOps (t : Transfer) (path : String) (file : File) : List Op :=
  (t.versions file ++ [file]).map fun version => .set path (some version)

/-- The gzip file is generated and moved to `path`, or a dangling one is removed there. -/
def gzipOps (t : Transfer) (path : String) (gened : Bool) (gz : Option File) : Part :=
  if gened then
    match gz with
    | some file => { ops := moveOps t path file }
    | none => { ops := [], raised := true }
  else { ops := [.set path none] }

/-- The moves of `current_repodata.json` and its gzip file, which comes first where there is one. -/
def currentOps (moves : String → Transfer) (ix : IndexEnv) : Part :=
  let gzip := gzipOps (moves "current_repodata.json.gz") "current_repodata.json.gz"
    (ix.currentRepodata.any generates) ix.currentGz
  match ix.currentRepodata with
  | none => gzip
  | some file =>
      let move : Part :=
        { ops := moveOps (moves "current_repodata.json") "current_repodata.json" file }
      if generates file then gzip.andThen move else move.andThen gzip

/-- The moves of the index files into the directory. -/
def indexOps (moves : String → Transfer) (ix : IndexEnv) : Part :=
  (gzipOps (moves "repodata.json.gz") "repodata.json.gz" (generates ix.repodata)
    ix.repodataGz).andThen <|
  Part.andThen { ops := moveOps (moves "repodata.json") "repodata.json" ix.repodata } <|
  Part.andThen { ops := moveOps (moves "repodata.json.bz2") "repodata.json.bz2" ix.repodataBz2 } <|
  currentOps moves ix

/-- The removal of the packages that are not listed, of those that `glob` finds. -/
def deleteOps (d : Repodata) (glob : List String) : List Op :=
  (glob.filter fun name => isArchive name ∧ name ∉ d.remoteFilelist).map (.set · none)

/-- The operations of `sync_repo` behind the download of the index. -/
def ops (h : Hashes) (d : Repodata) (env : String → PackageEnv) (moves : String → Transfer)
    (ix : IndexEnv) (delete : Bool) (glob : List String) (files : Files) : Part :=
  (loopOps h (d.tasks env) files).andThen <| (indexOps moves ix).andThen
    { ops := if delete then deleteOps d glob else [] }

/-! ### `main` -/

/-- The directories of `main`, below the working directory. -/
inductive Dir where
  | installers (dist : String)
  | pkgs (repo arch : String)
  | cloud (repo : String)
deriving DecidableEq, Repr

/-- What is in the directories. -/
abbrev Tree := Dir → Files

/-- A call of `sync_repo` that has got its index, with all that it is answered. -/
structure Call where
  d : Repodata
  env : String → PackageEnv
  moves : String → Transfer
  ix : IndexEnv
  delete : Bool
  glob : List String
  /-- The number of operations that are made. -/
  made : ℕ
  /-- What an interrupted download has left. -/
  torn : Option (Package × Option File) := none
  torn_mem : ∀ x ∈ torn, x.1 ∈ d.merged

/-- The files behind a call. -/
def Call.run (h : Hashes) (c : Call) (files : Files) : Files :=
  let files := apply files ((ops h c.d c.env c.moves c.ix c.delete c.glob files).ops.take c.made)
  match c.torn with
  | some (p, file) => Function.update files (wipName p.filename) file
  | none => files

/-- What `main` does next. -/
inductive Visit where
  | repo (dir : Dir) (call : Call)
  | installers (dist : String) (fullScan : Bool) (tasks : List (Installer × InstallerEnv))

/-- The effect of a visit; one that has not got its index or its table is left out. -/
def visit (h : Hashes) (tree : Tree) : Visit → Option Tree
  | .repo dir call => some (Function.update tree dir (call.run h (tree dir)))
  | .installers dist fullScan tasks =>
      (Lts.run (syncInstaller h fullScan) { files := tree (.installers dist) } tasks).map fun s =>
        Function.update tree (.installers dist) s.files

/-! ### What the operations spare -/

/-- The operation leaves the name alone. -/
def Op.Spares (name : String) : Op → Prop
  | .set name' _ => name' ≠ name
  | .move src dst => src ≠ name ∧ dst ≠ name

variable {h : Hashes} {name : String} {files : Files} {os : List Op} {op : Op} {p q : Part}

theorem Op.Spares.apply (hop : op.Spares name) : op.apply files name = files name := by
  cases op with
  | set name' file => exact Function.update_of_ne (Ne.symm hop) _ _
  | move src dst =>
      obtain ⟨hsrc, hdst⟩ := hop
      unfold Op.apply
      dsimp only
      cases files src with
      | none => rfl
      | some file =>
          exact (Function.update_of_ne hdst.symm _ _).trans (Function.update_of_ne hsrc.symm _ _)

theorem apply_spares (hos : ∀ op ∈ os, op.Spares name) : apply files os name = files name := by
  induction os generalizing files with
  | nil => rfl
  | cons op os ih =>
      have hhead : op.apply files name = files name := (hos op List.mem_cons_self).apply
      exact (ih fun op hop => hos op (List.mem_cons_of_mem _ hop)).trans hhead

theorem apply_append (files : Files) (os os' : List Op) :
    apply files (os ++ os') = apply (apply files os) os' := List.foldl_append

/-- What holds of the files, and of every version that is written, holds behind the operations. -/
theorem apply_values {P : String → Option File → Prop}
    (hos : ∀ op ∈ os, ∃ name new, op = .set name new ∧ P name new)
    (hfiles : ∀ name, P name (files name)) : ∀ name, P name (apply files os name) := by
  induction os generalizing files with
  | nil => exact hfiles
  | cons op os ih =>
      obtain ⟨name, new, rfl, hnew⟩ := hos op List.mem_cons_self
      refine ih (fun op hop => hos op (List.mem_cons_of_mem _ hop)) fun x => ?_
      by_cases hx : x = name
      · subst hx
        rw [Op.apply, Function.update_self]
        exact hnew
      · rw [Op.apply, Function.update_of_ne hx]
        exact hfiles x

theorem apply_moveOps (t : Transfer) (path : String) (file : File) (files : Files) :
    apply files (moveOps t path file) = put files path file := by
  unfold moveOps
  rw [List.map_append, apply_append]
  have hversions (vs : List File) (files : Files) :
      put (apply files (vs.map fun version => .set path (some version))) path file =
        put files path file := by
    induction vs generalizing files with
    | nil => rfl
    | cons v vs ih => exact (ih (put files path v)).trans (Function.update_idem _ _ _)
  exact hversions (t.versions file) files

/-- The operations of a part leave the name alone. -/
def Part.Spares (name : String) (p : Part) : Prop := ∀ op ∈ p.ops, op.Spares name

theorem mem_andThen (hop : op ∈ (p.andThen q).ops) : op ∈ p.ops ∨ op ∈ q.ops := by
  unfold Part.andThen at hop
  split at hop
  · exact .inl hop
  · exact List.mem_append.mp hop

theorem Part.Spares.andThen (hp : p.Spares name) (hq : q.Spares name) :
    (p.andThen q).Spares name :=
  fun op hop => (mem_andThen hop).elim (hp op) (hq op)

theorem spares_attemptOps {check : File → Option String} {filename : String} {tries : ℕ → Attempt}
    (hdst : filename ≠ name) (hwip : wipName filename ≠ name) (n retry : ℕ) :
    (attemptOps check filename tries n retry).Spares name := by
  have hset (file : Option File) :
      Part.Spares name { ops := [.set (wipName filename) file] } := by
    intro op hop
    rw [List.mem_singleton.mp hop]
    exact hwip
  induction n generalizing retry with
  | zero => nofun
  | succ n ih =>
      unfold attemptOps
      cases tries retry with
      | raised wip => exact hset wip
      | failed wip => exact (hset wip).andThen (ih (retry + 1))
      | saved file =>
          dsimp only
          cases check file with
          | some err => exact (hset (some file)).andThen (ih (retry + 1))
          | none =>
              intro op hop
              rcases List.mem_cons.mp hop with rfl | hop
              · exact hwip
              · rw [List.mem_singleton.mp hop]
                exact ⟨hwip, hdst⟩

/-- A file of the size that the task asks for under this name is not touched by it. -/
theorem spares_taskOps {task : Package × PackageEnv} {size : ℕ}
    (hwip : wipName task.1.filename ≠ name) (hsize : task.1.filename = name → task.1.size = size)
    (hfile : Sized size (files name)) : (taskOps h task files).Spares name := by
  have hnone : Part.Spares name { ops := [] } := nofun
  unfold taskOps
  dsimp only
  by_cases hex : task.1.name ∈ excludedPackages
  · rw [if_pos hex]
    exact hnone
  rw [if_neg hex]
  by_cases hdst : task.1.filename = name
  · obtain ⟨file, hold, hlen⟩ := hfile
    rw [hdst, hold]
    dsimp only
    rw [if_pos ((hsize hdst).trans hlen.symm)]
    exact hnone
  · have htries : (attemptOps (task.1.check h) task.1.filename task.2.tries 3 0).Spares name :=
      spares_attemptOps hdst hwip 3 0
    cases files task.1.filename with
    | none => exact htries
    | some file =>
        dsimp only
        split
        · exact hnone
        · refine Part.Spares.andThen ?_ htries
          intro op hop
          rw [List.mem_singleton.mp hop]
          exact hdst

theorem spares_loopOps {tasks : List (Package × PackageEnv)} {size : ℕ}
    (hwip : ∀ task ∈ tasks, wipName task.1.filename ≠ name)
    (hsize : ∀ task ∈ tasks, task.1.filename = name → task.1.size = size)
    (hfile : Sized size (files name)) : (loopOps h tasks files).Spares name := by
  induction tasks generalizing files with
  | nil => nofun
  | cons task tasks ih =>
      have hpart : (taskOps h task files).Spares name := spares_taskOps
        (hwip task List.mem_cons_self) (hsize task List.mem_cons_self) hfile
      refine hpart.andThen (ih (fun task htask => hwip task (List.mem_cons_of_mem _ htask))
        (fun task htask => hsize task (List.mem_cons_of_mem _ htask)) ?_)
      rw [apply_spares hpart]
      exact hfile

/-- The operation brings an index file, or a version of it that is not complete, or removes it. -/
def Op.Publishes (moves : String → Transfer) (ix : IndexEnv) (op : Op) : Prop :=
  ∃ name new, op = .set name new ∧ (ix.published name = some new ∨
    ∃ file, ix.published name = some (some file) ∧
      ∃ version ∈ (moves name).versions file, new = some version)

theorem moveOps_publishes {moves : String → Transfer} {ix : IndexEnv} {path : String} {file : File}
    (hpath : ix.published path = some (some file)) (hop : op ∈ moveOps (moves path) path file) :
    op.Publishes moves ix := by
  obtain ⟨version, hversion, rfl⟩ := List.mem_map.mp hop
  refine ⟨path, some version, rfl, ?_⟩
  rcases List.mem_append.mp hversion with hversion | hversion
  · exact .inr ⟨file, hpath, version, hversion, rfl⟩
  · rw [List.mem_singleton.mp hversion]
    exact .inl hpath

theorem gzipOps_publishes {moves : String → Transfer} {ix : IndexEnv} {path : String}
    {gened : Bool} {gz : Option File}
    (hpath : ix.published path = some (if gened then gz else none))
    (hop : op ∈ (gzipOps (moves path) path gened gz).ops) : op.Publishes moves ix := by
  unfold gzipOps at hop
  cases gened with
  | false =>
      rw [List.mem_singleton.mp hop]
      exact ⟨path, none, rfl, .inl hpath⟩
  | true =>
      cases gz with
      | none => cases hop
      | some file => exact moveOps_publishes hpath hop

theorem currentOps_publishes {moves : String → Transfer} {ix : IndexEnv}
    (hop : op ∈ (currentOps moves ix).ops) : op.Publishes moves ix := by
  unfold currentOps at hop
  cases hcurrent : ix.currentRepodata with
  | none =>
      simp only [hcurrent] at hop
      refine gzipOps_publishes ?_ hop
      unfold IndexEnv.published
      rw [hcurrent]
      rfl
  | some file =>
      have hmove : ix.published "current_repodata.json" = some (some file) := by
        unfold IndexEnv.published
        rw [hcurrent]
        rfl
      have hgzip : ix.published "current_repodata.json.gz" =
          some (if (some file).any generates then ix.currentGz else none) := by
        unfold IndexEnv.published
        rw [hcurrent]
        rfl
      simp only [hcurrent] at hop
      split at hop
      · rcases mem_andThen hop with hop | hop
        · exact gzipOps_publishes hgzip hop
        · exact moveOps_publishes hmove hop
      · rcases mem_andThen hop with hop | hop
        · exact moveOps_publishes hmove hop
        · exact gzipOps_publishes hgzip hop

/-- The operations behind the loop publish the index files. -/
theorem indexOps_publishes {moves : String → Transfer} {ix : IndexEnv}
    (hop : op ∈ (indexOps moves ix).ops) : op.Publishes moves ix := by
  rcases mem_andThen hop with hop | hop
  · exact gzipOps_publishes rfl hop
  rcases mem_andThen hop with hop | hop
  · exact moveOps_publishes rfl hop
  rcases mem_andThen hop with hop | hop
  · exact moveOps_publishes rfl hop
  · exact currentOps_publishes hop

/-- No index file is a package. -/
theorem published_of_archive {ix : IndexEnv} (hname : isArchive name = true) :
    ix.published name = none := by
  have hne (index : String) (hindex : isArchive index = false) : name ≠ index := by
    rintro rfl
    rw [hname] at hindex
    cases hindex
  unfold IndexEnv.published
  rw [if_neg (hne _ (by decide)), if_neg (hne _ (by decide)), if_neg (hne _ (by decide)),
    if_neg (hne _ (by decide)), if_neg (hne _ (by decide))]

theorem spares_indexOps {moves : String → Transfer} {ix : IndexEnv}
    (hname : isArchive name = true) : (indexOps moves ix).Spares name := by
  intro op hop
  obtain ⟨index, new, rfl, hindex⟩ := indexOps_publishes hop
  rintro rfl
  rw [published_of_archive hname] at hindex
  obtain hindex | ⟨file, hindex, -⟩ := hindex
  · cases hindex
  · cases hindex

theorem spares_deleteOps {d : Repodata} {glob : List String} (hname : name ∈ d.remoteFilelist) :
    ∀ op ∈ deleteOps d glob, op.Spares name := by
  intro op hop
  obtain ⟨gone, hgone, rfl⟩ := List.mem_map.mp hop
  have hnot := (of_decide_eq_true (List.mem_filter.mp hgone).2).2
  rintro rfl
  exact hnot hname

/-! ### The names of a document -/

/-- The loop is over different file names. -/
theorem merged_filenames (d : Repodata) : (d.merged.map Package.filename).Nodup :=
  Dict.nodup_update d.packages_nodup

/-- The document lists a package of this size under this name, which is not excluded. -/
def Lists (d : Repodata) (name : String) (size : ℕ) : Prop :=
  ∃ x ∈ d.merged, x.filename = name ∧ x.size = size ∧ x.name ∉ excludedPackages

theorem Lists.remote {d : Repodata} {size : ℕ} (hd : Lists d name size) :
    name ∈ d.remoteFilelist := by
  obtain ⟨x, hx, rfl, -, hex⟩ := hd
  exact List.mem_map_of_mem (List.mem_filter.mpr ⟨hx, decide_eq_true hex⟩)

theorem Lists.size_eq {d : Repodata} {size : ℕ} (hd : Lists d name size) {x : Package}
    (hx : x ∈ d.merged) (hname : x.filename = name) : x.size = size := by
  obtain ⟨y, hy, hyname, rfl, -⟩ := hd
  have hxy : x = y := List.inj_on_of_nodup_map (merged_filenames d) hx hy (hname.trans hyname.symm)
  rw [hxy]

/-! ### Packages that upstream keeps -/

/-- The name is not that of a download. -/
def Settled (name : String) : Prop := ∀ filename, wipName filename ≠ name

theorem settled_of_head (hname : name.toList.head? ≠ some '.') : Settled name := by
  rintro filename rfl
  refine hname ?_
  unfold wipName
  rw [String.toList_append]
  rfl

/-- All that a call may do leaves a package alone that is in place and listed. -/
theorem spares_ops {d : Repodata} {env : String → PackageEnv} {moves : String → Transfer}
    {ix : IndexEnv} {delete : Bool} {glob : List String} {size : ℕ}
    (harchive : isArchive name = true) (hwip : Settled name)
    (hd : Lists d name size) (hfile : Sized size (files name)) :
    (ops h d env moves ix delete glob files).Spares name := by
  refine Part.Spares.andThen (spares_loopOps (fun _ _ => hwip _) (fun task htask => ?_) hfile) ?_
  · obtain ⟨x, hx, rfl⟩ := List.mem_map.mp htask
    exact hd.size_eq hx
  · refine (spares_indexOps harchive).andThen ?_
    intro op hop
    cases delete with
    | false => cases hop
    | true => exact spares_deleteOps hd.remote op hop

theorem run_spares {c : Call} {size : ℕ} (harchive : isArchive name = true) (hwip : Settled name)
    (hd : Lists c.d name size) (hfile : Sized size (files name)) :
    c.run h files name = files name := by
  have hops : (ops h c.d c.env c.moves c.ix c.delete c.glob files).Spares name :=
    spares_ops harchive hwip hd hfile
  have hmade : apply files
      ((ops h c.d c.env c.moves c.ix c.delete c.glob files).ops.take c.made) name = files name :=
    apply_spares fun op hop => hops op (List.mem_of_mem_take hop)
  unfold Call.run
  cases c.torn with
  | none => exact hmade
  | some x => exact (Function.update_of_ne (hwip x.1.filename).symm _ _).trans hmade

/-- The visit is to another directory, or its document lists the file. -/
def Visit.Lists (dir : Dir) (name : String) (size : ℕ) (v : Visit) : Prop :=
  ∀ call, v = .repo dir call → CondaRuns.Lists call.d name size

/-- One visit keeps the file. -/
theorem visit_kept {v : Visit} {tree tree' : Tree} {dir : Dir} {file : File}
    (hdir : ∀ dist, dir ≠ .installers dist) (harchive : isArchive name = true)
    (hwip : Settled name) (hlisted : v.Lists dir name file.content.length)
    (hold : tree dir name = some file) (hstep : visit h tree v = some tree') :
    tree' dir name = some file := by
  cases v with
  | repo dir' call =>
      obtain rfl := Option.some.inj hstep
      by_cases heq : dir = dir'
      · subst heq
        rw [Function.update_self, run_spares harchive hwip (hlisted call rfl) ⟨file, hold, rfl⟩]
        exact hold
      · rw [Function.update_of_ne heq]
        exact hold
  | installers dist fullScan tasks =>
      obtain ⟨s, -, rfl⟩ := Option.map_eq_some_iff.mp hstep
      rw [Function.update_of_ne (hdir dist)]
      exact hold

/-- A package that is in place stays there, over any number of runs of `main` that may all fail or
be killed at any point, as long as the document of its repository lists it with its size whenever
that repository is visited. -/
theorem package_kept {visits : List Visit} {tree tree' : Tree} {dir : Dir} {file : File}
    (hdir : ∀ dist, dir ≠ .installers dist) (harchive : isArchive name = true)
    (hwip : Settled name) (hlisted : ∀ v ∈ visits, v.Lists dir name file.content.length)
    (hrun : Lts.run (visit h) tree visits = some tree') (hold : tree dir name = some file) :
    tree' dir name = some file := by
  have hkeep : ∀ (t : Tree) v t', t dir name = some file →
      v.Lists dir name file.content.length → visit h t v = some t' → t' dir name = some file :=
    fun _ _ _ hold hv hstep => visit_kept hdir harchive hwip hv hold hstep
  exact Lts.run_invariant hkeep hold (Lts.along_of_labels tree hlisted) hrun

/-- A call with a document that lists one package of two bytes, which removes another one, with the
rest of a download that was interrupted before. -/
def keptCall : Call where
  d := oneRepodata
  env := secondAttempt
  moves := fun _ => .copy [] 1
  ix := oneIndex
  delete := true
  glob := ["a-1.conda", "old-1.conda"]
  made := 8
  torn := some (onePackage, some ⟨[1], 0⟩)
  torn_mem := by
    intro x hx
    obtain rfl := Option.some.inj hx
    exact List.mem_singleton_self _

def keptTree : Tree := fun _ =>
  put (put (fun _ => none) "a-1.conda" ⟨[1, 2], 0⟩) "old-1.conda" ⟨[3], 0⟩

theorem kept_conda : ∃ tree',
    Lts.run (visit ⟨fun _ => "", fun _ => ""⟩) keptTree
      [.repo (.pkgs "main" "noarch") keptCall, .repo (.cloud "intel/noarch") keptCall] =
        some tree' ∧
      tree' (.pkgs "main" "noarch") "old-1.conda" = none ∧
      tree' (.pkgs "main" "noarch") "a-1.conda" = some ⟨[1, 2], 0⟩ := by
  obtain ⟨tree', hrun, hgone⟩ : ∃ tree', Lts.run (visit ⟨fun _ => "", fun _ => ""⟩) keptTree
      [.repo (.pkgs "main" "noarch") keptCall, .repo (.cloud "intel/noarch") keptCall] =
        some tree' ∧ tree' (.pkgs "main" "noarch") "old-1.conda" = none := ⟨_, rfl, by decide⟩
  refine ⟨tree', hrun, hgone, package_kept nofun (by decide) (settled_of_head (by decide)) ?_ hrun
    (by decide)⟩
  have hlists : Lists oneRepodata "a-1.conda" 2 :=
    ⟨onePackage, List.mem_singleton_self _, rfl, rfl, by decide⟩
  intro v hv call heq
  subst heq
  simp only [List.mem_cons, List.not_mem_nil, or_false] at hv
  rcases hv with hv | hv
  · obtain ⟨-, rfl⟩ := Visit.repo.inj hv
    exact hlists
  · obtain ⟨hdir, -⟩ := Visit.repo.inj hv
    cases hdir

/-! ### A run that finds everything in place -/

theorem apply_andThen_idle (hp : apply files p.ops = files) (hq : apply files q.ops = files) :
    apply files (p.andThen q).ops = files := by
  unfold Part.andThen
  split
  · exact hp
  · dsimp only
    rw [apply_append, hp, hq]

theorem put_idle {path : String} {file : File} (hfile : files path = some file) :
    put files path file = files := Function.update_eq_self_iff.mpr hfile.symm

theorem moveOps_idle {t : Transfer} {path : String} {file : File}
    (hfile : files path = some file) : apply files (moveOps t path file) = files := by
  rw [apply_moveOps, put_idle hfile]

theorem gzipOps_idle {t : Transfer} {path : String} {gened : Bool} {gz : Option File}
    (hfile : files path = if gened then gz else none) :
    apply files (gzipOps t path gened gz).ops = files := by
  unfold gzipOps
  cases gened with
  | false => exact Function.update_eq_self_iff.mpr hfile.symm
  | true =>
      cases gz with
      | none => rfl
      | some file => exact moveOps_idle hfile

/-- The publication of index files that are there. -/
theorem indexOps_idle {moves : String → Transfer} {ix : IndexEnv}
    (hfiles : ∀ name new, ix.published name = some new → files name = new) :
    apply files (indexOps moves ix).ops = files := by
  refine apply_andThen_idle (gzipOps_idle (hfiles _ _ rfl)) ?_
  refine apply_andThen_idle (moveOps_idle (hfiles _ _ rfl)) ?_
  refine apply_andThen_idle (moveOps_idle (hfiles _ _ rfl)) ?_
  have hgzip := gzipOps_idle (t := moves "current_repodata.json.gz") (hfiles _ _ rfl :
    files "current_repodata.json.gz" =
      if ix.currentRepodata.any generates then ix.currentGz else none)
  have hcurrent : ∀ file, ix.currentRepodata = some file →
      files "current_repodata.json" = some file := by
    intro file hfile
    refine hfiles _ _ ?_
    unfold IndexEnv.published
    rw [hfile]
    rfl
  unfold currentOps
  cases hfile : ix.currentRepodata with
  | none =>
      rw [hfile] at hgzip
      exact hgzip
  | some file =>
      rw [hfile] at hgzip
      have hmove := moveOps_idle (t := moves "current_repodata.json") (hcurrent file hfile)
      dsimp only
      split
      · exact apply_andThen_idle hgzip hmove
      · exact apply_andThen_idle hmove hgzip

theorem mem_listed {d : Repodata} {x : Package} (hx : x ∈ d.merged) : x ∈ d.listed :=
  List.mem_append.mpr (Dict.mem_update hx)

/-- Where every package is in place, the loop makes no operation. -/
theorem loopOps_idle {tasks : List (Package × PackageEnv)}
    (hsized : ∀ task ∈ tasks, task.1.name ∉ excludedPackages →
      Sized task.1.size (files task.1.filename)) : loopOps h tasks files = { ops := [] } := by
  induction tasks with
  | nil => rfl
  | cons task tasks ih =>
      have htask : taskOps h task files = { ops := [] } := by
        unfold taskOps
        dsimp only
        by_cases hex : task.1.name ∈ excludedPackages
        · rw [if_pos hex]
        · obtain ⟨file, hold, hlen⟩ := hsized task List.mem_cons_self hex
          rw [if_neg hex, hold]
          exact if_pos hlen.symm
      unfold loopOps
      rw [htask]
      exact ih fun task htask => hsized task (List.mem_cons_of_mem _ htask)

section returned

variable {d : Repodata} {env : String → PackageEnv} {ix : IndexEnv} {delete : Bool} {r : Result}

/-- Behind a call that returns, the index files are those that were published. -/
theorem index_of_syncRepo (hret : syncRepo h d env ix delete files = some r) {file : Option File}
    (hname : ix.published name = some file) : r.files name = file := by
  obtain ⟨s, files₁, -, -, hpublish, hr⟩ := syncRepo_eq_some hret
  have hfile : files₁ name = file := by
    rw [publish_apply hpublish, hname]
    rfl
  have hindex : isArchive name = false := by
    refine Bool.eq_false_iff.mpr fun harchive => ?_
    rw [published_of_archive harchive] at hname
    cases hname
  rw [hr]
  cases delete with
  | false => exact hfile
  | true =>
      rw [if_pos rfl, deleteLocal, if_neg fun hgone => Bool.eq_false_iff.mp hindex hgone.1]
      exact hfile

/-- Behind a call that returns and removes packages, there are none that are not listed. -/
theorem deleted_of_syncRepo (hret : syncRepo h d env ix true files = some r)
    (hname : isArchive name = true ∧ name ∉ d.remoteFilelist) : r.files name = none := by
  obtain ⟨s, files₁, -, -, -, hr⟩ := syncRepo_eq_some hret
  rw [hr, if_pos rfl, deleteLocal, if_pos hname]

/-- Behind a call that has returned with every package in place, another one with the same documents
downloads no package and leaves all files as they are.  Up to any of its operations it changes
nothing but an index file that it is just copying from another file system. -/
theorem repeated_sync_idle (hret : syncRepo h d env ix delete files = some r)
    (hpromised : Promised d r.files) (env' : String → PackageEnv) (moves : String → Transfer)
    (glob : List String) :
    (loopOps h (d.tasks env') r.files).ops = [] ∧
      apply r.files (ops h d env' moves ix delete glob r.files).ops = r.files ∧
      ∀ made name,
        apply r.files ((ops h d env' moves ix delete glob r.files).ops.take made) name =
            r.files name ∨
          ∃ file, ix.published name = some (some file) ∧ r.files name = some file ∧
            ∃ version ∈ (moves name).versions file,
              apply r.files ((ops h d env' moves ix delete glob r.files).ops.take made) name =
                some version := by
  have hloop : loopOps h (d.tasks env') r.files = { ops := [] } := by
    refine loopOps_idle fun task htask hex => ?_
    obtain ⟨x, hx, rfl⟩ := List.mem_map.mp htask
    exact hpromised x (mem_listed hx) hex
  have hindex : ∀ name new, ix.published name = some new → r.files name = new :=
    fun _ _ hname => index_of_syncRepo hret hname
  have hdelete : ∀ op ∈ (if delete then deleteOps d glob else []),
      ∃ name, op = .set name none ∧ r.files name = none := by
    intro op hop
    cases delete with
    | false => cases hop
    | true =>
        obtain ⟨name, hname, rfl⟩ := List.mem_map.mp hop
        exact ⟨name, rfl, deleted_of_syncRepo hret (of_decide_eq_true (List.mem_filter.mp hname).2)⟩
  unfold ops
  rw [hloop]
  refine ⟨rfl, ?_, fun made => ?_⟩
  · refine apply_andThen_idle rfl (apply_andThen_idle (indexOps_idle hindex) ?_)
    funext name
    refine apply_values (P := fun name new => new = r.files name) (fun op hop => ?_)
      (fun _ => rfl) name
    obtain ⟨name, rfl, hnone⟩ := hdelete op hop
    exact ⟨name, none, rfl, hnone.symm⟩
  · -- Every version that is written is the one that is there, or belongs to a copy.
    refine apply_values (P := fun name new => new = r.files name ∨
      ∃ file, ix.published name = some (some file) ∧ r.files name = some file ∧
        ∃ version ∈ (moves name).versions file, new = some version)
      (fun op hop => ?_) (fun _ => .inl rfl)
    rcases mem_andThen (List.mem_of_mem_take hop) with hop | hop
    · cases hop
    rcases mem_andThen hop with hop | hop
    · obtain ⟨name, new, rfl, hname | ⟨file, hname, hversion⟩⟩ := indexOps_publishes hop
      · exact ⟨name, new, rfl, .inl (hindex name new hname).symm⟩
      · exact ⟨name, new, rfl, .inr ⟨file, hname, hindex name _ hname, hversion⟩⟩
    · obtain ⟨name, rfl, hnone⟩ := hdelete op hop
      exact ⟨name, none, rfl, .inl hnone.symm⟩

end returned

/-- A second call that is cut off in the copy of `repodata.json` leaves it empty. -/
theorem repeated_sync_one : ∃ r,
    syncRepo ⟨fun _ => "", fun _ => ""⟩ oneRepodata secondAttempt oneIndex true (fun _ => none) =
        some r ∧ r.files "a-1.conda" = some ⟨[2, 2], 0⟩ ∧
      apply r.files (ops ⟨fun _ => "", fun _ => ""⟩ oneRepodata secondAttempt
        (fun _ => .copy [] 1) oneIndex true ["a-1.conda"] r.files).ops = r.files ∧
      apply r.files ((ops ⟨fun _ => "", fun _ => ""⟩ oneRepodata secondAttempt
        (fun _ => .copy [] 1) oneIndex true ["a-1.conda"] r.files).ops.take 2) "repodata.json" =
        some ⟨[], 1⟩ := by
  obtain ⟨r, hret, hfile, hcut⟩ : ∃ r, syncRepo ⟨fun _ => "", fun _ => ""⟩ oneRepodata
      secondAttempt oneIndex true (fun _ => none) = some r ∧
        r.files "a-1.conda" = some ⟨[2, 2], 0⟩ ∧
        apply r.files ((ops ⟨fun _ => "", fun _ => ""⟩ oneRepodata secondAttempt
          (fun _ => .copy [] 1) oneIndex true ["a-1.conda"] r.files).ops.take 2) "repodata.json" =
          some ⟨[], 1⟩ :=
    ⟨_, rfl, by decide, by decide⟩
  refine ⟨r, hret, hfile, (repeated_sync_idle hret (fun x hx _ => ?_) _ _ _).2.1, hcut⟩
  obtain rfl : x = onePackage := List.mem_singleton.mp hx
  exact ⟨_, hfile, rfl⟩

/-! ### The operations and the result -/

theorem apply_attemptOps {check : File → Option String} {filename : String} {tries : ℕ → Attempt}
    (n retry : ℕ) (files : Files) :
    apply files (attemptOps check filename tries n retry).ops =
        (attempts check filename tries n retry files).files ∧
      (attemptOps check filename tries n retry).raised =
        (attempts check filename tries n retry files).stopped := by
  induction n generalizing retry files with
  | zero => exact ⟨rfl, rfl⟩
  | succ n ih =>
      unfold attemptOps attempts
      cases tries retry with
      | raised wip => exact ⟨rfl, rfl⟩
      | failed wip => exact ih (retry + 1) _
      | saved file =>
          dsimp only
          cases check file with
          | some err => exact ih (retry + 1) _
          | none =>
              refine ⟨?_, rfl⟩
              simp [apply, Op.apply, put, unlink]

theorem andThen_of_not_raised (hp : p.raised = false) :
    p.andThen q = { ops := p.ops ++ q.ops, raised := q.raised } := by
  unfold Part.andThen
  rw [hp]
  rfl

theorem apply_taskOps {task : Package × PackageEnv} {s s' : State}
    (hstep : Downloads.syncRepo h s task = some s') :
    apply s.files (taskOps h task s.files).ops = s'.files ∧
      (taskOps h task s.files).raised = s'.stopped := by
  obtain ⟨hs, ⟨hex, rfl⟩ | ⟨hex, ⟨file, hold, hlen⟩, rfl⟩ | ⟨hex, hsized, rfl⟩⟩ := step_cases hstep
  · unfold taskOps
    rw [if_pos hex]
    exact ⟨rfl, hs.symm⟩
  · unfold taskOps
    rw [if_neg hex, hold]
    dsimp only
    rw [if_pos hlen.symm]
    exact ⟨rfl, hs.symm⟩
  · unfold taskOps
    rw [if_neg hex]
    cases hold : s.files task.1.filename with
    | none =>
        rw [unlink_of_none hold]
        exact apply_attemptOps 3 0 s.files
    | some file =>
        have hne : ¬ task.1.size = file.content.length := fun heq =>
          hsized ⟨file, hold, heq.symm⟩
        dsimp only
        rw [if_neg hne]
        exact apply_attemptOps 3 0 (unlink s.files task.1.filename)

/-- The operations of the loop, where none of its iterations raises an exception. -/
theorem apply_loopOps {tasks : List (Package × PackageEnv)} {s s' : State}
    (hrun : Lts.run (Downloads.syncRepo h) s tasks = some s') (hs' : s'.stopped = false) :
    apply s.files (loopOps h tasks s.files).ops = s'.files ∧
      (loopOps h tasks s.files).raised = false := by
  induction tasks generalizing s with
  | nil =>
      obtain rfl := Option.some.inj hrun
      exact ⟨rfl, rfl⟩
  | cons task tasks ih =>
      obtain ⟨s₁, hstep, hrest⟩ := Lts.run_cons.mp hrun
      obtain ⟨hfiles, hraised⟩ := apply_taskOps hstep
      rw [running_of_run hrest hs'] at hraised
      obtain ⟨hih, hraised'⟩ := ih hrest
      unfold loopOps
      rw [andThen_of_not_raised hraised, hfiles]
      refine ⟨?_, hraised'⟩
      dsimp only
      rw [apply_append, hfiles, hih]

theorem apply_gzipOps {t : Transfer} {path : String} {gened : Bool} {gz : Option File}
    {files₁ : Files} (hmove : moveGzip path gened gz files = some files₁) :
    apply files (gzipOps t path gened gz).ops = files₁ ∧
      (gzipOps t path gened gz).raised = false := by
  unfold moveGzip at hmove
  unfold gzipOps
  cases gened with
  | false =>
      obtain rfl := Option.some.inj hmove
      exact ⟨rfl, rfl⟩
  | true =>
      obtain ⟨file, rfl, rfl⟩ := Option.map_eq_some_iff.mp hmove
      exact ⟨apply_moveOps t path file files, rfl⟩

/-- The gzip file may be moved before the other one. -/
theorem moveGzip_put {path path' : String} {gened : Bool} {gz : Option File} {file : File}
    {files₁ : Files} (hne : path ≠ path')
    (hmove : moveGzip path gened gz (put files path' file) = some files₁) :
    ∃ files₂, moveGzip path gened gz files = some files₂ ∧ files₁ = put files₂ path' file := by
  unfold moveGzip at hmove ⊢
  cases gened with
  | false =>
      obtain rfl := Option.some.inj hmove
      exact ⟨_, rfl, Function.update_comm hne.symm _ _ _⟩
  | true =>
      obtain ⟨gz, rfl, rfl⟩ := Option.map_eq_some_iff.mp hmove
      exact ⟨_, rfl, Function.update_comm hne.symm _ _ _⟩

theorem apply_indexOps (moves : String → Transfer) {ix : IndexEnv} {files₁ : Files}
    (hpublish : publish ix files = some files₁) :
    apply files (indexOps moves ix).ops = files₁ ∧ (indexOps moves ix).raised = false := by
  obtain ⟨files₂, hgz, hcurrent⟩ := Option.bind_eq_some_iff.mp hpublish
  obtain ⟨hgzfiles, hgzraised⟩ := apply_gzipOps (t := moves "repodata.json.gz") hgz
  unfold indexOps
  rw [andThen_of_not_raised hgzraised, andThen_of_not_raised rfl, andThen_of_not_raised rfl]
  dsimp only
  rw [apply_append, apply_append, apply_append, hgzfiles, apply_moveOps, apply_moveOps]
  unfold currentOps
  cases hfile : ix.currentRepodata with
  | none =>
      rw [hfile] at hcurrent
      exact apply_gzipOps hcurrent
  | some file =>
      rw [hfile] at hcurrent
      dsimp only
      split
      · obtain ⟨files₃, hgz', rfl⟩ := moveGzip_put (by decide) hcurrent
        obtain ⟨hfiles, hraised⟩ := apply_gzipOps (t := moves "current_repodata.json.gz") hgz'
        rw [andThen_of_not_raised hraised]
        dsimp only
        rw [apply_append, hfiles, apply_moveOps]
        exact ⟨rfl, rfl⟩
      · obtain ⟨hfiles, hraised⟩ := apply_gzipOps (t := moves "current_repodata.json.gz") hcurrent
        rw [andThen_of_not_raised rfl]
        dsimp only
        rw [apply_append, apply_moveOps]
        exact ⟨hfiles, hraised⟩

theorem apply_removals (names : List String) (files : Files) (name : String) :
    apply files (names.map (.set · none)) name = if name ∈ names then none else files name := by
  induction names generalizing files with
  | nil => rfl
  | cons x names ih =>
      have htail := ih (Function.update files x none)
      unfold apply at htail ⊢
      rw [List.map_cons, List.foldl_cons]
      refine htail.trans ?_
      by_cases hname : name = x
      · simp [hname]
      · simp [hname]

/-- All operations of a call that returns lead to what it returns, where `glob` finds the packages
that are there. -/
theorem ops_syncRepo {d : Repodata} {env : String → PackageEnv} {moves : String → Transfer}
    {ix : IndexEnv} {delete : Bool} {r : Result} {glob : List String}
    (hret : syncRepo h d env ix delete files = some r)
    (hglob : ∀ name, isArchive name = true → name ∉ glob →
      apply files ((loopOps h (d.tasks env) files).andThen (indexOps moves ix)).ops name = none) :
    apply files (ops h d env moves ix delete glob files).ops = r.files := by
  obtain ⟨s, files₁, hrun, hs, hpublish, hr⟩ := syncRepo_eq_some hret
  obtain ⟨hloop, hloopRaised⟩ := apply_loopOps hrun hs
  obtain ⟨hindex, hindexRaised⟩ := apply_indexOps moves hpublish
  rw [andThen_of_not_raised hloopRaised] at hglob
  simp only [apply_append, hloop, hindex] at hglob
  unfold ops
  rw [andThen_of_not_raised hindexRaised, andThen_of_not_raised hloopRaised]
  dsimp only
  rw [apply_append, apply_append, hloop, hindex, hr]
  cases delete with
  | false => rfl
  | true =>
      funext name
      rw [if_pos rfl, if_pos rfl, deleteLocal, deleteOps, apply_removals]
      by_cases hgone : isArchive name = true ∧ name ∉ d.remoteFilelist
      · rw [if_pos hgone]
        by_cases hfound : name ∈ glob
        · exact if_pos (List.mem_filter.mpr ⟨hfound, decide_eq_true hgone⟩)
        · rw [hglob name hgone.1 hfound, ite_self]
      · rw [if_neg hgone]
        refine if_neg fun hmem => hgone ?_
        exact of_decide_eq_true (List.mem_filter.mp hmem).2

end KubeSync.CondaRuns
