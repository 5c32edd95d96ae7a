import KubeSync.Downloads
import KubeSync.Recognizer

/-! # The listing of releases

The first part of `main` in `github-release.py`: the loops over the repositories and over their
releases, which fill `remote_filelist` and give the destination of every asset.

* Names are lists of characters.  A path is what `pathlib` keeps of it: its root and its components,
  without empty ones and `.`, but with `..`; an absolute path replaces the one it is joined to.
* A repository is given as a name, or as a table that overrides the settings.
* `plan` is the list of the destinations, relative to the working directory, and how the loop ends:
  it is left by the first repository whose releases can not be read, by the exception of
  `relative_to` at a destination that is not below the working directory, or it sets `cleaning`.
* The link `LatestRelease`, which no function reads, is left out; so are answers without a field
  that the script reads.
* `walk` is how the system follows a path.  `entries_inside`: whatever the server answers, a
  destination is in the directory of its repository, and if the repository is given by a relative
  path without `..`, in the working directory. -/

namespace KubeSync.ReleaseListing

abbrev Text := List Char

/-! ### Names -/

/-- `filename.replace(old, new)` for single characters. -/
def replaceChar (old new : Char) (s : Text) : Text := s.map fun c => if c = old then new else c

def ensureSafeName (filename : Text) : Text :=
  let filename := replaceChar '\x00' ' ' filename
  if filename = ['.'] then [' ', '.']
  else if filename = ['.', '.'] then ['.', ' ', '.']
  else replaceChar '\\' '_' (replaceChar '/' '\\' filename)

/-! ### Paths -/

abbrev Path := List Text

/-- `as_posix()` of a relative path. -/
def posix (path : Path) : String :=
  if path = [] then "." else String.ofList (['/'].intercalate path)

/-- A path as `pathlib` keeps it; the root of a relative path is empty. -/
structure PurePath where
  root : Text
  parts : Path
  parsed : ∀ c ∈ parts, c ≠ [] ∧ c ≠ ['.'] ∧ '/' ∉ c

/-- Two slashes in front are a root of their own, more of them are one. -/
def rootOf : Text → Text
  | '/' :: '/' :: '/' :: _ => ['/']
  | '/' :: '/' :: _ => ['/', '/']
  | '/' :: _ => ['/']
  | _ => []

theorem not_mem_of_mem_splitOn {sep : Char} {s part : Text} (h : part ∈ s.splitOn sep) :
    sep ∉ part := by
  induction hn : s.length using Nat.strongRecOn generalizing s with
  | ind n ih =>
      by_cases hmem : sep ∈ s
      · obtain ⟨a, b, rfl, ha⟩ := List.eq_append_cons_of_mem hmem
        rw [List.splitOn_append_cons_self, List.splitOn_eq_singleton ha] at h
        rcases List.mem_append.mp h with h | h
        · rw [List.mem_singleton.mp h]
          exact ha
        · refine ih b.length ?_ h rfl
          rw [← hn, List.length_append, List.length_cons]
          omega
      · rw [List.splitOn_eq_singleton hmem] at h
        rw [List.mem_singleton.mp h]
        exact hmem

/-- `Path(s)`. -/
def parsePath (s : Text) : PurePath where
  root := rootOf s
  parts := (s.splitOn '/').filter fun c => c ≠ [] ∧ c ≠ ['.']
  parsed c hc := by
    obtain ⟨hmem, hc⟩ := List.mem_filter.mp hc
    obtain ⟨hnil, hdot⟩ := of_decide_eq_true hc
    exact ⟨hnil, hdot, not_mem_of_mem_splitOn hmem⟩

/-- `dir / other`: an absolute path replaces the directory. -/
def PurePath.join (dir other : PurePath) : PurePath :=
  if other.root = [] then
    { root := dir.root
      parts := dir.parts ++ other.parts
      parsed := fun c hc => (List.mem_append.mp hc).elim (dir.parsed c) (other.parsed c) }
  else other

/-- `path.relative_to(dir)`; `none` is the exception. -/
def PurePath.relativeTo (path dir : PurePath) : Option Path :=
  if path.root = dir.root ∧ dir.parts <+: path.parts then some (path.parts.drop dir.parts.length)
  else none

/-! ### Releases -/

structure Asset where
  name : Text
  updatedAt : ℤ
  size : ℕ

structure Release where
  draft : Bool
  prerelease : Bool
  name : Option Text
  tagName : Text
  publishedAt : ℤ
  assets : List Asset

/-- `release['name'] or release['tag_name']`. -/
def Release.title (r : Release) : Text :=
  match r.name with
  | some name => if name = [] then r.tagName else name
  | none => r.tagName

/-- An element of `REPOS`. -/
inductive Cfg where
  | name (repo : Text)
  | table (repo : Text) (versions : Option ℤ) (flat tarball prerelease : Option Bool)

structure Settings where
  repo : Text
  flat : Bool := false
  versions : ℤ := 1
  tarball : Bool := false
  prerelease : Bool := false

def Cfg.settings : Cfg → Settings
  | .name repo => { repo }
  | .table repo versions flat tarball prerelease =>
      { repo
        flat := flat.getD false
        versions := versions.getD 1
        tarball := tarball.getD false
        prerelease := prerelease.getD false }

/-- The value of the variable `REPOS`. -/
def parseRepos (value : Text) : List Cfg :=
  ((value.filter (· ≠ ' ')).splitOn ';').map .name

/-- A destination that is listed: the item that may go to the queue, and whether it is the
tarball. -/
structure Entry where
  item : Downloads.Item
  tarball : Bool

def Entry.dst (e : Entry) : String := e.item.dstFile

/-- A destination that `download` has computed. -/
structure Target where
  path : PurePath
  updated : ℤ
  remoteSize : ℤ
  tarball : Bool

/-- `remote_filelist.append(dst_file.relative_to(working_dir))`. -/
def Target.entry (workingDir : PurePath) (t : Target) : Option Entry :=
  (t.path.relativeTo workingDir).map fun path =>
    { item := { dstFile := posix path, updated := t.updated, remoteSize := t.remoteSize }
      tarball := t.tarball }

def snapshotTarget (dir : PurePath) (r : Release) : Target where
  path := dir.join (parsePath "repo-snapshot.tar.gz".toList)
  updated := r.publishedAt
  remoteSize := -1
  tarball := true

def assetTarget (dir : PurePath) (a : Asset) : Target where
  path := dir.join (parsePath (ensureSafeName a.name))
  updated := a.updatedAt
  remoteSize := a.size
  tarball := false

/-- The destinations of `download`, in their order. -/
def releaseTargets (tarball : Bool) (dir : PurePath) (r : Release) : List Target :=
  (if tarball then [snapshotTarget dir r] else []) ++ r.assets.map (assetTarget dir)

/-- The releases for which `download` is called, with their names; `n` is `n_downloaded`. -/
def selected (c : Settings) : ℕ → List Release → List (Text × Release)
  | _, [] => []
  | n, r :: rs =>
      if !r.draft && (c.prerelease || !r.prerelease) then
        let name := ensureSafeName r.title
        if name.length = 0 then selected c n rs
        else
          (name, r) ::
            if 0 < c.versions ∧ c.versions ≤ n + 1 then [] else selected c (n + 1) rs
      else selected c n rs

def repoDir (workingDir : PurePath) (c : Settings) : PurePath := workingDir.join (parsePath c.repo)

def releaseDir (workingDir : PurePath) (c : Settings) (name : Text) : PurePath :=
  if c.flat then repoDir workingDir c else (repoDir workingDir c).join (parsePath name)

def repoTargets (workingDir : PurePath) (c : Settings) (releases : List Release) : List Target :=
  (selected c 0 releases).flatMap fun x =>
    releaseTargets c.tarball (releaseDir workingDir c x.1) x.2

/-- The destinations of a repository up to the first exception, and whether there is one. -/
def listTargets (workingDir : PurePath) : List Target → List Entry × Bool
  | [] => ([], false)
  | t :: ts =>
      match t.entry workingDir with
      | none => ([], true)
      | some e => (e :: (listTargets workingDir ts).1, (listTargets workingDir ts).2)

structure Plan where
  entries : List Entry
  cleaning : Bool
  /-- The loop ends with an exception. -/
  raised : Bool

/-- The loop over the repositories; each comes with its releases, or `none` where the request
fails. -/
def plan (workingDir : PurePath) : List (Cfg × Option (List Release)) → Plan
  | [] => ⟨[], true, false⟩
  | (_, none) :: _ => ⟨[], false, false⟩
  | (cfg, some releases) :: rest =>
      match listTargets workingDir (repoTargets workingDir cfg.settings releases) with
      | (entries, true) => ⟨entries, false, true⟩
      | (entries, false) =>
          ⟨entries ++ (plan workingDir rest).entries, (plan workingDir rest).cleaning,
            (plan workingDir rest).raised⟩

variable {workingDir : PurePath} {answers : List (Cfg × Option (List Release))} {e : Entry}

theorem mem_listTargets {ts : List Target} (he : e ∈ (listTargets workingDir ts).1) :
    ∃ t ∈ ts, t.entry workingDir = some e := by
  induction ts with
  | nil => cases he
  | cons t ts ih =>
      unfold listTargets at he
      split at he
      · cases he
      · rename_i e' hentry
        rcases List.mem_cons.mp he with rfl | he
        · exact ⟨t, List.mem_cons_self, hentry⟩
        · obtain ⟨t', ht', he⟩ := ih he
          exact ⟨t', List.mem_cons_of_mem t ht', he⟩

theorem mem_entries (he : e ∈ (plan workingDir answers).entries) :
    ∃ cfg releases, (cfg, some releases) ∈ answers ∧
      ∃ t ∈ repoTargets workingDir cfg.settings releases, t.entry workingDir = some e := by
  induction answers with
  | nil => cases he
  | cons a answers ih =>
      obtain ⟨cfg, _ | releases⟩ := a
      · cases he
      · have hhere : e ∈ (listTargets workingDir
            (repoTargets workingDir cfg.settings releases)).1 ∨
            e ∈ (plan workingDir answers).entries := by
          unfold plan at he
          split at he
          · rename_i hlist
            rw [hlist]
            exact .inl he
          · rename_i hlist
            rw [hlist]
            exact List.mem_append.mp he
        rcases hhere with he | he
        · exact ⟨cfg, releases, List.mem_cons_self, mem_listTargets he⟩
        · obtain ⟨cfg', releases', hmem, he⟩ := ih he
          exact ⟨cfg', releases', List.mem_cons_of_mem _ hmem, he⟩

/-! ### Safe names -/

/-- A name that stands for an entry of the directory it is used in. -/
structure Safe (name : Text) : Prop where
  ne_nil : name ≠ []
  ne_dot : name ≠ ['.']
  ne_dotdot : name ≠ ['.', '.']
  no_slash : '/' ∉ name
  no_nul : '\x00' ∉ name

theorem not_mem_replaceChar {old new c : Char} {s : Text} (hnew : c ≠ new)
    (h : c = old ∨ c ∉ s) : c ∉ replaceChar old new s := by
  intro hmem
  obtain ⟨d, hd, hc⟩ := List.mem_map.mp hmem
  split at hc
  · exact hnew hc.symm
  · rename_i hne
    subst hc
    rcases h with h | h
    · exact hne h
    · exact h hd

/-- A name of dots comes from itself. -/
theorem eq_of_replaceChar_eq {old new : Char} {s dots : Text} (hnew : new ∉ dots)
    (h : replaceChar old new s = dots) : s = dots := by
  have hsame : replaceChar old new s = s := by
    unfold replaceChar at h ⊢
    refine (List.map_congr_left fun c hc => ?_).trans (List.map_id s)
    have hmem : (if c = old then new else c) ∈ dots := h ▸ List.mem_map_of_mem hc
    split at hmem
    · exact absurd hmem hnew
    · rename_i hne
      rw [if_neg hne]
      rfl
  rw [← hsame]
  exact h

theorem ensureSafeName_safe (filename : Text) (hne : ensureSafeName filename ≠ []) :
    Safe (ensureSafeName filename) := by
  have hnul : '\x00' ∉ replaceChar '\x00' ' ' filename :=
    not_mem_replaceChar (by decide) (.inl rfl)
  unfold ensureSafeName at hne ⊢
  dsimp only at hne ⊢
  split
  · constructor <;> decide
  · rename_i hdot
    split
    · constructor <;> decide
    · rename_i hdotdot
      rw [if_neg hdot, if_neg hdotdot] at hne
      refine ⟨hne, fun h => hdot ?_, fun h => hdotdot ?_, ?_, ?_⟩
      · exact eq_of_replaceChar_eq (by decide) (eq_of_replaceChar_eq (by decide) h)
      · exact eq_of_replaceChar_eq (by decide) (eq_of_replaceChar_eq (by decide) h)
      · exact not_mem_replaceChar (by decide) (.inr (not_mem_replaceChar (by decide) (.inl rfl)))
      · exact not_mem_replaceChar (by decide) (.inr (not_mem_replaceChar (by decide) (.inr hnul)))

/-! ### Following a path -/

/-- From a directory, given by its components, to an entry of it. -/
def enter (dir : Path) (name : Text) : Path :=
  if name = [] ∨ name = ['.'] then dir
  else if name = ['.', '.'] then dir.dropLast
  else dir ++ [name]

/-- The place that a path leads to from a directory. -/
def walk (dir : Path) (path : Text) : Path := (path.splitOn '/').foldl enter dir

/-- The place of a path in a process whose working directory is `cwd`. -/
def place (cwd : Path) (p : PurePath) : Path :=
  p.parts.foldl enter (if p.root = [] then cwd else [])

/-- Names that lead down. -/
theorem foldl_enter {names : Path} (h : ∀ c ∈ names, c ≠ [] ∧ c ≠ ['.'] ∧ c ≠ ['.', '.'])
    (dir : Path) : names.foldl enter dir = dir ++ names := by
  induction names generalizing dir with
  | nil => simp
  | cons name names ih =>
      obtain ⟨hnil, hdot, hdotdot⟩ := h name List.mem_cons_self
      have henter : enter dir name = dir ++ [name] := by
        unfold enter
        rw [if_neg (by simp [hnil, hdot]), if_neg hdotdot]
      rw [List.foldl_cons, henter, ih fun c hc => h c (List.mem_cons_of_mem name hc),
        List.append_assoc]
      rfl

theorem walk_posix {path : Path} (h : ∀ c ∈ path, '/' ∉ c) (dir : Path) :
    walk dir (posix path).toList = path.foldl enter dir := by
  unfold walk posix
  split
  · rename_i hnil
    subst hnil
    rfl
  · rename_i hne
    rw [String.toList_ofList, List.splitOn_intercalate '/' h hne]

theorem relativeTo_eq_some {path dir : PurePath} {rel : Path}
    (h : path.relativeTo dir = some rel) :
    path.root = dir.root ∧ path.parts = dir.parts ++ rel := by
  unfold PurePath.relativeTo at h
  obtain ⟨⟨hroot, tail, hparts⟩, h⟩ := Option.ite_none_right_eq_some.mp h
  refine ⟨hroot, ?_⟩
  rw [← Option.some.inj h, ← hparts, List.drop_left]

/-- A destination is where the system finds its path. -/
theorem walk_relativeTo {path dir : PurePath} {rel : Path} (h : path.relativeTo dir = some rel)
    (cwd : Path) : walk (place cwd dir) (posix rel).toList = place cwd path := by
  obtain ⟨hroot, hparts⟩ := relativeTo_eq_some h
  have hslash : ∀ c ∈ rel, '/' ∉ c := by
    intro c hc
    exact (path.parsed c (hparts ▸ List.mem_append_right _ hc)).2.2
  rw [walk_posix hslash]
  unfold place
  rw [hparts, hroot, List.foldl_append]

/-! ### Destinations -/

theorem selected_safe {c : Settings} {n : ℕ} {releases : List Release} {x : Text × Release}
    (hx : x ∈ selected c n releases) : Safe x.1 := by
  induction releases generalizing n with
  | nil => cases hx
  | cons r rs ih =>
      unfold selected at hx
      split at hx
      · dsimp only at hx
        split at hx
        · exact ih hx
        · rename_i hlength
          rcases List.mem_cons.mp hx with rfl | hx
          · refine ensureSafeName_safe r.title fun hnil => hlength ?_
            rw [hnil]
            rfl
          · split at hx
            · cases hx
            · exact ih hx
      · exact ih hx

theorem parsePath_safe {name : Text} (h : Safe name) :
    (parsePath name).root = [] ∧ (parsePath name).parts = [name] := by
  constructor
  · cases name with
    | nil => rfl
    | cons c name =>
        have hc : c ≠ '/' := fun hc => h.no_slash (hc ▸ List.mem_cons_self)
        change rootOf (c :: name) = []
        unfold rootOf
        split <;> simp_all
  · change (name.splitOn '/').filter _ = [name]
    rw [List.splitOn_eq_singleton h.no_slash]
    simp [h.ne_nil, h.ne_dot]

/-- A path is `dir` with at most `n` safe names behind it. -/
def Below (dir : PurePath) (n : ℕ) (path : PurePath) : Prop :=
  path.root = dir.root ∧
    ∃ tail, path.parts = dir.parts ++ tail ∧ tail.length ≤ n ∧ ∀ name ∈ tail, Safe name

theorem Below.refl (dir : PurePath) : Below dir 0 dir := ⟨rfl, [], by simp, by simp, by simp⟩

theorem Below.mono {dir path : PurePath} {m n : ℕ} (h : Below dir m path) (hle : m ≤ n) :
    Below dir n path := by
  obtain ⟨hroot, tail, htail, hlength, hsafe⟩ := h
  exact ⟨hroot, tail, htail, by omega, hsafe⟩

theorem Below.join {dir path : PurePath} {n : ℕ} {name : Text} (h : Below dir n path)
    (hname : name ≠ [] → Safe name) : Below dir (n + 1) (path.join (parsePath name)) := by
  by_cases hnil : name = []
  · subst hnil
    have hsame : path.join (parsePath []) = path := by
      cases path
      simp [PurePath.join, parsePath, rootOf]
    rw [hsame]
    exact h.mono (Nat.le_succ n)
  · obtain ⟨hroot, tail, htail, hlength, hsafe⟩ := h
    obtain ⟨hrel, hparts⟩ := parsePath_safe (hname hnil)
    unfold PurePath.join
    rw [if_pos hrel]
    refine ⟨hroot, tail ++ [name], ?_, by simp; omega, fun c hc => ?_⟩
    · dsimp only
      rw [hparts, htail, List.append_assoc]
    · rcases List.mem_append.mp hc with hc | hc
      · exact hsafe c hc
      · rw [List.mem_singleton.mp hc]
        exact hname hnil

theorem below_releaseDir (workingDir : PurePath) (c : Settings) {name : Text} (h : Safe name) :
    Below (repoDir workingDir c) 1 (releaseDir workingDir c name) := by
  unfold releaseDir
  split
  · exact (Below.refl _).mono (Nat.zero_le 1)
  · exact (Below.refl _).join fun _ => h

theorem below_releaseTargets {tarball : Bool} {dir : PurePath} {r : Release} {t : Target}
    (ht : t ∈ releaseTargets tarball dir r) {base : PurePath} (h : Below base 1 dir) :
    Below base 2 t.path := by
  rcases List.mem_append.mp ht with ht | ht
  · split at ht
    · rw [List.mem_singleton.mp ht]
      exact h.join fun _ => by constructor <;> decide
    · cases ht
  · obtain ⟨a, -, rfl⟩ := List.mem_map.mp ht
    exact h.join (ensureSafeName_safe a.name)

theorem below_repoTargets {c : Settings} {releases : List Release} {t : Target}
    (ht : t ∈ repoTargets workingDir c releases) : Below (repoDir workingDir c) 2 t.path := by
  obtain ⟨x, hx, ht⟩ := List.mem_flatMap.mp ht
  exact below_releaseTargets ht (below_releaseDir workingDir c (selected_safe hx))

/-- A destination below the working directory is listed. -/
theorem Below.entry {t : Target} {n : ℕ} {other : PurePath} (hother : other.root = [])
    (h : Below (workingDir.join other) n t.path) : (t.entry workingDir).isSome = true := by
  obtain ⟨hroot, tail, htail, -⟩ := h
  unfold PurePath.join at hroot htail
  rw [if_pos hother] at hroot htail
  have hbelow : workingDir.parts <+: t.path.parts := by
    rw [htail, List.append_assoc]
    exact List.prefix_append _ _
  unfold Target.entry PurePath.relativeTo
  rw [if_pos ⟨hroot, hbelow⟩]
  rfl

theorem listTargets_raised {ts : List Target} (h : ∀ t ∈ ts, (t.entry workingDir).isSome = true) :
    (listTargets workingDir ts).2 = false := by
  induction ts with
  | nil => rfl
  | cons t ts ih =>
      obtain ⟨e, he⟩ := Option.isSome_iff_exists.mp (h t List.mem_cons_self)
      unfold listTargets
      rw [he]
      exact ih fun t' ht' => h t' (List.mem_cons_of_mem t ht')

/-- Only a repository that is given by an absolute path ends the loop with an exception. -/
theorem raised_eq_false (h : ∀ a ∈ answers, (parsePath a.1.settings.repo).root = []) :
    (plan workingDir answers).raised = false := by
  induction answers with
  | nil => rfl
  | cons a answers ih =>
      obtain ⟨cfg, _ | releases⟩ := a
      · rfl
      · have hlist : (listTargets workingDir
            (repoTargets workingDir cfg.settings releases)).2 = false := by
          refine listTargets_raised fun t ht => ?_
          exact (below_repoTargets ht).entry (h _ List.mem_cons_self)
        unfold plan
        split
        · rename_i heq
          rw [heq] at hlist
          cases hlist
        · exact ih fun a ha => h a (List.mem_cons_of_mem _ ha)

example : (plan (parsePath "/srv/git".toList) [(.name "/srv/etc".toList,
    some [{ draft := false, prerelease := false, name := none, tagName := "v1".toList,
            publishedAt := 0, assets := [⟨"a".toList, 0, 1⟩] }])]).raised = true := by
  decide

/-- A relative path without `..`. -/
def Plain (repo : Text) : Prop :=
  (parsePath repo).root = [] ∧ ['.', '.'] ∉ (parsePath repo).parts

theorem Plain.place {repo : Text} (h : Plain repo) (workingDir : PurePath) (cwd : Path) :
    place cwd (workingDir.join (parsePath repo)) =
      place cwd workingDir ++ (parsePath repo).parts := by
  have hdown : ∀ c ∈ (parsePath repo).parts, c ≠ [] ∧ c ≠ ['.'] ∧ c ≠ ['.', '.'] := by
    intro c hc
    obtain ⟨hnil, hdot, -⟩ := (parsePath repo).parsed c hc
    exact ⟨hnil, hdot, fun heq => h.2 (heq ▸ hc)⟩
  unfold PurePath.join ReleaseListing.place
  rw [if_pos h.1, List.foldl_append, foldl_enter hdown]

/-- Whatever the server answers, every destination is the directory of a repository or in it, at
most two names deep, and these names can not lead out of it.  The path of the repository itself is
followed as it stands: a relative path without `..` stays in the working directory. -/
theorem entries_inside (he : e ∈ (plan workingDir answers).entries) (cwd : Path) :
    ∃ a ∈ answers, ∃ tail,
      walk (place cwd workingDir) e.dst.toList =
        place cwd (repoDir workingDir a.1.settings) ++ tail ∧
      tail.length ≤ 2 ∧ (∀ name ∈ tail, Safe name) ∧
      (Plain a.1.settings.repo →
        place cwd workingDir <+: walk (place cwd workingDir) e.dst.toList) := by
  obtain ⟨cfg, releases, hmem, t, ht, he⟩ := mem_entries he
  obtain ⟨rel, hrel, rfl⟩ := Option.map_eq_some_iff.mp he
  obtain ⟨hroot, tail, htail, hlength, hsafe⟩ := below_repoTargets ht
  have hplace : walk (place cwd workingDir) (posix rel).toList =
      place cwd (repoDir workingDir cfg.settings) ++ tail := by
    rw [walk_relativeTo hrel]
    unfold place
    rw [htail, hroot, List.foldl_append]
    exact foldl_enter (fun c hc => ⟨(hsafe c hc).ne_nil, (hsafe c hc).ne_dot,
      (hsafe c hc).ne_dotdot⟩) _
  refine ⟨_, hmem, tail, hplace, hlength, hsafe, fun hplain => ?_⟩
  unfold Entry.dst
  rw [hplace, repoDir, hplain.place, List.append_assoc]
  exact List.prefix_append _ _

/-- A release and an asset whose names lead upwards. -/
def sneakyRelease : Release where
  draft := false
  prerelease := false
  name := some "../../x".toList
  tagName := "v1".toList
  publishedAt := 0
  assets := [{ name := "..".toList, updatedAt := 0, size := 1 }]

/-- The second repository leads upwards itself. -/
def sneaky : List (Cfg × Option (List Release)) :=
  (parseRepos "owner/tool; ../evil".toList).map fun cfg => (cfg, some [sneakyRelease])

theorem sneaky_inside :
    ∃ e e', (plan (parsePath "/srv/git".toList) sneaky).entries = [e, e'] ∧
      e.dst = "owner/tool/.._.._x/. ." ∧ e'.dst = "../evil/.._.._x/. ." ∧
      (∃ a ∈ sneaky, ∃ tail,
        walk (place [] (parsePath "/srv/git".toList)) e.dst.toList =
          place [] (repoDir (parsePath "/srv/git".toList) a.1.settings) ++ tail ∧
        tail.length ≤ 2 ∧ (∀ name ∈ tail, Safe name) ∧
        (Plain a.1.settings.repo → place [] (parsePath "/srv/git".toList) <+:
          walk (place [] (parsePath "/srv/git".toList)) e.dst.toList)) ∧
      ¬ place [] (parsePath "/srv/git".toList) <+:
        walk (place [] (parsePath "/srv/git".toList)) e'.dst.toList :=
  ⟨_, _, rfl, by decide, by decide, entries_inside List.mem_cons_self [], by decide⟩

end KubeSync.ReleaseListing
