import KubeSync.Dict
import KubeSync.FileHistory

/-! # Reports of images

The hook `reporter` of the worker image (`worker/utils/reporter`) walks over the data of a mirror
and posts the images that it finds to the manager, which recognises them (`updateFile`) and lists
them (`getFile`, `listFile`, `mirrorZ`).

* The data are trees of regular files and directories; `os.walk` meets them in the order of the
  lists.  Links are left out.
* A Python dictionary is the list of its items.  The manager meets the items of the posted map in
  an order of its own: `Report.order`.
* `Found` says on the trees which paths a report has; `found_of_mem` and `has_of_found`
  connect it with the walk.
* `reports_published` : what the manager lists for a mirror is what its last report was about that
  could be read and had an image. -/

namespace KubeSync.Reporter

open Manager (Files File fileInfos updateFile)
open FileHistory (Label step getFile events applyAll value_step)
open FileListings (Listing entryOf)
open History (Latest)

/-! ### `os.walk` -/

inductive Entry where
  | file (name : Text) (size : ℕ)
  | dir (name : Text) (entries : List Entry)

/-- `name[0] == '.'`. -/
def hidden (name : Text) : Bool := name.head? = some '.'

/-- `os.path.join`. -/
def osJoin (a b : Text) : Text :=
  if b.head? = some '/' then b
  else if a = [] ∨ a.getLast? = some '/' then a ++ b
  else a ++ '/' :: b

def filesOf (entries : List Entry) : List (Text × ℕ) :=
  entries.filterMap fun e =>
    match e with
    | .file name size => some (name, size)
    | .dir _ _ => none

mutual

/-- The directories that are walked over from an entry on, with their files; the loop takes the
hidden ones out of `dirs`. -/
def Entry.walk (root : Text) : Entry → List (Text × List (Text × ℕ))
  | .file _ _ => []
  | .dir name entries =>
      if hidden name then []
      else (osJoin root name, filesOf entries) :: walkAll (osJoin root name) entries

def walkAll (root : Text) : List Entry → List (Text × List (Text × ℕ))
  | [] => []
  | e :: entries => e.walk root ++ walkAll root entries

end

def walk (path : Text) (entries : List Entry) : List (Text × List (Text × ℕ)) :=
  (path, filesOf entries) :: walkAll path entries

/-! ### `find` -/

/-- The settings: `FIND_PATH`, `FIND_EXT`, `FIND_INCLUDE` and `FIND_EXCLUDE`. -/
structure Settings where
  path : List Text := ["/data".toList]
  ext : List Text := [".iso".toList]
  includeText : String := ""
  excludeText : String := "placeholder"

/-- `os.path.splitext(name)[-1]`, for a name that does not begin with a dot. -/
def splitext (name : Text) : Text :=
  if '.' ∈ name then '.' :: (name.reverse.takeWhile (· ≠ '.')).reverse else []

def Settings.root (st : Settings) (root : Text) : Bool :=
  (st.includeText = "" || Recognizer.contains root st.includeText) &&
    !Recognizer.contains root st.excludeText

def Settings.file (st : Settings) (name : Text) : Bool :=
  !hidden name && splitext name ∈ st.ext && Recognizer.contains name st.includeText &&
    !Recognizer.contains name st.excludeText

/-- The key of a file: its path without `/data`. -/
def keyOf (root name : Text) : Text := osJoin (Recognizer.trimPrefix root "/data") name

/-- The items of one directory. -/
def itemsOf (st : Settings) (d : Text × List (Text × ℕ)) : List (Text × ℕ) :=
  if st.root d.1 then (d.2.filter fun f => st.file f.1).map fun f => (keyOf d.1 f.1, f.2) else []

def find (st : Settings) (path : Text) (entries : List Entry) : List (Text × ℕ) :=
  (walk path entries).foldl (fun files d => Dict.update Prod.fst files (itemsOf st d)) []

/-- The files that are posted; `disk` has the entries of each path of the settings. -/
def files (st : Settings) (disk : Text → List Entry) : List (Text × ℕ) :=
  st.path.foldl (fun files path => Dict.update Prod.fst files (find st path (disk path))) []

/-! ### What is found -/

/-- A file below a path, in a directory that can be walked to. -/
inductive OnDisk : Text → List Entry → Text → Text → ℕ → Prop where
  | here {root name : Text} {entries : List Entry} {size : ℕ} (h : .file name size ∈ entries) :
      OnDisk root entries root name size
  | under {root d dir name : Text} {entries sub : List Entry} {size : ℕ}
      (h : .dir d sub ∈ entries) (hd : hidden d = false)
      (hsub : OnDisk (osJoin root d) sub dir name size) : OnDisk root entries dir name size

/-- A path of a report, with the size of a file behind it. -/
def Found (st : Settings) (disk : Text → List Entry) (key : Text) (size : ℕ) : Prop :=
  ∃ path ∈ st.path, ∃ root name, OnDisk path (disk path) root name size ∧
    st.root root = true ∧ st.file name = true ∧ key = keyOf root name

variable {st : Settings} {disk : Text → List Entry} {root path dir name key : Text}
  {entries : List Entry} {size : ℕ} {d items : List (Text × ℕ)}

theorem mem_filesOf : (name, size) ∈ filesOf entries ↔ .file name size ∈ entries := by
  unfold filesOf
  rw [List.mem_filterMap]
  constructor
  · rintro ⟨e, he, heq⟩
    cases e with
    | file name' size' =>
        obtain ⟨rfl, rfl⟩ := Prod.mk.inj (Option.some.inj heq)
        exact he
    | dir => cases heq
  · intro h
    exact ⟨_, h, rfl⟩

mutual

theorem onDisk_of_mem_walk {l : List (Text × ℕ)} (e : Entry) (root : Text)
    (h : (dir, l) ∈ e.walk root) (hf : (name, size) ∈ l) :
    ∃ d sub, e = .dir d sub ∧ hidden d = false ∧ OnDisk (osJoin root d) sub dir name size := by
  cases e with
  | file => cases h
  | dir d sub =>
      rw [Entry.walk] at h
      cases hd : hidden d with
      | true =>
          rw [hd, if_pos rfl] at h
          cases h
      | false =>
          rw [hd, if_neg Bool.false_ne_true] at h
          refine ⟨d, sub, rfl, hd, ?_⟩
          rcases List.mem_cons.mp h with heq | h
          · obtain ⟨rfl, rfl⟩ := Prod.mk.inj heq
            exact .here (mem_filesOf.mp hf)
          · exact onDisk_of_mem_walkAll sub _ h hf

theorem onDisk_of_mem_walkAll {l : List (Text × ℕ)} (entries : List Entry) (root : Text)
    (h : (dir, l) ∈ walkAll root entries) (hf : (name, size) ∈ l) :
    OnDisk root entries dir name size := by
  cases entries with
  | nil => cases h
  | cons e entries =>
      rw [walkAll, List.mem_append] at h
      rcases h with h | h
      · obtain ⟨d, sub, rfl, hd, hsub⟩ := onDisk_of_mem_walk e root h hf
        exact .under List.mem_cons_self hd hsub
      · cases onDisk_of_mem_walkAll entries root h hf with
        | here hmem => exact .here (List.mem_cons_of_mem e hmem)
        | under hmem hd hsub => exact .under (List.mem_cons_of_mem e hmem) hd hsub

end

theorem mem_walkAll {x : Text × List (Text × ℕ)} {e : Entry} (he : e ∈ entries)
    (h : x ∈ e.walk root) : x ∈ walkAll root entries := by
  induction entries with
  | nil => cases he
  | cons e' entries ih =>
      rw [walkAll, List.mem_append]
      rcases List.mem_cons.mp he with rfl | he
      · exact .inl h
      · exact .inr (ih he)

/-- The walk meets the files on the disk. -/
theorem mem_walk_iff :
    (∃ l, (dir, l) ∈ walk root entries ∧ (name, size) ∈ l) ↔
      OnDisk root entries dir name size := by
  unfold walk
  constructor
  · rintro ⟨l, h, hf⟩
    rcases List.mem_cons.mp h with heq | h
    · obtain ⟨rfl, rfl⟩ := Prod.mk.inj heq
      exact .here (mem_filesOf.mp hf)
    · exact onDisk_of_mem_walkAll entries root h hf
  · intro h
    induction h with
    | here h => exact ⟨_, List.mem_cons_self, mem_filesOf.mpr h⟩
    | under h hd hsub ih =>
        obtain ⟨l, hl, hf⟩ := ih
        refine ⟨l, List.mem_cons_of_mem _ (mem_walkAll h ?_), hf⟩
        rw [Entry.walk, hd, if_neg Bool.false_ne_true]
        exact hl

/-! ### The dictionary -/

/-- Every item of a report is a file. -/
theorem found_of_mem (h : (key, size) ∈ files st disk) : Found st disk key size := by
  rcases Dict.mem_updates h with h | ⟨path, hpath, h⟩
  · cases h
  rcases Dict.mem_updates h with h | ⟨⟨root, l⟩, hd, h⟩
  · cases h
  unfold itemsOf at h
  split at h
  next hroot =>
    obtain ⟨⟨name, n⟩, hf, heq⟩ := List.mem_map.mp h
    obtain ⟨rfl, rfl⟩ := Prod.mk.inj heq
    obtain ⟨hmem, hfile⟩ := List.mem_filter.mp hf
    exact ⟨path, hpath, root, name, mem_walk_iff.mp ⟨l, hd, hmem⟩, hroot, hfile, rfl⟩
  next => cases h

/-- Every file is an item of a report. -/
theorem has_of_found (h : Found st disk key size) : Dict.Has Prod.fst (files st disk) key := by
  obtain ⟨path, hpath, root, name, hdisk, hroot, hfile, rfl⟩ := h
  obtain ⟨l, hl, hmem⟩ := mem_walk_iff.mpr hdisk
  refine Dict.has_updates hpath (Dict.has_updates hl ⟨(keyOf root name, size), ?_, rfl⟩)
  unfold itemsOf
  rw [if_pos hroot]
  exact List.mem_map.mpr ⟨(name, size), List.mem_filter.mpr ⟨hmem, hfile⟩, rfl⟩

/-! ### Reports -/

/-- A run of `reporter` whose request reaches the manager, with no call of the handler failing. -/
structure Report where
  name : String
  settings : Settings
  disk : Text → List Entry
  now : ℤ
  order : List (Text × ℕ)
  perm : order.Perm (files settings disk)

namespace Report

def label (r : Report) : Label := .update r.name { now := r.now } { value := { files := r.order } }

/-- The images that the manager makes of a report. -/
def images (r : Report) : List FileInfo := r.order.filterMap entryOf

protected def Found (r : Report) (key : Text) (size : ℕ) : Prop :=
  Reporter.Found r.settings r.disk key size

end Report

/-- The recogniser has a name for the file. -/
def Recognised (key : Text) : Prop := ∃ info, recognizer key = some info ∧ info.name ≠ []

/-- The recogniser can read all paths of the report, and it has a name for one of them. -/
def Report.Publishes (r : Report) : Prop :=
  (∀ key size, r.Found key size → recognizer key ≠ none) ∧
    ∃ key size, r.Found key size ∧ Recognised key

/-- The images are files that were found, and no recognised file is missing. -/
structure Report.Shows (r : Report) (infos : List FileInfo) : Prop where
  found : ∀ info ∈ infos, r.Found info.path info.size
  complete : ∀ key size, r.Found key size → Recognised key → ∃ info ∈ infos, info.path = key

variable {r : Report} {infos : List FileInfo}

theorem entryOf_eq_some {e : Text × ℕ} {info : FileInfo} (h : entryOf e = some info) :
    info.path = e.1 ∧ info.size = e.2 ∧ Recognised e.1 := by
  refine ⟨FileListings.path_of_entryOf h, ?_⟩
  unfold entryOf at h
  obtain ⟨f, hf, h⟩ := Option.bind_eq_some_iff.mp h
  rw [Option.ite_none_right_eq_some] at h
  obtain ⟨hname, h⟩ := h
  obtain rfl := Option.some.inj h
  exact ⟨rfl, f, hf, hname⟩

theorem exists_entryOf {key : Text} (h : Recognised key) (size : ℕ) :
    ∃ info, entryOf (key, size) = some info := by
  obtain ⟨info, hinfo, hname⟩ := h
  unfold entryOf
  rw [hinfo]
  exact ⟨_, if_pos hname⟩

/-- The items of the posted map are those of the dictionary. -/
theorem Report.found_of_mem_order (h : (key, size) ∈ r.order) : r.Found key size :=
  found_of_mem (r.perm.mem_iff.mp h)

theorem Report.mem_order_of_found (h : r.Found key size) : ∃ n, (key, n) ∈ r.order := by
  obtain ⟨⟨_, n⟩, hn, rfl⟩ := has_of_found h
  exact ⟨n, r.perm.mem_iff.mpr hn⟩

theorem Report.shows_images (r : Report) : r.Shows r.images where
  found info hinfo := by
    obtain ⟨⟨key, size⟩, he, hentry⟩ := List.mem_filterMap.mp hinfo
    obtain ⟨hpath, hsize, -⟩ := entryOf_eq_some hentry
    rw [hpath, hsize]
    exact r.found_of_mem_order he
  complete key size hfound hrec := by
    obtain ⟨n, hn⟩ := r.mem_order_of_found hfound
    obtain ⟨info, hinfo⟩ := exists_entryOf hrec n
    exact ⟨info, List.mem_filterMap.mpr ⟨_, hn, hinfo⟩, (entryOf_eq_some hinfo).1⟩

/-- A report is published when the manager's loop reads it and keeps something of it. -/
theorem Report.publishes_iff : r.Publishes ↔ fileInfos r.order = some r.images ∧ r.images ≠ [] := by
  rw [FileListings.fileInfos_eq_some_iff]
  constructor
  · rintro ⟨hread, key, size, hfound, hrec⟩
    refine ⟨⟨fun e he => hread e.1 e.2 (r.found_of_mem_order he), rfl⟩, ?_⟩
    obtain ⟨info, hinfo, -⟩ := r.shows_images.complete key size hfound hrec
    exact List.ne_nil_of_mem hinfo
  · rintro ⟨⟨hread, -⟩, hne⟩
    refine ⟨fun key size hfound => ?_, ?_⟩
    · obtain ⟨n, hn⟩ := r.mem_order_of_found hfound
      exact hread _ hn
    · obtain ⟨info, hinfo⟩ := List.exists_mem_of_ne_nil _ hne
      obtain ⟨⟨key, size⟩, he, hentry⟩ := List.mem_filterMap.mp hinfo
      exact ⟨key, size, r.found_of_mem_order he, (entryOf_eq_some hentry).2.2⟩

/-! ### The manager's part -/

variable {s s' : Files} {id : String}

/-- The list is written where no call fails. -/
theorem finishFile_succeeds {now : ℤ} {before : List Manager.Response} {f : File}
    (hf : s.value id = some f) :
    ¬ Manager.Failed
      (Manager.finishFile s { now } id (s.current id) infos before).written := by
  unfold Manager.finishFile
  dsimp only
  split
  · exact Manager.not_failed_ok rfl
  · unfold Versioned.Store.value at hf
    obtain ⟨⟨n, f'⟩, hc, rfl⟩ := Option.map_eq_some_iff.mp hf
    have hmodify : Manager.updateFiles s { now } id (s.current id) infos =
        some (s.write id { f' with status := { files := infos, updateTime := now } }) := by
      unfold Manager.updateFiles
      rw [hc]
      exact Versioned.Store.modify_eq_some.mpr ⟨f', hc, rfl⟩
    rw [hmodify]
    exact Manager.not_failed_ok rfl

theorem updateFile_succeeds {now : ℤ} {nFile : Manager.Decoded Manager.FileBase}
    (hinfos : fileInfos nFile.value.files = some infos) :
    ¬ Manager.Failed (updateFile s { now } id nFile).written := by
  unfold updateFile
  rw [hinfos]
  dsimp only
  split
  next hspec =>
    obtain ⟨f, hf, -⟩ := FileHistory.value_of_newSpec hspec
    exact finishFile_succeeds hf
  next hspec =>
    have happly := Manager.applyObject_wrote s id
      (Manager.newSpec nFile.value (Manager.getFile s false 0 id))
    rw [if_neg Bool.false_ne_true]
    split
    next heq =>
      -- the copy that is read again is the one that was patched
      obtain ⟨c, hc, -⟩ := Option.map_eq_some_iff.mp happly.self
      cases heq.symm.trans hc
    next => exact finishFile_succeeds happly.self

/-- The images that are listed for a File. -/
def listed (v : Option File) : List FileInfo := (v.map fun f => f.status.files).getD []

theorem Report.fresh (r : Report) : r.label.Fresh := ⟨rfl, rfl⟩

/-- What a report stores. -/
theorem events_report (hinfos : fileInfos r.order = some infos) :
    events s r.label = [.posted r.name {} (FileHistory.statusOf infos r.now)] := by
  have htaken : FileHistory.taken s { now := r.now } r.name { files := r.order } = true :=
    FileHistory.taken_iff.mpr ⟨by rw [hinfos]; nofun, .inr rfl⟩
  have hstatus : FileHistory.newStatus s { now := r.now } r.name
      { value := { files := r.order } } = FileHistory.statusOf infos r.now :=
    FileHistory.newStatus_of_not_failed hinfos (updateFile_succeeds hinfos)
  unfold Report.label events
  dsimp only
  rw [if_pos htaken, hstatus]

/-- A report that cannot be read stores nothing. -/
theorem events_unreadable (hinfos : fileInfos r.order = none) : events s r.label = [] :=
  if_neg fun htaken => (FileHistory.taken_iff.mp htaken).1 hinfos

/-- What a report makes of the list of its own File. -/
theorem listed_report (h : step s r.label = some s') :
    (r.Publishes → listed (s'.value r.name) = r.images) ∧
      (¬ r.Publishes → listed (s'.value r.name) = listed (s.value r.name)) := by
  rw [value_step r.fresh h, Report.publishes_iff]
  cases hinfos : fileInfos r.order with
  | none =>
      rw [events_unreadable hinfos]
      exact ⟨nofun, fun _ => rfl⟩
  | some infos =>
      obtain rfl : infos = r.images := (FileListings.fileInfos_eq_some_iff.mp hinfos).2
      rw [events_report hinfos]
      change (_ → listed ((FileHistory.Event.posted r.name _ _).apply r.name _) = _) ∧
        (_ → listed ((FileHistory.Event.posted r.name _ _).apply r.name _) = _)
      unfold FileHistory.Event.apply FileHistory.statusOf listed
      dsimp only
      rw [if_pos rfl]
      by_cases hnil : r.images = []
      · rw [if_pos hnil]
        refine ⟨fun hp => absurd hnil hp.2, fun _ => ?_⟩
        cases s.value r.name <;> rfl
      · rw [if_neg hnil]
        exact ⟨fun _ => rfl, fun hp => absurd ⟨rfl, hnil⟩ hp⟩

/-- A report leaves the other Files alone. -/
theorem value_report_of_ne (h : step s r.label = some s') {k : String} (hk : r.name ≠ k) :
    s'.value k = s.value k := by
  rw [value_step r.fresh h]
  cases hinfos : fileInfos r.order with
  | none =>
      rw [events_unreadable hinfos]
      rfl
  | some infos =>
      rw [events_report hinfos]
      exact if_neg hk

theorem published_run {rs done : List Report} {name : String}
    (hl : Latest (fun _ r => r.name = name ∧ r.Publishes) Report.images [] done
      (listed (s.value name)))
    (hrun : Lts.run step s (rs.map Report.label) = some s') :
    Latest (fun _ r => r.name = name ∧ r.Publishes) Report.images [] (done ++ rs)
      (listed (s'.value name)) := by
  induction rs generalizing s done with
  | nil =>
      obtain rfl := Option.some.inj hrun
      rw [List.append_nil]
      exact hl
  | cons r rs ih =>
      obtain ⟨s₁, hstep, hrest⟩ := Lts.run_cons.mp hrun
      obtain ⟨hpub, hkept⟩ := listed_report hstep
      rw [List.append_cons]
      refine ih ?_ hrest
      by_cases hname : r.name = name
      · subst hname
        by_cases hp : r.Publishes
        · rw [hpub hp]
          exact .hit ⟨rfl, hp⟩
        · rw [hkept hp]
          exact hl.miss fun h => hp h.2
      · rw [value_report_of_ne hstep hname]
        exact hl.miss fun h => hname h.1

/-- **Reports.**  Mirrors report their images in any order, from data that change in between.  The
images that the manager lists for a mirror are those of its last report that is published, and none
when there is no such report.  The images of a report are files of its data, with their sizes, and
all of them that are recognised; a report is published when the recogniser can read every path of it
and has a name for one of them. -/
theorem reports_published (rs : List Report) (s : Files)
    (hrun : Lts.run step .empty (rs.map Report.label) = some s) (name : String) (env : Manager.Env)
    (hget : env.getFails = false) (hlag : env.lag = 0) :
    ∃ infos, Latest (fun _ r => r.name = name ∧ r.Publishes) Report.images [] rs infos ∧
      ((getFile s env name).toOption.map Listing.files).getD [] = infos ∧
      ∀ r ∈ rs, r.Shows r.images := by
  refine ⟨listed (s.value name), published_run (.nil _ _ _) hrun, ?_, fun r _ => r.shows_images⟩
  rw [FileHistory.getFile_toOption hget hlag]
  cases s.value name <;> rfl

/-- A report with the usual settings, met by the manager in the order of the walk. -/
def reportOf (name : String) (entries : List Entry) (now : ℤ) : Report where
  name
  settings := {}
  disk _ := entries
  now
  order := files {} fun _ => entries
  perm := .refl _

/-- Two images, of which one is still being downloaded. -/
def firstData : List Entry :=
  [.dir "isos".toList [.file "AlmaLinux-9.3-x86_64-minimal.iso".toList 5],
    .dir ".tmp".toList [.file "AlmaLinux-9.4-x86_64-minimal.iso".toList 2]]

/-- The next version, and a name that the recogniser cannot read. -/
def nextData : List Entry :=
  [.dir "isos".toList [.file "AlmaLinux-9.4-x86_64-minimal.iso".toList 6,
    .file "AlmaLinux-9-latest-x86_64.iso".toList 6]]

/-- The second report is lost, and the list keeps an image that is gone. -/
theorem unreadable_report_lost : ∃ s infos, Lts.run step .empty
      ([reportOf "almalinux" firstData 100, reportOf "almalinux" nextData 200].map Report.label) =
        some s ∧
    Latest (fun _ r => r.name = "almalinux" ∧ r.Publishes) Report.images []
      [reportOf "almalinux" firstData 100, reportOf "almalinux" nextData 200] infos ∧
    infos.map (fun info => (info.path, info.size)) =
      [("/isos/AlmaLinux-9.3-x86_64-minimal.iso".toList, 5)] := by
  obtain ⟨infos, hlatest, hget, -⟩ := reports_published
    [reportOf "almalinux" firstData 100, reportOf "almalinux" nextData 200] _ rfl "almalinux" {}
    rfl rfl
  refine ⟨_, infos, rfl, hlatest, ?_⟩
  rw [← hget]
  decide +kernel

end KubeSync.Reporter
