import KubeSync.MirrorZ
import KubeSync.RecognizerNames
import KubeSync.SortSlice
import Mathlib.Data.List.Nodup

/-! # The listings of files

`updateFile` walks over a map, in an order that is different each time, and stores what it has
recognised in that order.  `listFile` (`manager/server.go`) sorts the files of each File before it
answers, and `mirrorZ` does not.

* `SortSlice` is `sort.Slice`: nothing is known of the order of elements neither of which is less.
* `fileInfos_eq_some_iff` says what the walk collects, and `updateFile_store_eq` where it is
  stored.
* `listFile_same` : without two files of one name, `listFile` does not depend on the walk.
* `listings_iff` : the listings together do not, exactly when there are not two files to be
  ordered, or nothing is stored. -/

namespace KubeSync.FileListings

open Manager MirrorZ
open SortSlice (mergeSlice)

/-! ### `listFile` -/

/-- `internal.FileInfo`. -/
structure Listing where
  id : String
  type : String
  aliasName : String
  files : List FileInfo
  updateTime : ℤ
deriving DecidableEq, Repr

def lessName (a b : FileInfo) : Bool := a.name < b.name

def lessID (a b : Listing) : Bool := a.id < b.id

/-- The entry of a File; one without files has none. -/
def listingOf (sort : SortSlice) (v : String × File) : Option Listing :=
  if 0 < v.2.status.files.length then
    some
      { id := v.1
        type := v.2.spec.type
        aliasName := v.2.spec.aliasName
        files := sort.slice lessName v.2.status.files
        updateTime := v.2.status.updateTime }
  else none

/-- `listFile`; `items` is what `List` returns. -/
def listFile (sort : SortSlice) (items : Except String (List (String × File))) :
    Except Manager.Response (List Listing) :=
  match items with
  | .error err => .error (returnErrJSON 500 ("failed to list files: " ++ err))
  | .ok items => .ok (sort.slice lessID (items.filterMap (listingOf sort)))

/-- The Files of the store, in the order in which `List` returns them. -/
def itemsOf (s : Files) (names : List String) : List (String × File) :=
  names.filterMap fun name => (s.value name).map fun f => (name, f)

/-- The answer of `listFile` and the info of `mirrorZ` are the same for two stores. -/
structure SameListings (sort : SortSlice) (names : List String) (s₁ s₂ : Files) : Prop where
  listFile : listFile sort (.ok (itemsOf s₁ names)) = listFile sort (.ok (itemsOf s₂ names))
  info : (addFiles {} (itemsOf s₁ names)).info = (addFiles {} (itemsOf s₂ names)).info

/-! ### The walk -/

/-- The body with the entries of its map in another order. -/
def reorder (nFile : Decoded FileBase) (files : List (Text × ℕ)) : Decoded FileBase :=
  { nFile with value := { nFile.value with files } }

/-- What the walk keeps of one entry. -/
def entryOf (e : Text × ℕ) : Option FileInfo :=
  (recognizer e.1).bind fun info =>
    if info.name ≠ [] then some { info with size := e.2, sizeStr := parseSize e.2 } else none

variable {files files₁ files₂ : List (Text × ℕ)} {infos infos₁ infos₂ : List FileInfo}

theorem fileInfos_cons {e : Text × ℕ} (h : recognizer e.1 ≠ none) :
    fileInfos (e :: files) = (fileInfos files).map fun rest => (entryOf e).toList ++ rest := by
  obtain ⟨info, hinfo⟩ := Option.ne_none_iff_exists'.mp h
  unfold entryOf
  rw [fileInfos, hinfo]
  cases fileInfos files with
  | none => rfl
  | some rest =>
      by_cases hname : info.name = []
      · simp [hname]
      · simp [hname]

/-- The walk ends without a panic exactly when the recogniser reads all names. -/
theorem fileInfos_eq_some_iff :
    fileInfos files = some infos ↔
      (∀ e ∈ files, recognizer e.1 ≠ none) ∧ infos = files.filterMap entryOf := by
  induction files generalizing infos with
  | nil => simp [fileInfos, eq_comm]
  | cons e files ih =>
      by_cases he : recognizer e.1 = none
      · simp [fileInfos, he]
      · have hentry : (e :: files).filterMap entryOf =
            (entryOf e).toList ++ files.filterMap entryOf := by
          cases h : entryOf e <;> simp [h]
        rw [fileInfos_cons he, Option.map_eq_some_iff, hentry, List.forall_mem_cons]
        constructor
        · rintro ⟨rest, hrest, rfl⟩
          obtain ⟨hall, rfl⟩ := ih.mp hrest
          exact ⟨⟨he, hall⟩, rfl⟩
        · rintro ⟨⟨-, hall⟩, rfl⟩
          exact ⟨_, ih.mpr ⟨hall, rfl⟩, rfl⟩

/-- The orders of a map all panic, or none does and their results are in different order. -/
theorem fileInfos_perm (h : files₁.Perm files₂) :
    (fileInfos files₁ = none ∧ fileInfos files₂ = none) ∨
      ∃ infos₁ infos₂, fileInfos files₁ = some infos₁ ∧ fileInfos files₂ = some infos₂ ∧
        infos₁.Perm infos₂ := by
  by_cases hall : ∀ e ∈ files₁, recognizer e.1 ≠ none
  · have hall' : ∀ e ∈ files₂, recognizer e.1 ≠ none := fun e he => hall e (h.mem_iff.mpr he)
    exact .inr ⟨_, _, fileInfos_eq_some_iff.mpr ⟨hall, rfl⟩, fileInfos_eq_some_iff.mpr ⟨hall', rfl⟩,
      h.filterMap entryOf⟩
  · refine .inl ⟨Option.eq_none_iff_forall_ne_some.mpr fun infos hi => ?_,
      Option.eq_none_iff_forall_ne_some.mpr fun infos hi => ?_⟩
    · exact hall (fileInfos_eq_some_iff.mp hi).1
    · exact hall fun e he => (fileInfos_eq_some_iff.mp hi).1 e (h.mem_iff.mp he)

theorem path_of_entryOf {e : Text × ℕ} {info : FileInfo} (h : entryOf e = some info) :
    info.path = e.1 := by
  obtain ⟨f, hf, h⟩ := Option.bind_eq_some_iff.mp h
  rw [Option.ite_none_right_eq_some] at h
  have hpath : f.path = e.1 := path_of_recognizer hf
  rw [← Option.some.inj h.2]
  exact hpath

/-- The paths of the files are keys of the map. -/
theorem paths_sublist (files : List (Text × ℕ)) :
    ((files.filterMap entryOf).map FileInfo.path).Sublist (files.map Prod.fst) := by
  induction files with
  | nil => exact List.Sublist.refl _
  | cons e files ih =>
      cases h : entryOf e with
      | none =>
          rw [List.filterMap_cons_none h]
          exact ih.cons _
      | some info =>
          rw [List.filterMap_cons_some h, List.map_cons, List.map_cons, path_of_entryOf h]
          exact ih.cons_cons _

/-- Files of different paths have another order. -/
theorem reverse_paths_ne (hn : (infos.map FileInfo.path).Nodup) (hlen : 2 ≤ infos.length) :
    infos.reverse.map FileInfo.path ≠ infos.map FileInfo.path := by
  rw [List.map_reverse]
  have hlen' : 2 ≤ (infos.map FileInfo.path).length := by simpa using hlen
  generalize infos.map FileInfo.path = paths at hn hlen'
  intro heq
  cases paths with
  | nil => simp at hlen'
  | cons a paths =>
      have hne : paths ≠ [] := by
        rintro rfl
        simp at hlen'
      have hlast := congrArg List.head? heq
      rw [List.head?_reverse, List.getLast?_cons_of_ne_nil hne, List.head?_cons] at hlast
      exact (List.nodup_cons.mp hn).1 (List.mem_of_getLast? hlast)

/-! ### What is stored -/

variable {s : Files} {env : FileEnv} {id : String} {nFile : Decoded FileBase}

/-- The store and the copy of the File that the list is written with; there are none where the spec
cannot be patched. -/
def target (s : Files) (env : FileEnv) (id : String) (nFile : FileBase) :
    Option (Files × Option (ℕ × File)) :=
  let oFile := getFile s env.getFails env.lag id
  let spec := newSpec nFile oFile
  if spec = oldSpec oFile then some (s, oFile)
  else if env.patchFails then none
  else
    let s' := applyObject s id { spec } fun f => { f with spec }
    some (s', getFile s' env.getFails' env.lag' id)

/-- The list is written: no call fails, and the copy that was read is current. -/
def Accepted (s : Files) (env : FileEnv) (id : String) (nFile : FileBase) : Prop :=
  env.statusFails = false ∧
    ∃ s' n f, target s env id nFile = some (s', some (n, f)) ∧
      ((s'.current id).map Prod.fst) = some n

theorem finishFile_getD (copy : Option (ℕ × File)) (hne : infos ≠ [])
    (before : List Manager.Response) :
    (finishFile s env id copy infos before).store = (updateFiles s env id copy infos).getD s := by
  unfold finishFile
  rw [if_neg hne]
  cases updateFiles s env id copy infos <;> rfl

/-- The spec does not depend on the files. -/
theorem newSpec_reorder (nFile : FileBase) (files : List (Text × ℕ))
    (oFile : Option (ℕ × File)) : newSpec { nFile with files } oFile = newSpec nFile oFile := by
  cases oFile <;> rfl

/-- Where the list goes. -/
theorem updateFile_store_eq (h : fileInfos files = some infos) (hne : infos ≠ []) :
    (updateFile s env id (reorder nFile files)).store =
      match target s env id nFile.value with
      | none => s
      | some (s', copy) => (updateFiles s' env id copy infos).getD s' := by
  unfold updateFile target reorder
  simp only [h, newSpec_reorder]
  split
  · exact finishFile_getD _ hne _
  · split
    · rfl
    · obtain ⟨info, rest, rfl⟩ := List.exists_cons_of_ne_nil hne
      cases hget : getFile (applyObject s id _ _) env.getFails' env.lag' id with
      | none => rfl
      | some copy => exact finishFile_getD _ hne _

theorem updateFile_congr (h : fileInfos files₁ = fileInfos files₂) :
    updateFile s env id (reorder nFile files₁) = updateFile s env id (reorder nFile files₂) := by
  unfold updateFile reorder
  simp only [h, newSpec_reorder]
  rfl

/-- A list that is written is stored as it is. -/
theorem store_of_accepted (ha : Accepted s env id nFile.value) :
    ∃ (s' : Files) (f : File), ∀ files infos, fileInfos files = some infos → infos ≠ [] →
      (updateFile s env id (reorder nFile files)).store =
        s'.write id { f with status := { files := infos, updateTime := env.now } } := by
  obtain ⟨hstatus, s', n, copy, htarget, hcurrent⟩ := ha
  obtain ⟨⟨m, f⟩, hf, rfl⟩ := Option.map_eq_some_iff.mp hcurrent
  refine ⟨s', f, fun files infos hi hne => ?_⟩
  rw [updateFile_store_eq hi hne, htarget]
  simp [updateFiles, hstatus, Versioned.Store.modify, hf]

/-- A list that is refused leaves the same store, whatever it is. -/
theorem store_of_not_accepted (ha : ¬ Accepted s env id nFile.value) :
    ∃ s', ∀ files infos, fileInfos files = some infos → infos ≠ [] →
      (updateFile s env id (reorder nFile files)).store = s' := by
  cases htarget : target s env id nFile.value with
  | none =>
      refine ⟨s, fun files infos hi hne => ?_⟩
      rw [updateFile_store_eq hi hne, htarget]
  | some t =>
      obtain ⟨s', copy⟩ := t
      refine ⟨s', fun files infos hi hne => ?_⟩
      have hnone : updateFiles s' env id copy infos = none := by
        cases copy with
        | none => rfl
        | some c =>
            obtain ⟨n, f⟩ := c
            cases hstatus : env.statusFails with
            | true => simp [updateFiles, hstatus]
            | false =>
                have hstale : ∀ v, s'.current id ≠ some (n, v) := fun v hv =>
                  ha ⟨hstatus, s', n, f, htarget, by rw [hv]; rfl⟩
                simp only [updateFiles, hstatus, Versioned.Store.modify, Bool.false_eq_true,
                  if_false]
                cases hc : s'.current id with
                | none => rfl
                | some c =>
                    obtain ⟨m, v⟩ := c
                    refine if_neg fun hm => hstale v ?_
                    rw [hc, hm]
      rw [updateFile_store_eq hi hne, htarget]
      dsimp only
      rw [hnone]
      rfl

/-! ### The order of the walk -/

/-- The files that the walk keeps. -/
def recognised (files : List (Text × ℕ)) : List FileInfo := files.filterMap entryOf

/-- Two orders leave the same store where nothing is to be ordered or nothing is written. -/
theorem store_eq_of_perm (h : files₁.Perm files₂)
    (hc : (∃ e ∈ files₁, recognizer e.1 = none) ∨ (recognised files₁).length ≤ 1 ∨
      ¬ Accepted s env id nFile.value) :
    (updateFile s env id (reorder nFile files₁)).store =
      (updateFile s env id (reorder nFile files₂)).store := by
  rcases fileInfos_perm h with ⟨h₁, h₂⟩ | ⟨infos₁, infos₂, h₁, h₂, hperm⟩
  · exact congrArg Answer.store (updateFile_congr (h₁.trans h₂.symm))
  obtain ⟨hall, hinfos⟩ := fileInfos_eq_some_iff.mp h₁
  by_cases hlen : infos₁.length ≤ 1
  · have heq : infos₁ = infos₂ := by
      match infos₁, hlen with
      | [], _ => exact (List.nil_perm.mp hperm).symm
      | [a], _ => exact List.singleton_perm.mp hperm
    exact congrArg Answer.store (updateFile_congr (by rw [h₁, h₂, heq]))
  · have hne₁ : infos₁ ≠ [] := by
      rintro rfl
      simp at hlen
    have hne₂ : infos₂ ≠ [] := fun hnil => hne₁ (List.perm_nil.mp (hnil ▸ hperm))
    have ha : ¬ Accepted s env id nFile.value := by
      rcases hc with ⟨e, he, hnone⟩ | hle | ha
      · exact absurd hnone (hall e he)
      · exact absurd (hinfos ▸ hle) hlen
      · exact ha
    obtain ⟨s', hs'⟩ := store_of_not_accepted ha
    rw [hs' _ _ h₁ hne₁, hs' _ _ h₂ hne₂]

/-- The info of `mirrorZ`, File by File. -/
theorem info_itemsOf (s : Files) (names : List String) :
    (addFiles {} (itemsOf s names)).info =
      names.filterMap fun name => (s.value name).bind fun f => infoOf (name, f) := by
  unfold addFiles itemsOf
  rw [List.filterMap_filterMap]
  refine congrArg (names.filterMap ·) (funext fun name => ?_)
  cases s.value name <;> rfl

/-- The info of one File. -/
theorem infoOf_eq (id : String) {f : File} (hne : f.status.files ≠ []) :
    ∃ i, infoOf (id, f) = some i ∧ i.urls.map InfoUrl.url = f.status.files.map FileInfo.path :=
  ⟨_, if_pos (List.length_pos_of_ne_nil hne), by simp⟩

/-- Two lists made alike but for one name have the same entry there. -/
theorem entry_eq {g₁ g₂ : String → Option Info} {i₁ i₂ : Info} {names : List String}
    (hid : id ∈ names) (h₁ : g₁ id = some i₁) (h₂ : g₂ id = some i₂)
    (hothers : ∀ name, name ≠ id → g₁ name = g₂ name)
    (h : names.filterMap g₁ = names.filterMap g₂) : i₁ = i₂ := by
  induction names with
  | nil => cases hid
  | cons name names ih =>
      by_cases hname : name = id
      · subst hname
        rw [List.filterMap_cons_some h₁, List.filterMap_cons_some h₂] at h
        exact (List.cons.inj h).1
      · have hmem : id ∈ names := (List.mem_cons.mp hid).resolve_left (Ne.symm hname)
        cases hg : g₁ name with
        | none =>
            rw [List.filterMap_cons_none hg,
              List.filterMap_cons_none ((hothers name hname).symm.trans hg)] at h
            exact ih hmem h
        | some i =>
            rw [List.filterMap_cons_some hg,
              List.filterMap_cons_some ((hothers name hname).symm.trans hg)] at h
            exact ih hmem (List.cons.inj h).2

/-! ### Sorting by name -/

theorem lessName_eq_false {a b : FileInfo} : lessName a b = false ↔ ¬ a.name < b.name :=
  decide_eq_false_iff_not

theorem lessName_trans {a b c : FileInfo} (hab : lessName b a = false)
    (hbc : lessName c b = false) : lessName c a = false := by
  rw [lessName_eq_false] at hab hbc ⊢
  exact List.not_lt.mpr (List.le_trans (List.not_lt.mp hab) (List.not_lt.mp hbc))

theorem lessName_total (a b : FileInfo) : lessName a b = false ∨ lessName b a = false := by
  rw [lessName_eq_false, lessName_eq_false]
  exact (List.le_total b.name a.name).imp List.not_lt.mpr List.not_lt.mpr

/-- Sorting undoes the order of files with different names. -/
theorem slice_eq_of_perm (sort : SortSlice) (h : infos₁.Perm infos₂)
    (hn : (infos₁.map FileInfo.name).Nodup) :
    sort.slice lessName infos₁ = sort.slice lessName infos₂ := by
  have hsorted : ∀ infos, (sort.slice lessName infos).Pairwise
      fun a b => lessName b a = false := fun infos =>
    sort.sorted lessName infos (fun a b c => lessName_trans) lessName_total
  have hperm₁ := sort.perm lessName infos₁
  have hperm₂ := sort.perm lessName infos₂
  refine List.Perm.eq_of_pairwise (fun a b ha hb hab hba => ?_) (hsorted infos₁) (hsorted infos₂)
    ((hperm₁.trans h).trans hperm₂.symm)
  have hname : a.name = b.name :=
    List.le_antisymm (List.not_lt.mp (lessName_eq_false.mp hab))
      (List.not_lt.mp (lessName_eq_false.mp hba))
  exact List.inj_on_of_nodup_map hn (hperm₁.mem_iff.mp ha)
    (h.mem_iff.mpr (hperm₂.mem_iff.mp hb)) hname

/-- Two stores that differ in the order of the files of one File have the same listing. -/
theorem listFile_write (sort : SortSlice) (s : Files) (f : File) (names : List String) (now : ℤ)
    (h : infos₁.Perm infos₂) (hn : (infos₁.map FileInfo.name).Nodup) :
    listFile sort (.ok (itemsOf
        (s.write id { f with status := { files := infos₁, updateTime := now } }) names)) =
      listFile sort (.ok (itemsOf
        (s.write id { f with status := { files := infos₂, updateTime := now } }) names)) := by
  unfold listFile itemsOf
  simp only [List.filterMap_filterMap]
  congr 3
  funext name
  by_cases hname : name = id
  · subst hname
    simp only [Versioned.Store.value_write_self, Option.map_some, Option.bind_some, listingOf,
      slice_eq_of_perm sort h hn, h.length_eq]
  · rw [s.value_write_of_ne _ hname, s.value_write_of_ne _ hname]

/-- Without two files of one name, the answer of `listFile` does not depend on the walk. -/
theorem listFile_same (sort : SortSlice) (names : List String) (h : files₁.Perm files₂)
    (hn : ((recognised files₁).map FileInfo.name).Nodup) :
    listFile sort (.ok (itemsOf (updateFile s env id (reorder nFile files₁)).store names)) =
      listFile sort (.ok (itemsOf (updateFile s env id (reorder nFile files₂)).store names)) := by
  by_cases hc : (∃ e ∈ files₁, recognizer e.1 = none) ∨ (recognised files₁).length ≤ 1 ∨
      ¬ Accepted s env id nFile.value
  · rw [store_eq_of_perm h hc]
  · rw [not_or, not_or, not_not] at hc
    obtain ⟨hread, hlen, ha⟩ := hc
    rcases fileInfos_perm h with ⟨h₁, -⟩ | ⟨infos₁, infos₂, h₁, h₂, hperm⟩
    · have hall : ∀ e ∈ files₁, recognizer e.1 ≠ none := fun e he hnone => hread ⟨e, he, hnone⟩
      cases h₁.symm.trans (fileInfos_eq_some_iff.mpr ⟨hall, rfl⟩)
    · have hinfos : infos₁ = recognised files₁ := (fileInfos_eq_some_iff.mp h₁).2
      have hne₁ : infos₁ ≠ [] := by
        rintro rfl
        rw [← hinfos] at hlen
        simp at hlen
      have hne₂ : infos₂ ≠ [] := fun hnil => hne₁ (List.perm_nil.mp (hnil ▸ hperm))
      obtain ⟨s', f, hstore⟩ := store_of_accepted ha
      rw [hstore _ _ h₁ hne₁, hstore _ _ h₂ hne₂]
      exact listFile_write sort s' f names env.now hperm (hinfos ▸ hn)

/-! ### Both listings -/

/-- Where a list of two files or more is written, `mirrorZ` tells the walk from the reverse one,
among whatever other Files it lists. -/
theorem info_reverse_ne {names : List String} (hid : id ∈ names)
    (hall : ∀ e ∈ files, recognizer e.1 ≠ none)
    (hkeys : (files.map Prod.fst).Nodup) (hlen : 2 ≤ (recognised files).length)
    (ha : Accepted s env id nFile.value) :
    (addFiles {} (itemsOf (updateFile s env id (reorder nFile files)).store names)).info ≠
      (addFiles {}
        (itemsOf (updateFile s env id (reorder nFile files.reverse)).store names)).info := by
  have hall' : ∀ e ∈ files.reverse, recognizer e.1 ≠ none := fun e he =>
    hall e (List.mem_reverse.mp he)
  have h₁ := fileInfos_eq_some_iff.mpr ⟨hall, rfl⟩
  have h₂ := fileInfos_eq_some_iff.mpr ⟨hall', rfl⟩
  rw [List.filterMap_reverse] at h₂
  have hpaths := (paths_sublist files).nodup hkeys
  unfold recognised at hlen
  generalize files.filterMap entryOf = infos at h₁ h₂ hlen hpaths
  have hne : infos ≠ [] := by
    rintro rfl
    simp at hlen
  have hne' : infos.reverse ≠ [] := by simpa using hne
  obtain ⟨s', f, hstore⟩ := store_of_accepted ha
  rw [hstore _ _ h₁ hne, hstore _ _ h₂ hne', info_itemsOf, info_itemsOf]
  obtain ⟨i, hi, hurls⟩ := infoOf_eq id
    (f := { f with status := { files := infos, updateTime := env.now } }) hne
  obtain ⟨i', hi', hurls'⟩ := infoOf_eq id
    (f := { f with status := { files := infos.reverse, updateTime := env.now } }) hne'
  intro hsame
  have hentry : i = i' := by
    refine entry_eq hid ?_ ?_ (fun name hname => ?_) hsame
    · rw [s'.value_write_self, Option.bind_some, hi]
    · rw [s'.value_write_self, Option.bind_some, hi']
    · rw [s'.value_write_of_ne _ hname, s'.value_write_of_ne _ hname]
  rw [hentry] at hurls
  exact reverse_paths_ne hpaths hlen (hurls'.symm.trans hurls)

/-- **Listings.**  `List` returns the Files `names`, that of the request among them.  The answers of
`listFile` and the info of `mirrorZ` are the same for all orders of a map exactly when the
recogniser panics on one of its names, or recognises at most one file, or the list is not
written. -/
theorem listings_iff (sort : SortSlice) (s : Files) (env : FileEnv) (id : String)
    (nFile : Decoded FileBase) (names : List String) (hid : id ∈ names)
    (hkeys : (nFile.value.files.map Prod.fst).Nodup) :
    (∀ files₁ files₂, files₁.Perm nFile.value.files → files₂.Perm nFile.value.files →
        SameListings sort names (updateFile s env id (reorder nFile files₁)).store
          (updateFile s env id (reorder nFile files₂)).store) ↔
      (∃ e ∈ nFile.value.files, recognizer e.1 = none) ∨
        (recognised nFile.value.files).length ≤ 1 ∨ ¬ Accepted s env id nFile.value := by
  constructor
  · intro h
    by_contra hc
    rw [not_or, not_or, not_not] at hc
    obtain ⟨hread, hlen, ha⟩ := hc
    have hall : ∀ e ∈ nFile.value.files, recognizer e.1 ≠ none := fun e he hnone =>
      hread ⟨e, he, hnone⟩
    have hsame := h _ _ (List.Perm.refl _) (List.reverse_perm nFile.value.files)
    exact info_reverse_ne hid hall hkeys (by omega) ha hsame.info
  · intro hc files₁ files₂ h₁ h₂
    have hc₁ : (∃ e ∈ files₁, recognizer e.1 = none) ∨ (recognised files₁).length ≤ 1 ∨
        ¬ Accepted s env id nFile.value := by
      rcases hc with ⟨e, he, hnone⟩ | hle | hacc
      · exact .inl ⟨e, h₁.mem_iff.mpr he, hnone⟩
      · have hlength : (recognised files₁).length = (recognised nFile.value.files).length :=
          (h₁.filterMap entryOf).length_eq
        exact .inr (.inl (by omega))
      · exact .inr (.inr hacc)
    rw [store_eq_of_perm (h₁.trans h₂.symm) hc₁]
    exact ⟨rfl, rfl⟩

/-- A body with an image and a file that is not recognised. -/
def oneImage : Decoded FileBase where
  value := { files := [("/iso/ubuntu-22.04-desktop-amd64.iso".toList, 5), ("/README".toList, 1)] }

theorem listings_oneImage :
    SameListings mergeSlice ["ubuntu"]
      (updateFile .empty {} "ubuntu" (reorder oneImage oneImage.value.files)).store
      (updateFile .empty {} "ubuntu" (reorder oneImage oneImage.value.files.reverse)).store :=
  (listings_iff mergeSlice .empty {} "ubuntu" oneImage ["ubuntu"] (by decide) (by decide)).mpr
    (.inr (.inl (by decide))) _ _ (List.Perm.refl _) (List.reverse_perm _)

/-- A body with two images. -/
def twoImages : Decoded FileBase where
  value :=
    { files := [("/ubuntu-22.04-desktop-amd64.iso".toList, 5),
        ("/ubuntu-22.04-server-amd64.iso".toList, 2)] }

/-- What `mirrorZ` says of the File behind a body. -/
def infoBehind (nFile : Decoded FileBase) : List Info :=
  (addFiles {} (itemsOf (updateFile .empty {} "ubuntu" nFile).store ["ubuntu"])).info

/-- The urls come in the order of the walk. -/
theorem info_follows_walk :
    (infoBehind (reorder twoImages twoImages.value.files)).map
        (fun i => i.urls.map InfoUrl.url) =
      [["/ubuntu-22.04-desktop-amd64.iso".toList, "/ubuntu-22.04-server-amd64.iso".toList]] ∧
    (infoBehind (reorder twoImages twoImages.value.files.reverse)).map
        (fun i => i.urls.map InfoUrl.url) =
      [["/ubuntu-22.04-server-amd64.iso".toList, "/ubuntu-22.04-desktop-amd64.iso".toList]] ∧
    ¬ SameListings mergeSlice ["ubuntu"]
      (updateFile .empty {} "ubuntu" (reorder twoImages twoImages.value.files)).store
      (updateFile .empty {} "ubuntu" (reorder twoImages twoImages.value.files.reverse)).store := by
  have hurls : (infoBehind (reorder twoImages twoImages.value.files)).map
      (fun i => i.urls.map InfoUrl.url) =
    [["/ubuntu-22.04-desktop-amd64.iso".toList, "/ubuntu-22.04-server-amd64.iso".toList]] := by
    decide +kernel
  have hurls' : (infoBehind (reorder twoImages twoImages.value.files.reverse)).map
      (fun i => i.urls.map InfoUrl.url) =
    [["/ubuntu-22.04-server-amd64.iso".toList, "/ubuntu-22.04-desktop-amd64.iso".toList]] := by
    decide +kernel
  refine ⟨hurls, hurls', fun h => ?_⟩
  have hsame : infoBehind (reorder twoImages twoImages.value.files) =
      infoBehind (reorder twoImages twoImages.value.files.reverse) := h.info
  rw [hsame, hurls'] at hurls
  revert hurls
  decide

end KubeSync.FileListings
