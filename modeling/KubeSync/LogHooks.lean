import KubeSync.LogRotation

/-! # The log limiter on its directory

The hook of `KubeSync.Context` works on files known by their path, with what `ReadDir` returns left
open; `KubeSync.LogRotation` has the directory as a value.  The two agree: where the files under the
log directory are the entries of a directory (`Shows`), they still are after `limitLogs` and
`preExec`, and after `keepFailedLog` and `postFail`.

* The entries have names without a slash other than `.` and `..` (`Plain`), so that different
  entries have different paths (`joinPath_plain`).
* The link `latest` is an entry here and is left out of the files there. -/

namespace KubeSync.LogRotation

open ProviderContext (HookEnv Disk oldLogs logFileName limitLogs keepFailedLog)
open WorkerConfig (clean cleanStep joinPath)

/-! ### Paths of entries -/

/-- A name that a directory entry can have. -/
structure Plain (file : Text) : Prop where
  ne_nil : file ≠ []
  ne_dot : file ≠ ['.']
  ne_dots : file ≠ ['.', '.']
  no_slash : '/' ∉ file

theorem cleanStep_plain {file : Text} (h : Plain file) (rooted : Bool) (stack : List Text) :
    cleanStep rooted stack file = file :: stack := by
  unfold cleanStep
  rw [if_neg, if_neg h.ne_dots]
  rintro (hnil | hdot)
  · exact h.ne_nil hnil
  · exact h.ne_dot hdot

/-- What stands before the last element of a path. -/
def before : List Text → Text
  | [] => []
  | l => ['/'].intercalate l ++ ['/']

theorem intercalate_concat (l : List Text) (file : Text) :
    ['/'].intercalate (l ++ [file]) = before l ++ file := by
  induction l with
  | nil => simp [before]
  | cons x l ih =>
      cases l with
      | nil => simp [before, List.intercalate_cons_cons]
      | cons y l =>
          rw [List.cons_append, List.cons_append, List.intercalate_cons_cons, ← List.cons_append,
            ih]
          simp [before, List.intercalate_cons_cons]

/-- The path of an entry is the path of the directory before its name. -/
theorem joinPath_plain (dir : String) :
    ∃ base : Text, ∀ file : String, Plain file.toList →
      (joinPath dir file).toList = base ++ file.toList := by
  by_cases hdir : dir = ""
  · refine ⟨[], fun file h => ?_⟩
    have hne : file ≠ "" := by
      rintro rfl
      exact h.ne_nil rfl
    have hhead : file.toList.head? ≠ some '/' := by
      intro hh
      exact h.no_slash (List.mem_of_mem_head? hh)
    unfold joinPath clean
    rw [if_neg (not_not.mpr hdir), if_pos hne, String.toList_ofList,
      List.splitOn_eq_singleton h.no_slash]
    simp [hhead, cleanStep_plain h, h.ne_nil]
  · have hchars : dir.toList ≠ [] := by
      intro hnil
      exact hdir (String.toList_eq_nil_iff.mp hnil)
    let stack := (dir.toList.splitOn '/').foldl
      (cleanStep (decide (dir.toList.head? = some '/'))) []
    refine ⟨if dir.toList.head? = some '/' then '/' :: before stack.reverse
      else before stack.reverse, fun file h => ?_⟩
    have hhead : (dir.toList ++ '/' :: file.toList).head? = dir.toList.head? :=
      List.head?_append_of_ne_nil _ hchars
    have hbody : ['/'].intercalate (((dir.toList ++ '/' :: file.toList).splitOn '/').foldl
        (cleanStep (decide (dir.toList.head? = some '/'))) []).reverse =
        before stack.reverse ++ file.toList := by
      rw [List.splitOn_append_cons_self, List.splitOn_eq_singleton h.no_slash, List.foldl_append]
      simp only [List.foldl_cons, List.foldl_nil]
      rw [cleanStep_plain h, List.reverse_cons, intercalate_concat]
    have hne : before stack.reverse ++ file.toList ≠ [] := by
      intro hnil
      exact h.ne_nil (List.append_eq_nil_iff.mp hnil).2
    unfold joinPath clean
    rw [if_pos hdir, String.toList_ofList]
    simp only [hhead, hbody, if_neg hne]
    split
    · rfl
    · rfl

theorem joinPath_inj {dir file file' : String} (h : Plain file.toList) (h' : Plain file'.toList)
    (heq : joinPath dir file = joinPath dir file') : file = file' := by
  obtain ⟨base, hbase⟩ := joinPath_plain dir
  have htext := congrArg String.toList heq
  rw [hbase file h, hbase file' h'] at htext
  exact String.toList_inj.mp (List.append_cancel_left htext)

/-! ### The files and the entries -/

variable {name dir : String} {a : Attempt} {d : Dir} {s s' : ProviderContext.State} {env : HookEnv}

/-- The files under `dir` are the entries of the directory, but for the link. -/
def Shows (dir : String) (disk : Disk) (d : Dir) : Prop :=
  ∀ file : String, Plain file.toList → file ≠ "latest" →
    ((disk (joinPath dir file)).isSome = true ↔ ∃ e ∈ d, e.name = file)

/-- The system answers the hook as it does the attempt. -/
structure Answers (dir : String) (env : HookEnv) (a : Attempt) : Prop where
  now : env.now = a.now
  readDir : env.readDir = .ok a.listed
  remove : ∀ file : String, Plain file.toList → env.removeOk (joinPath dir file) = a.removeOk file
  rename : env.renameOk = a.renameOk

theorem shows_remove {disk : Disk} {file : String} (h : Shows dir disk d)
    (hfile : Plain file.toList) (hok : env.removeOk (joinPath dir file) = a.removeOk file) :
    Shows dir (ProviderContext.remove env disk (joinPath dir file)) (remove a.removeOk d file) := by
  intro other hother hlatest
  unfold ProviderContext.remove remove
  rw [hok]
  split
  · by_cases heq : other = file
    · subst heq
      rw [Function.update_self]
      simp
    · have hpath : joinPath dir other ≠ joinPath dir file :=
        fun hp => heq (joinPath_inj hother hfile hp)
      rw [Function.update_of_ne hpath, h other hother hlatest]
      constructor
      · rintro ⟨e, he, rfl⟩
        exact ⟨e, List.mem_filter.mpr ⟨he, by simpa using heq⟩, rfl⟩
      · rintro ⟨e, he, rfl⟩
        exact ⟨e, (List.mem_filter.mp he).1, rfl⟩
  · exact h other hother hlatest

theorem shows_foldl_remove {disk : Disk} {files : List String} (h : Shows dir disk d)
    (hfiles : ∀ file ∈ files, Plain file.toList)
    (hok : ∀ file : String, Plain file.toList →
      env.removeOk (joinPath dir file) = a.removeOk file) :
    Shows dir ((files.map fun file => joinPath dir file).foldl (ProviderContext.remove env) disk)
      (files.foldl (remove a.removeOk) d) := by
  induction files generalizing disk d with
  | nil => exact h
  | cons file files ih =>
      have hfile := hfiles file List.mem_cons_self
      exact ih (shows_remove h hfile (hok file hfile))
        fun other hother => hfiles other (List.mem_cons_of_mem file hother)

/-- The link does not count. -/
theorem shows_link {disk : Disk} (h : Shows dir disk d) (ok : String → Bool) (target : String)
    (t : ℤ) : Shows dir disk (symlink (remove ok d "latest") target t) := by
  intro file hfile hlatest
  rw [h file hfile hlatest]
  constructor
  · rintro ⟨e, he, rfl⟩
    exact ⟨e, mem_symlink (mem_remove he hlatest), rfl⟩
  · rintro ⟨e, he, rfl⟩
    exact ⟨e, (remove_sublist _ _ _).subset (foreign_of_symlink he hlatest), rfl⟩

/-- **`preExec`.**  The hook leaves the files that the directory has after it, and the provider
logs into the file of the attempt. -/
theorem limitLogs_shows {logFile : String} {err : Option String} (hs : Shows dir s.disk d)
    (hans : Answers dir env a) (hperm : a.listed.Perm (d.map Entry.info))
    (hplain : ∀ e ∈ d, Plain e.name.toList) (hlog : s.logFile = some logFile)
    (hnull : logFile ≠ "/dev/null") (hdir : s.logDir = some dir)
    (h : limitLogs name env s = some (s', err)) :
    Shows dir s'.disk (preExec name a d) ∧ s'.logFile = some (joinPath dir (a.log name)) := by
  have hold : ∀ file ∈ (oldLogs name a.listed).map ProviderContext.FileInfo.name,
      Plain file.toList := by
    intro file hfile
    obtain ⟨f, hf, rfl⟩ := List.mem_map.mp hfile
    have hsorted : f ∈ sorted name a.listed := List.mem_of_mem_drop hf
    have hmem : f ∈ a.listed := (List.mem_filter.mp ((List.mem_insertionSort _).mp hsorted)).1
    obtain ⟨e, he, rfl⟩ := List.mem_map.mp (hperm.mem_iff.mp hmem)
    exact hplain e he
  have hlimit := shows_foldl_remove hs hold hans.remove
  rw [List.map_map] at hlimit
  unfold limitLogs at h
  simp only [hlog, hdir, hans.readDir, Option.bind_eq_bind, Option.bind_some, if_neg hnull,
    Option.pure_def, Option.some.injEq, Prod.mk.injEq] at h
  obtain ⟨rfl, -⟩ := h
  have hctx : ∃ ctx, s.ctx = some ctx := by
    cases hc : s.ctx with
    | some ctx => exact ⟨ctx, rfl⟩
    | none =>
        unfold ProviderContext.State.logFile ProviderContext.State.lookup at hlog
        rw [hc] at hlog
        cases hlog
  obtain ⟨ctx, hctx⟩ := hctx
  unfold ProviderContext.State.enterContext
  simp only [hctx]
  refine ⟨shows_link hlimit _ _ _, ?_⟩
  unfold ProviderContext.State.logFile ProviderContext.State.lookup Attempt.log
  rw [hans.now]
  simp [ProviderContext.Context.get, ProviderContext.Context.enter, ProviderContext.Context.set]

/-- A long name without a slash. -/
theorem plain_of_length {file : Text} (hslash : '/' ∉ file) (hlen : 2 < file.length) :
    Plain file where
  ne_nil := by
    rintro rfl
    exact absurd hlen (by decide)
  ne_dot := by
    rintro rfl
    exact absurd hlen (by decide)
  ne_dots := by
    rintro rfl
    exact absurd hlen (by decide)
  no_slash := hslash

theorem length_log (name : String) (a : Attempt) : 2 < (a.log name).toList.length := by
  have hlog : ".log".toList.length = 4 := rfl
  unfold Attempt.log logFileName
  rw [String.toList_append, List.length_append]
  omega

theorem slash_notMem_log (hname : '/' ∉ name.toList) (hnow : '/' ∉ a.now.toList) :
    '/' ∉ (a.log name).toList := by
  have hlog : '/' ∉ ".log".toList := by decide
  have hbar : '/' ∉ "_".toList := by decide
  unfold Attempt.log logFileName
  simp only [String.toList_append, List.mem_append]
  tauto

theorem plain_log (hname : '/' ∉ name.toList) (hnow : '/' ∉ a.now.toList) :
    Plain (a.log name).toList := plain_of_length (slash_notMem_log hname hnow) (length_log name a)

theorem plain_fail (hname : '/' ∉ name.toList) (hnow : '/' ∉ a.now.toList) :
    Plain (a.log name ++ ".fail").toList := by
  have hfail : '/' ∉ ".fail".toList := by decide
  have hlog := slash_notMem_log hname hnow
  have hlen := length_log name a
  refine plain_of_length ?_ ?_
  · rw [String.toList_append, List.mem_append]
    tauto
  · rw [String.toList_append, List.length_append]
    omega

/-- The name that the hook gives to a failed log is that of an entry. -/
theorem joinPath_fail (dir : String) {file : String} (h : Plain file.toList)
    (h' : Plain (file ++ ".fail").toList) :
    joinPath dir file ++ ".fail" = joinPath dir (file ++ ".fail") := by
  obtain ⟨base, hbase⟩ := joinPath_plain dir
  rw [← String.toList_inj, String.toList_append, hbase file h, hbase _ h', String.toList_append,
    List.append_assoc]

theorem shows_rename {disk : Disk} {file file' : String} (h : Shows dir disk d)
    (hfile : Plain file.toList) (hfile' : Plain file'.toList) (hne : file ≠ file')
    (hlatest : file ≠ "latest") (hok : env.renameOk = a.renameOk) :
    Shows dir (ProviderContext.rename env disk (joinPath dir file) (joinPath dir file'))
      (rename a.renameOk d file file') := by
  have hthere := h file hfile hlatest
  unfold ProviderContext.rename rename
  cases hfind : d.find? (·.name = file) with
  | none =>
      have hnone : disk (joinPath dir file) = none := by
        rw [← Option.not_isSome_iff_eq_none, hthere]
        rintro ⟨e, he, hn⟩
        exact absurd hn (by simpa using List.find?_eq_none.mp hfind e he)
      rw [hnone]
      exact h
  | some e =>
      have he : e ∈ d := List.mem_of_find?_eq_some hfind
      have hn : e.name = file := by simpa using List.find?_some hfind
      obtain ⟨content, hcontent⟩ := Option.isSome_iff_exists.mp (hthere.mpr ⟨e, he, hn⟩)
      rw [hcontent, hok]
      dsimp only
      split
      · intro other hother hl
        have hpath : ∀ x : String, Plain x.toList → other ≠ x →
            joinPath dir other ≠ joinPath dir x :=
          fun x hx hxne hp => hxne (joinPath_inj hother hx hp)
        by_cases heq : other = file
        · subst heq
          rw [Function.update_self]
          refine iff_of_false (by simp) ?_
          rintro ⟨x, hx, hxn⟩
          rcases List.mem_append.mp hx with hx | hx
          · have := (List.mem_filter.mp (List.mem_filter.mp hx).1).2
            simp [hxn] at this
          · rw [List.mem_singleton.mp hx] at hxn
            exact hne hxn.symm
        · rw [Function.update_of_ne (hpath file hfile heq)]
          by_cases heq' : other = file'
          · subst heq'
            rw [Function.update_self]
            exact iff_of_true rfl ⟨_, mem_put_self _ _, rfl⟩
          · rw [Function.update_of_ne (hpath file' hfile' heq'), h other hother hl]
            constructor
            · rintro ⟨x, hx, rfl⟩
              exact ⟨x, mem_put (List.mem_filter.mpr ⟨hx, by simpa using heq⟩) heq', rfl⟩
            · rintro ⟨x, hx, rfl⟩
              refine ⟨x, (List.mem_filter.mp (foreign_of_put hx ?_)).1, rfl⟩
              intro hxe
              exact heq' (by rw [hxe])
      · exact h

/-- **`postFail`.**  The hook gives the failed log the name that it has in the directory. -/
theorem keepFailedLog_shows {err : Option String} (hs : Shows dir s.disk d)
    (hans : Answers dir env a) (hname : '/' ∉ name.toList) (hnow : '/' ∉ a.now.toList)
    (hlog : s.logFile = some (joinPath dir (a.log name)))
    (h : keepFailedLog env s = some (s', err)) : Shows dir s'.disk (postFail name a d) := by
  have hplain := plain_log hname hnow
  have hplain' := plain_fail hname hnow
  have hren := shows_rename hs hplain hplain' (log_ne_fail name a (a.log name))
    (log_ne_latest name a) hans.rename
  rw [← joinPath_fail dir hplain hplain'] at hren
  unfold keepFailedLog at h
  rw [hlog] at h
  obtain ⟨logFile, hfile, h⟩ := Option.bind_eq_some_iff.mp h
  obtain rfl := Option.some.inj hfile
  obtain ⟨logDir, -, h⟩ := Option.bind_eq_some_iff.mp h
  obtain ⟨t, ht, h⟩ := Option.bind_eq_some_iff.mp h
  obtain ⟨ctx, -, rfl⟩ := Option.map_eq_some_iff.mp ht
  cases h
  exact shows_link hren _ _ _

end KubeSync.LogRotation
