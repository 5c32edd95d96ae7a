import KubeSync.Context
import KubeSync.Lts

/-! # The log directory over the attempts of a job

The log limiter (`loglimit_hook.go`) removes old logs before each attempt, lets the link `latest`
point to the log of the attempt, and gives a failed log a name of its own.  Here the directory is a
value: a list of entries, which `ReadDir` returns in some order.

* One attempt is `preExec`, the run of the provider, which writes its log if it gets so far, and
  `postFail` where the limiter's is called.  Two attempts of the same minute have the same log.
* `oldLogs` and `logFileName` are those of the hook itself.
* `logs_rotated`: after every attempt there are at most ten logs of the job, `latest` names the log
  of the attempt, and nothing else was touched.
* `recent_log_kept`: the logs of the last ten attempts are there. -/

namespace KubeSync.LogRotation

open ProviderContext (oldLogs logFileName)
open Recognizer (hasPrefix)

/-! ### The directory -/

/-- A file, or a symbolic link to another name. -/
structure Entry where
  name : String
  modTime : ℤ
  link : Option String := none
deriving DecidableEq, Repr

def Entry.info (e : Entry) : ProviderContext.FileInfo := ⟨e.name, e.modTime⟩

abbrev Dir := List Entry

def Distinct (d : Dir) : Prop := (d.map Entry.name).Nodup

instance (d : Dir) : Decidable (Distinct d) :=
  inferInstanceAs (Decidable (d.map Entry.name).Nodup)

/-- `os.Remove`. -/
def remove (ok : String → Bool) (d : Dir) (file : String) : Dir :=
  if ok file then d.filter (·.name ≠ file) else d

/-- An entry in place of what had its name. -/
def put (d : Dir) (e : Entry) : Dir := d.filter (·.name ≠ e.name) ++ [e]

/-- `os.Symlink` to the name `latest`, which fails where there is something. -/
def symlink (d : Dir) (target : String) (t : ℤ) : Dir :=
  if ∃ e ∈ d, e.name = "latest" then d else d ++ [⟨"latest", t, some target⟩]

/-- `os.Rename`. -/
def rename (ok : Bool) (d : Dir) (file file' : String) : Dir :=
  match d.find? (·.name = file) with
  | some e => if ok then put (d.filter (·.name ≠ file)) { e with name := file' } else d
  | none => d

/-! ### An attempt -/

structure Attempt where
  /-- The time as the hook formats it, to the minute. -/
  now : String
  /-- The answer of `ReadDir`. -/
  listed : List ProviderContext.FileInfo
  removeOk : String → Bool := fun _ => true
  /-- The time of the links that are made. -/
  linked : ℤ
  /-- When the log was last written, if the provider got so far. -/
  written : Option ℤ
  /-- `postFail` of the limiter is called. -/
  failed : Bool
  renameOk : Bool := true

variable {name : String} {d d' : Dir} {a : Attempt}

def Attempt.log (a : Attempt) (name : String) : String := logFileName name a.now

/-- The name under which the log of the attempt is left. -/
def Attempt.logName (a : Attempt) (name : String) : String :=
  if a.failed then a.log name ++ ".fail" else a.log name

/-- The removal of old logs in `preExec`. -/
def limit (name : String) (a : Attempt) (d : Dir) : Dir :=
  ((oldLogs name a.listed).map ProviderContext.FileInfo.name).foldl (remove a.removeOk) d

def preExec (name : String) (a : Attempt) (d : Dir) : Dir :=
  symlink (remove a.removeOk (limit name a d) "latest") (a.log name) a.linked

def write (name : String) (a : Attempt) (d : Dir) : Dir :=
  match a.written with
  | some t => put d ⟨a.log name, t, none⟩
  | none => d

def postFail (name : String) (a : Attempt) (d : Dir) : Dir :=
  symlink
    (remove a.removeOk (rename a.renameOk d (a.log name) (a.log name ++ ".fail")) "latest")
    (a.log name ++ ".fail") a.linked

/-- A whole attempt; `ReadDir` returns the entries of the directory, in any order. -/
def step (name : String) (d : Dir) (a : Attempt) : Option Dir :=
  if a.listed.Perm (d.map Entry.info) then
    let d := write name a (preExec name a d)
    some (if a.failed then postFail name a d else d)
  else none

/-! ### Names -/

theorem hasPrefix_append (name suffix : String) :
    hasPrefix (name ++ suffix).toList name = true := by
  unfold hasPrefix
  rw [List.isPrefixOf_iff_prefix, String.toList_append]
  exact List.prefix_append _ _

theorem hasPrefix_log (name : String) (a : Attempt) :
    hasPrefix (a.log name).toList name = true := by
  unfold Attempt.log logFileName
  rw [String.append_assoc, String.append_assoc]
  exact hasPrefix_append _ _

theorem hasPrefix_fail (name : String) (a : Attempt) :
    hasPrefix (a.log name ++ ".fail").toList name = true := by
  unfold Attempt.log logFileName
  rw [String.append_assoc, String.append_assoc, String.append_assoc]
  exact hasPrefix_append _ _

theorem getLast?_append (s : String) {suffix : String} {c : Char}
    (h : suffix.toList.getLast? = some c) : (s ++ suffix).toList.getLast? = some c := by
  rw [String.toList_append, List.getLast?_append, h]
  rfl

theorem getLast?_log (name : String) (a : Attempt) : (a.log name).toList.getLast? = some 'g' :=
  getLast?_append _ (by decide)

theorem getLast?_fail (file : String) : (file ++ ".fail").toList.getLast? = some 'l' :=
  getLast?_append _ (by decide)

theorem ne_of_getLast? {s t : String} {c c' : Char} (hs : s.toList.getLast? = some c)
    (ht : t.toList.getLast? = some c') (h : c ≠ c') : s ≠ t := by
  rintro rfl
  exact h (Option.some.inj (hs.symm.trans ht))

theorem log_ne_latest (name : String) (a : Attempt) : a.log name ≠ "latest" :=
  ne_of_getLast? (getLast?_log name a) (by decide : "latest".toList.getLast? = some 't') (by decide)

theorem fail_ne_latest (file : String) : file ++ ".fail" ≠ "latest" :=
  ne_of_getLast? (getLast?_fail file) (by decide : "latest".toList.getLast? = some 't') (by decide)

theorem log_ne_fail (name : String) (a : Attempt) (file : String) : a.log name ≠ file ++ ".fail" :=
  ne_of_getLast? (getLast?_log name a) (getLast?_fail file) (by decide)

theorem log_injective {b : Attempt} (h : a.log name = b.log name) : a.now = b.now := by
  unfold Attempt.log logFileName at h
  exact String.append_right_inj .. |>.mp (String.append_left_inj .. |>.mp h)

/-! ### The operations -/

theorem mem_remove {ok : String → Bool} {file : String} {e : Entry} (he : e ∈ d)
    (hne : e.name ≠ file) : e ∈ remove ok d file := by
  unfold remove
  split
  · exact List.mem_filter.mpr ⟨he, by simpa using hne⟩
  · exact he

theorem remove_sublist (ok : String → Bool) (d : Dir) (file : String) :
    (remove ok d file).Sublist d := by
  unfold remove
  split
  · exact List.filter_sublist
  · exact .refl d

theorem mem_put {e e' : Entry} (he : e ∈ d) (hne : e.name ≠ e'.name) : e ∈ put d e' :=
  List.mem_append_left _ (List.mem_filter.mpr ⟨he, by simpa using hne⟩)

theorem mem_put_self (d : Dir) (e : Entry) : e ∈ put d e :=
  List.mem_append_right _ (List.mem_singleton.mpr rfl)

theorem mem_symlink {target : String} {t : ℤ} {e : Entry} (he : e ∈ d) :
    e ∈ symlink d target t := by
  unfold symlink
  split
  · exact he
  · exact List.mem_append_left _ he

theorem mem_rename {ok : Bool} {file file' : String} {e : Entry} (he : e ∈ d)
    (hne : e.name ≠ file) (hne' : e.name ≠ file') : e ∈ rename ok d file file' := by
  unfold rename
  split
  · split
    · exact mem_put (List.mem_filter.mpr ⟨he, by simpa using hne⟩) hne'
    · exact he
  · exact he

theorem Distinct.sublist (h : Distinct d) (hs : d'.Sublist d) : Distinct d' :=
  List.Nodup.sublist (hs.map Entry.name) h

theorem Distinct.put (h : Distinct d) (e : Entry) : Distinct (put d e) := by
  unfold Distinct LogRotation.put
  rw [List.map_append, List.nodup_append]
  refine ⟨h.sublist List.filter_sublist, List.nodup_singleton _, ?_⟩
  rintro x hx y hy rfl
  obtain ⟨f, hf, rfl⟩ := List.mem_map.mp hx
  simp only [List.map_cons, List.map_nil, List.mem_singleton] at hy
  simpa [hy] using (List.mem_filter.mp hf).2

theorem Distinct.symlink (h : Distinct d) (target : String) (t : ℤ) :
    Distinct (symlink d target t) := by
  unfold LogRotation.symlink
  split
  · exact h
  · next hnone =>
      unfold Distinct
      rw [List.map_append, List.nodup_append]
      refine ⟨h, List.nodup_singleton _, ?_⟩
      rintro x hx y hy rfl
      obtain ⟨f, hf, rfl⟩ := List.mem_map.mp hx
      simp only [List.map_cons, List.map_nil, List.mem_singleton] at hy
      exact hnone ⟨f, hf, hy⟩

theorem Distinct.rename (h : Distinct d) (ok : Bool) (file file' : String) :
    Distinct (rename ok d file file') := by
  unfold LogRotation.rename
  split
  · split
    · exact (h.sublist List.filter_sublist).put _
    · exact h
  · exact h

/-! ### The removal of old logs -/

/-- A log of the job, as the limiter recognises it. -/
def own (name : String) (e : Entry) : Bool := hasPrefix e.name.toList name

/-- A log of the job that is not older than `t`. -/
def counted (name : String) (t : ℤ) (e : Entry) : Bool := own name e && decide (t ≤ e.modTime)

/-- The logs that the limiter sorts, the youngest first. -/
def sorted (name : String) (listed : List ProviderContext.FileInfo) :
    List ProviderContext.FileInfo :=
  (listed.filter fun f => hasPrefix f.name.toList name).insertionSort
    fun f g => g.modTime ≤ f.modTime

theorem oldLogs_eq (name : String) (listed : List ProviderContext.FileInfo) :
    oldLogs name listed = (sorted name listed).drop 9 := rfl

theorem pairwise_sorted (name : String) (listed : List ProviderContext.FileInfo) :
    (sorted name listed).Pairwise fun f g => g.modTime ≤ f.modTime := by
  have : Std.Total fun f g : ProviderContext.FileInfo => g.modTime ≤ f.modTime :=
    ⟨fun f g => Int.le_total g.modTime f.modTime⟩
  have : IsTrans ProviderContext.FileInfo fun f g => g.modTime ≤ f.modTime :=
    ⟨fun _ _ _ h h' => Int.le_trans h' h⟩
  exact List.pairwise_insertionSort _ _

/-- A log is old only if there are nine others that are not older. -/
theorem ten_of_old {listed : List ProviderContext.FileInfo} {f : ProviderContext.FileInfo}
    (hf : f ∈ oldLogs name listed) :
    10 ≤ listed.countP fun g => hasPrefix g.name.toList name && decide (f.modTime ≤ g.modTime) := by
  have hsplit := List.take_append_drop 9 (sorted name listed)
  have hpair := pairwise_sorted name listed
  rw [← hsplit, List.pairwise_append] at hpair
  rw [oldLogs_eq] at hf
  have hlong : 9 < (sorted name listed).length := by
    have hpos := List.length_pos_of_mem hf
    rw [List.length_drop] at hpos
    omega
  have hfirst : ((sorted name listed).take 9).countP (fun g => decide (f.modTime ≤ g.modTime)) =
      9 := by
    rw [List.countP_eq_length.mpr fun g hg => decide_eq_true (hpair.2.2 g hg f hf),
      List.length_take]
    omega
  have hrest : 0 < ((sorted name listed).drop 9).countP
      (fun g => decide (f.modTime ≤ g.modTime)) :=
    List.countP_pos_iff.mpr ⟨f, hf, decide_eq_true (Int.le_refl _)⟩
  have hcount : (sorted name listed).countP (fun g => decide (f.modTime ≤ g.modTime)) =
      listed.countP fun g => hasPrefix g.name.toList name && decide (f.modTime ≤ g.modTime) := by
    unfold sorted
    rw [(List.perm_insertionSort _ _).countP_eq, List.countP_filter]
    refine List.countP_congr fun g _ => ?_
    rw [Bool.and_comm]
  rw [← hcount, ← hsplit, List.countP_append, hfirst]
  omega

theorem foldl_remove_sublist (ok : String → Bool) (files : List String) (d : Dir) :
    (files.foldl (remove ok) d).Sublist d := by
  induction files generalizing d with
  | nil => exact .refl d
  | cons file files ih => exact (ih (remove ok d file)).trans (remove_sublist ok d file)

theorem mem_foldl_remove {ok : String → Bool} {files : List String} {e : Entry} (he : e ∈ d)
    (hne : e.name ∉ files) : e ∈ files.foldl (remove ok) d := by
  induction files generalizing d with
  | nil => exact he
  | cons file files ih =>
      rw [List.mem_cons, not_or] at hne
      exact ih (mem_remove he hne.1) hne.2

theorem not_mem_of_foldl_remove {ok : String → Bool} (hok : ∀ file, ok file = true)
    {files : List String} {e : Entry} (he : e ∈ files.foldl (remove ok) d) : e.name ∉ files := by
  induction files generalizing d with
  | nil => exact List.not_mem_nil
  | cons file files ih =>
      have hstay : e ∈ remove ok d file := (foldl_remove_sublist ok files _).subset he
      unfold remove at hstay
      rw [if_pos (hok file)] at hstay
      rw [List.mem_cons, not_or]
      exact ⟨by simpa using (List.mem_filter.mp hstay).2, ih he⟩

theorem countP_info (hperm : a.listed.Perm (d.map Entry.info)) (t : ℤ) :
    a.listed.countP (fun g => hasPrefix g.name.toList name && decide (t ≤ g.modTime)) =
      d.countP (counted name t) := by
  rw [hperm.countP_eq, List.countP_map]
  rfl

theorem eq_of_name {e e' : Entry} (hd : Distinct d) (he : e ∈ d) (he' : e' ∈ d)
    (hn : e.name = e'.name) : e = e' := List.inj_on_of_nodup_map hd he he' hn

/-- A young log stays. -/
theorem name_notMem_old {e : Entry} (hd : Distinct d) (hperm : a.listed.Perm (d.map Entry.info))
    (he : e ∈ d) (hcount : d.countP (counted name e.modTime) ≤ 9) :
    e.name ∉ (oldLogs name a.listed).map ProviderContext.FileInfo.name := by
  intro hold
  obtain ⟨f, hf, hname⟩ := List.mem_map.mp hold
  have hmem : f ∈ a.listed := by
    have hsorted : f ∈ sorted name a.listed := List.mem_of_mem_drop hf
    exact (List.mem_filter.mp ((List.mem_insertionSort _).mp hsorted)).1
  obtain ⟨e', he', rfl⟩ := List.mem_map.mp (hperm.mem_iff.mp hmem)
  obtain rfl := eq_of_name hd he' he hname
  have hten := ten_of_old hf
  have hinfo : d.countP (counted name e'.modTime) = _ := (countP_info hperm e'.modTime).symm
  rw [hinfo] at hcount
  exact absurd (Nat.le_trans hten hcount) (by decide)

/-- Nine logs are left. -/
theorem countP_limit_le (hd : Distinct d) (hperm : a.listed.Perm (d.map Entry.info))
    (hok : ∀ file, a.removeOk file = true) : (limit name a d).countP (own name) ≤ 9 := by
  have hsub : (((limit name a d).filter (own name)).map Entry.info) ⊆
      (sorted name a.listed).take 9 := by
    intro f hf
    obtain ⟨e, he, rfl⟩ := List.mem_map.mp hf
    obtain ⟨hstay, hown⟩ := List.mem_filter.mp he
    have hname : e.name ∉ (oldLogs name a.listed).map ProviderContext.FileInfo.name :=
      not_mem_of_foldl_remove hok hstay
    have hed : e ∈ d := (foldl_remove_sublist _ _ d).subset hstay
    have hlisted : e.info ∈ a.listed := hperm.mem_iff.mpr (List.mem_map_of_mem hed)
    have hsorted : e.info ∈ sorted name a.listed :=
      (List.mem_insertionSort _).mpr (List.mem_filter.mpr ⟨hlisted, hown⟩)
    rw [← List.take_append_drop 9 (sorted name a.listed)] at hsorted
    rcases List.mem_append.mp hsorted with htake | hdrop
    · exact htake
    · exact absurd (List.mem_map_of_mem (f := ProviderContext.FileInfo.name) hdrop) hname
  have hnodup : (((limit name a d).filter (own name)).map Entry.info).Nodup := by
    have hnames : Distinct ((limit name a d).filter (own name)) :=
      hd.sublist (List.filter_sublist.trans (foldl_remove_sublist _ _ d))
    refine List.Nodup.of_map ProviderContext.FileInfo.name ?_
    rw [List.map_map]
    exact hnames
  have hle := (List.subperm_of_subset hnodup hsub).length_le
  rw [List.length_map, List.length_take, ← List.countP_eq_length_filter] at hle
  omega

/-! ### What an attempt does -/

theorem step_cases (h : step name d a = some d') :
    a.listed.Perm (d.map Entry.info) ∧
      ((a.failed = false ∧ d' = write name a (preExec name a d)) ∨
        (a.failed = true ∧ d' = postFail name a (write name a (preExec name a d)))) := by
  unfold step at h
  split at h
  · next hperm =>
      refine ⟨hperm, ?_⟩
      cases hf : a.failed with
      | false =>
          rw [hf] at h
          exact .inl ⟨rfl, (Option.some.inj h).symm⟩
      | true =>
          rw [hf] at h
          exact .inr ⟨rfl, (Option.some.inj h).symm⟩
  · cases h

theorem mem_preExec {e : Entry} (he : e ∈ d) (hlatest : e.name ≠ "latest")
    (hold : e.name ∉ (oldLogs name a.listed).map ProviderContext.FileInfo.name) :
    e ∈ preExec name a d := mem_symlink (mem_remove (mem_foldl_remove he hold) hlatest)

theorem mem_write {e : Entry} (he : e ∈ d) (hlog : e.name ≠ a.log name) : e ∈ write name a d := by
  unfold write
  split
  · exact mem_put he hlog
  · exact he

theorem mem_postFail {e : Entry} (he : e ∈ d) (hlatest : e.name ≠ "latest")
    (hlog : e.name ≠ a.log name) (hfail : e.name ≠ a.log name ++ ".fail") :
    e ∈ postFail name a d := mem_symlink (mem_remove (mem_rename he hlog hfail) hlatest)

theorem mem_step {e : Entry} (h : step name d a = some d') (he : e ∈ d)
    (hlatest : e.name ≠ "latest") (hlog : e.name ≠ a.log name)
    (hfail : e.name ≠ a.log name ++ ".fail")
    (hold : e.name ∉ (oldLogs name a.listed).map ProviderContext.FileInfo.name) : e ∈ d' := by
  have hwrite : e ∈ write name a (preExec name a d) := mem_write (mem_preExec he hlatest hold) hlog
  obtain ⟨-, ⟨-, rfl⟩ | ⟨-, rfl⟩⟩ := step_cases h
  · exact hwrite
  · exact mem_postFail hwrite hlatest hlog hfail

theorem distinct_step (hd : Distinct d) (h : step name d a = some d') : Distinct d' := by
  have hpre : Distinct (preExec name a d) :=
    ((hd.sublist (foldl_remove_sublist _ _ d)).sublist (remove_sublist _ _ _)).symlink _ _
  have hwrite : Distinct (write name a (preExec name a d)) := by
    unfold write
    split
    · exact hpre.put _
    · exact hpre
  obtain ⟨-, ⟨-, rfl⟩ | ⟨-, rfl⟩⟩ := step_cases h
  · exact hwrite
  · exact ((hwrite.rename _ _ _).sublist (remove_sublist _ _ _)).symlink _ _

/-! ### Counting -/

theorem countP_put_le (p : Entry → Bool) (d : Dir) (e : Entry) :
    (put d e).countP p ≤ d.countP p + (p e).toNat := by
  have hfilter := (List.filter_sublist (p := fun x : Entry => decide (x.name ≠ e.name))
    (l := d)).countP_le (p := p)
  have hone : [e].countP p = (p e).toNat := by
    rw [List.countP_singleton]
    cases p e <;> rfl
  unfold put
  rw [List.countP_append, hone]
  omega

/-- The link is not a log of the job. -/
theorem countP_symlink {p : Entry → Bool} (hp : ∀ t target, p ⟨"latest", t, some target⟩ = false)
    (d : Dir) (target : String) (t : ℤ) : (symlink d target t).countP p = d.countP p := by
  unfold symlink
  split
  · rfl
  · rw [List.countP_append, List.countP_cons_of_neg (by simp [hp]), List.countP_nil]
    rfl

theorem countP_filter_add_le (p : Entry → Bool) {e : Entry} {file : String} (he : e ∈ d)
    (hn : e.name = file) : (d.filter (·.name ≠ file)).countP p + (p e).toNat ≤ d.countP p := by
  induction d with
  | nil => cases he
  | cons x d ih =>
      rcases List.mem_cons.mp he with rfl | he
      · have hle := (List.filter_sublist (p := fun x : Entry => decide (x.name ≠ file))
          (l := d)).countP_le (p := p)
        rw [List.filter_cons_of_neg (by simpa using hn), List.countP_cons]
        cases hpe : p e with
        | false => simpa using hle
        | true => simpa using hle
      · have hih := ih he
        rw [List.countP_cons, List.filter_cons]
        split
        · rw [List.countP_cons]
          omega
        · omega

theorem countP_rename_le {p : Entry → Bool} {file file' : String}
    (hp : ∀ e : Entry, e.name = file → p { e with name := file' } = p e) (ok : Bool) (d : Dir) :
    (rename ok d file file').countP p ≤ d.countP p := by
  unfold rename
  split
  · next e hfind =>
      have he : e ∈ d := List.mem_of_find?_eq_some hfind
      have hn : e.name = file := by simpa using List.find?_some hfind
      split
      · have hle := countP_filter_add_le p he hn
        have hput := countP_put_le p (d.filter (·.name ≠ file)) { e with name := file' }
        rw [hp e hn] at hput
        exact Nat.le_trans hput hle
      · exact Nat.le_refl _
  · exact Nat.le_refl _

/-- A property of logs that neither the link nor the new name of a failed log changes. -/
structure Steady (name : String) (a : Attempt) (p : Entry → Bool) : Prop where
  link : ∀ t target, p ⟨"latest", t, some target⟩ = false
  fail : ∀ e : Entry, e.name = a.log name → p { e with name := a.log name ++ ".fail" } = p e

theorem steady_counted (hname : hasPrefix "latest".toList name = false) (a : Attempt) (t : ℤ) :
    Steady name a (counted name t) where
  link := by
    intro u target
    unfold counted own
    rw [hname]
    rfl
  fail := by
    intro e he
    unfold counted own
    rw [he, hasPrefix_log, hasPrefix_fail]

theorem steady_own (hname : hasPrefix "latest".toList name = false) (a : Attempt) :
    Steady name a (own name) where
  link := fun _ _ => hname
  fail := by
    intro e he
    unfold own
    rw [he, hasPrefix_log, hasPrefix_fail]

/-- The log that the provider writes has the property. -/
def Attempt.adds (a : Attempt) (name : String) (p : Entry → Bool) : ℕ :=
  (a.written.any fun t => p ⟨a.log name, t, none⟩).toNat

/-- An attempt adds at most its log to those that the removal has left. -/
theorem countP_step_le {p : Entry → Bool} (hp : Steady name a p) (h : step name d a = some d') :
    d'.countP p ≤ (limit name a d).countP p + a.adds name p := by
  have hpre : (preExec name a d).countP p ≤ (limit name a d).countP p := by
    unfold preExec
    rw [countP_symlink hp.link]
    exact (remove_sublist _ _ _).countP_le
  have hwrite : (write name a (preExec name a d)).countP p ≤
      (limit name a d).countP p + a.adds name p := by
    unfold write Attempt.adds
    cases a.written with
    | none => exact Nat.le_trans hpre (Nat.le_add_right _ _)
    | some t => exact Nat.le_trans (countP_put_le p _ _) (Nat.add_le_add_right hpre _)
  obtain ⟨-, ⟨-, rfl⟩ | ⟨-, rfl⟩⟩ := step_cases h
  · exact hwrite
  · unfold postFail
    rw [countP_symlink hp.link]
    refine Nat.le_trans ((remove_sublist _ _ _).countP_le) ?_
    exact Nat.le_trans (countP_rename_le hp.fail _ _) hwrite

theorem countP_step_le' {p : Entry → Bool} (hp : Steady name a p) (h : step name d a = some d') :
    d'.countP p ≤ d.countP p + a.adds name p :=
  Nat.le_trans (countP_step_le hp h)
    (Nat.add_le_add_right (foldl_remove_sublist _ _ d).countP_le _)

theorem adds_le_one (a : Attempt) (name : String) (p : Entry → Bool) : a.adds name p ≤ 1 :=
  Bool.toNat_le _

/-! ### The log of an attempt and the link -/

theorem find?_put (d : Dir) (e : Entry) : (put d e).find? (·.name = e.name) = some e := by
  unfold put
  rw [List.find?_append, List.find?_eq_none.mpr ?_, Option.none_or, List.find?_singleton]
  · simp
  · intro x hx
    simpa using (List.mem_filter.mp hx).2

theorem log_mem_step {t : ℤ} (h : step name d a = some d') (hw : a.written = some t)
    (hren : a.failed = true → a.renameOk = true) : ⟨a.logName name, t, none⟩ ∈ d' := by
  have hwrite : write name a (preExec name a d) = put (preExec name a d) ⟨a.log name, t, none⟩ := by
    unfold write
    rw [hw]
  obtain ⟨-, ⟨hf, rfl⟩ | ⟨hf, rfl⟩⟩ := step_cases h
  · unfold Attempt.logName
    rw [hf, hwrite]
    exact mem_put_self _ _
  · unfold Attempt.logName postFail
    rw [hf, hwrite, hren hf]
    refine mem_symlink (mem_remove ?_ (fail_ne_latest _))
    unfold rename
    rw [find?_put (preExec name a d) ⟨a.log name, t, none⟩]
    exact mem_put_self _ _

theorem latest_mem_symlink (ok : String → Bool) (hok : ok "latest" = true) (d : Dir)
    (target : String) (t : ℤ) :
    ⟨"latest", t, some target⟩ ∈ symlink (remove ok d "latest") target t := by
  have hnone : ¬ ∃ e ∈ remove ok d "latest", e.name = "latest" := by
    rintro ⟨e, he, hn⟩
    unfold remove at he
    rw [if_pos hok] at he
    simpa [hn] using (List.mem_filter.mp he).2
  unfold symlink
  rw [if_neg hnone]
  exact List.mem_append_right _ (List.mem_singleton.mpr rfl)

theorem latest_mem_step (h : step name d a = some d') (hok : a.removeOk "latest" = true) :
    ⟨"latest", a.linked, some (a.logName name)⟩ ∈ d' := by
  obtain ⟨-, ⟨hf, rfl⟩ | ⟨hf, rfl⟩⟩ := step_cases h
  · have hlog : ("latest" : String) ≠ a.log name := (log_ne_latest name a).symm
    unfold Attempt.logName
    rw [hf]
    exact mem_write (latest_mem_symlink _ hok _ _ _) hlog
  · unfold Attempt.logName
    rw [hf]
    exact latest_mem_symlink _ hok _ _ _

/-! ### Other files -/

theorem own_of_old {f : String}
    (h : f ∈ (oldLogs name a.listed).map ProviderContext.FileInfo.name) :
    hasPrefix f.toList name = true := by
  obtain ⟨g, hg, rfl⟩ := List.mem_map.mp h
  have hsorted : g ∈ sorted name a.listed := List.mem_of_mem_drop hg
  exact (List.mem_filter.mp ((List.mem_insertionSort _).mp hsorted)).2

/-- The entries that no attempt of the job touches. -/
def foreign (name : String) (e : Entry) : Prop := own name e = false ∧ e.name ≠ "latest"

theorem foreign_of_put {e e' : Entry} (he : e ∈ put d e') (hne : e ≠ e') : e ∈ d := by
  rcases List.mem_append.mp he with he | he
  · exact (List.mem_filter.mp he).1
  · exact absurd (List.mem_singleton.mp he) hne

theorem foreign_of_symlink {target : String} {t : ℤ} {e : Entry} (he : e ∈ symlink d target t)
    (hne : e.name ≠ "latest") : e ∈ d := by
  unfold symlink at he
  split at he
  · exact he
  · rcases List.mem_append.mp he with he | he
    · exact he
    · rw [List.mem_singleton.mp he] at hne
      exact absurd rfl hne

theorem foreign_step {e : Entry} (hf : foreign name e) (h : step name d a = some d') :
    e ∈ d' ↔ e ∈ d := by
  obtain ⟨hown, hlatest⟩ := hf
  have hne : ∀ file : String, hasPrefix file.toList name = true → e.name ≠ file := by
    rintro file hfile rfl
    exact Bool.false_ne_true (hown.symm.trans hfile)
  have hlog := hne _ (hasPrefix_log name a)
  have hfail := hne _ (hasPrefix_fail name a)
  have hpre : e ∈ preExec name a d → e ∈ d := fun he =>
    (foldl_remove_sublist _ _ d).subset
      ((remove_sublist _ _ _).subset (foreign_of_symlink he hlatest))
  have hwrite : e ∈ write name a (preExec name a d) → e ∈ d := by
    intro he
    unfold write at he
    split at he
    · exact hpre (foreign_of_put he fun heq => hlog (by rw [heq]))
    · exact hpre he
  refine ⟨fun he => ?_, fun he => mem_step h he hlatest hlog hfail fun hold =>
    hne _ (own_of_old hold) rfl⟩
  obtain ⟨-, ⟨-, rfl⟩ | ⟨-, rfl⟩⟩ := step_cases h
  · exact hwrite he
  · have hren := (remove_sublist _ _ _).subset (foreign_of_symlink he hlatest)
    unfold rename at hren
    split at hren
    · split at hren
      · have hput := foreign_of_put hren fun heq => hfail (by rw [heq])
        exact hwrite (List.mem_filter.mp hput).1
      · exact hwrite hren
    · exact hwrite hren

/-! ### Whole runs -/

theorem run_distinct {attempts : List Attempt} (hd : Distinct d)
    (h : Lts.run (step name) d attempts = some d') : Distinct d' :=
  Lts.run_invariant' (fun _ _ _ hi hs => distinct_step hi hs) hd h

theorem run_foreign {attempts : List Attempt} {e : Entry} (hf : foreign name e)
    (h : Lts.run (step name) d attempts = some d') : e ∈ d' ↔ e ∈ d := by
  induction attempts generalizing d with
  | nil =>
      cases h
      exact Iff.rfl
  | cons a attempts ih =>
      obtain ⟨d₁, hs, h⟩ := Lts.run_cons.mp h
      exact (ih h).trans (foreign_step hf hs)

/-- **Rotation.**  After any attempts of a job, the last of which could remove what it wanted to and
wrote its log, there are at most ten logs of the job, the log of the last attempt is one of them and
`latest` points to it, and every entry that is not the link and does not begin with the name of the
job is as it was before the first attempt. -/
theorem logs_rotated {attempts : List Attempt} {t : ℤ}
    (hname : hasPrefix "latest".toList name = false) (hd : Distinct d)
    (h : Lts.run (step name) d (attempts ++ [a]) = some d')
    (hok : ∀ file, a.removeOk file = true) (hw : a.written = some t)
    (hren : a.failed = true → a.renameOk = true) :
    d'.countP (own name) ≤ 10 ∧ ⟨a.logName name, t, none⟩ ∈ d' ∧
      ⟨"latest", a.linked, some (a.logName name)⟩ ∈ d' ∧
      ∀ e, foreign name e → (e ∈ d' ↔ e ∈ d) := by
  obtain ⟨d₁, hrun, hlast⟩ := Lts.run_append_iff.mp h
  obtain ⟨d₂, hstep, hend⟩ := Lts.run_cons.mp hlast
  obtain rfl := Option.some.inj hend
  refine ⟨?_, log_mem_step hstep hw hren, latest_mem_step hstep (hok _), fun e he =>
    run_foreign he h⟩
  have hnine : (limit name a d₁).countP (own name) ≤ 9 :=
    countP_limit_le (run_distinct hd hrun) (step_cases hstep).1 hok
  have hle := countP_step_le (steady_own hname a) hstep
  have hone := adds_le_one a name (own name)
  omega

/-- A log of the day before, and a note that somebody left. -/
def sampleDir : Dir := [⟨"debian_09.log", 9, none⟩, ⟨"README", 1, none⟩]

/-- An attempt that fails, and one that succeeds. -/
def sampleFailed : Attempt where
  now := "10"
  listed := [⟨"README", 1⟩, ⟨"debian_09.log", 9⟩]
  linked := 10
  written := some 11
  failed := true

def sampleSuccess : Attempt where
  now := "12"
  listed := [⟨"latest", 10⟩, ⟨"debian_10.log.fail", 11⟩, ⟨"README", 1⟩, ⟨"debian_09.log", 9⟩]
  linked := 12
  written := some 13
  failed := false

theorem sample_rotated : ∃ d', Lts.run (step "debian") sampleDir [sampleFailed, sampleSuccess] =
    some d' ∧ d'.countP (own "debian") ≤ 10 ∧ ⟨"latest", 12, some "debian_12.log"⟩ ∈ d' ∧
      (⟨"README", 1, none⟩ ∈ d' ↔ ⟨"README", 1, none⟩ ∈ sampleDir) := by
  obtain ⟨d', h⟩ : ∃ d', Lts.run (step "debian") sampleDir ([sampleFailed] ++ [sampleSuccess]) =
    some d' := ⟨_, rfl⟩
  have hrot := logs_rotated (by decide) (by decide) h (fun _ => rfl) rfl (fun hf => by cases hf)
  exact ⟨d', h, hrot.1, hrot.2.2.1, hrot.2.2.2 ⟨"README", 1, none⟩ ⟨by decide, by decide⟩⟩

theorem run_older {attempts : List Attempt} {t : ℤ}
    (hname : hasPrefix "latest".toList name = false) (hzero : d.countP (counted name t) = 0)
    (htimes : ∀ b ∈ attempts, ∀ u, b.written = some u → u < t)
    (h : Lts.run (step name) d attempts = some d') : d'.countP (counted name t) = 0 := by
  induction attempts generalizing d with
  | nil =>
      cases h
      exact hzero
  | cons b attempts ih =>
      obtain ⟨d₁, hs, h⟩ := Lts.run_cons.mp h
      refine ih ?_ (fun c hc => htimes c (List.mem_cons_of_mem b hc)) h
      have hadds : b.adds name (counted name t) = 0 := by
        unfold Attempt.adds
        cases hb : b.written with
        | none => rfl
        | some u =>
            have hlt := htimes b List.mem_cons_self u hb
            have hnot : counted name t ⟨b.log name, u, none⟩ = false := by
              unfold counted
              rw [decide_eq_false (by dsimp only; omega), Bool.and_false]
            rw [Option.any_some, hnot]
            rfl
      have hle := countP_step_le' (steady_counted hname b t) hs
      omega

/-- A log outlives as many attempts as leave nine other logs before it. -/
theorem run_keeps {attempts : List Attempt} {e : Entry}
    (hname : hasPrefix "latest".toList name = false) (hd : Distinct d) (he : e ∈ d)
    (hcount : d.countP (counted name e.modTime) + attempts.length ≤ 10)
    (hlatest : e.name ≠ "latest")
    (hother : ∀ b ∈ attempts, e.name ≠ b.log name ∧ e.name ≠ b.log name ++ ".fail")
    (h : Lts.run (step name) d attempts = some d') : e ∈ d' := by
  induction attempts generalizing d with
  | nil =>
      cases h
      exact he
  | cons b attempts ih =>
      obtain ⟨d₁, hs, h⟩ := Lts.run_cons.mp h
      rw [List.length_cons] at hcount
      have hb := hother b List.mem_cons_self
      have hold := name_notMem_old hd (step_cases hs).1 he
        (show d.countP (counted name e.modTime) ≤ 9 by omega)
      have hle := countP_step_le' (steady_counted hname b e.modTime) hs
      have hone := adds_le_one b name (counted name e.modTime)
      refine ih (distinct_step hd hs) (mem_step hs he hlatest hb.1 hb.2 hold) ?_
        (fun c hc => hother c (List.mem_cons_of_mem b hc)) h
      omega

/-- **Retention.**  The log of an attempt is still there, under its own name or that of a failed
log, after up to nine further attempts of other minutes, whatever these do, if it was the youngest
log when it was written. -/
theorem recent_log_kept {before later : List Attempt} {t : ℤ}
    (hname : hasPrefix "latest".toList name = false) (hd : Distinct d)
    (h : Lts.run (step name) d (before ++ a :: later) = some d') (hw : a.written = some t)
    (hren : a.failed = true → a.renameOk = true)
    (hold : ∀ e ∈ d, own name e = true → e.modTime < t)
    (hbefore : ∀ b ∈ before, ∀ u, b.written = some u → u < t)
    (hlater : later.length ≤ 9) (hnow : ∀ b ∈ later, b.now ≠ a.now) :
    ⟨a.logName name, t, none⟩ ∈ d' := by
  obtain ⟨d₁, hrun, hrest⟩ := Lts.run_append_iff.mp h
  obtain ⟨d₂, hstep, hrest⟩ := Lts.run_cons.mp hrest
  have hzero : d.countP (counted name t) = 0 := by
    refine List.countP_eq_zero.mpr fun e he hc => ?_
    unfold counted at hc
    rw [Bool.and_eq_true, decide_eq_true_eq] at hc
    have hlt := hold e he hc.1
    omega
  have hzero₁ := run_older hname hzero hbefore hrun
  have hle := countP_step_le' (steady_counted hname a t) hstep
  have hone := adds_le_one a name (counted name t)
  refine run_keeps hname (distinct_step (run_distinct hd hrun) hstep) (log_mem_step hstep hw hren)
    (show d₂.countP (counted name t) + later.length ≤ 10 by omega) ?_ (fun b hb => ?_) hrest
  · unfold Attempt.logName
    split
    · exact fail_ne_latest _
    · exact log_ne_latest name a
  · have hne : a.log name ≠ b.log name := fun heq => hnow b hb (log_injective heq).symm
    unfold Attempt.logName
    split
    · refine ⟨(log_ne_fail name b (a.log name)).symm, fun heq => hne ?_⟩
      exact (String.append_left_inj ..).mp heq
    · exact ⟨hne, log_ne_fail name a (b.log name)⟩

theorem sample_log_kept : ∃ d', Lts.run (step "debian") sampleDir [sampleFailed, sampleSuccess] =
    some d' ∧ ⟨"debian_10.log.fail", 11, none⟩ ∈ d' := by
  obtain ⟨d', h⟩ : ∃ d', Lts.run (step "debian") sampleDir ([] ++ sampleFailed :: [sampleSuccess]) =
    some d' := ⟨_, rfl⟩
  refine ⟨d', h, recent_log_kept (by decide) (by decide) h rfl (fun _ => rfl) (by decide)
    (fun b hb => by cases hb) (by decide) (by decide)⟩

end KubeSync.LogRotation
