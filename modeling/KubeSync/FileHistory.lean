import KubeSync.FileListings
import KubeSync.Latest
import KubeSync.Lts
import KubeSync.ManagerFailures

/-! # The history of a File

A File is posted in parts: a `POST` (`updateFile` of `manager/server.go`) may name a type, an alias
and a list of files, and what it leaves out is kept.  `deleteFile` forgets all of it.

* `getFile` and `deleteFile` complete the handlers of `KubeSync.Manager` for Files.
* `events` says what a request has stored: also a `POST` that fails may have stored its spec.
* `Recorded` : each part of a File is that of the last event that has set it, in the words of
  `History.Latest`; a deletion sets every part to its default.
* `file_recorded` : after every run of requests that do not read an old copy, this is what `GET`
  answers with. -/

namespace KubeSync.FileHistory

open Manager (Files File FileSpec FileStatus FileBase FileEnv Decoded Env Answer Response Failed
  Wrote fileInfos newSpec oldSpec updateFile updateFiles finishFile applyObject returnErrJSON
  patches patched)
open FileListings (Listing)
open History (Latest)

/-! ### The handlers -/

/-- The text of the error that `GetFile` returns, which it has also written as a 500 response. -/
def getFileErr (e : String) : String := "failed to get file: " ++ e

def infoOf (id : String) (file : File) : Listing where
  id
  type := file.spec.type
  aliasName := file.spec.aliasName
  files := file.status.files
  updateTime := file.status.updateTime

/-- `getFile`; an error is written by `GetFile` and by the handler. -/
def getFile (s : Files) (env : Env) (id : String) : Except (List Response) Listing :=
  match Manager.getFile s env.getFails env.lag id with
  | none => .error [returnErrJSON 500 (getFileErr env.err),
      returnErrJSON 500 ("failed to get file " ++ id ++ ": " ++ getFileErr env.err)]
  | some (_, file) => .ok (infoOf id file)

def deleteFile (s : Files) (env : Env) (id : String) : Answer Files :=
  match Manager.getFile s env.getFails env.lag id with
  | none => ⟨s, [returnErrJSON 500 (getFileErr env.err)]⟩
  | some _ =>
      -- `client.Delete` is refused for an object that is gone
      if env.writeFails ∨ s.value id = none then
        ⟨s, [returnErrJSON 500 ("failed to delete file: " ++ env.err)]⟩
      else ⟨s.remove id, [⟨200, .message "deleted"⟩]⟩

/-! ### Runs -/

inductive Label where
  | update (id : String) (env : FileEnv) (nFile : Decoded FileBase)
  | delete (id : String) (env : Env)

def serve (s : Files) : Label → Answer Files
  | .update id env nFile => updateFile s env id nFile
  | .delete id env => deleteFile s env id

def step (s : Files) (l : Label) : Option Files := some (serve s l).store

/-- The File is read as it is stored. -/
def Label.Fresh : Label → Prop
  | .update _ env _ => env.getFails = false ∧ env.lag = 0
  | .delete _ _ => True

/-- The last response that was written is a 200. -/
def answered (written : List Response) : Bool :=
  written.getLast?.map Response.code = some 200

inductive Event where
  | posted (id : String) (spec : FileSpec) (status : Option FileStatus)
  | deleted (id : String)
deriving DecidableEq, Repr

/-- The spec that is asked for is stored, by this request or before it. -/
def taken (s : Files) (env : FileEnv) (id : String) (nFile : FileBase) : Bool :=
  (fileInfos nFile.files).isSome &&
    (newSpec nFile (Manager.getFile s env.getFails env.lag id) =
      oldSpec (Manager.getFile s env.getFails env.lag id) || !env.patchFails)

/-- The list that a request has stored. -/
def newStatus (s : Files) (env : FileEnv) (id : String) (nFile : Decoded FileBase) :
    Option FileStatus :=
  match fileInfos nFile.value.files with
  | some (info :: infos) =>
      if answered (updateFile s env id nFile).written then
        some { files := info :: infos, updateTime := env.now }
      else none
  | _ => none

/-- What a request has stored. -/
def events (s : Files) : Label → List Event
  | .update id env nFile =>
      if taken s env id nFile.value then
        [.posted id { type := nFile.value.type, aliasName := nFile.value.aliasName }
          (newStatus s env id nFile)]
      else []
  | .delete id env => if answered (deleteFile s env id).written then [.deleted id] else []

/-! ### The last event that sets a part -/

/-- What an event makes of a part of the File `id`; `none` where it leaves it. -/
def Event.sets {β : Type} (get : FileSpec → Option FileStatus → Option β) (default : β)
    (id : String) : Event → Option β
  | .posted id' spec status => if id' = id then get spec status else none
  | .deleted id' => if id' = id then some default else none

/-- `v` is the value of the last event that sets the part. -/
def Last {β : Type} (get : FileSpec → Option FileStatus → Option β) (default : β) (id : String)
    (h : List Event) (v : β) : Prop :=
  Latest (fun _ e => (e.sets get default id).isSome = true)
    (fun e => (e.sets get default id).getD default) default h v

/-- A text that is not empty. -/
def nonempty (text : String) : Option String := if text = "" then none else some text

/-- The File `id` as it follows from the events. -/
structure Recorded (h : List Event) (id : String) (v : Option File) : Prop where
  there : Last (fun _ _ => some true) false id h v.isSome
  type : Last (fun spec _ => nonempty spec.type) "os" id h ((v.map fun f => f.spec.type).getD "os")
  aliasName : Last (fun spec _ => nonempty spec.aliasName) "" id h
    ((v.map fun f => f.spec.aliasName).getD "")
  status : Last (fun _ status => status) {} id h ((v.map File.status).getD {})

variable {s s' : Files} {env : FileEnv} {id key : String} {nFile : Decoded FileBase}
  {h : List Event} {v : Option File}

theorem Last.concat {β : Type} {get : FileSpec → Option FileStatus → Option β} {default w : β}
    (hl : Last get default id h w) (e : Event) :
    Last get default id (h ++ [e]) ((e.sets get default id).getD w) := by
  unfold Last
  cases he : e.sets get default id with
  | none => exact hl.miss (by rw [he]; exact Bool.false_ne_true)
  | some x =>
      have hx : (e.sets get default id).getD default = x := by rw [he]; rfl
      rw [Option.getD_some, ← hx]
      exact .hit (by rw [he]; rfl)

theorem recorded_nil (id : String) : Recorded [] id none :=
  ⟨.nil _ _ _, .nil _ _ _, .nil _ _ _, .nil _ _ _⟩

/-- The File behind one more event. -/
def Event.apply (e : Event) (id : String) (v : Option File) : Option File :=
  match e with
  | .posted id' spec status =>
      if id' = id then
        some
          { spec :=
              { type := (nonempty spec.type).getD ((v.map fun f => f.spec.type).getD "os")
                aliasName := (nonempty spec.aliasName).getD
                  ((v.map fun f => f.spec.aliasName).getD "") }
            status := status.getD ((v.map File.status).getD {}) }
      else v
  | .deleted id' => if id' = id then none else v

theorem Recorded.concat (hr : Recorded h id v) (e : Event) :
    Recorded (h ++ [e]) id (e.apply id v) := by
  have hthere := hr.there.concat e
  have htype := hr.type.concat e
  have haliasName := hr.aliasName.concat e
  have hstatus := hr.status.concat e
  cases e with
  | posted id' spec status | deleted id' =>
      unfold Event.sets at hthere htype haliasName hstatus
      unfold Event.apply
      dsimp only at hthere htype haliasName hstatus ⊢
      split
      next hid =>
        rw [if_pos hid] at hthere htype haliasName hstatus
        exact ⟨hthere, htype, haliasName, hstatus⟩
      next hid =>
        rw [if_neg hid] at hthere htype haliasName hstatus
        exact ⟨hthere, htype, haliasName, hstatus⟩

/-! ### One request -/

theorem answered_iff (written : List Response) : answered written = true ↔ ¬ Failed written := by
  unfold answered Failed
  cases written.getLast? <;> simp

theorem taken_iff {nFile : FileBase} :
    taken s env id nFile = true ↔ fileInfos nFile.files ≠ none ∧
      (newSpec nFile (Manager.getFile s env.getFails env.lag id) =
        oldSpec (Manager.getFile s env.getFails env.lag id) ∨ env.patchFails = false) := by
  unfold taken
  simp [Option.isSome_iff_ne_none]

theorem getFile_fresh (hget : env.getFails = false) (hlag : env.lag = 0) :
    Manager.getFile s env.getFails env.lag id = s.current id := by
  unfold Manager.getFile
  rw [hget, hlag]
  rfl

/-- The spec that is asked for, by the parts of the body that are not empty. -/
theorem newSpec_current (nFile : FileBase) :
    newSpec nFile (s.current id) =
      { type := (nonempty nFile.type).getD (((s.value id).map fun f => f.spec.type).getD "os")
        aliasName := (nonempty nFile.aliasName).getD
          (((s.value id).map fun f => f.spec.aliasName).getD "") } := by
  unfold newSpec nonempty Versioned.Store.value
  cases s.current id with
  | none =>
      dsimp only
      by_cases htype : nFile.type = "" <;> by_cases hname : nFile.aliasName = "" <;>
        simp [htype, hname]
  | some c =>
      dsimp only
      by_cases htype : nFile.type = "" <;> by_cases hname : nFile.aliasName = "" <;>
        simp [htype, hname]

/-- A File that has the spec that is asked for exists: the type is never empty. -/
theorem value_of_newSpec {nFile : FileBase} (hspec : newSpec nFile (s.current id) =
    oldSpec (s.current id)) :
    ∃ f, s.value id = some f ∧ f.spec = newSpec nFile (s.current id) := by
  unfold Versioned.Store.value
  cases hc : s.current id with
  | none =>
      rw [hc] at hspec
      have htype := congrArg FileSpec.type hspec
      unfold newSpec oldSpec at htype
      dsimp only [Option.map_none, Option.getD_none] at htype
      split at htype
      · exact absurd htype (by decide)
      · exact absurd htype (by assumption)
  | some c =>
      rw [hc] at hspec
      exact ⟨c.2, rfl, hspec.symm⟩

theorem failed_concat (before : List Response) {r : Response} (hr : r.code = 500) :
    Failed (before ++ [r]) := by
  intro r' hr'
  rw [List.getLast?_concat] at hr'
  obtain rfl := Option.some.inj hr'
  rw [hr]
  decide

/-- The status behind a request that has recognised these files. -/
def statusOf (infos : List FileInfo) (now : ℤ) : Option FileStatus :=
  if infos = [] then none else some { files := infos, updateTime := now }

/-- The last part of the handler stores the list, if it does not fail. -/
theorem finishFile_wrote {copy : Option (ℕ × File)} {infos : List FileInfo}
    {before : List Response} {f : File} (hf : s.value id = some f)
    (h : ¬ Failed (finishFile s env id copy infos before).written) :
    Wrote s (finishFile s env id copy infos before).store id
      { f with status := (statusOf infos env.now).getD f.status } := by
  unfold finishFile statusOf at *
  dsimp only at h ⊢
  split at h
  next hnil =>
    rw [if_pos hnil, if_pos hnil]
    exact ⟨hf, fun _ _ => rfl⟩
  next hne =>
    rw [if_neg hne, if_neg hne]
    cases hu : updateFiles s env id copy infos with
    | none =>
        rw [hu] at h
        exact absurd (failed_concat _ rfl) h
    | some s' =>
        unfold updateFiles at hu
        cases copy with
        | none => cases hu
        | some c =>
            dsimp only at hu
            rw [Option.ite_none_left_eq_some] at hu
            obtain ⟨v, hcurrent, rfl⟩ := Versioned.Store.modify_eq_some.mp hu.2
            have hv : s.value id = some v := by
              unfold Versioned.Store.value
              rw [hcurrent]
              rfl
            obtain rfl := Option.some.inj (hf.symm.trans hv)
            exact Manager.wrote_write s id _

theorem wrote_trans {s₁ s₂ : Files} {f₁ f₂ : File} (h₁ : Wrote s s₁ id f₁)
    (h₂ : Wrote s₁ s₂ id f₂) : Wrote s s₂ id f₂ where
  self := h₂.self
  other k hk := (h₂.other k hk).trans (h₁.other k hk)

/-- What a request that does not fail stores. -/
theorem updateFile_wrote (hget : env.getFails = false) (hlag : env.lag = 0)
    (h : ¬ Failed (updateFile s env id nFile).written) :
    ∃ infos, fileInfos nFile.value.files = some infos ∧
      Wrote s (updateFile s env id nFile).store id
        { spec := newSpec nFile.value (s.current id)
          status := (statusOf infos env.now).getD (((s.value id).map File.status).getD {}) } := by
  unfold updateFile at h ⊢
  cases hinfos : fileInfos nFile.value.files with
  | none =>
      rw [hinfos] at h
      exact absurd (failed_concat _ rfl) h
  | some infos =>
      refine ⟨infos, rfl, ?_⟩
      rw [hinfos] at h
      dsimp only at h ⊢
      rw [getFile_fresh hget hlag] at h ⊢
      by_cases hspec : newSpec nFile.value (s.current id) = oldSpec (s.current id)
      · rw [if_pos hspec] at h ⊢
        obtain ⟨f, hf, hold⟩ := value_of_newSpec hspec
        have hwrote := finishFile_wrote hf h
        rw [hf, ← hold]
        exact hwrote
      · rw [if_neg hspec] at h ⊢
        cases hpatch : env.patchFails with
        | true =>
            rw [hpatch, if_pos rfl] at h
            exact absurd (failed_concat _ rfl) h
        | false =>
            rw [hpatch, if_neg Bool.false_ne_true] at h
            rw [if_neg Bool.false_ne_true]
            have happly := Manager.applyObject_wrote s id (newSpec nFile.value (s.current id))
            refine wrote_trans happly ?_
            generalize applyObject s id _ _ = s₁ at happly h ⊢
            cases infos with
            | nil => exact finishFile_wrote happly.self h
            | cons info infos =>
                cases hcopy : Manager.getFile s₁ env.getFails' env.lag' id with
                | none =>
                    rw [hcopy] at h
                    exact absurd (failed_concat _ rfl) h
                | some copy =>
                    rw [hcopy] at h
                    exact finishFile_wrote happly.self h

theorem newStatus_of_failed (h : Failed (updateFile s env id nFile).written) :
    newStatus s env id nFile = none := by
  have hanswered : ¬ answered (updateFile s env id nFile).written = true := fun ha =>
    (answered_iff _).mp ha h
  unfold newStatus
  split
  · exact if_neg hanswered
  · rfl

theorem newStatus_of_not_failed {infos : List FileInfo}
    (hinfos : fileInfos nFile.value.files = some infos)
    (h : ¬ Failed (updateFile s env id nFile).written) :
    newStatus s env id nFile = statusOf infos env.now := by
  unfold newStatus statusOf
  rw [hinfos]
  cases infos with
  | nil => rfl
  | cons info infos =>
      dsimp only
      rw [if_pos ((answered_iff _).mpr h), if_neg (List.cons_ne_nil _ _)]

/-- A request whose spec is stored. -/
theorem updateFile_taken (hget : env.getFails = false) (hlag : env.lag = 0)
    (ht : taken s env id nFile.value = true) :
    Wrote s (updateFile s env id nFile).store id
      { spec := newSpec nFile.value (s.current id)
        status := (newStatus s env id nFile).getD (((s.value id).map File.status).getD {}) } := by
  by_cases hfailed : Failed (updateFile s env id nFile).written
  · rw [newStatus_of_failed hfailed, Option.getD_none]
    obtain ⟨hpatched, hkept⟩ := Manager.updateFile_store rfl hfailed
    by_cases hp : patches s env id nFile.value
    · have hwrote := hpatched hp
      unfold patched at hwrote
      rw [getFile_fresh hget hlag] at hwrote
      exact hwrote
    · -- the spec is the stored one
      rw [hkept hp]
      obtain ⟨hinfos, hor⟩ := taken_iff.mp ht
      unfold patches at hp
      rw [getFile_fresh hget hlag] at hor hp
      have hspec : newSpec nFile.value (s.current id) = oldSpec (s.current id) := by
        by_contra hne
        exact hp ⟨hinfos, hne, hor.resolve_left hne⟩
      obtain ⟨f, hf, hold⟩ := value_of_newSpec hspec
      refine ⟨?_, fun _ _ => rfl⟩
      rw [hf, ← hold]
      rfl
  · obtain ⟨infos, hinfos, hwrote⟩ := updateFile_wrote hget hlag hfailed
    rw [newStatus_of_not_failed hinfos hfailed]
    exact hwrote

theorem updateFile_not_taken (ht : taken s env id nFile.value = false) :
    (updateFile s env id nFile).store = s := by
  have hnot : ¬ taken s env id nFile.value = true := ne_true_of_eq_false ht
  rw [taken_iff, not_and_or, not_not] at hnot
  unfold updateFile
  cases hinfos : fileInfos nFile.value.files with
  | none => rfl
  | some infos =>
      obtain ⟨hspec, hpatch⟩ := not_or.mp (hnot.resolve_left (by rw [hinfos]; nofun))
      dsimp only
      rw [if_neg hspec, if_pos (eq_true_of_ne_false hpatch)]

/-- The File behind some events. -/
def applyAll (id : String) (v : Option File) (es : List Event) : Option File :=
  es.foldl (fun v e => e.apply id v) v

theorem value_update (hget : env.getFails = false) (hlag : env.lag = 0) (k : String) :
    (updateFile s env id nFile).store.value k =
      applyAll k (s.value k) (events s (.update id env nFile)) := by
  unfold events
  dsimp only
  cases ht : taken s env id nFile.value with
  | false =>
      rw [updateFile_not_taken ht, if_neg Bool.false_ne_true]
      rfl
  | true =>
      have hwrote := updateFile_taken hget hlag ht
      rw [if_pos rfl]
      change _ = (Event.posted id _ _).apply k (s.value k)
      unfold Event.apply
      dsimp only
      split
      next hk =>
        subst hk
        rw [hwrote.self, newSpec_current]
      next hk => exact hwrote.other k (Ne.symm hk)

/-- A deletion is answered with a 200 exactly when it removes the File. -/
theorem deleteFile_cases (s : Files) (env : Env) (id : String) :
    ((deleteFile s env id).store = s.remove id ∧
        answered (deleteFile s env id).written = true) ∨
      ((deleteFile s env id).store = s ∧ answered (deleteFile s env id).written = false) := by
  unfold deleteFile
  split
  · exact .inr ⟨rfl, rfl⟩
  · split
    · exact .inr ⟨rfl, rfl⟩
    · exact .inl ⟨rfl, rfl⟩

theorem value_delete (env : Env) (k : String) :
    (deleteFile s env id).store.value k =
      applyAll k (s.value k) (events s (.delete id env)) := by
  unfold events
  dsimp only
  rcases deleteFile_cases s env id with ⟨hstore, hanswered⟩ | ⟨hstore, hanswered⟩
  · rw [hstore, hanswered, if_pos rfl]
    change _ = (Event.deleted id).apply k (s.value k)
    unfold Event.apply
    dsimp only
    split
    next hk =>
      subst hk
      exact Versioned.Store.value_push_self _ _ _
    next hk => exact s.value_remove_of_ne (Ne.symm hk)
  · rw [hstore, hanswered, if_neg Bool.false_ne_true]
    rfl

/-- What a request makes of every File. -/
theorem value_step {l : Label} (hfresh : l.Fresh) (hstep : step s l = some s') (k : String) :
    s'.value k = applyAll k (s.value k) (events s l) := by
  obtain rfl := Option.some.inj hstep
  cases l with
  | update id env nFile => exact value_update hfresh.1 hfresh.2 k
  | delete id env => exact value_delete env k

/-! ### Runs -/

theorem Recorded.append (hr : Recorded h id v) (es : List Event) :
    Recorded (h ++ es) id (applyAll id v es) := by
  induction es generalizing h v with
  | nil =>
      rw [List.append_nil]
      exact hr
  | cons e es ih =>
      have hrest := ih (hr.concat e)
      rw [List.append_assoc] at hrest
      exact hrest

theorem recorded_run {ls : List Label} (hfresh : ∀ l ∈ ls, l.Fresh)
    (hr : Recorded h id (s.value id)) (hrun : Lts.run step s ls = some s') :
    Recorded (h ++ Lts.collect step events s ls) id (s'.value id) := by
  induction ls generalizing s h with
  | nil =>
      obtain rfl := Option.some.inj hrun
      rw [Lts.collect, List.append_nil]
      exact hr
  | cons l ls ih =>
      obtain ⟨s₁, hstep, hrest⟩ := Lts.run_cons.mp hrun
      rw [Lts.collect_cons hstep, ← List.append_assoc]
      refine ih (fun l' hl' => hfresh l' (List.mem_cons_of_mem l hl')) ?_ hrest
      rw [value_step (hfresh l List.mem_cons_self) hstep]
      exact hr.append _

/-- A `GET` that does not fail answers with the stored File. -/
theorem getFile_toOption {env : Env} (hget : env.getFails = false) (hlag : env.lag = 0) :
    (getFile s env id).toOption = (s.value id).map (infoOf id) := by
  unfold getFile Manager.getFile Versioned.Store.value Versioned.Store.current
  rw [hget, hlag, if_neg Bool.false_ne_true]
  cases s.seen 0 id <;> rfl

/-- **Files.**  After every run of requests that read the File as it is stored, whatever else fails,
a `GET` answers with the type, the alias and the list of files that were last set, each by itself,
and with an error exactly when nothing was posted since the last deletion. -/
theorem file_recorded (ls : List Label) (hfresh : ∀ l ∈ ls, l.Fresh) (s : Files)
    (hrun : Lts.run step .empty ls = some s) (id : String) (env : Env)
    (hget : env.getFails = false) (hlag : env.lag = 0) :
    ∃ v, Recorded (Lts.collect step events .empty ls) id v ∧
      (getFile s env id).toOption = v.map (infoOf id) := by
  exact ⟨s.value id, recorded_run hfresh (recorded_nil id) hrun, getFile_toOption hget hlag⟩

/-- Two images are posted, then an alias, and then a list in which nothing is recognised. -/
def sample : List Label :=
  [.update "ubuntu" { now := 100 } FileListings.twoImages,
    .update "ubuntu" { now := 200 } { value := { aliasName := "Ubuntu" } },
    .update "ubuntu" { now := 300 } { value := { files := [("/README".toList, 1)] } }]

theorem sample_recorded : ∃ s v, Lts.run step .empty sample = some s ∧
    Recorded (Lts.collect step events .empty sample) "ubuntu" v ∧
    (getFile s {} "ubuntu").toOption = v.map (infoOf "ubuntu") ∧
    (getFile s {} "ubuntu").toOption.map
        (fun i => (i.type, i.aliasName, i.files.length, i.updateTime)) =
      some ("os", "Ubuntu", 2, 100) := by
  obtain ⟨v, hrecorded, hget⟩ := file_recorded sample
    (by simp [sample, Label.Fresh]) _ rfl "ubuntu" {} rfl rfl
  exact ⟨_, v, rfl, hrecorded, hget, by decide +kernel⟩

end KubeSync.FileHistory
