import KubeSync.MirrorZRequests
import KubeSync.SortSlice
import Mathlib.Data.List.Lex

/-! # The listings of the jobs

`listJob` (`manager/server.go`) and the loop over the jobs in `mirrorZ`, with the external providers
that they call (`manager/external/base.go`, `manager/external/gitea.go`).

* `external.Provider` gives nil for every provider but `gitea`, and the call of a method on it is a
  run-time panic, as is that of a method of the time that `getTime` could not parse (`none`).
* What a Gitea server answers is any list of repositories, or no answer.  The fields of a repository
  that nothing reads are left out.
* `time.Parse` and `strings.ToLower` are any functions, and `sort.Slice` is known by what it
  promises; it is not stable.
* `listings_complete_iff`: both listings are complete exactly if every external job has the provider
  `gitea` and the times that they need can be parsed. -/

namespace KubeSync.External

open MirrorZ (Mirror Entry Doc Content mirrorOf addJobs)

/-! ### The Gitea provider -/

/-- `giteaRepo`. -/
structure GiteaRepo where
  name : String := ""
  desc : String := ""
  empty : Bool := false
  size : ℕ := 0
  cloneUrl : String := ""
  originalUrl : String := ""
  updated : String := ""
deriving DecidableEq, Repr

/-- `giteaMsg`. -/
structure GiteaMsg where
  ok : Bool
  data : List GiteaRepo
deriving DecidableEq, Repr

/-- `internal.MirrorStatus`. -/
structure MirrorStatus where
  id : String
  aliasName : String := ""
  desc : String
  url : String
  helpUrl : String := ""
  type : MirrorType
  sizeStr : Text
  jobStatus : JobStatus
deriving DecidableEq, Repr

/-- The order of Go strings, which is that of their code points. -/
def Less (s s' : String) : Prop :=
  List.Lex (fun m n : ℕ => m < n) (s.toList.map Char.toNat) (s'.toList.map Char.toNat)

instance (s s' : String) : Decidable (Less s s') := inferInstanceAs (Decidable (List.Lex _ _ _))

/-- The library functions: `parseTime` is `time.Parse` with the seconds of its result, `sort` is
`sort.Slice`. -/
structure Lib where
  parseTime : String → Option ℤ
  toLower : String → String
  sort : SortSlice

variable (lib : Lib)

/-- The order of the listing, by the lower-cased id. -/
def lessLower (w w' : MirrorStatus) : Bool := Less (lib.toLower w.id) (lib.toLower w'.id)

namespace GiteaRepo

def getStatus (r : GiteaRepo) : SyncStatus := if r.empty then .syncing else .success

def getTime (r : GiteaRepo) : Option ℤ := lib.parseTime r.updated

def getStatusZ (r : GiteaRepo) : Option String :=
  if r.empty then some "U" else (r.getTime lib).map fun t => "S" ++ toString t

/-- `v.Size * internal.K`. -/
def bytes (r : GiteaRepo) : ℕ := r.size * 1024 % 2 ^ 64

/-- The entry of a repository in `List`. -/
def status (r : GiteaRepo) (time : ℤ) : MirrorStatus :=
  { id := r.name
    desc := r.desc
    url := r.cloneUrl
    type := .git
    sizeStr := parseSize r.bytes
    jobStatus := { status := r.getStatus, lastUpdate := time, upstream := r.originalUrl
                   size := r.bytes } }

/-- The entry of a repository in `ListZ`. -/
def mirror (r : GiteaRepo) (status : String) : Mirror :=
  { cname := lib.toLower r.name ++ ".git"
    desc := r.desc
    url := r.cloneUrl
    status
    upstream := r.originalUrl
    size := parseSize r.bytes }

end GiteaRepo

/-- `fetch`: the repositories, unless there is no answer or it is not ok. -/
def fetch (answer : Option GiteaMsg) : Option (List GiteaRepo) :=
  answer.bind fun info => if info.ok then some info.data else none

/-- `List`; its error is not looked at. -/
def list (answer : Option GiteaMsg) : Option (List MirrorStatus) :=
  match fetch answer with
  | none => some []
  | some data => data.mapM fun r => (r.getTime lib).map r.status

/-- `ListZ`; its error is not looked at. -/
def listZ (answer : Option GiteaMsg) : Option (List Mirror) :=
  match fetch answer with
  | none => some []
  | some data => data.mapM fun r => (r.getStatusZ lib).map (r.mirror lib)

/-- `external.Provider`: the address of the server. -/
def provider (cfg : JobConfig) : Option String :=
  if cfg.provider = "gitea" then some cfg.upstream else none

/-! ### `listJob` -/

/-- The entry of a job that is not external. -/
def statusOf (v : Job) : MirrorStatus :=
  let w : MirrorStatus :=
    { id := v.name
      aliasName := v.spec.config.aliasName
      desc := v.spec.config.desc
      url := v.spec.config.url
      helpUrl := v.spec.config.helpUrl
      type := v.spec.config.type
      sizeStr := parseSize v.status.size
      jobStatus := v.status }
  match v.spec.config.type with
  | .proxy =>
      { w with
        jobStatus := { v.status with upstream := v.spec.config.upstream, status := .cached } }
  | .git =>
      { w with
        jobStatus := { v.status with upstream := v.spec.config.upstream, status := .created } }
  | .other "" => { w with type := .mirror }
  | _ => w

/-- One job of the loop; `net` is what the servers answer. -/
def addEntries (net : Job → Option GiteaMsg) (ws : List MirrorStatus) (v : Job) :
    Option (List MirrorStatus) :=
  if v.spec.config.type = .external then do
    let _ ← provider v.spec.config
    let wss ← list lib (net v)
    return ws ++ wss
  else return ws ++ [statusOf v]

inductive Response where
  | json (ws : List MirrorStatus)
  | error (code : ℕ) (msg : String)
deriving DecidableEq, Repr

/-- `listJob`; `items` is the result of the `List` call of the client. -/
def listJob (net : Job → Option GiteaMsg) (items : Except String (List Job)) : Option Response :=
  match items with
  | .ok jobs => (jobs.foldlM (addEntries lib net) []).map fun ws =>
      .json (lib.sort.slice (lessLower lib) ws)
  | .error err => some (.error 500 ("failed to list mirrors: " ++ err))

/-! ### What is to be listed -/

/-- The repositories that a server lists. -/
def repositories (net : Job → Option GiteaMsg) (v : Job) : List GiteaRepo :=
  (fetch (net v)).getD []

/-- The entries of a job in `listJob`. -/
def entriesOf (net : Job → Option GiteaMsg) (v : Job) : List MirrorStatus :=
  if v.spec.config.type = .external then
    (repositories net v).map fun r => r.status ((r.getTime lib).getD 0)
  else [statusOf v]

/-- The entries of a job in `mirrorZ`. -/
def mirrorsOf (net : Job → Option GiteaMsg) (v : Job) : List Entry :=
  if v.spec.config.type = .external then
    (repositories net v).map fun r => .external (r.mirror lib ((r.getStatusZ lib).getD "U"))
  else [.job (mirrorOf v)]

/-- `listJob` answers with these entries, ordered by their lower-cased id. -/
def Listed (net : Job → Option GiteaMsg) (jobs : List Job) : Prop :=
  ∃ ws, listJob lib net (.ok jobs) = some (.json ws) ∧
    ws.Perm (jobs.flatMap (entriesOf lib net)) ∧
    ws.Pairwise fun w w' => ¬ Less (lib.toLower w'.id) (lib.toLower w.id)

/-- A request for `mirrorz.json` by itself is answered with these entries. -/
def ListedZ (net : Job → Option GiteaMsg) (content : Content) (pack : Bool) : Prop :=
  ∃ s d, Lts.run (MirrorZ.step content) .init [.start, .files 0 (some content.files),
      .jobs 0 (some content.jobs) (fun v => listZ lib (net v)) pack] = some s ∧
    s.requests = [.answered (.json pack d)] ∧
    d.mirrors = content.jobs.flatMap (mirrorsOf lib net)

/-- The condition for `listJob`. -/
def Listable (net : Job → Option GiteaMsg) (jobs : List Job) : Prop :=
  ∀ v ∈ jobs, v.spec.config.type = .external → v.spec.config.provider = "gitea" ∧
    ∀ r ∈ repositories net v, (lib.parseTime r.updated).isSome = true

/-- The condition for `mirrorZ`, which does not look at the time of an empty repository. -/
def ListableZ (net : Job → Option GiteaMsg) (jobs : List Job) : Prop :=
  ∀ v ∈ jobs, v.spec.config.type = .external → v.spec.config.provider = "gitea" ∧
    ∀ r ∈ repositories net v, r.empty = false → (lib.parseTime r.updated).isSome = true

/-! ### The providers -/

variable {lib} {net : Job → Option GiteaMsg} {jobs : List Job}

/-- A loop that panics at an element without a value. -/
theorem mapM_map_eq_some {α β γ : Type} {f : α → Option β} {g : α → β → γ} (dflt : β) {l : List α}
    {ws : List γ} :
    (l.mapM fun x => (f x).map (g x)) = some ws ↔
      (∀ x ∈ l, (f x).isSome = true) ∧ ws = l.map fun x => g x ((f x).getD dflt) := by
  induction l generalizing ws with
  | nil =>
      rw [List.mapM_nil, List.map_nil]
      exact ⟨fun h => ⟨nofun, (Option.some.inj h).symm⟩, fun h => congrArg some h.2.symm⟩
  | cons x l ih =>
      rw [List.mapM_cons]
      simp only [Option.bind_eq_bind, Option.bind_eq_some_iff, List.forall_mem_cons, List.map_cons]
      cases hx : f x with
      | none => simp
      | some y =>
          simp only [Option.map_some, Option.some.injEq, exists_eq_left', Option.isSome_some,
            true_and, Option.getD_some]
          constructor
          · rintro ⟨ws', hws', h⟩
            obtain ⟨hall, rfl⟩ := ih.mp hws'
            cases h
            exact ⟨hall, rfl⟩
          · rintro ⟨hall, rfl⟩
            exact ⟨_, ih.mpr ⟨hall, rfl⟩, rfl⟩

theorem list_eq_some {v : Job} {ws : List MirrorStatus} :
    list lib (net v) = some ws ↔
      (∀ r ∈ repositories net v, (r.getTime lib).isSome = true) ∧
        ws = (repositories net v).map fun r => r.status ((r.getTime lib).getD 0) := by
  unfold list repositories
  cases fetch (net v) with
  | none => exact ⟨fun h => ⟨nofun, (Option.some.inj h).symm⟩, fun h => congrArg some h.2.symm⟩
  | some data => exact mapM_map_eq_some 0

theorem listZ_eq_some {v : Job} {ws : List Mirror} :
    listZ lib (net v) = some ws ↔
      (∀ r ∈ repositories net v, (r.getStatusZ lib).isSome = true) ∧
        ws = (repositories net v).map fun r => r.mirror lib ((r.getStatusZ lib).getD "U") := by
  unfold listZ repositories
  cases fetch (net v) with
  | none => exact ⟨fun h => ⟨nofun, (Option.some.inj h).symm⟩, fun h => congrArg some h.2.symm⟩
  | some data => exact mapM_map_eq_some "U"

theorem getStatusZ_isSome {r : GiteaRepo} : (r.getStatusZ lib).isSome = true ↔
    (r.empty = false → (lib.parseTime r.updated).isSome = true) := by
  unfold GiteaRepo.getStatusZ GiteaRepo.getTime
  cases r.empty <;> simp

/-! ### `listJob` -/

/-- The condition on one job. -/
theorem addEntries_eq_some {v : Job} {ws ws' : List MirrorStatus} :
    addEntries lib net ws v = some ws' ↔
      (v.spec.config.type = .external → v.spec.config.provider = "gitea" ∧
        ∀ r ∈ repositories net v, (lib.parseTime r.updated).isSome = true) ∧
      ws' = ws ++ entriesOf lib net v := by
  unfold addEntries entriesOf
  split
  case isTrue hext =>
    simp only [Option.bind_eq_bind, Option.bind_eq_some_iff, provider]
    constructor
    · rintro ⟨url, hurl, wss, hwss, h⟩
      obtain ⟨hgitea, -⟩ := Option.ite_none_right_eq_some.mp hurl
      obtain ⟨hall, rfl⟩ := list_eq_some.mp hwss
      exact ⟨fun _ => ⟨hgitea, hall⟩, (Option.some.inj h).symm⟩
    · rintro ⟨hc, rfl⟩
      obtain ⟨hgitea, hall⟩ := hc hext
      exact ⟨_, if_pos hgitea, _, list_eq_some.mpr ⟨hall, rfl⟩, rfl⟩
  case isFalse hext =>
    constructor
    · intro h
      exact ⟨fun he => absurd he hext, (Option.some.inj h).symm⟩
    · rintro ⟨-, rfl⟩
      rfl

theorem foldlM_addEntries {ws ws' : List MirrorStatus} :
    jobs.foldlM (addEntries lib net) ws = some ws' ↔
      Listable lib net jobs ∧ ws' = ws ++ jobs.flatMap (entriesOf lib net) := by
  induction jobs generalizing ws with
  | nil =>
      have hnil : Listable lib net [] := List.forall_mem_nil _
      rw [List.foldlM_nil, List.flatMap_nil, List.append_nil, Option.pure_def, Option.some.injEq]
      exact ⟨fun h => ⟨hnil, h.symm⟩, fun h => h.2.symm⟩
  | cons v jobs ih =>
      rw [List.foldlM_cons, Option.bind_eq_bind, Option.bind_eq_some_iff]
      unfold Listable
      rw [List.forall_mem_cons, List.flatMap_cons, ← List.append_assoc]
      constructor
      · rintro ⟨ws₁, h₁, h⟩
        obtain ⟨hv, rfl⟩ := addEntries_eq_some.mp h₁
        obtain ⟨hjobs, rfl⟩ := ih.mp h
        exact ⟨⟨hv, hjobs⟩, rfl⟩
      · rintro ⟨⟨hv, hjobs⟩, rfl⟩
        exact ⟨_, addEntries_eq_some.mpr ⟨hv, rfl⟩, ih.mpr ⟨hjobs, rfl⟩⟩

theorem less_asymm {s s' : String} (h : Less s s') : ¬ Less s' s := by
  unfold Less at h ⊢
  exact Std.Asymm.asymm _ _ h

theorem less_split {s s' : String} (h : Less s s') (t : String) : Less s t ∨ Less t s' := by
  unfold Less at h ⊢
  exact IsOrderConnected.conn _ _ _ h

theorem lessLower_eq_false {w w' : MirrorStatus} :
    lessLower lib w w' = false ↔ ¬ Less (lib.toLower w.id) (lib.toLower w'.id) :=
  decide_eq_false_iff_not

/-- The listing comes in its order. -/
theorem slice_ordered (lib : Lib) (ws : List MirrorStatus) :
    (lib.sort.slice (lessLower lib) ws).Pairwise fun w w' =>
      ¬ Less (lib.toLower w'.id) (lib.toLower w.id) := by
  have htrans (a b c : MirrorStatus) (hab : lessLower lib b a = false)
      (hbc : lessLower lib c b = false) : lessLower lib c a = false := by
    rw [lessLower_eq_false] at hab hbc ⊢
    intro hlt
    exact (less_split hlt (lib.toLower b.id)).elim hbc hab
  have htotal (a b : MirrorStatus) : lessLower lib a b = false ∨ lessLower lib b a = false := by
    rw [lessLower_eq_false, lessLower_eq_false]
    by_cases h : Less (lib.toLower a.id) (lib.toLower b.id)
    · exact .inr (less_asymm h)
    · exact .inl h
  exact (lib.sort.sorted (lessLower lib) ws htrans htotal).imp lessLower_eq_false.mp

theorem listed_iff : Listed lib net jobs ↔ Listable lib net jobs := by
  constructor
  · rintro ⟨ws, h, -, -⟩
    obtain ⟨ws', hws', -⟩ := Option.map_eq_some_iff.mp h
    exact (foldlM_addEntries.mp hws').1
  · intro h
    have hall := foldlM_addEntries.mpr ⟨h, (List.nil_append _).symm⟩
    exact ⟨_, Option.map_eq_some_iff.mpr ⟨_, hall, rfl⟩, lib.sort.perm _ _, slice_ordered lib _⟩

/-! ### `mirrorZ` -/

theorem listZ_isSome {v : Job} : (listZ lib (net v)).isSome = true ↔
    ∀ r ∈ repositories net v, r.empty = false → (lib.parseTime r.updated).isSome = true := by
  simp only [← getStatusZ_isSome]
  constructor
  · intro h
    obtain ⟨ws, hws⟩ := Option.isSome_iff_exists.mp h
    exact (listZ_eq_some.mp hws).1
  · intro h
    exact Option.isSome_iff_exists.mpr ⟨_, listZ_eq_some.mpr ⟨h, rfl⟩⟩

theorem known_iff :
    MirrorZ.Known (fun v => listZ lib (net v)) jobs ↔ ListableZ lib net jobs := by
  unfold MirrorZ.Known ListableZ
  simp only [listZ_isSome]

/-- The loop over the jobs appends the entries of each of them. -/
theorem addJobs_mirrors (h : ListableZ lib net jobs) (d : Doc) (n : ℕ) :
    ∃ m, addJobs (fun v => listZ lib (net v)) d n jobs =
      ({ d with mirrors := d.mirrors ++ jobs.flatMap (mirrorsOf lib net) }, some m) := by
  induction jobs generalizing d n with
  | nil =>
      refine ⟨n, ?_⟩
      rw [List.flatMap_nil, List.append_nil]
      rfl
  | cons v jobs ih =>
      obtain ⟨hv, hjobs⟩ := List.forall_mem_cons.mp h
      rw [List.flatMap_cons, ← List.append_assoc]
      unfold addJobs
      split
      case isTrue hext =>
        obtain ⟨hgitea, hall⟩ := hv hext
        have hlist := listZ_eq_some.mpr ⟨fun r hr => getStatusZ_isSome.mpr (hall r hr), rfl⟩
        have hentries : mirrorsOf lib net v = ((repositories net v).map fun r =>
            r.mirror lib ((r.getStatusZ lib).getD "U")).map Entry.external := by
          rw [List.map_map]
          exact if_pos hext
        rw [if_pos hgitea, hlist, hentries]
        exact ih hjobs _ _
      case isFalse hext =>
        have hentries : mirrorsOf lib net v = [.job (mirrorOf v)] := if_neg hext
        rw [hentries]
        exact ih hjobs _ _

/-- A request by itself. -/
theorem run_alone (content : Content) (listZ : Job → Option (List Mirror)) (pack : Bool) :
    Lts.run (MirrorZ.step content) .init
        [.start, .files 0 (some content.files), .jobs 0 (some content.jobs) listZ pack] =
      some (MirrorZ.stepJobs content.total
        (MirrorZ.stepFiles (MirrorZ.stepStart .init) 0 (some content.files)) 0
        (some content.jobs) listZ pack) := by
  have hfiles : content.files.isPerm content.files = true :=
    List.isPerm_iff.mpr (List.Perm.refl _)
  have hjobs : content.jobs.isPerm content.jobs = true :=
    List.isPerm_iff.mpr (List.Perm.refl _)
  refine Lts.run_cons.mpr ⟨_, rfl, Lts.run_cons.mpr ⟨_, if_pos ⟨rfl, hfiles⟩, ?_⟩⟩
  exact Lts.run_cons.mpr ⟨_, if_pos ⟨rfl, hjobs⟩, rfl⟩

theorem listedZ_iff {content : Content} {pack : Bool} :
    ListedZ lib net content pack ↔ ListableZ lib net content.jobs := by
  unfold ListedZ
  rw [run_alone]
  constructor
  · rintro ⟨s, d, hs, hreq, -⟩
    obtain rfl := Option.some.inj hs
    rw [← known_iff]
    refine (MirrorZ.addJobs_added _ (MirrorZ.stepFiles (MirrorZ.stepStart .init) 0
      (some content.files)).doc 0 content.jobs).known.mp ?_
    dsimp only [MirrorZ.stepJobs] at hreq
    split at hreq
    · rename_i d' n hadd
      rw [hadd]
      rfl
    · cases hreq
  · intro h
    obtain ⟨m, hm⟩ := addJobs_mirrors h (MirrorZ.stepFiles (MirrorZ.stepStart .init) 0
      (some content.files)).doc 0
    refine ⟨_, MirrorZ.setDisk content.total m { MirrorZ.addFiles {} content.files with
      mirrors := content.jobs.flatMap (mirrorsOf lib net) }, rfl, ?_, rfl⟩
    dsimp only [MirrorZ.stepJobs]
    rw [hm]
    rfl

/-! ### Both listings -/

/-- **The listings.**  For all jobs of the store and all answers of the servers, `listJob` and
`mirrorZ` return an entry for each job that is not external and for each repository of an external
one, exactly if every external job has the provider `gitea`, the time of every repository can be
parsed for `listJob`, and that of every repository that is not empty for `mirrorZ`. -/
theorem listings_complete_iff (lib : Lib) (net netZ : Job → Option GiteaMsg) (content : Content)
    (pack : Bool) :
    Listed lib net content.jobs ∧ ListedZ lib netZ content pack ↔
      Listable lib net content.jobs ∧ ListableZ lib netZ content.jobs :=
  and_congr listed_iff listedZ_iff

/-- A library that knows one time, letters of ASCII, and sorts by merging. -/
def plainLib : Lib where
  parseTime := fun s => if s = "2024-01-01T00:00:00Z" then some 1704067200 else none
  toLower := fun s => s.map Char.toLower
  sort := .mergeSlice

/-- A mirror and an external job. -/
def twoJobs : List Job :=
  [{ name := "debian", spec := { config := { upstream := "rsync://upstream/debian/" } } },
    { name := "git", spec := { config := { type := .external, provider := "gitea"
                                           upstream := "https://git/" } } }]

/-- One repository whose `mirror_updated` is missing. -/
def notUpdated : Job → Option GiteaMsg := fun _ => some ⟨true, [{ name := "linux" }]⟩

/-- Neither listing has an answer, although there is nothing wrong with the first job. -/
theorem missing_time_panics :
    listJob plainLib notUpdated (.ok twoJobs) = none ∧
      ¬ Listed plainLib notUpdated twoJobs ∧
      ¬ ListedZ plainLib notUpdated { files := [], jobs := twoJobs } false := by
  refine ⟨rfl, ?_, ?_⟩
  · rw [listed_iff]
    intro h
    cases (h twoJobs[1] (by decide) rfl).2 { name := "linux" } (by decide)
  · rw [listedZ_iff]
    intro h
    cases (h twoJobs[1] (by decide) rfl).2 { name := "linux" } (by decide) rfl

end KubeSync.External
