import KubeSync.Lts
import KubeSync.MirrorZ
import KubeSync.Pool

/-! # What concurrent `mirrorz.json` requests list

A response lists every File that has files once and every job that is not external once, whatever
the other requests do, exactly when since the last reset of the document one list of files and one
list of jobs were appended to it.  Requests that come one after another are of this kind
(`serial_right`); two that overlap need not be. -/

namespace KubeSync.MirrorZ

open Lts
open Manager (File)

variable {content : Content} {s s' : State} {l : Label}

/-! ### What is to be listed -/

/-- The entry that a job contributes by itself. -/
def ownOf (v : Job) : Option Mirror :=
  if v.spec.config.type = .external then none else some (mirrorOf v)

def Content.infos (content : Content) : List Info := content.files.filterMap infoOf

def Content.own (content : Content) : List Mirror := content.jobs.filterMap ownOf

/-- Every external job has a provider that exists and whose `ListZ` does not panic. -/
def Known (listZ : Job → Option (List Mirror)) (jobs : List Job) : Prop :=
  ∀ v ∈ jobs, v.spec.config.type = .external →
    v.spec.config.provider = "gitea" ∧ (listZ v).isSome = true

def Entry.own : Entry → Option Mirror
  | .job m => some m
  | .external _ => none

/-- The entries of the document that are those of jobs of the store. -/
def Doc.own (d : Doc) : List Mirror := d.mirrors.filterMap Entry.own

def Response.info : Response → List Info
  | .json _ d => d.info
  | .recovered => []

def Response.own : Response → List Mirror
  | .json _ d => d.own
  | .recovered => []

/-- The response lists each of them once. -/
structure Response.Right (content : Content) (r : Response) : Prop where
  info : r.info.Perm content.infos
  own : r.own.Perm content.own

def Request.Right (content : Content) : Request → Prop
  | .answered r => r.Right content
  | _ => True

/-- Every response so far is right. -/
def AllRight (content : Content) (s : State) : Prop := ∀ q ∈ s.requests, q.Right content

/-! ### Copies of a list -/

section copies

variable {α : Type} {xs ys zs : List α} {n : ℕ}

/-- `n` copies of `xs`, one after the other. -/
def copies (n : ℕ) (xs : List α) : List α := (List.replicate n xs).flatten

theorem copies_succ_perm (h : ys.Perm (copies n xs)) (hz : zs.Perm xs) :
    (ys ++ zs).Perm (copies (n + 1) xs) := by
  have hcopies : copies (n + 1) xs = xs ++ copies n xs := by
    simp only [copies, List.replicate_succ, List.flatten_cons]
  rw [hcopies]
  exact (h.append hz).trans List.perm_append_comm

/-- A list is made of `n` copies of `xs` and is one copy only if `n = 1` or `xs` is empty. -/
theorem perm_iff_of_copies (h : ys.Perm (copies n xs)) : ys.Perm xs ↔ xs = [] ∨ n = 1 := by
  constructor
  · intro hp
    have hlen : n * xs.length = xs.length := by
      have h₁ := h.length_eq
      have h₂ := hp.length_eq
      simp only [copies, List.length_flatten, List.map_replicate, List.sum_replicate_nat] at h₁
      omega
    rcases Nat.eq_zero_or_pos xs.length with h₀ | h₀
    · exact .inl (List.length_eq_zero_iff.mp h₀)
    · exact .inr (Nat.eq_of_mul_eq_mul_right h₀ (by omega))
  · rintro (rfl | rfl)
    · have hnil : copies n ([] : List α) = [] := by simp [copies]
      rwa [hnil] at h
    · have hone : copies 1 xs = xs := by simp [copies]
      rwa [hone] at h

end copies

/-! ### The loops -/

theorem own_append_external (d : Doc) (ms : List Mirror) :
    { d with mirrors := d.mirrors ++ ms.map Entry.external }.own = d.own := by
  have hnil : (ms.map Entry.external).filterMap Entry.own = [] := by
    simp [List.filterMap_map, Entry.own, Function.comp_def]
  simp only [Doc.own, List.filterMap_append, hnil, List.append_nil]

theorem own_append_job (d : Doc) (m : Mirror) :
    { d with mirrors := d.mirrors ++ [Entry.job m] }.own = d.own ++ [m] := by
  simp only [Doc.own, List.filterMap_append]
  rfl

variable {listZ : Job → Option (List Mirror)}

theorem known_cons {v : Job} {vs : List Job} :
    Known listZ (v :: vs) ↔
      (v.spec.config.type = .external →
        v.spec.config.provider = "gitea" ∧ (listZ v).isSome = true) ∧ Known listZ vs := by
  simp only [Known, List.forall_mem_cons]

/-- What the loop over the jobs makes of a document: it keeps `info`, adds only entries of these
jobs, and adds all of them unless it panics, which it does at a provider that is unknown or whose
`ListZ` panics. -/
structure Added (listZ : Job → Option (List Mirror)) (d : Doc) (vs : List Job)
    (r : Doc × Option ℕ) : Prop where
  info : r.1.info = d.info
  mem : ∀ m ∈ r.1.own, m ∈ d.own ∨ m ∈ vs.filterMap ownOf
  all : r.2.isSome → r.1.own = d.own ++ vs.filterMap ownOf
  known : r.2.isSome ↔ Known listZ vs

section added

variable {d : Doc} {v : Job} {vs : List Job} {r : Doc × Option ℕ}

/-- The loop stops at a provider that is unknown or does not answer. -/
theorem added_stop (hext : v.spec.config.type = .external)
    (hno : ¬ (v.spec.config.provider = "gitea" ∧ (listZ v).isSome = true)) :
    Added listZ d (v :: vs) (d, none) := by
  refine ⟨rfl, fun m hm => .inl hm, nofun, iff_of_false nofun fun h => ?_⟩
  exact hno ((known_cons.mp h).1 hext)

theorem Added.external {ws : List Mirror} (hext : v.spec.config.type = .external)
    (hgitea : v.spec.config.provider = "gitea") (hws : listZ v = some ws)
    (h : Added listZ { d with mirrors := d.mirrors ++ ws.map .external } vs r) :
    Added listZ d (v :: vs) r := by
  have hown : ownOf v = none := if_pos hext
  have hlist : (v :: vs).filterMap ownOf = vs.filterMap ownOf := List.filterMap_cons_none hown
  have hd := own_append_external d ws
  refine ⟨h.info, fun m hm => ?_, fun hr => ?_, ?_⟩
  · rw [hlist, ← hd]
    exact h.mem m hm
  · rw [hlist, ← hd]
    exact h.all hr
  · rw [h.known, known_cons]
    exact (and_iff_right fun _ => ⟨hgitea, by rw [hws]; rfl⟩).symm

theorem Added.job (hext : v.spec.config.type ≠ .external)
    (h : Added listZ { d with mirrors := d.mirrors ++ [.job (mirrorOf v)] } vs r) :
    Added listZ d (v :: vs) r := by
  have hown : ownOf v = some (mirrorOf v) := if_neg hext
  have hlist : (v :: vs).filterMap ownOf = mirrorOf v :: vs.filterMap ownOf :=
    List.filterMap_cons_some hown
  have hd := own_append_job d (mirrorOf v)
  refine ⟨h.info, fun m hm => ?_, fun hr => ?_, ?_⟩
  · have hmem := h.mem m hm
    rw [hd] at hmem
    rw [hlist]
    simp only [List.mem_append, List.mem_cons] at hmem ⊢
    tauto
  · rw [h.all hr, hd, hlist, List.append_assoc, List.singleton_append]
  · rw [h.known, known_cons]
    exact (and_iff_right fun he => absurd he hext).symm

end added

theorem addJobs_added (listZ : Job → Option (List Mirror)) (d : Doc) (n : ℕ) (vs : List Job) :
    Added listZ d vs (addJobs listZ d n vs) := by
  induction vs generalizing d n with
  | nil =>
      have hnil : Known listZ [] := List.forall_mem_nil _
      exact ⟨rfl, fun m hm => .inl hm, fun _ => (List.append_nil _).symm, iff_of_true rfl hnil⟩
  | cons v vs ih =>
      unfold addJobs
      split
      case isTrue hext =>
        split
        case isTrue hgitea =>
          split
          case h_1 ws hws => exact (ih _ n).external hext hgitea hws
          case h_2 hws =>
            refine added_stop hext fun hk => ?_
            rw [hws] at hk
            cases hk.2
        case isFalse hgitea => exact added_stop hext fun hk => hgitea hk.1
      case isFalse hext => exact (ih _ _).job hext

theorem known_perm {vs ws : List Job} (h : vs.Perm ws) : Known listZ vs ↔ Known listZ ws := by
  simp only [Known, h.mem_iff]

theorem Added.unknown_of_none {d d' : Doc} {vs ws : List Job} (h : Added listZ d vs (d', none))
    (hp : vs.Perm ws) : ¬ Known listZ ws := by
  intro hk
  have hsome := h.known.mpr ((known_perm hp).mpr hk)
  cases hsome

/-! ### The document -/

/-- The document is made of as many whole lists as were appended since the last reset, unless the
loop over the jobs has panicked since then. -/
structure Made (content : Content) (s : State) : Prop where
  info : s.doc.info.Perm (copies s.filesSince content.infos)
  own : s.brokenSince = 0 → s.doc.own.Perm (copies s.jobsSince content.own)
  mem : ∀ m ∈ s.doc.own, m ∈ content.own

/-- The steps, with what the two calls have returned. -/
inductive Step (content : Content) (s : State) : Label → State → Prop
  | start : Step content s .start (stepStart s)
  | filesErr (i : ℕ) : s.requests[i]? = some .listFiles →
      Step content s (.files i none) { s with requests := s.requests.set i .listJobs }
  | files (i : ℕ) (items : List (String × File)) : s.requests[i]? = some .listFiles →
      items.Perm content.files →
      Step content s (.files i (some items)) { s with
        doc := addFiles s.doc items
        requests := s.requests.set i .listJobs
        filesSince := s.filesSince + 1 }
  | jobsErr (i : ℕ) (listZ : Job → Option (List Mirror)) (pack : Bool) :
      s.requests[i]? = some .listJobs →
      Step content s (.jobs i none listZ pack) (answer content.total s i pack 0)
  | jobs (i : ℕ) (items : List Job) (listZ : Job → Option (List Mirror)) (pack : Bool) (d : Doc)
      (n : ℕ) : s.requests[i]? = some .listJobs → items.Perm content.jobs →
      Added listZ s.doc items (d, some n) →
      Step content s (.jobs i (some items) listZ pack)
        (answer content.total { s with doc := d, jobsSince := s.jobsSince + 1 } i pack n)
  | panic (i : ℕ) (items : List Job) (listZ : Job → Option (List Mirror)) (pack : Bool) (d : Doc) :
      s.requests[i]? = some .listJobs → items.Perm content.jobs →
      Added listZ s.doc items (d, none) →
      Step content s (.jobs i (some items) listZ pack) { s with
        doc := d
        requests := s.requests.set i (.answered .recovered)
        brokenSince := s.brokenSince + 1 }

theorem step_cases (h : step content s l = some s') : Step content s l s' := by
  cases l with
  | start =>
      cases h
      exact .start
  | files i items =>
      obtain ⟨⟨hi, hp⟩, hs⟩ := Option.ite_none_right_eq_some.mp h
      obtain rfl := Option.some.inj hs
      cases items with
      | none => exact .filesErr i hi
      | some items => exact .files i items hi (List.isPerm_iff.mp hp)
  | jobs i items listZ pack =>
      obtain ⟨⟨hi, hp⟩, hs⟩ := Option.ite_none_right_eq_some.mp h
      obtain rfl := Option.some.inj hs
      cases items with
      | none => exact .jobsErr i listZ pack hi
      | some items =>
          have hadd := addJobs_added listZ s.doc 0 items
          have hp' := List.isPerm_iff.mp hp
          simp only [stepJobs]
          generalize addJobs listZ s.doc 0 items = r at hadd ⊢
          obtain ⟨d, n⟩ := r
          cases n with
          | none => exact .panic i items listZ pack d hi hp' hadd
          | some n => exact .jobs i items listZ pack d n hi hp' hadd

theorem made_step (h : Made content s) (hs : step content s l = some s') : Made content s' := by
  cases step_cases hs with
  | start => exact ⟨.nil, fun _ => .nil, nofun⟩
  | filesErr i hi => exact ⟨h.info, h.own, h.mem⟩
  | files i items hi hp =>
      exact ⟨copies_succ_perm h.info (hp.filterMap infoOf), h.own, h.mem⟩
  | jobsErr i listZ pack hi => exact ⟨h.info, h.own, h.mem⟩
  | jobs i items listZ pack d n hi hp hadd =>
      have hinfo : d.info = s.doc.info := hadd.info
      have hown : d.own = s.doc.own ++ items.filterMap ownOf := hadd.all rfl
      have hitems : (items.filterMap ownOf).Perm content.own := hp.filterMap ownOf
      refine ⟨?_, fun hb => ?_, fun m hm => ?_⟩
      · change d.info.Perm _
        rw [hinfo]
        exact h.info
      · change d.own.Perm _
        rw [hown]
        exact copies_succ_perm (h.own hb) hitems
      · rcases hadd.mem m hm with hm' | hm'
        · exact h.mem m hm'
        · exact hitems.mem_iff.mp hm'
  | panic i items listZ pack d hi hp hadd =>
      have hinfo : d.info = s.doc.info := hadd.info
      have hitems : (items.filterMap ownOf).Perm content.own := hp.filterMap ownOf
      refine ⟨?_, nofun, fun m hm => ?_⟩
      · change d.info.Perm _
        rw [hinfo]
        exact h.info
      · rcases hadd.mem m hm with hm' | hm'
        · exact h.mem m hm'
        · exact hitems.mem_iff.mp hm'

theorem made_init : Made content .init := ⟨.nil, fun _ => .nil, nofun⟩

/-! ### The responses -/

/-- What a response needs of the document before its last step; `listed` says whether the jobs were
listed in it. -/
structure Fresh (content : Content) (s : State) (listZ : Job → Option (List Mirror))
    (listed : Bool) : Prop where
  known : listed → Known listZ content.jobs ∨ content.infos = [] ∧ content.own = []
  files : content.infos = [] ∨ s.filesSince = 1
  jobs : content.own = [] ∨ s.jobsSince + listed.toNat = 1 ∧ s.brokenSince = 0

/-- A request that answers finds the document fresh. -/
def Alone (content : Content) (s : State) (l : Label) : Prop :=
  ∀ i items listZ pack, l = .jobs i items listZ pack → (step content s l).isSome →
    Fresh content s listZ items.isSome

/-- The answer of one request decides whether all responses are right. -/
theorem allRight_answered {i : ℕ} {q : Request} {r : Response} (h : AllRight content s)
    (hi : s.requests[i]? = some q) :
    (∀ q ∈ s.requests.set i (.answered r), q.Right content) ↔ r.Right content := by
  constructor
  · intro hall
    have hlt := (List.getElem?_eq_some_iff.mp hi).1
    exact hall _ (List.mem_of_getElem? (List.getElem?_set_self hlt))
  · intro hr
    exact Pool.forall_set h hr

theorem right_json_iff {pack : Bool} {d : Doc} (total : String) (n : ℕ) :
    (Response.json pack (setDisk total n d)).Right content ↔
      d.info.Perm content.infos ∧ d.own.Perm content.own :=
  ⟨fun h => ⟨h.info, h.own⟩, fun h => ⟨h.1, h.2⟩⟩

theorem right_recovered_iff :
    Response.recovered.Right content ↔ content.infos = [] ∧ content.own = [] :=
  ⟨fun h => ⟨h.info.nil_eq.symm, h.own.nil_eq.symm⟩, fun h => ⟨h.1 ▸ .nil, h.2 ▸ .nil⟩⟩

/-- A step that answers no request keeps the responses. -/
theorem allRight_keep (h : AllRight content s) (hs : step content s l = some s')
    (hl : ∀ i items listZ pack, l ≠ .jobs i items listZ pack) : AllRight content s' := by
  cases step_cases hs with
  | start => exact Pool.forall_append h trivial
  | filesErr i hi => exact Pool.forall_set h trivial
  | files i items hi hp => exact Pool.forall_set h trivial
  | jobsErr i listZ pack hi => exact absurd rfl (hl _ _ _ _)
  | jobs i items listZ pack d n hi hp hadd => exact absurd rfl (hl _ _ _ _)
  | panic i items listZ pack d hi hp hadd => exact absurd rfl (hl _ _ _ _)

/-- The entries of the jobs, where they contribute none or one whole list was appended. -/
theorem own_perm (hm : Made content s)
    (hj : content.own = [] ∨ s.jobsSince = 1 ∧ s.brokenSince = 0) :
    s.doc.own.Perm content.own := by
  rcases hj with hown | ⟨hone, hb⟩
  · have hnil : s.doc.own = [] := List.eq_nil_iff_forall_not_mem.mpr fun m hmem => by
      have hmem' := hm.mem m hmem
      rw [hown] at hmem'
      cases hmem'
    rw [hnil, hown]
  · exact (perm_iff_of_copies (hm.own hb)).mpr (.inr hone)

/-- A request that finds the document fresh gives a right response. -/
theorem allRight_of_fresh {i : ℕ} {items : Option (List Job)} {pack : Bool}
    (hm : Made content s) (h : AllRight content s)
    (hs : step content s (.jobs i items listZ pack) = some s')
    (hf : Fresh content s listZ items.isSome) : AllRight content s' := by
  cases step_cases hs with
  | jobsErr _ _ _ hi =>
      refine (allRight_answered h hi).mpr ((right_json_iff _ _).mpr ⟨?_, own_perm hm hf.jobs⟩)
      exact (perm_iff_of_copies hm.info).mpr hf.files
  | jobs _ items _ _ d n hi hp hadd =>
      have hm' := made_step hm hs
      have hown := own_perm hm' hf.jobs
      refine (allRight_answered h hi).mpr ((right_json_iff _ _).mpr ⟨?_, hown⟩)
      exact (perm_iff_of_copies hm'.info).mpr hf.files
  | panic _ items _ _ d hi hp hadd =>
      refine (allRight_answered h hi).mpr (right_recovered_iff.mpr ?_)
      exact (hf.known rfl).resolve_left (hadd.unknown_of_none hp)

/-- Where no loop over the jobs panics, only such a request does. -/
theorem fresh_of_allRight {i : ℕ} {items : Option (List Job)} {pack : Bool}
    (hk : Known listZ content.jobs) (hb : s.brokenSince = 0) (hm : Made content s)
    (h : AllRight content s) (hs : step content s (.jobs i items listZ pack) = some s')
    (h' : AllRight content s') : Fresh content s listZ items.isSome := by
  cases step_cases hs with
  | jobsErr _ _ _ hi =>
      obtain ⟨hinfo, hown⟩ := (right_json_iff _ _).mp ((allRight_answered h hi).mp h')
      refine ⟨nofun, (perm_iff_of_copies hm.info).mp hinfo, ?_⟩
      exact ((perm_iff_of_copies (hm.own hb)).mp hown).imp id fun hone => ⟨hone, hb⟩
  | jobs _ items _ _ d n hi hp hadd =>
      have hm' := made_step hm hs
      obtain ⟨hinfo, hown⟩ := (right_json_iff _ _).mp ((allRight_answered h hi).mp h')
      refine ⟨fun _ => .inl hk, (perm_iff_of_copies hm'.info).mp hinfo, ?_⟩
      exact ((perm_iff_of_copies (hm'.own hb)).mp hown).imp id fun hone => ⟨hone, hb⟩
  | panic _ items _ _ d hi hp hadd =>
      exact absurd hk (hadd.unknown_of_none hp)

theorem allRight_step (hm : Made content s) (h : AllRight content s) (ha : Alone content s l)
    (hs : step content s l = some s') : AllRight content s' := by
  cases l with
  | jobs i items listZ pack =>
      have hsome : (step content s (.jobs i items listZ pack)).isSome := by rw [hs]; rfl
      exact allRight_of_fresh hm h hs (ha i items listZ pack rfl hsome)
  | _ => exact allRight_keep h hs nofun

/-- No loop over the jobs panics at this step. -/
def Label.Known (content : Content) : Label → Prop
  | .jobs _ _ listZ _ => MirrorZ.Known listZ content.jobs
  | _ => True

theorem step_unbroken (hk : l.Known content) (hb : s.brokenSince = 0)
    (hs : step content s l = some s') : s'.brokenSince = 0 := by
  cases step_cases hs with
  | start => rfl
  | filesErr i hi => exact hb
  | files i items hi hp => exact hb
  | jobsErr i listZ pack hi => exact hb
  | jobs i items listZ pack d n hi hp hadd => exact hb
  | panic i items listZ pack d hi hp hadd => exact absurd hk (hadd.unknown_of_none hp)

theorem alone_of_allRight (hk : l.Known content) (hb : s.brokenSince = 0) (hm : Made content s)
    (h : AllRight content s) (hs : step content s l = some s') (h' : AllRight content s') :
    Alone content s l := by
  rintro i items listZ pack rfl _
  exact fresh_of_allRight hk hb hm h hs h'

theorem always_allRight {ls : List Label} (h : Along (step content) (Alone content) .init ls) :
    Always (step content) (AllRight content) .init ls := by
  have hstep : ∀ s l s', Made content s ∧ AllRight content s → Alone content s l →
      step content s l = some s' → Made content s' ∧ AllRight content s' :=
    fun s l s' hi ha hs => ⟨made_step hi.1 hs, allRight_step hi.1 hi.2 ha hs⟩
  exact Always.of_along hstep (fun s hi => hi.2) ⟨made_init, nofun⟩ h

/-- In every run in which each request that answers finds the document fresh, every response lists
each File with files and each job that is not external once; where no loop over the jobs panics, in
no other run. -/
theorem responses_right (content : Content) (ls : List Label) :
    (Along (step content) (Alone content) .init ls →
        Always (step content) (AllRight content) .init ls) ∧
      ((∀ l ∈ ls, l.Known content) → Always (step content) (AllRight content) .init ls →
        Along (step content) (Alone content) .init ls) := by
  refine ⟨always_allRight, fun hk h => ?_⟩
  have hstep : ∀ l ∈ ls, ∀ s s', Made content s ∧ s.brokenSince = 0 → AllRight content s →
      step content s l = some s' → (AllRight content s' ↔ Alone content s l) :=
    fun l hl s s' hm hr hs =>
      ⟨alone_of_allRight (hk l hl) hm.2 hm.1 hr hs, fun ha => allRight_step hm.1 hr ha hs⟩
  have hnone : ∀ l ∈ ls, ∀ s, step content s l = none → Alone content s l := by
    intro l _ s hs i items listZ pack _ hsome
    rw [hs] at hsome
    cases hsome
  have hinv : ∀ l ∈ ls, ∀ s s', Made content s ∧ s.brokenSince = 0 →
      step content s l = some s' → Made content s' ∧ s'.brokenSince = 0 :=
    fun l hl s s' hm hs => ⟨made_step hm.1 hs, step_unbroken (hk l hl) hm.2 hs⟩
  exact ((always_iff_along_of_enabled hinv hstep hnone ⟨made_init, rfl⟩).mp h).2

/-! ### Requests one after another -/

def Request.Open (q : Request) : Prop := q = .listFiles ∨ q = .listJobs

/-- No request starts before the others are answered, no `List` call fails and no loop over the
jobs panics. -/
def Serial (content : Content) (s : State) : Label → Prop
  | .start => ∀ q ∈ s.requests, ¬ q.Open
  | .files _ items => items.isSome
  | .jobs _ items listZ _ => items.isSome ∧ Known listZ content.jobs

/-- At most one request is open, and the document has what it has appended. -/
structure Turn (s : State) : Prop where
  solo : Pool.Solo Request.Open s.requests
  files : .listFiles ∈ s.requests → s.filesSince = 0 ∧ s.jobsSince = 0
  jobs : .listJobs ∈ s.requests → s.filesSince = 1 ∧ s.jobsSince = 0
  whole : s.brokenSince = 0

theorem turn_of_none (h : ∀ q ∈ s.requests, ¬ q.Open) (hb : s.brokenSince = 0) : Turn s where
  solo := Pool.solo_of_none h
  files hq := absurd (.inl rfl) (h _ hq)
  jobs hq := absurd (.inr rfl) (h _ hq)
  whole := hb

/-- When the open request is answered none is open. -/
theorem Turn.answered (h : Turn s) {i : ℕ} (hi : s.requests[i]? = some .listJobs) (r : Response) :
    ∀ q ∈ s.requests.set i (.answered r), ¬ q.Open := by
  intro q hq
  rcases h.solo.others hi (.inr rfl) q hq with rfl | hq'
  · rintro (hopen | hopen) <;> cases hopen
  · exact hq'

theorem turn_step (h : Turn s) (hc : Serial content s l) (hs : step content s l = some s') :
    Turn s' := by
  cases step_cases hs with
  | start =>
      refine ⟨Pool.Solo.append hc, fun _ => ⟨rfl, rfl⟩, fun hq => ?_, rfl⟩
      rcases List.mem_append.mp hq with hq | hq
      · exact absurd (.inr rfl) (hc _ hq)
      · cases List.mem_singleton.mp hq
  | filesErr i hi => cases hc
  | files i items hi hp =>
      obtain ⟨hfiles, hjobs⟩ := h.files (List.mem_of_getElem? hi)
      refine ⟨h.solo.set hi fun _ => .inl rfl, fun hq => ?_, fun _ => ⟨?_, hjobs⟩, h.whole⟩
      · rcases h.solo.others hi (.inl rfl) _ hq with hq' | hq'
        · cases hq'
        · exact absurd (.inl rfl) hq'
      · change s.filesSince + 1 = 1
        omega
  | jobsErr i listZ pack hi => cases hc.1
  | jobs i items listZ pack d n hi hp hadd => exact turn_of_none (h.answered hi _) h.whole
  | panic i items listZ pack d hi hp hadd => exact absurd hc.2 (hadd.unknown_of_none hp)

/-- The open request finds the document fresh. -/
theorem Turn.alone (h : Turn s) (hc : Serial content s l) : Alone content s l := by
  rintro i items listZ pack rfl hsome
  obtain ⟨s', hs⟩ := Option.isSome_iff_exists.mp hsome
  obtain ⟨hitems, hk⟩ := hc
  have hi : s.requests[i]? = some .listJobs :=
    (Option.ite_none_right_eq_some.mp hs).1.1
  obtain ⟨hfiles, hjobs⟩ := h.jobs (List.mem_of_getElem? hi)
  refine ⟨fun _ => .inl hk, .inr hfiles, .inr ⟨?_, h.whole⟩⟩
  rw [hitems, hjobs]
  rfl

/-- Requests one after another are answered right. -/
theorem serial_right {ls : List Label} (h : Along (step content) (Serial content) .init ls) :
    Always (step content) (AllRight content) .init ls := by
  have hinit : Turn .init := turn_of_none nofun rfl
  have halone : Along (step content) (Alone content) .init ls :=
    Along.of_invariant (fun s l s' ht hc hs => turn_step ht hc hs)
      (fun s l ht hc => ht.alone hc) hinit h
  exact always_allRight halone

/-! ### Requests that overlap -/

/-- A store with one File and one Job. -/
def debianContent : Content :=
  { files := [("debian", { status := { files := [{ name := ['1', '2'], path := ['/'] }] } })]
    jobs :=
      [{ name := "debian", spec := { config := { upstream := "rsync://upstream/debian/" } } }] }

/-- Two requests at the same time: the first response lists the File twice, the second one the job
as well. -/
theorem overlap_lists_twice :
    Known (fun _ => some []) debianContent.jobs ∧
      ((run (step debianContent) .init
          [.start, .start, .files 0 (some debianContent.files), .files 1 (some debianContent.files),
            .jobs 0 (some debianContent.jobs) (fun _ => some []) false,
            .jobs 1 (some debianContent.jobs) (fun _ => some []) false]).map
        fun s => s.requests.map fun q => match q with
          | .answered r => (r.info.length, r.own.length)
          | _ => (0, 0)) = some [(2, 1), (2, 2)] ∧
      debianContent.infos.length = 1 ∧ debianContent.own.length = 1 := by
  refine ⟨?_, by decide, by decide, by decide⟩
  intro v hv
  cases List.mem_singleton.mp hv
  exact nofun

end KubeSync.MirrorZ
