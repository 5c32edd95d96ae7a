import KubeSync.ControllerConfig
import KubeSync.Recognizer

/-! # Image references

The images of the containers of a Job come from the environment of the controller and from the Job.

* `reference` is the grammar of an image reference: the name of a repository, and at most one tag.
  A name may begin with a domain, which is the only part of it that can have a colon.
* `reference_tagged` is the one fact on the grammar that is needed: what a name with a tag behind it
  stands for.
* `images_wellFormed_iff` says when the images of a Deployment are references: `checkRsyncFront`
  puts a tag behind the mode of the front end, which must not have one. -/

namespace KubeSync

/-! ### The grammar -/

namespace Reference

def lowerOrDigit (c : Char) : Bool := c.isDigit || c.isLower

/-- What has been read of a component of a path. -/
inductive Scan where
  | start
  | word
  | dot
  | underscore
  | underscores
  | dash
deriving DecidableEq, Repr

/-- Words of lower-case letters and digits are separated by a dot, by one or two underscores or by
dashes. -/
def scan (q : Scan) (c : Char) : Option Scan :=
  if lowerOrDigit c then some .word
  else
    match q, c with
    | .word, '.' => some .dot
    | .word, '_' => some .underscore
    | .underscore, '_' => some .underscores
    | .word, '-' => some .dash
    | .dash, '-' => some .dash
    | _, _ => none

def pathComponent (s : Text) : Bool := s.foldlM scan .start = some .word

def domainComponent (s : Text) : Bool :=
  s ≠ [] ∧ s.all (fun c => c.isAlphanum || c = '-') ∧ s.head? ≠ some '-' ∧ s.getLast? ≠ some '-'

/-- Nothing, or a colon and a number. -/
def port : Text → Bool
  | [] => true
  | ':' :: ds => ds ≠ [] ∧ ds.all Char.isDigit
  | _ => false

def hexDigitOrColon (c : Char) : Bool := c.isDigit || c.toLower ∈ "abcdef:".toList

/-- A host name or an address in brackets, with an optional port. -/
def domain (s : Text) : Bool :=
  match s with
  | '[' :: rest =>
      let address := rest.takeWhile (· ≠ ']')
      address ≠ [] ∧ address.all hexDigitOrColon ∧ address.length < rest.length ∧
        port (rest.drop (address.length + 1))
  | _ =>
      let host := s.takeWhile (· ≠ ':')
      (host.splitOn '.').all domainComponent ∧ port (s.drop host.length)

/-- The name of a repository. -/
def repository (s : Text) : Bool :=
  decide (s.length ≤ 255) &&
    match s.splitOn '/' with
    | [] => false
    | [name] => pathComponent name
    | first :: rest => (domain first || pathComponent first) && rest.all pathComponent

def word (c : Char) : Bool := c.isAlphanum || c = '_'

def tag : Text → Bool
  | [] => false
  | c :: s => word c ∧ s.length ≤ 127 ∧ s.all fun c => word c || c = '.' || c = '-'

/-- The name of a repository with at most one tag, which is what stands behind the last colon. -/
def reference (s : Text) : Bool :=
  repository s ||
    match s.reverse.dropWhile (· ≠ ':') with
    | [] => false
    | _ :: name => repository name.reverse && tag (s.reverse.takeWhile (· ≠ ':')).reverse

example : reference "localhost:5000/cqupt/caddy:2.8".toList = true ∧
    reference "localhost:5000:2.8".toList = false := by decide

theorem scan_colon (q : Scan) : scan q ':' = none := by
  cases q <;> rfl

theorem colon_notMem {s : Text} (h : pathComponent s = true) : ':' ∉ s := by
  intro hm
  obtain ⟨a, b, rfl⟩ := List.append_of_mem hm
  have hnone : (a ++ ':' :: b).foldlM scan .start = none := by
    rw [List.foldlM_append]
    cases a.foldlM scan .start with
    | none => rfl
    | some q =>
        change (scan q ':').bind _ = none
        rw [scan_colon]
        rfl
  unfold pathComponent at h
  rw [hnone] at h
  cases h

/-- A name is split at its slashes; what is appended to it without one belongs to its last part. -/
theorem splitOn_append {s t : Text} (ht : '/' ∉ t) :
    ∃ init last, (s ++ t).splitOn '/' = init ++ [last ++ t] := by
  by_cases hs : '/' ∈ s
  · obtain ⟨b, a, hs, hb⟩ := List.eq_append_cons_of_mem (List.mem_reverse.mpr hs)
    obtain rfl : s = a.reverse ++ '/' :: b.reverse := by
      rw [← List.reverse_reverse s, hs, List.reverse_append, List.reverse_cons, List.append_assoc]
      rfl
    have hlast : (b.reverse ++ t).splitOn '/' = [b.reverse ++ t] :=
      List.splitOn_eq_singleton (by simp [hb, ht])
    refine ⟨a.reverse.splitOn '/', b.reverse, ?_⟩
    rw [List.append_assoc, List.cons_append, List.splitOn_append_cons_self, hlast]
  · refine ⟨[], s, ?_⟩
    exact List.splitOn_eq_singleton (by simp [hs, ht])

theorem pathComponent_of_repository {s last : Text} {init : List Text}
    (h : repository s = true) (hs : s.splitOn '/' = init ++ [last]) :
    pathComponent last = true := by
  unfold repository at h
  rw [hs, Bool.and_eq_true] at h
  cases init with
  | nil => exact h.2
  | cons first init =>
      obtain ⟨b, l, hl⟩ := List.exists_cons_of_ne_nil (List.concat_ne_nil last init)
      have hrest := h.2
      rw [List.cons_append, hl] at hrest
      have hall := (Bool.and_eq_true _ _ ▸ hrest).2
      rw [← hl, List.all_eq_true] at hall
      exact hall last (by simp)

/-- The last part of a name has no colon. -/
theorem repository_tagged {s t : Text} (ht : '/' ∉ t) : repository (s ++ ':' :: t) = false := by
  obtain ⟨init, last, hs⟩ := splitOn_append (s := s) (t := ':' :: t) (by simp [ht])
  by_contra h
  have hcolon := colon_notMem (pathComponent_of_repository (Bool.eq_true_of_not_eq_false h) hs)
  simp at hcolon

/-- A text with a tag behind it is a reference exactly when the text is a name. -/
theorem reference_tagged {s t : Text} (ht : tag t = true) (hcolon : ':' ∉ t) (hslash : '/' ∉ t) :
    reference (s ++ ':' :: t) = repository s := by
  have hrev : (s ++ ':' :: t).reverse = t.reverse ++ ':' :: s.reverse := by simp
  have hall : ∀ c ∈ t.reverse, decide (c ≠ ':') = true := by
    intro c hc
    rw [decide_eq_true_eq]
    rintro rfl
    exact hcolon (List.mem_reverse.mp hc)
  have hdrop : (t.reverse ++ ':' :: s.reverse).dropWhile (· ≠ ':') = ':' :: s.reverse := by
    rw [List.dropWhile_append_of_pos hall, List.dropWhile_cons_of_neg (by simp)]
  have htake : (t.reverse ++ ':' :: s.reverse).takeWhile (· ≠ ':') = t.reverse := by
    rw [List.takeWhile_append_of_pos hall, List.takeWhile_cons_of_neg (by simp), List.append_nil]
  unfold reference
  rw [repository_tagged hslash, hrev, hdrop, htake]
  simp [ht]

end Reference

namespace Controller

open Reconciler

/-! ### The images of a Deployment -/

/-- The text is an image reference. -/
def IsReference (s : String) : Prop := Reference.reference s.toList = true

/-- The images that the environment and the Job give are references. -/
structure ImagesGiven (getenv : String → String) (job : Job) : Prop where
  workerImage : getenv "WORKER_IMAGE" ≠ "" → IsReference (getenv "WORKER_IMAGE")
  frontImage : getenv "FRONT_IMAGE" ≠ "" → IsReference (getenv "FRONT_IMAGE")
  rsyncImage : getenv "RSYNC_IMAGE" ≠ "" → IsReference (getenv "RSYNC_IMAGE")
  ownImage : job.spec.deploy.image ≠ "" → IsReference job.spec.deploy.image
  ownRsyncImage : job.spec.deploy.rsyncImage ≠ "" → IsReference job.spec.deploy.rsyncImage

/-- The front end has an image of its own, or a mode that is a name without a tag. -/
def ModeUntagged (getenv : String → String) (job : Job) : Prop :=
  parseBool job.spec.deploy.disableFront = some true ∨ getenv "FRONT_IMAGE" ≠ "" ∨
    Reference.repository (orElse job.spec.deploy.frontMode (getenv "FRONT_MODE")).toList = true

variable {getenv : String → String} {r : Reconciler} {job : Job}

theorem isReference_orElse {s t : String} (hs : s ≠ "" → IsReference s) (ht : IsReference t) :
    IsReference (orElse s t) := by
  by_cases h : s = ""
  · rw [h, orElse_empty]
    exact ht
  · rw [orElse_of_ne h]
    exact hs h

theorem isReference_latest (s : String) :
    IsReference (s ++ ":latest") ↔ Reference.repository s.toList = true := by
  unfold IsReference
  rw [String.toList_append]
  exact Eq.congr_left (Reference.reference_tagged (s := s.toList) (t := "latest".toList)
    (by decide) (by decide) (by decide))

/-- The default of the mode is no name without a tag, and neither is the empty text. -/
theorem repository_mode (s t : String) :
    Reference.repository (orElse s (orElse t "cquptmirror/caddy:latest")).toList =
      Reference.repository (orElse s t).toList := by
  by_cases hs : s = ""
  · by_cases ht : t = ""
    · subst hs ht
      decide
    · rw [hs, orElse_empty, orElse_empty, orElse_of_ne ht]
  · rw [orElse_of_ne hs, orElse_of_ne hs]

theorem getConfig_frontMode (getenv : String → String) : (getConfig getenv).frontMode =
    orElse (getenv "FRONT_MODE") "cquptmirror/caddy:latest" :=
  getConfig_text getenv .frontMode rfl nofun

theorem modeOf_ne (hr : r.config = getConfig getenv) : r.modeOf job ≠ "" := by
  have horElse : ∀ {s t : String}, t ≠ "" → orElse s t ≠ "" := by
    intro s t ht
    by_cases hs : s = ""
    · rwa [hs, orElse_empty]
    · rwa [orElse_of_ne hs]
  unfold modeOf
  rw [hr, getConfig_frontMode]
  exact horElse (horElse (by decide))

theorem worker_isReference (hr : r.config = getConfig getenv) (hi : ImagesGiven getenv job) :
    IsReference (r.workerImage job) := by
  have hdefault : IsReference "cquptmirror/worker:latest" := by
    unfold IsReference
    decide
  have henv : (getConfig getenv).workerImage =
      orElse (getenv "WORKER_IMAGE") "cquptmirror/worker:latest" :=
    getConfig_text getenv .workerImage rfl nofun
  unfold workerImage
  rw [hr, henv]
  exact isReference_orElse hi.ownImage (isReference_orElse hi.workerImage hdefault)

theorem rsync_isReference (hr : r.config = getConfig getenv) (hi : ImagesGiven getenv job)
    (h : (r.checkRsyncFront job).disableRsync = false) :
    IsReference (r.rsyncContainer job).image := by
  change IsReference (orElse job.spec.deploy.rsyncImage r.config.rsyncImage)
  have hne : orElse job.spec.deploy.rsyncImage r.config.rsyncImage ≠ "" :=
    of_decide_eq_false (Bool.or_eq_false_iff.mp h).1
  have henv : r.config.rsyncImage = getenv "RSYNC_IMAGE" := by
    rw [hr]
    exact (getConfig_text getenv .rsyncImage rfl nofun).trans (orElse_of_empty _)
  rw [henv] at hne ⊢
  by_cases hj : job.spec.deploy.rsyncImage = ""
  · rw [hj, orElse_empty] at hne ⊢
    exact hi.rsyncImage hne
  · rw [orElse_of_ne hj]
    exact hi.ownRsyncImage hj

/-- The front end always has a mode, by default one with a tag. -/
theorem front_isReference_iff (cm : Option ConfigMap) (hr : r.config = getConfig getenv)
    (hi : ImagesGiven getenv job) :
    IsReference (r.frontContainer job cm).image ↔
      getenv "FRONT_IMAGE" ≠ "" ∨
        Reference.repository (orElse job.spec.deploy.frontMode (getenv "FRONT_MODE")).toList =
          true := by
  have henv : r.config.frontImage = getenv "FRONT_IMAGE" := by
    rw [hr]
    exact (getConfig_text getenv .frontImage rfl nofun).trans (orElse_of_empty _)
  have himage : (r.frontContainer job cm).image =
      orElse (getenv "FRONT_IMAGE") (r.modeOf job ++ ":latest") := by
    rw [← henv]
    exact frontImage_eq (modeOf_ne hr)
  rw [himage]
  by_cases hf : getenv "FRONT_IMAGE" = ""
  · rw [hf, orElse_empty, isReference_latest, or_iff_right (· rfl)]
    unfold modeOf
    rw [hr, getConfig_frontMode]
    exact Eq.congr_left (repository_mode _ _)
  · rw [orElse_of_ne hf]
    exact iff_of_true (hi.frontImage hf) (.inl hf)

/-- **Images.**  Where the images that are given are references, the images of the desired
Deployment are references exactly when no tag is put behind another one: the front end is disabled,
has an image in the environment, or has a mode, in the Job or in the environment, without a tag. -/
theorem images_wellFormed_iff (getenv : String → String) (r : Reconciler) (job : Job)
    (manager : String) (cm : Option ConfigMap) (app : Deployment)
    (hr : r.config = getConfig getenv) (hi : ImagesGiven getenv job)
    (h : r.desiredDeployment job manager cm = .ok (some app)) :
    (∀ c ∈ app.pod.containers, IsReference c.image) ↔ ModeUntagged getenv job := by
  obtain ⟨cs, hw, happ⟩ := bind_eq_ok.mp h
  rw [deploymentOf_containers happ]
  have hfront : (r.checkRsyncFront job).disableFront = false ↔
      parseBool job.spec.deploy.disableFront ≠ some true := by
    rw [disableFront_eq_false, and_iff_right (modeOf_ne hr)]
  unfold ModeUntagged
  rw [← front_isReference_iff cm hr hi, or_iff_not_imp_left, ← ne_eq, ← hfront]
  constructor
  · intro hall hd
    exact hall _ (List.mem_append_right _ (mem_servers.mpr (.inl ⟨hd, rfl⟩)))
  · intro himage c hc
    rcases List.mem_append.mp hc with hc | hc
    · obtain ⟨-, limits, rfl⟩ := mem_worker hw hc
      exact worker_isReference hr hi
    · rcases mem_servers.mp hc with ⟨hd, rfl⟩ | ⟨hd, rfl⟩
      · exact himage hd
      · exact rsync_isReference hr hi hd

/-- The variables that a deployment of the controller sets. -/
def caddyEnv : String → String
  | "FRONT_MODE" => "caddy"
  | _ => ""

/-- The controller with its configuration read from the environment. -/
def reconcilerIn (getenv : String → String) : Reconciler :=
  { plainReconciler with config := getConfig getenv }

theorem images_of_untagged_mode : ∃ app,
    (reconcilerIn caddyEnv).desiredDeployment (mirrorOf "debian") "manager" none =
        .ok (some app) ∧
      app.pod.containers.map Container.image = ["cquptmirror/worker:latest", "caddy:latest"] ∧
      ∀ c ∈ app.pod.containers, IsReference c.image :=
  ⟨_, rfl, rfl, (images_wellFormed_iff caddyEnv (reconcilerIn caddyEnv) (mirrorOf "debian")
    "manager" none _ rfl ⟨(absurd rfl ·), (absurd rfl ·), (absurd rfl ·), (absurd rfl ·),
      (absurd rfl ·)⟩ rfl).mpr (.inr (.inr (by decide)))⟩

/-- Without any variable, the tag of the default mode is followed by another one. -/
theorem default_mode_tagged_twice : ∃ app c,
    (reconcilerIn fun _ => "").desiredDeployment (mirrorOf "debian") "manager" none =
        .ok (some app) ∧
      c ∈ app.pod.containers ∧ c.image = "cquptmirror/caddy:latest:latest" ∧
      ¬ IsReference c.image := by
  refine ⟨_, _, rfl, .tail _ (.head _), rfl, ?_⟩
  unfold IsReference
  decide

end Controller

end KubeSync
