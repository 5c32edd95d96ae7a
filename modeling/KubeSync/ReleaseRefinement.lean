import KubeSync.ReleaseEnds

/-! # The downloads of the release script as one step

The threads of `github-release.py` refine the work queue of `ReleaseRun`, where a download is one
step at the moment at which it changes its destination.

* `Sound`: what a temporary file has so far is the beginning of the answer, a download that has
  failed is one that leaves nothing, and an unlisted file is as it was, unless it is a temporary
  file or `main` has deleted it.
* `Refines` relates the two: the queue and the tasks of the threads are the same, and so are the
  files at the listed destinations.
* `interrupted_run` says what there is when a run is killed on the way, and `ended_outcome` that a
  run which has ended leaves what the work queue leaves. -/

namespace KubeSync.ReleaseThreads

open Downloads (Bytes File Files ItemEnv Answer doDownload)
open ReleaseListing (Entry Plan)
open ReleaseRun (due fetched kind clean)

variable {cfg : Config} {s s' : State} {w : ℕ} {x : Worker}

/-! ### Downloads -/

theorem fetched_eq {e : Entry} {env : ItemEnv} {file : File}
    (hfile : file.content = received env.answer) :
    fetched e.item env =
      if complete env && env.stored && sized e file then some ⟨file.content, e.item.updated⟩
      else none := by
  unfold fetched doDownload complete sized
  rw [hfile]
  cases env.answer with
  | error => rfl
  | aborted part => rfl
  | body content =>
      simp only [received]
      by_cases hsize : e.item.remoteSize = -1 ∨ (content.length : ℤ) = e.item.remoteSize
      · have hnot : ¬ (e.item.remoteSize ≠ -1 ∧ (content.length : ℤ) ≠ e.item.remoteSize) := by
          tauto
        rw [if_neg hnot]
        cases env.stored <;> simp [hsize, Downloads.put]
      · have hboth : e.item.remoteSize ≠ -1 ∧ (content.length : ℤ) ≠ e.item.remoteSize := by
          tauto
        rw [if_pos hboth]
        simp [hsize]

theorem fetched_of_refuses {e : Entry} {env : ItemEnv} (h : refuses env = true) :
    fetched e.item env = none := by
  have hfile : (⟨received env.answer, 0⟩ : File).content = received env.answer := rfl
  rw [fetched_eq hfile, if_neg]
  unfold refuses at h
  unfold complete
  cases hanswer : env.answer with
  | error => simp
  | aborted part => simp
  | body content =>
      rw [hanswer] at h
      simp_all

theorem fetched_of_breaks {e : Entry} {env : ItemEnv} {file : File} {left : Bytes}
    (hfile : file.content ++ left = received env.answer) (h : breaks e env file left = true) :
    fetched e.item env = none := by
  unfold breaks at h
  cases hstored : env.stored with
  | false =>
      have hwhole : (⟨received env.answer, 0⟩ : File).content = received env.answer := rfl
      rw [fetched_eq hwhole, hstored]
      simp
  | true =>
      rw [hstored] at h
      obtain ⟨hleft, hfails⟩ : left = [] ∧ (complete env && sized e file) = false := by
        simpa only [Bool.not_true, Bool.false_or, Bool.and_eq_true, List.isEmpty_iff,
          Bool.not_eq_true'] using h
      rw [hleft, List.append_nil] at hfile
      rw [fetched_eq hfile, hstored, Bool.and_true, hfails]
      rfl

theorem fetched_of_stores {e : Entry} {env : ItemEnv} {file : File} {left : Bytes}
    (hfile : file.content ++ left = received env.answer) (h : stores e env file left = true) :
    fetched e.item env = some ⟨file.content, e.item.updated⟩ := by
  unfold stores at h
  simp only [Bool.and_eq_true, List.isEmpty_iff] at h
  obtain ⟨⟨⟨hleft, hcomplete⟩, hstored⟩, hsized⟩ := h
  rw [hleft, List.append_nil] at hfile
  rw [fetched_eq hfile, hcomplete, hstored, hsized]
  rfl

/-! ### The files during a run -/

/-- What a thread has of its download. -/
def Worker.Faithful (cfg : Config) (files : Files) : Worker → Prop
  | .writing e tmp left => ∃ file, files tmp = some file ∧
      file.content ++ left = received (cfg.env e.dst).answer
  | .dropping e _ | .failing e | .dead e => fetched e.item (cfg.env e.dst) = none
  | _ => True

/-- A name of a temporary file. -/
def Temp (cfg : Config) (path : String) : Prop :=
  ∃ e ∈ cfg.plan.entries, ∃ rand, path = tempName e.dst rand

/-- `main` has begun to delete files. -/
def Main.sweeps : Main → Bool
  | .sweeping _ | .ended | .aborted => true
  | _ => false

/-- What may have become of a file that is not listed. -/
def Unlisted (cfg : Config) (before : Tree) (s : State) (path : String) : Prop :=
  s.tree.files path = before.files path ∨ (before.files path = none ∧ Temp cfg path) ∨
    (cfg.plan.cleaning = true ∧ s.main.sweeps = true ∧ s.tree.files path = none)

/-- `main` deletes the files that are not listed, all of them. -/
def Swept (cfg : Config) (s : State) : Prop :=
  match s.main with
  | .sweeping left => cfg.plan.cleaning = true ∧ (∀ path ∈ left, path ∉ listed cfg.plan) ∧
      ∀ path, path ∉ listed cfg.plan → s.tree.files path ≠ none → path ∈ left
  | .ended => cfg.plan.cleaning = true → ∀ path, path ∉ listed cfg.plan → s.tree.files path = none
  | _ => True

structure Sound (cfg : Config) (before : Tree) (s : State) : Prop where
  inv : Inv cfg s
  faithful : ∀ x ∈ s.workers, x.Faithful cfg s.tree.files
  temp : ∀ x ∈ s.workers, ∀ tmp, x.tmp = some tmp → before.files tmp = none ∧ Temp cfg tmp
  unlisted : ∀ path, path ∉ listed cfg.plan → Unlisted cfg before s path
  swept : Swept cfg s

theorem Sound.start (cfg : Config) (tree : Tree) : Sound cfg tree (start cfg tree) where
  inv := .start cfg tree
  faithful x hx := by
    rw [List.eq_of_mem_replicate hx]
    trivial
  temp x hx tmp htmp := by
    rw [List.eq_of_mem_replicate hx] at htmp
    cases htmp
  unlisted _ _ := .inl rfl
  swept := trivial

theorem Worker.Faithful.congr {files files' : Files} (h : x.Faithful cfg files)
    (hsame : ∀ tmp, x.tmp = some tmp → files' tmp = files tmp) : x.Faithful cfg files' := by
  cases x with
  | writing e tmp left =>
      obtain ⟨file, hfile, hcontent⟩ := h
      exact ⟨file, (hsame tmp rfl).trans hfile, hcontent⟩
  | _ => exact h

theorem mem_oldFiles {p : Plan} {t : Tree} {path : String} :
    path ∈ oldFiles p t ↔ t.files path ≠ none ∧ path ∉ listed p := by
  unfold oldFiles
  rw [List.mem_filter, Tree.mem_glob, decide_eq_true_eq]

theorem MainStep.sweeps {m : MainMove} (hs : MainStep cfg s m s') (h : s.main.sweeps = true) :
    s'.main.sweeps = true := by
  cases hs <;> simp_all [Main.sweeps]

/-- The files behind a step of `main`. -/
theorem MainStep.tree {m : MainMove} (hs : MainStep cfg s m s') :
    s'.tree = s.tree ∨ ∃ path left, s.main = .sweeping (path :: left) ∧
      s'.main = .sweeping left ∧ s'.tree = s.tree.unlink path := by
  cases hs with
  | sweep path left hmain => exact .inr ⟨path, left, hmain, rfl, rfl⟩
  | _ => exact .inl rfl

theorem MainStep.workers {m : MainMove} (hs : MainStep cfg s m s') : s'.workers = s.workers :=
  hs.raised_iff.2.1

theorem Swept.main {m : MainMove} (h : Swept cfg s) (hs : MainStep cfg s m s') :
    Swept cfg s' := by
  unfold Swept at h ⊢
  cases hs with
  | list hmain hcleaning =>
      refine ⟨hcleaning, fun path hpath => (mem_oldFiles.mp hpath).2, fun path hlisted hthere => ?_⟩
      exact mem_oldFiles.mpr ⟨hthere, hlisted⟩
  | leave hmain hcleaning =>
      intro hcleaning'
      cases hcleaning.symm.trans hcleaning'
  | sweep path left hmain =>
      rw [hmain] at h
      obtain ⟨hcleaning, hlisted, hall⟩ := h
      refine ⟨hcleaning, fun p hp => hlisted p (List.mem_cons_of_mem _ hp), fun p hp hthere => ?_⟩
      have hne : p ≠ path := by
        rintro rfl
        exact hthere Tree.files_unlink_self
      dsimp only at hthere
      rw [Tree.files_unlink_ne hne] at hthere
      exact (List.mem_cons.mp (hall p hp hthere)).resolve_left hne
  | swept hmain =>
      rw [hmain] at h
      intro _ path hlisted
      by_contra hthere
      cases h.2.2 path hlisted hthere
  | _ => trivial

theorem Sound.main {before : Tree} {m : MainMove} (h : Sound cfg before s)
    (hs : MainStep cfg s m s') : Sound cfg before s' := by
  have hsweeps := hs.sweeps
  have hswept := h.swept.main hs
  refine ⟨h.inv.main hs, ?_, ?_, ?_, hswept⟩
  · rw [hs.workers]
    intro x hx
    obtain htree | ⟨path, left, hmain, -, -⟩ := hs.tree
    · rw [htree]
      exact h.faithful x hx
    · refine (h.faithful x hx).congr fun tmp htmp => ?_
      have hstopped := h.inv.phased
      unfold Phased at hstopped
      rw [hmain] at hstopped
      cases (hstopped.tmp x hx).symm.trans htmp
  · rw [hs.workers]
    exact h.temp
  · intro path hlisted
    obtain htree | ⟨gone, left, hmain, hmain', htree⟩ := hs.tree
    · obtain hsame | htemp | ⟨hcleaning, hbegun, hnone⟩ := h.unlisted path hlisted
      · exact .inl (htree ▸ hsame)
      · exact .inr (.inl htemp)
      · exact .inr (.inr ⟨hcleaning, hsweeps hbegun, htree ▸ hnone⟩)
    · unfold Swept at hswept
      rw [hmain'] at hswept
      unfold Unlisted
      rw [htree]
      by_cases hpath : path = gone
      · subst hpath
        refine .inr (.inr ⟨hswept.1, ?_, Tree.files_unlink_self⟩)
        rw [hmain']
        rfl
      · rw [Tree.files_unlink_ne hpath]
        obtain hsame | htemp | ⟨hcleaning, hbegun, hnone⟩ := h.unlisted path hlisted
        · exact .inl hsame
        · exact .inr (.inl htemp)
        · exact .inr (.inr ⟨hcleaning, hsweeps hbegun, hnone⟩)

/-- While `main` deletes files no thread has a task. -/
theorem Inv.stopped (h : Inv cfg s) (hsweeps : s.main.sweeps = true) :
    Stopped cfg.threads 0 s.queue s.workers := by
  have hphased := h.phased
  unfold Phased at hphased
  cases hmain : s.main with
  | sweeping left => rwa [hmain] at hphased
  | ended => rwa [hmain] at hphased
  | aborted => rwa [hmain] at hphased
  | _ =>
      rw [hmain] at hsweeps
      cases hsweeps

/-- The only unlisted file that a thread adds is a temporary one. -/
theorem Inv.added {m : WorkerMove} {path : String} (h : Inv cfg s) (hx : s.workers[w]? = some x)
    (hs : WorkerStep cfg s w x m s') (hlisted : path ∉ listed cfg.plan)
    (hnone : s.tree.files path = none) :
    s'.tree.files path = none ∨ x.busy = true ∧ Temp cfg path := by
  have hentry : ∀ e, x.task = some e → e ∈ cfg.plan.entries :=
    h.taken x (List.mem_of_getElem? hx)
  have hmine : ∀ tmp, x.tmp = some tmp → path ≠ tmp := by
    rintro tmp htmp rfl
    exact (h.there x (List.mem_of_getElem? hx) path htmp).1 hnone
  cases hs with
  | create e rand now _ _ _ =>
      by_cases hpath : path = tempName e.dst rand
      · exact .inr ⟨rfl, e, hentry e rfl, rand, hpath⟩
      · exact .inl ((Tree.files_put_ne hpath).trans hnone)
  | write e tmp left n _ _ =>
      exact .inl ((Tree.files_write_ne (hmine tmp rfl)).trans hnone)
  | store e tmp left file _ _ =>
      have hdst : path ≠ e.dst := fun heq => hlisted (heq ▸ mem_listed (hentry e rfl))
      refine .inl ((Tree.files_put_ne hdst).trans ?_)
      exact (Tree.files_unlink_ne (hmine tmp rfl)).trans hnone
  | drop e tmp ok =>
      cases ok with
      | true => exact .inl ((Tree.files_unlink_ne (hmine tmp rfl)).trans hnone)
      | false => exact .inl hnone
  | remove e =>
      have hdst : path ≠ e.dst := fun heq => hlisted (heq ▸ mem_listed (hentry e rfl))
      exact .inl ((Tree.files_unlink_ne hdst).trans hnone)
  | _ => exact .inl hnone

theorem Unlisted.worker {before : Tree} {m : WorkerMove} {path : String}
    (h : Sound cfg before s) (hx : s.workers[w]? = some x) (hs : WorkerStep cfg s w x m s')
    (hlisted : path ∉ listed cfg.plan) : Unlisted cfg before s' path := by
  by_cases hmine : x.tmp = some path
  · exact .inr (.inl (h.temp x (List.mem_of_getElem? hx) path hmine))
  by_cases hnone : s.tree.files path = none
  · obtain hsame | htemp | ⟨hcleaning, hbegun, -⟩ := h.unlisted path hlisted
    · obtain hnone' | ⟨-, htemp⟩ := h.inv.added hx hs hlisted hnone
      · exact .inl (hnone'.trans (hnone.symm.trans hsame))
      · exact .inr (.inl ⟨hsame.symm.trans hnone, htemp⟩)
    · exact .inr (.inl htemp)
    · have hstopped := h.inv.stopped hbegun
      refine .inr (.inr ⟨hcleaning, hs.main ▸ hbegun, ?_⟩)
      rw [(hs.stopped hx hstopped).2]
      exact hnone
  · have hframe := h.inv.frame hx hs hlisted hmine hnone
    obtain hsame | htemp | ⟨-, -, hgone⟩ := h.unlisted path hlisted
    · exact .inl (hframe.trans hsame)
    · exact .inr (.inl htemp)
    · exact absurd hgone hnone

theorem Swept.worker {m : WorkerMove} (h : Swept cfg s) (hinv : Inv cfg s)
    (hx : s.workers[w]? = some x) (hs : WorkerStep cfg s w x m s') : Swept cfg s' := by
  by_cases hbegun : s.main.sweeps = true
  · unfold Swept
    rw [hs.main, (hs.stopped hx (hinv.stopped hbegun)).2]
    exact h
  · unfold Swept
    rw [hs.main]
    cases hmain : s.main with
    | sweeping left => exact absurd (by rw [hmain]; rfl) hbegun
    | ended => exact absurd (by rw [hmain]; rfl) hbegun
    | _ => trivial

/-- A step of a thread, by what it has of its download behind it. -/
theorem Sound.set {before : Tree} {m : WorkerMove} (h : Sound cfg before s)
    (hx : s.workers[w]? = some x) (hs : WorkerStep cfg s w x m s') (new : Worker)
    (hworkers : s'.workers = s.workers.set w new) (hnew : new.Faithful cfg s'.tree.files)
    (htemp : ∀ tmp, new.tmp = some tmp → before.files tmp = none ∧ Temp cfg tmp) :
    Sound cfg before s' where
  inv := h.inv.worker hx hs
  faithful := by
    rw [hworkers]
    intro y hy
    obtain rfl | ⟨j, hwj, hj⟩ := Pool.mem_set_cases hy
    · exact hnew
    · have hmem := List.mem_of_getElem? hj
      refine (h.faithful y hmem).congr fun tmp htmp => ?_
      obtain ⟨hthere, hlisted⟩ := h.inv.there y hmem tmp htmp
      refine h.inv.frame hx hs hlisted (fun hxtmp => hwj ?_) hthere
      exact h.inv.own tmp w j x y hx hj hxtmp htmp
  temp := by
    rw [hworkers]
    exact Pool.forall_set h.temp htemp
  unlisted _ hlisted := Unlisted.worker h hx hs hlisted
  swept := h.swept.worker h.inv hx hs

theorem Sound.worker {before : Tree} {m : WorkerMove} (h : Sound cfg before s)
    (hx : s.workers[w]? = some x) (hs : WorkerStep cfg s w x m s') : Sound cfg before s' := by
  have hmem := List.mem_of_getElem? hx
  have hfaithful := h.faithful x hmem
  have htemp := h.temp x hmem
  have hset := h.set hx hs
  cases hs with
  | take e queue _ => exact hset _ rfl trivial nofun
  | quit queue _ => exact hset _ rfl trivial nofun
  | refuse e hrefuses => exact hset _ rfl (fetched_of_refuses hrefuses) nofun
  | create e rand now _ hnone hlisted =>
      refine hset _ rfl ⟨_, Tree.files_put_self, rfl⟩ fun tmp htmp => ?_
      obtain rfl := Option.some.inj htmp
      obtain hsame | hown | ⟨-, hbegun, -⟩ := h.unlisted _ hlisted
      · exact ⟨hsame.symm.trans hnone, e, h.inv.taken _ hmem e rfl, rand, rfl⟩
      · exact hown
      · cases (h.inv.stopped hbegun).free _ hmem
  | write e tmp left n _ _ =>
      obtain ⟨file, hfile, hcontent⟩ := hfaithful
      refine hset _ rfl ⟨{ file with content := file.content ++ left.take n }, ?_, ?_⟩ htemp
      · refine Tree.files_write_self.trans ?_
        rw [hfile]
        rfl
      · rw [List.append_assoc, List.take_append_drop]
        exact hcontent
  | raise e tmp left file hfile hbreaks =>
      obtain ⟨file', hfile', hcontent⟩ := hfaithful
      obtain rfl := Option.some.inj (hfile.symm.trans hfile')
      exact hset _ rfl (fetched_of_breaks hcontent hbreaks) htemp
  | store e tmp left file _ _ => exact hset _ rfl trivial nofun
  | drop e tmp ok => exact hset _ rfl hfaithful nofun
  | remove e => exact hset _ rfl trivial nofun
  | die e => exact hset _ rfl hfaithful nofun
  | done => exact hset _ rfl trivial nofun

theorem step_sound {before : Tree} {l : Label} (h : Sound cfg before s)
    (hs : step cfg s l = some s') : Sound cfg before s' := by
  obtain ⟨m, -, hs⟩ | ⟨w, x, m, -, hx, hs⟩ := step_cases hs
  · exact h.main hs
  · exact h.worker hx hs

/-! ### The work queue -/

/-- The state of the work queue in which the downloads of the threads are not begun. -/
structure Refines (cfg : Config) (s : State) (u : WorkQueue.State Entry String (Option File)) :
    Prop where
  todo : s.main ≠ .raised → u.todo = s.main.todo
  queue : u.queue = s.queue.filterMap id
  workers : u.workers = s.workers.map Worker.task
  store : ∀ path ∈ listed cfg.plan, u.store path = s.tree.files path

theorem Refines.start (cfg : Config) (tree : Tree) :
    Refines cfg (start cfg tree) (ReleaseRun.start cfg.plan cfg.threads tree.files) where
  todo _ := rfl
  queue := rfl
  workers := by
    simp [ReleaseThreads.start, ReleaseRun.start, WorkQueue.start, Worker.task]
  store _ _ := rfl

abbrev Queued (cfg : Config) := Lts.Reach (ReleaseRun.step cfg.fastSkip cfg.env)

/-- The scan of a destination, as a step of the work queue. -/
theorem step_scan (cfg : Config) {u : WorkQueue.State Entry String (Option File)} {files : Files}
    {e : Entry} {left : List Entry} (hu : u.todo = e :: left)
    (hstore : u.store e.dst = files e.dst) :
    ReleaseRun.step cfg.fastSkip cfg.env u .scan =
      some (if due cfg.fastSkip e (files e.dst) then
        { u with todo := left, queue := u.queue ++ [e] } else { u with todo := left }) := by
  unfold ReleaseRun.step WorkQueue.step
  rw [hu, ← hstore]
  exact (apply_ite some _ _ _).symm

theorem Refines.main {before : Tree} {u : WorkQueue.State Entry String (Option File)}
    {m : MainMove} (h : Refines cfg s u) (hsound : Sound cfg before s)
    (hs : MainStep cfg s m s') : ∃ u', Queued cfg u u' ∧ Refines cfg s' u' := by
  have hentry := hsound.inv.todo
  have htodo : u.todo = s.main.todo := h.todo fun hraised => hs.raised_iff.1 (.inl hraised)
  cases hs with
  | put e left hmain hdue =>
      rw [hmain] at hentry htodo
      have hstore := h.store e.dst (mem_listed (hentry e List.mem_cons_self))
      have hstep := step_scan cfg htodo hstore
      rw [if_pos hdue] at hstep
      refine ⟨_, .single _ hstep, fun _ => rfl, ?_, h.workers, h.store⟩
      simp [h.queue, State.enqueue]
  | skip e left hmain hdue =>
      rw [hmain] at hentry htodo
      have hstore := h.store e.dst (mem_listed (hentry e List.mem_cons_self))
      have hstep := step_scan cfg htodo hstore
      rw [if_neg (Bool.eq_false_iff.mp hdue)] at hstep
      exact ⟨_, .single _ hstep, fun _ => rfl, h.queue, h.workers, h.store⟩
  | raise left hmain => exact ⟨u, .refl u, fun hne => absurd rfl hne, h.queue, h.workers, h.store⟩
  | abort hmain =>
      refine ⟨u, .refl u, fun _ => ?_, h.queue, h.workers, h.store⟩
      obtain hmain | ⟨left, hmain⟩ := hmain
      · rw [hmain] at htodo
        exact htodo
      · rw [hmain] at htodo
        exact htodo
  | join hmain _ _ =>
      rw [hmain] at htodo
      exact ⟨u, .refl u, fun _ => htodo, h.queue, h.workers, h.store⟩
  | stop n hmain =>
      rw [hmain] at htodo
      refine ⟨u, .refl u, fun _ => htodo, ?_, h.workers, h.store⟩
      simp [h.queue, State.enqueue]
  | list hmain _ =>
      rw [hmain] at htodo
      exact ⟨u, .refl u, fun _ => htodo, h.queue, h.workers, h.store⟩
  | leave hmain _ =>
      rw [hmain] at htodo
      exact ⟨u, .refl u, fun _ => htodo, h.queue, h.workers, h.store⟩
  | sweep path left hmain =>
      rw [hmain] at htodo
      have hswept := hsound.swept
      unfold Swept at hswept
      rw [hmain] at hswept
      refine ⟨u, .refl u, fun _ => htodo, h.queue, h.workers, fun p hp => ?_⟩
      have hne : p ≠ path := fun heq => hswept.2.1 path List.mem_cons_self (heq ▸ hp)
      exact (h.store p hp).trans (Tree.files_unlink_ne hne).symm
  | swept hmain =>
      rw [hmain] at htodo
      exact ⟨u, .refl u, fun _ => htodo, h.queue, h.workers, h.store⟩

/-- A step before the destination is changed, or behind it. -/
theorem Refines.stutter {u : WorkQueue.State Entry String (Option File)} {new : Worker}
    (h : Refines cfg s u) (hx : s.workers[w]? = some x) (hmain : s'.main = s.main)
    (hqueue : s'.queue.filterMap id = s.queue.filterMap id)
    (hworkers : s'.workers = s.workers.set w new) (htask : new.task = x.task)
    (hfiles : ∀ path ∈ listed cfg.plan, s'.tree.files path = s.tree.files path) :
    ∃ u', Queued cfg u u' ∧ Refines cfg s' u' := by
  refine ⟨u, .refl u, ?_, h.queue.trans hqueue.symm, ?_, fun path hpath => ?_⟩
  · rw [hmain]
    exact h.todo
  · rw [hworkers, Pool.map_set_of_eq hx htask, h.workers]
  · exact (h.store path hpath).trans (hfiles path hpath).symm

/-- The step that changes the destination. -/
theorem Refines.finish {u : WorkQueue.State Entry String (Option File)} {new : Worker} {e : Entry}
    (h : Refines cfg s u) (hx : s.workers[w]? = some x) (he : x.task = some e)
    (hmain : s'.main = s.main) (hqueue : s'.queue = s.queue)
    (hworkers : s'.workers = s.workers.set w new) (htask : new.task = none)
    (hdst : s'.tree.files e.dst = fetched e.item (cfg.env e.dst))
    (hfiles : ∀ path ∈ listed cfg.plan, path ≠ e.dst → s'.tree.files path = s.tree.files path) :
    ∃ u', Queued cfg u u' ∧ Refines cfg s' u' := by
  have hu : u.workers[w]? = some (some e) := by rw [h.workers, List.getElem?_map, hx, ← he]; rfl
  have hstep : ReleaseRun.step cfg.fastSkip cfg.env u (.finish w) =
      some { u with store := WorkQueue.perform (kind cfg.fastSkip cfg.env) u.store e,
                    workers := u.workers.set w none } := by
    unfold ReleaseRun.step WorkQueue.step
    dsimp only
    rw [hu]
  refine ⟨_, .single _ hstep, ?_, ?_, ?_, fun path hpath => ?_⟩
  · rw [hmain]
    exact h.todo
  · rw [hqueue]
    exact h.queue
  · rw [hworkers, List.map_set, htask, ← h.workers]
  · dsimp only [WorkQueue.perform, kind]
    by_cases heq : path = e.dst
    · subst heq
      rw [Function.update_self, hdst]
    · rw [Function.update_of_ne heq, hfiles path hpath heq]
      exact h.store path hpath

theorem Refines.worker {before : Tree} {u : WorkQueue.State Entry String (Option File)}
    {m : WorkerMove} (h : Refines cfg s u) (hsound : Sound cfg before s)
    (hx : s.workers[w]? = some x) (hs : WorkerStep cfg s w x m s') :
    ∃ u', Queued cfg u u' ∧ Refines cfg s' u' := by
  have hmem := List.mem_of_getElem? hx
  have hfaithful := hsound.faithful x hmem
  have htmp : ∀ tmp, x.tmp = some tmp → ∀ path ∈ listed cfg.plan, path ≠ tmp := by
    rintro tmp htmp path hpath rfl
    exact (hsound.inv.there x hmem path htmp).2 hpath
  cases hs with
  | take e queue hqueue =>
      have hu : u.workers[w]? = some none := by rw [h.workers, List.getElem?_map, hx]; rfl
      have huqueue : u.queue = e :: queue.filterMap id := by rw [h.queue, hqueue]; rfl
      have hstep : ReleaseRun.step cfg.fastSkip cfg.env u (.take w) =
          some { u with queue := queue.filterMap id, workers := u.workers.set w (some e) } := by
        unfold ReleaseRun.step WorkQueue.step
        dsimp only
        rw [hu, huqueue]
      refine ⟨_, .single _ hstep, h.todo, rfl, ?_, h.store⟩
      simp only [State.setWorker]
      rw [List.map_set, ← h.workers]
      rfl
  | quit queue hqueue =>
      refine h.stutter hx rfl ?_ rfl rfl fun _ _ => rfl
      rw [hqueue]
      rfl
  | refuse e _ => exact h.stutter hx rfl rfl rfl rfl fun _ _ => rfl
  | create e rand now _ _ hlisted =>
      refine h.stutter hx rfl rfl rfl rfl fun path hpath => Tree.files_put_ne ?_
      rintro rfl
      exact hlisted hpath
  | write e tmp left n _ _ =>
      refine h.stutter hx rfl rfl rfl rfl fun path hpath => ?_
      exact Tree.files_write_ne (htmp tmp rfl path hpath)
  | raise e tmp left file _ _ => exact h.stutter hx rfl rfl rfl rfl fun _ _ => rfl
  | store e tmp left file hfile hstores =>
      obtain ⟨file', hfile', hcontent⟩ := hfaithful
      obtain rfl := Option.some.inj (hfile.symm.trans hfile')
      refine h.finish hx rfl rfl rfl rfl rfl ?_ fun path hpath hne => ?_
      · rw [fetched_of_stores hcontent hstores]
        exact Tree.files_put_self
      · exact (Tree.files_put_ne hne).trans (Tree.files_unlink_ne (htmp tmp rfl path hpath))
  | drop e tmp ok =>
      refine h.stutter hx rfl rfl rfl rfl fun path hpath => ?_
      cases ok with
      | true => exact Tree.files_unlink_ne (htmp tmp rfl path hpath)
      | false => rfl
  | remove e =>
      refine h.finish hx rfl rfl rfl rfl rfl ?_ fun path _ hne => Tree.files_unlink_ne hne
      exact Tree.files_unlink_self.trans hfaithful.symm
  | die e => exact h.stutter hx rfl rfl rfl rfl fun _ _ => rfl
  | done => exact h.stutter hx rfl rfl rfl rfl fun _ _ => rfl

/-- **Refinement.**  Every run of the threads is one of the work queue. -/
theorem run_refines {tree : Tree} {ls : List Label}
    (hr : Lts.run (step cfg) (start cfg tree) ls = some s) :
    Sound cfg tree s ∧ ∃ u,
      Queued cfg (ReleaseRun.start cfg.plan cfg.threads tree.files) u ∧ Refines cfg s u := by
  have hsim : ∀ s l s' u, Sound cfg tree s ∧ Refines cfg s u → step cfg s l = some s' →
      ∃ u', Queued cfg u u' ∧ Sound cfg tree s' ∧ Refines cfg s' u' := by
    rintro s l s' u ⟨hsound, h⟩ hs
    obtain ⟨u', hu', h'⟩ : ∃ u', Queued cfg u u' ∧ Refines cfg s' u' := by
      obtain ⟨m, -, hs⟩ | ⟨w, x, m, -, hx, hs⟩ := step_cases hs
      · exact h.main hsound hs
      · exact h.worker hsound hx hs
    exact ⟨u', hu', step_sound hsound hs, h'⟩
  obtain ⟨u, hu, hsound, h⟩ := Lts.run_simulates hsim ⟨.start cfg tree, .start cfg tree⟩ hr
  exact ⟨hsound, u, hu, h⟩

/-- The destinations in a run of the work queue. -/
theorem queued_keeps {files : Files} {u : WorkQueue.State Entry String (Option File)}
    (hu : Queued cfg (ReleaseRun.start cfg.plan cfg.threads files) u) (path : String) :
    u.store path = files path ∨
      ∃ e ∈ cfg.plan.entries, e.dst = path ∧ u.store path = fetched e.item (cfg.env path) := by
  obtain ⟨moves, hr⟩ := hu
  refine WorkQueue.run_keeps (k := kind cfg.fastSkip cfg.env)
    (P := fun x v => v = files x ∨
      ∃ e ∈ cfg.plan.entries, e.dst = x ∧ v = fetched e.item (cfg.env x))
    (fun x => .inl rfl) ?_ hr path
  intro e he v _
  have hpending : (ReleaseRun.start cfg.plan cfg.threads files).pending = cfg.plan.entries :=
    WorkQueue.pending_start _ _ _
  rw [hpending] at he
  exact .inr ⟨e, he, rfl, rfl⟩

/-- A run that has ended leaves what the work queue leaves, and where no file is deleted also
temporary files that resisted. -/
theorem ended_outcome {tree : Tree} {ls : List Label}
    (hr : Lts.run (step cfg) (start cfg tree) ls = some s) (hended : s.Ended) :
    ∃ u, Queued cfg (ReleaseRun.start cfg.plan cfg.threads tree.files) u ∧ u.Done ∧
      ∀ path, s.tree.files path = clean cfg.plan u.store path ∨
        cfg.plan.cleaning = false ∧ tree.files path = none ∧ Temp cfg path := by
  obtain ⟨hsound, u, hu, h⟩ := run_refines hr
  have hsweeps : s.main.sweeps = true := by
    rw [hended.1]
    rfl
  have hstopped := hsound.inv.stopped hsweeps
  refine ⟨u, hu, ?_, fun path => ?_⟩
  · have htodo : u.todo = [] := by
      have htodo := h.todo
      rw [hended.1] at htodo
      exact htodo nofun
    have hqueue : u.queue = [] := by
      rw [h.queue, List.filterMap_eq_nil_iff]
      exact hstopped.items
    have hbusy : u.busy = [] := by
      unfold WorkQueue.State.busy
      rw [h.workers, List.filterMap_map, List.filterMap_eq_nil_iff]
      intro x hx
      have hx' := hended.2 x hx
      cases x <;> first | rfl | cases hx'
    simp [WorkQueue.State.Done, WorkQueue.State.pending, htodo, hqueue, hbusy]
  · unfold clean
    by_cases hlisted : path ∈ listed cfg.plan
    · rw [if_neg fun hclean => hclean.2 hlisted]
      exact .inl (h.store path hlisted).symm
    · cases hcleaning : cfg.plan.cleaning with
      | true =>
          rw [if_pos ⟨rfl, hlisted⟩]
          have hswept := hsound.swept
          unfold Swept at hswept
          rw [hended.1] at hswept
          exact .inl (hswept hcleaning path hlisted)
      | false =>
          rw [if_neg fun hclean => Bool.false_ne_true hclean.1]
          have hstore : u.store path = tree.files path := by
            obtain hsame | ⟨e, he, rfl, -⟩ := queued_keeps hu path
            · exact hsame
            · exact absurd (mem_listed he) hlisted
          obtain hsame | htemp | ⟨htrue, -, -⟩ := hsound.unlisted path hlisted
          · exact .inl (hsame.trans hstore.symm)
          · exact .inr ⟨rfl, htemp⟩
          · cases hcleaning.symm.trans htrue

end KubeSync.ReleaseThreads
