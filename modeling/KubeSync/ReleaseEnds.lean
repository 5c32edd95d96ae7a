import KubeSync.Pool
import KubeSync.ReleaseThreads
import Mathlib.Data.List.Count

/-! # The release script comes to its end

What the threads of `github-release.py` keep, and that they do not wait for each other forever.

* `State.left` bounds the operations that are before the threads.
* `Phased`: up to `join` the count of unfinished tasks is that of the items on the queue and with
  the threads, and behind it there is a `None` on the queue for every thread that has not returned.
* `Inv` adds that the temporary file of a thread is there and is no other thread's.
* `run_ends`: every run is bounded, and one that can not go on has ended with all its threads
  exactly if no exception left `main` and no removal of a destination failed. -/

namespace KubeSync.ReleaseThreads

open Downloads (Bytes File)
open ReleaseListing (Entry Plan)

variable {cfg : Config} {s s' : State} {w : ℕ} {x : Worker}

/-! ### Runs are bounded -/

/-- The length of the answer for a destination. -/
def bytes (cfg : Config) (e : Entry) : ℕ := (received (cfg.env e.dst).answer).length

/-- The steps that a thread has before it, with one more for each name it may add. -/
def Worker.left (cfg : Config) : Worker → ℕ
  | .asking e => bytes cfg e + 6
  | .writing _ _ left => left.length + 4
  | .dropping _ _ => 3
  | .failing _ => 2
  | .finishing => 1
  | .idle | .dead _ | .ended => 0

def itemLeft (cfg : Config) : Option Entry → ℕ
  | some e => bytes cfg e + 7
  | none => 1

/-- The steps that `main` has before it; each file may be one that it deletes. -/
def mainLeft (cfg : Config) (names : ℕ) : Main → ℕ
  | .scanning left => (left.map fun e => bytes cfg e + 8).sum + 2 * cfg.threads + 3 + names
  | .stopping n => 2 * n + 2 + names
  | .sweeping left => left.length + 1
  | .ended | .raised | .aborted => 0

def State.left (cfg : Config) (s : State) : ℕ :=
  mainLeft cfg s.tree.names.length s.main + (s.queue.map (itemLeft cfg)).sum +
    (s.workers.map (Worker.left cfg)).sum

theorem mainLeft_mono (cfg : Config) {m n k : ℕ} (h : m ≤ n + k) (x : Main) :
    mainLeft cfg m x ≤ mainLeft cfg n x + k := by
  unfold mainLeft
  split <;> omega

theorem MainStep.left {m : MainMove} (h : MainStep cfg s m s') : s'.left cfg < s.left cfg := by
  cases h with
  | put e left hmain _ =>
      simp only [State.left, State.enqueue, hmain, mainLeft, List.map_cons, List.sum_cons,
        List.map_append, List.sum_append, List.map_nil, List.sum_nil, itemLeft]
      omega
  | skip e left hmain _ =>
      simp only [State.left, hmain, mainLeft, List.map_cons, List.sum_cons]
      omega
  | raise left hmain =>
      simp only [State.left, hmain, mainLeft]
      omega
  | abort hmain =>
      obtain hmain | ⟨left, hmain⟩ := hmain
      · simp only [State.left, hmain, mainLeft]
        omega
      · simp only [State.left, hmain, mainLeft]
        omega
  | join hmain _ _ =>
      simp only [State.left, hmain, mainLeft, List.map_nil, List.sum_nil]
      omega
  | stop n hmain =>
      simp only [State.left, State.enqueue, hmain, mainLeft, List.map_append, List.sum_append,
        List.map_cons, List.map_nil, List.sum_cons, List.sum_nil, itemLeft]
      omega
  | list hmain _ =>
      have hle : (oldFiles cfg.plan s.tree).length ≤ s.tree.names.length :=
        Nat.le_trans (List.length_filter_le _ _) s.tree.length_glob_le
      simp only [State.left, hmain, mainLeft]
      omega
  | leave hmain _ =>
      simp only [State.left, hmain, mainLeft]
      omega
  | sweep path left hmain =>
      simp only [State.left, hmain, mainLeft, List.length_cons]
      omega
  | swept hmain =>
      simp only [State.left, hmain, mainLeft]
      omega

/-- A step of a thread that takes `d` off the queue and adds `k` names leaves less before it, if the
thread itself does. -/
theorem left_lt {new : Worker} (k d : ℕ) (hx : s.workers[w]? = some x) (hmain : s'.main = s.main)
    (hworkers : s'.workers = s.workers.set w new)
    (hnames : s'.tree.names.length ≤ s.tree.names.length + k)
    (hqueue : (s'.queue.map (itemLeft cfg)).sum + d = (s.queue.map (itemLeft cfg)).sum)
    (h : new.left cfg + k < x.left cfg + d) : s'.left cfg < s.left cfg := by
  have hset : ((s.workers.set w new).map (Worker.left cfg)).sum + x.left cfg =
      (s.workers.map (Worker.left cfg)).sum + new.left cfg := Pool.sum_set _ hx
  have hle := mainLeft_mono cfg hnames s.main
  unfold State.left
  rw [hmain, hworkers]
  omega

theorem WorkerStep.left {m : WorkerMove} (hx : s.workers[w]? = some x)
    (h : WorkerStep cfg s w x m s') : s'.left cfg < s.left cfg := by
  cases h with
  | take e queue hqueue =>
      refine left_lt 0 (bytes cfg e + 7) hx rfl rfl (Nat.le_refl _) ?_ ?_
      · rw [hqueue, List.map_cons, List.sum_cons]
        exact Nat.add_comm _ _
      · simp only [Worker.left]
        omega
  | quit queue hqueue =>
      refine left_lt 0 1 hx rfl rfl (Nat.le_refl _) ?_ (Nat.lt_succ_self 0)
      rw [hqueue, List.map_cons, List.sum_cons]
      exact Nat.add_comm _ _
  | create e rand now _ _ _ =>
      refine left_lt 1 0 hx rfl rfl (Nat.le_refl _) rfl ?_
      simp only [Worker.left, bytes]
      omega
  | write e tmp left n hpos hle =>
      refine left_lt 0 0 hx rfl rfl (Nat.le_refl _) rfl ?_
      simp only [Worker.left, List.length_drop]
      omega
  | store e tmp left file _ _ =>
      refine left_lt 1 0 hx rfl rfl (Nat.le_refl _) rfl ?_
      simp only [Worker.left]
      omega
  | drop e tmp ok =>
      have hnames : (if ok then s.tree.unlink tmp else s.tree).names = s.tree.names := by
        split <;> rfl
      refine left_lt 0 0 hx rfl rfl (Nat.le_of_eq (congrArg List.length hnames)) rfl ?_
      simp only [Worker.left]
      omega
  | refuse e _ | raise e tmp left file _ _ | remove e | die e | done =>
      refine left_lt 0 0 hx rfl rfl (Nat.le_refl _) rfl ?_
      simp only [Worker.left]
      omega

/-- The thread has an item for which it has not called `task_done`. -/
def Worker.busy : Worker → Bool
  | .idle | .ended => false
  | _ => true

def Worker.isDead : Worker → Bool
  | .dead _ => true
  | _ => false

def Worker.hasEnded : Worker → Bool
  | .ended => true
  | _ => false

/-- Up to `join` the count of the queue is that of the items on it and with the threads. -/
structure Working (queue : List (Option Entry)) (unfinished : ℕ) (workers : List Worker) :
    Prop where
  items : ∀ item ∈ queue, item ≠ none
  running : ∀ x ∈ workers, x.hasEnded = false
  count : unfinished = queue.length + workers.countP Worker.busy

/-- Behind `join` there is a `None` for each thread that has not returned; `n` are to come. -/
structure Stopped (threads n : ℕ) (queue : List (Option Entry)) (workers : List Worker) :
    Prop where
  items : ∀ item ∈ queue, item = none
  free : ∀ x ∈ workers, x.busy = false
  count : queue.length + workers.countP Worker.hasEnded + n = threads

def Phased (cfg : Config) (s : State) : Prop :=
  match s.main with
  | .scanning _ => Working s.queue s.unfinished s.workers
  | .stopping n => Stopped cfg.threads n s.queue s.workers
  | .sweeping _ | .ended | .aborted => Stopped cfg.threads 0 s.queue s.workers
  | .raised => True

theorem hasEnded_eq_false (h : x.busy = true) : x.hasEnded = false := by
  cases x <;> first | rfl | cases h

/-- `join` returns when no thread has an item. -/
theorem Working.join {queue : List (Option Entry)} {workers : List Worker}
    (h : Working queue 0 workers) : Stopped workers.length workers.length queue workers := by
  have hcount := h.count
  have hqueue : queue = [] := List.eq_nil_of_length_eq_zero (by omega)
  have hbusy : workers.countP Worker.busy = 0 := by omega
  have hended : workers.countP Worker.hasEnded = 0 := by
    rw [List.countP_eq_zero]
    intro x hx
    rw [h.running x hx]
    exact Bool.false_ne_true
  refine ⟨?_, fun x hx => ?_, ?_⟩
  · rw [hqueue]
    exact nofun
  · exact eq_false_of_ne_true (List.countP_eq_zero.mp hbusy x hx)
  · rw [hqueue, hended, List.length_nil]
    omega

/-- A thread that keeps its item. -/
theorem Working.set {queue : List (Option Entry)} {unfinished : ℕ} {workers : List Worker}
    {new : Worker} (h : Working queue unfinished workers) (hx : workers[w]? = some x)
    (hold : x.busy = true) (hnew : new.busy = true) :
    Working queue unfinished (workers.set w new) := by
  have hset : (workers.set w new).countP Worker.busy + x.busy.toNat =
      workers.countP Worker.busy + new.busy.toNat := Pool.countP_set Worker.busy hx
  have hcount := h.count
  rw [hold, hnew] at hset
  exact ⟨h.items, Pool.forall_set h.running (hasEnded_eq_false hnew), by omega⟩

theorem MainStep.phased {m : MainMove} (hlength : s.workers.length = cfg.threads)
    (h : Phased cfg s) (hs : MainStep cfg s m s') : Phased cfg s' := by
  unfold Phased at h ⊢
  cases hs with
  | put e left hmain _ =>
      rw [hmain] at h
      have hcount := h.count
      refine ⟨Pool.forall_append h.items nofun, h.running, ?_⟩
      simp only [State.enqueue, List.length_append, List.length_singleton]
      omega
  | skip e left hmain _ =>
      rw [hmain] at h
      exact h
  | raise _ _ => trivial
  | abort hmain =>
      obtain hmain | ⟨left, hmain⟩ := hmain
      · rw [hmain] at h
        exact h
      · rw [hmain] at h
        exact h
  | join hmain _ hzero =>
      rw [hmain, hzero] at h
      have hstopped := h.join
      rw [hlength] at hstopped
      exact hstopped
  | stop n hmain =>
      rw [hmain] at h
      have hcount := h.count
      refine ⟨Pool.forall_append h.items rfl, h.free, ?_⟩
      simp only [State.enqueue, List.length_append, List.length_singleton]
      omega
  | list hmain _ =>
      rw [hmain] at h
      exact h
  | leave hmain _ =>
      rw [hmain] at h
      exact h
  | sweep path left hmain =>
      rw [hmain] at h
      exact h
  | swept hmain =>
      rw [hmain] at h
      exact h

/-- The steps of a thread that has an item. -/
theorem WorkerStep.working {m : WorkerMove} (hx : s.workers[w]? = some x)
    (hs : WorkerStep cfg s w x m s') (h : Working s.queue s.unfinished s.workers) :
    Working s'.queue s'.unfinished s'.workers := by
  have hcount := h.count
  cases hs with
  | take e queue hqueue =>
      have hset : (s.workers.set w (.asking e)).countP Worker.busy + 0 =
          s.workers.countP Worker.busy + 1 := Pool.countP_set Worker.busy hx
      rw [hqueue, List.length_cons] at hcount
      refine ⟨fun item hitem => h.items item ?_, Pool.forall_set h.running rfl, ?_⟩
      · rw [hqueue]
        exact List.mem_cons_of_mem _ hitem
      · simp only [State.setWorker]
        omega
  | quit queue hqueue =>
      refine absurd rfl (h.items none ?_)
      rw [hqueue]
      exact List.mem_cons_self
  | refuse e _ => exact h.set hx rfl rfl
  | create e rand now _ _ _ => exact h.set hx rfl rfl
  | write e tmp left n _ _ => exact h.set hx rfl rfl
  | raise e tmp left file _ _ => exact h.set hx rfl rfl
  | store e tmp left file _ _ => exact h.set hx rfl rfl
  | drop e tmp ok => exact h.set hx rfl rfl
  | remove e => exact h.set hx rfl rfl
  | die e => exact h.set hx rfl rfl
  | done =>
      have hset : (s.workers.set w .idle).countP Worker.busy + 1 =
          s.workers.countP Worker.busy + 0 := Pool.countP_set Worker.busy hx
      refine ⟨h.items, Pool.forall_set h.running rfl, ?_⟩
      simp only [State.setWorker]
      omega

/-- Behind `join` the threads return. -/
theorem WorkerStep.stopped {m : WorkerMove} {n : ℕ} (hx : s.workers[w]? = some x)
    (hs : WorkerStep cfg s w x m s') (h : Stopped cfg.threads n s.queue s.workers) :
    Stopped cfg.threads n s'.queue s'.workers ∧ s'.tree = s.tree := by
  have hfree := h.free x (List.mem_of_getElem? hx)
  have hcount := h.count
  cases hs with
  | take e queue hqueue =>
      have hnone := h.items (some e) (by rw [hqueue]; exact List.mem_cons_self)
      cases hnone
  | quit queue hqueue =>
      have hset : (s.workers.set w .ended).countP Worker.hasEnded + 0 =
          s.workers.countP Worker.hasEnded + 1 := Pool.countP_set Worker.hasEnded hx
      rw [hqueue, List.length_cons] at hcount
      refine ⟨⟨fun item hitem => h.items item ?_, Pool.forall_set h.free rfl, ?_⟩, rfl⟩
      · rw [hqueue]
        exact List.mem_cons_of_mem _ hitem
      · simp only [State.setWorker]
        omega
  | _ => cases hfree

theorem WorkerStep.main {m : WorkerMove} (hs : WorkerStep cfg s w x m s') : s'.main = s.main := by
  cases hs <;> rfl

theorem WorkerStep.phased {m : WorkerMove} (hx : s.workers[w]? = some x)
    (hs : WorkerStep cfg s w x m s') (h : Phased cfg s) : Phased cfg s' := by
  unfold Phased at h ⊢
  rw [hs.main]
  cases hmain : s.main with
  | scanning left =>
      rw [hmain] at h
      exact hs.working hx h
  | stopping n =>
      rw [hmain] at h
      exact (hs.stopped hx h).1
  | sweeping left =>
      rw [hmain] at h
      exact (hs.stopped hx h).1
  | ended =>
      rw [hmain] at h
      exact (hs.stopped hx h).1
  | aborted =>
      rw [hmain] at h
      exact (hs.stopped hx h).1
  | raised => trivial

/-! ### The temporary files -/

/-- The item that a thread works on. -/
def Worker.task : Worker → Option Entry
  | .asking e | .writing e _ _ | .dropping e _ | .failing e | .dead e => some e
  | .idle | .finishing | .ended => none

def Worker.tmp : Worker → Option String
  | .writing _ tmp _ | .dropping _ tmp => some tmp
  | _ => none

/-- The destinations before `main`. -/
def Main.todo : Main → List Entry
  | .scanning left => left
  | _ => []

/-- Every thread has a temporary file of its own, which is there and is not listed. -/
structure Inv (cfg : Config) (s : State) : Prop where
  length : s.workers.length = cfg.threads
  phased : Phased cfg s
  todo : ∀ e ∈ s.main.todo, e ∈ cfg.plan.entries
  queued : ∀ e, some e ∈ s.queue → e ∈ cfg.plan.entries
  taken : ∀ x ∈ s.workers, ∀ e, x.task = some e → e ∈ cfg.plan.entries
  there : ∀ x ∈ s.workers, ∀ tmp, x.tmp = some tmp →
    s.tree.files tmp ≠ none ∧ tmp ∉ listed cfg.plan
  own : ∀ tmp, Pool.Solo (fun x : Worker => x.tmp = some tmp) s.workers

theorem Inv.start (cfg : Config) (tree : Tree) : Inv cfg (start cfg tree) where
  length := List.length_replicate
  phased := by
    refine ⟨nofun, fun x hx => ?_, ?_⟩
    · rw [List.eq_of_mem_replicate hx]
      rfl
    · simp [ReleaseThreads.start, List.countP_replicate, Worker.busy]
  todo e he := he
  queued _ h := nomatch h
  taken x hx e he := by
    rw [List.eq_of_mem_replicate hx] at he
    cases he
  there x hx tmp htmp := by
    rw [List.eq_of_mem_replicate hx] at htmp
    cases htmp
  own tmp := by
    refine Pool.solo_of_none fun x hx htmp => ?_
    rw [List.eq_of_mem_replicate hx] at htmp
    cases htmp

theorem Stopped.tmp {threads n : ℕ} {queue : List (Option Entry)} {workers : List Worker}
    (h : Stopped threads n queue workers) : ∀ x ∈ workers, x.tmp = none := by
  intro x hx
  have hfree := h.free x hx
  cases x <;> first | rfl | cases hfree

theorem Inv.main {m : MainMove} (h : Inv cfg s) (hs : MainStep cfg s m s') : Inv cfg s' := by
  have hphased := hs.phased h.length h.phased
  cases hs with
  | put e left hmain _ =>
      have htodo := h.todo
      rw [hmain] at htodo
      refine ⟨h.length, hphased, fun e' he' => htodo e' (List.mem_cons_of_mem e he'),
        fun e' he' => ?_, h.taken, h.there, h.own⟩
      rcases List.mem_append.mp he' with he' | he'
      · exact h.queued e' he'
      · rw [Option.some.inj (List.mem_singleton.mp he')]
        exact htodo e List.mem_cons_self
  | skip e left hmain _ =>
      have htodo := h.todo
      rw [hmain] at htodo
      exact ⟨h.length, hphased, fun e' he' => htodo e' (List.mem_cons_of_mem e he'), h.queued,
        h.taken, h.there, h.own⟩
  | raise _ _ => exact ⟨h.length, hphased, nofun, h.queued, h.taken, h.there, h.own⟩
  | abort _ => exact ⟨h.length, hphased, nofun, h.queued, h.taken, h.there, h.own⟩
  | join _ _ _ => exact ⟨h.length, hphased, nofun, h.queued, h.taken, h.there, h.own⟩
  | stop n _ =>
      refine ⟨h.length, hphased, nofun, fun e' he' => ?_, h.taken, h.there, h.own⟩
      rcases List.mem_append.mp he' with he' | he'
      · exact h.queued e' he'
      · cases List.mem_singleton.mp he'
  | list _ _ => exact ⟨h.length, hphased, nofun, h.queued, h.taken, h.there, h.own⟩
  | leave _ _ => exact ⟨h.length, hphased, nofun, h.queued, h.taken, h.there, h.own⟩
  | sweep path left hmain =>
      have hstopped := h.phased
      unfold Phased at hstopped
      rw [hmain] at hstopped
      refine ⟨h.length, hphased, nofun, h.queued, h.taken, fun x hx tmp htmp => ?_, h.own⟩
      cases (hstopped.tmp x hx).symm.trans htmp
  | swept _ => exact ⟨h.length, hphased, nofun, h.queued, h.taken, h.there, h.own⟩

/-- A step of the thread `w` that leaves the temporary files of the others alone. -/
theorem Inv.set {new : Worker} {queue : List (Option Entry)} {unfinished : ℕ} {tree : Tree}
    (h : Inv cfg s) (hx : s.workers[w]? = some x)
    (hphased : Phased cfg { s with queue, unfinished, tree, workers := s.workers.set w new })
    (hqueue : ∀ item ∈ queue, item ∈ s.queue)
    (htask : ∀ e, new.task = some e → e ∈ cfg.plan.entries)
    (hothers : ∀ tmp, tmp ∉ listed cfg.plan → x.tmp ≠ some tmp → s.tree.files tmp ≠ none →
      tree.files tmp ≠ none)
    (hnew : ∀ tmp, new.tmp = some tmp → tree.files tmp ≠ none ∧ tmp ∉ listed cfg.plan ∧
      (x.tmp = some tmp ∨ s.tree.files tmp = none)) :
    Inv cfg { s with queue, unfinished, tree, workers := s.workers.set w new } where
  length := List.length_set.trans h.length
  phased := hphased
  todo := h.todo
  queued e he := h.queued e (hqueue (some e) he)
  taken := Pool.forall_set h.taken htask
  there := by
    intro y hy tmp htmp
    obtain rfl | ⟨j, hwj, hj⟩ := Pool.mem_set_cases hy
    · obtain ⟨hthere, hlisted, -⟩ := hnew tmp htmp
      exact ⟨hthere, hlisted⟩
    · obtain ⟨hthere, hlisted⟩ := h.there y (List.mem_of_getElem? hj) tmp htmp
      refine ⟨hothers tmp hlisted (fun hxtmp => hwj ?_) hthere, hlisted⟩
      exact h.own tmp w j x y hx hj hxtmp htmp
  own := by
    intro tmp
    by_cases hold : new.tmp = some tmp → x.tmp = some tmp
    · exact (h.own tmp).set hx hold
    · obtain ⟨htmp, hne⟩ := Classical.not_imp.mp hold
      obtain ⟨-, -, hxtmp | hnone⟩ := hnew tmp htmp
      · exact absurd hxtmp hne
      · exact Pool.solo_set_of_none fun y hy hytmp => (h.there y hy tmp hytmp).1 hnone

theorem mem_listed {p : Plan} {e : Entry} (h : e ∈ p.entries) : e.dst ∈ listed p :=
  List.mem_map_of_mem h

/-- A step of a thread leaves the other files that are there and not listed alone. -/
theorem Inv.frame {m : WorkerMove} {path : String} (h : Inv cfg s) (hx : s.workers[w]? = some x)
    (hs : WorkerStep cfg s w x m s') (hlisted : path ∉ listed cfg.plan) (hpath : x.tmp ≠ some path)
    (hthere : s.tree.files path ≠ none) : s'.tree.files path = s.tree.files path := by
  have hdst : ∀ e, x.task = some e → path ≠ e.dst := fun e he heq =>
    hlisted (heq ▸ mem_listed (h.taken x (List.mem_of_getElem? hx) e he))
  have htmp : ∀ tmp, x.tmp = some tmp → path ≠ tmp := fun tmp htmp heq => hpath (heq ▸ htmp)
  cases hs with
  | create e rand now _ hnone _ => exact Tree.files_put_ne fun heq => hthere (heq ▸ hnone)
  | write e tmp left n _ _ => exact Tree.files_write_ne (htmp tmp rfl)
  | store e tmp left file _ _ =>
      exact (Tree.files_put_ne (hdst e rfl)).trans (Tree.files_unlink_ne (htmp tmp rfl))
  | drop e tmp ok =>
      cases ok with
      | true => exact Tree.files_unlink_ne (htmp tmp rfl)
      | false => rfl
  | remove e => exact Tree.files_unlink_ne (hdst e rfl)
  | _ => rfl

theorem Inv.worker {m : WorkerMove} (h : Inv cfg s) (hx : s.workers[w]? = some x)
    (hs : WorkerStep cfg s w x m s') : Inv cfg s' := by
  have hphased := hs.phased hx h.phased
  have hframe : ∀ path, path ∉ listed cfg.plan → x.tmp ≠ some path → s.tree.files path ≠ none →
      s'.tree.files path ≠ none := by
    intro path hlisted hpath hthere
    rwa [h.frame hx hs hlisted hpath hthere]
  have hentry : ∀ e, x.task = some e → e ∈ cfg.plan.entries :=
    h.taken x (List.mem_of_getElem? hx)
  have hmine : ∀ tmp, x.tmp = some tmp → s.tree.files tmp ≠ none ∧ tmp ∉ listed cfg.plan :=
    h.there x (List.mem_of_getElem? hx)
  cases hs with
  | take e queue hqueue =>
      refine h.set hx hphased (fun item hitem => ?_) (fun e' he' => ?_) hframe nofun
      · rw [hqueue]
        exact List.mem_cons_of_mem _ hitem
      · rw [← Option.some.inj he']
        exact h.queued e (hqueue ▸ List.mem_cons_self)
  | quit queue hqueue =>
      refine h.set hx hphased (fun item hitem => ?_) nofun hframe nofun
      rw [hqueue]
      exact List.mem_cons_of_mem _ hitem
  | refuse e _ => exact h.set hx hphased (fun _ => id) hentry hframe nofun
  | create e rand now _ hnone hlisted =>
      refine h.set hx hphased (fun _ => id) hentry hframe fun tmp htmp => ?_
      obtain rfl := Option.some.inj htmp
      refine ⟨?_, hlisted, .inr hnone⟩
      rw [Tree.files_put_self]
      exact Option.some_ne_none _
  | write e tmp left n _ _ =>
      refine h.set hx hphased (fun _ => id) hentry hframe fun path hpath => ?_
      obtain rfl := Option.some.inj hpath
      obtain ⟨hthere, hlisted⟩ := hmine tmp rfl
      refine ⟨?_, hlisted, .inl rfl⟩
      rw [Tree.files_write_self]
      exact fun hnone => hthere (Option.map_eq_none_iff.mp hnone)
  | raise e tmp left file _ _ =>
      refine h.set hx hphased (fun _ => id) hentry hframe fun path hpath => ?_
      obtain ⟨hthere, hlisted⟩ := hmine path hpath
      exact ⟨hthere, hlisted, .inl hpath⟩
  | store e tmp left file _ _ => exact h.set hx hphased (fun _ => id) nofun hframe nofun
  | drop e tmp ok => exact h.set hx hphased (fun _ => id) hentry hframe nofun
  | remove e => exact h.set hx hphased (fun _ => id) nofun hframe nofun
  | die e => exact h.set hx hphased (fun _ => id) hentry hframe nofun
  | done => exact h.set hx hphased (fun _ => id) nofun hframe nofun

theorem step_inv {l : Label} (h : Inv cfg s) (hs : step cfg s l = some s') : Inv cfg s' := by
  obtain ⟨m, -, hs⟩ | ⟨w, x, m, -, hx, hs⟩ := step_cases hs
  · exact h.main hs
  · exact h.worker hx hs

/-- There is a name for a temporary file. -/
theorem exists_tempName (dst : String) (taken : List String) :
    ∃ rand, tempName dst rand ∉ taken := by
  obtain ⟨n, hn⟩ : ∃ n, ∀ path ∈ taken, path.toList.length < n := by
    induction taken with
    | nil => exact ⟨0, nofun⟩
    | cons path taken ih =>
        obtain ⟨n, hn⟩ := ih
        refine ⟨n + path.toList.length + 1, fun other hother => ?_⟩
        rcases List.mem_cons.mp hother with rfl | hother
        · omega
        · have hlt := hn other hother
          omega
  refine ⟨String.ofList (List.replicate n 'a'), fun hmem => ?_⟩
  have hlt := hn _ hmem
  unfold tempName at hlt
  simp only [String.toList_ofList, List.length_append, List.length_replicate] at hlt
  omega

/-- A thread that has an item can go on. -/
theorem Inv.exists_workerStep (h : Inv cfg s) (hx : s.workers[w]? = some x)
    (hbusy : x.busy = true) (halive : x.isDead = false) :
    ∃ l s', step cfg s l = some s' := by
  suffices hstep : ∃ m s', stepWorker cfg s w x m = some s' by
    obtain ⟨m, s', hs⟩ := hstep
    exact ⟨.worker w m, s', by simp only [step, hx, Option.bind_some, hs]⟩
  cases x with
  | idle => cases hbusy
  | ended => cases hbusy
  | dead e => cases halive
  | finishing => exact ⟨.done, _, rfl⟩
  | failing e => exact ⟨.remove true, _, rfl⟩
  | dropping e tmp => exact ⟨.drop true, _, rfl⟩
  | asking e =>
      cases hresponds : responds (cfg.env e.dst) with
      | false =>
          have hrefuses : refuses (cfg.env e.dst) = true := by
            unfold responds at hresponds
            unfold refuses
            split at hresponds <;> simp_all
          exact ⟨.refuse, _, if_pos hrefuses⟩
      | true =>
          obtain ⟨rand, hrand⟩ := exists_tempName e.dst (s.tree.names ++ listed cfg.plan)
          rw [List.mem_append, not_or] at hrand
          have hnone : s.tree.files (tempName e.dst rand) = none := by
            by_contra hsome
            exact hrand.1 (s.tree.covers _ hsome)
          exact ⟨.create rand 0, _, if_pos ⟨hresponds, hnone, hrand.2⟩⟩
  | writing e tmp left =>
      cases left with
      | cons b left =>
          have hle : 1 ≤ (b :: left).length := Nat.succ_le_succ (Nat.zero_le _)
          exact ⟨.write 1, _, by rw [stepWorker, if_pos ⟨Nat.one_pos, hle⟩]⟩
      | nil =>
          obtain ⟨file, hfile⟩ := Option.ne_none_iff_exists'.mp
            (h.there _ (List.mem_of_getElem? hx) tmp rfl).1
          cases hstores : stores e (cfg.env e.dst) file [] with
          | true => exact ⟨.store, by simp [stepWorker, hfile, hstores]⟩
          | false =>
              have hbreaks : breaks e (cfg.env e.dst) file [] = true := by
                unfold stores at hstores
                unfold breaks
                revert hstores
                cases (cfg.env e.dst).stored <;> cases complete (cfg.env e.dst) <;>
                  cases sized e file <;> decide
              exact ⟨.raise, by simp [stepWorker, hfile, hbreaks]⟩

/-- All threads have returned. -/
def State.Ended (s : State) : Prop := s.main = .ended ∧ ∀ x ∈ s.workers, x.hasEnded = true

/-- An exception has left `main`, or a thread is gone. -/
def State.Broken (s : State) : Prop :=
  (s.main = .raised ∨ s.main = .aborted) ∨ ∃ x ∈ s.workers, x.isDead = true

/-- The exceptions that nothing catches. -/
def Label.raises : Label → Bool
  | .main .raise => true
  | .worker _ (.remove false) => true
  | _ => false

theorem eq_idle (hbusy : x.busy = false) (hended : x.hasEnded = false) : x = .idle := by
  cases x with
  | idle => rfl
  | ended => cases hended
  | _ => cases hbusy

/-- A thread that is free takes the next item. -/
theorem exists_take {item : Option Entry} {queue : List (Option Entry)}
    (hw : s.workers[w]? = some .idle) (hqueue : s.queue = item :: queue) :
    ∃ l s', step cfg s l = some s' := by
  cases item with
  | none => exact ⟨.worker w .quit, by simp [step, hw, stepWorker, hqueue]⟩
  | some e => exact ⟨.worker w .take, by simp [step, hw, stepWorker, hqueue]⟩

/-- Behind `join` there is a `None` for every thread. -/
theorem Inv.exists_quit (h : Inv cfg s) (hstopped : Stopped cfg.threads 0 s.queue s.workers)
    (hsome : ∃ x ∈ s.workers, x.hasEnded = false) : ∃ l s', step cfg s l = some s' := by
  obtain ⟨x, hx, hended⟩ := hsome
  obtain ⟨w, hw⟩ := List.getElem?_of_mem hx
  rw [eq_idle (hstopped.free x hx) hended] at hw
  have hlt : s.workers.countP Worker.hasEnded < s.workers.length :=
    List.countP_lt_length_iff.mpr ⟨x, hx, hended⟩
  have hcount := hstopped.count
  have hlength := h.length
  cases hqueue : s.queue with
  | nil =>
      rw [hqueue, List.length_nil] at hcount
      omega
  | cons item queue => exact exists_take hw hqueue

/-- In `join`, with no thread at work. -/
theorem Inv.exists_join (h : Inv cfg s) (hthreads : 0 < cfg.threads)
    (hmain : s.main = .scanning []) (hworking : Working s.queue s.unfinished s.workers)
    (hfree : ∀ x ∈ s.workers, x.busy = false) : ∃ l s', step cfg s l = some s' := by
  cases hqueue : s.queue with
  | cons item queue =>
      have hlt : 0 < s.workers.length := h.length ▸ hthreads
      have hmem : s.workers[0] ∈ s.workers := List.getElem_mem hlt
      have hidle := eq_idle (hfree _ hmem) (hworking.running _ hmem)
      exact exists_take (List.getElem?_eq_some_iff.mpr ⟨hlt, hidle⟩) hqueue
  | nil =>
      have hzero : s.unfinished = 0 := by
        have hcount := hworking.count
        have hbusy : s.workers.countP Worker.busy = 0 := by
          rw [List.countP_eq_zero]
          intro x hx
          rw [hfree x hx]
          exact Bool.false_ne_true
        rw [hqueue, List.length_nil] at hcount
        omega
      cases hraised : cfg.plan.raised with
      | true => exact ⟨.main .raise, by simp [step, stepMain, hmain, hraised]⟩
      | false => exact ⟨.main .join, by simp [step, stepMain, hmain, hraised, hzero]⟩

theorem Inv.exists_step (h : Inv cfg s) (hthreads : 0 < cfg.threads) (hbroken : ¬ s.Broken)
    (hended : ¬ s.Ended) : ∃ l s', step cfg s l = some s' := by
  have hphased := h.phased
  unfold Phased at hphased
  cases hmain : s.main with
  | scanning left =>
      rw [hmain] at hphased
      cases left with
      | cons e left => exact ⟨.main .scan, by simp [step, stepMain, hmain]⟩
      | nil =>
          by_cases hbusy : ∃ x ∈ s.workers, x.busy = true
          · obtain ⟨x, hx, hbusy⟩ := hbusy
            obtain ⟨w, hw⟩ := List.getElem?_of_mem hx
            refine h.exists_workerStep hw hbusy (eq_false_of_ne_true fun hdead => ?_)
            exact hbroken (.inr ⟨x, hx, hdead⟩)
          · refine h.exists_join hthreads hmain hphased fun x hx => ?_
            exact eq_false_of_ne_true fun hx' => hbusy ⟨x, hx, hx'⟩
  | stopping n =>
      cases n with
      | zero => exact ⟨.main .list, by simp [step, stepMain, hmain]⟩
      | succ n => exact ⟨.main .stop, by simp [step, stepMain, hmain]⟩
  | sweeping left =>
      cases left with
      | nil => exact ⟨.main .sweep, by simp [step, stepMain, hmain]⟩
      | cons path left => exact ⟨.main .sweep, by simp [step, stepMain, hmain]⟩
  | ended =>
      rw [hmain] at hphased
      refine h.exists_quit hphased ?_
      by_contra hall
      refine hended ⟨hmain, fun x hx => ?_⟩
      by_contra hx'
      exact hall ⟨x, hx, eq_false_of_ne_true hx'⟩
  | raised => exact absurd (.inl (.inl hmain)) hbroken
  | aborted => exact absurd (.inl (.inr hmain)) hbroken

theorem MainStep.raised_iff {m : MainMove} (hs : MainStep cfg s m s') :
    ¬ (s.main = .raised ∨ s.main = .aborted) ∧ s'.workers = s.workers ∧
      ((s'.main = .raised ∨ s'.main = .aborted) ↔ (Label.main m).raises = true) := by
  cases hs with
  | abort hmain =>
      refine ⟨?_, rfl, iff_of_true (.inr rfl) rfl⟩
      obtain hmain | ⟨left, hmain⟩ := hmain
      · simp [hmain]
      · simp [hmain]
  | _ => simp_all [State.enqueue, Label.raises]

end KubeSync.ReleaseThreads
