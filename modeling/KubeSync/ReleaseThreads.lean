import KubeSync.ReleaseRun
import Mathlib.Data.List.Dedup

/-! # The threads of the release script

`main` of `github-release.py` and its `downloading_worker` threads, operation by operation: the
queue with its count of unfinished tasks, the temporary file that a download writes beside its
destination, the exceptions, and the removal of the files that are not listed.

* `main` puts the destinations that are due on the queue, waits in `join`, puts a `None` for each
  thread and deletes, one after the other, the files it has found.  An exception may leave it
  wherever it works on a file, and does so where the loop over the repositories ends with one.
* A thread asks the server, creates the temporary file, writes to it chunk by chunk, and moves it to
  the destination; behind an exception it removes the temporary file, which may fail, and then the
  destination.  Where that fails as well the thread is gone, without `task_done`.
* What the server answers is `env`.  The name of the temporary file is none that is there or listed.
* `MainStep` and `WorkerStep` have one case for each operation; what holds of every step is proved
  by these cases. -/

namespace KubeSync.ReleaseThreads

open Downloads (Bytes File Files ItemEnv Answer)
open ReleaseListing (Entry Plan)
open ReleaseRun (due)

/-! ### The working directory -/

/-- The files below the working directory, and names among which are all of theirs. -/
structure Tree where
  files : Files
  names : List String
  covers : ∀ path, files path ≠ none → path ∈ names

namespace Tree

def put (t : Tree) (path : String) (file : File) : Tree where
  files := Downloads.put t.files path file
  names := path :: t.names
  covers := by
    intro x hx
    by_cases hpath : x = path
    · exact hpath ▸ List.mem_cons_self
    · refine List.mem_cons_of_mem _ (t.covers x ?_)
      rwa [Downloads.put, Function.update_of_ne hpath] at hx

def unlink (t : Tree) (path : String) : Tree where
  files := Downloads.unlink t.files path
  names := t.names
  covers := by
    intro x hx
    by_cases hpath : x = path
    · subst hpath
      exact absurd (Function.update_self _ _ _) hx
    · refine t.covers x ?_
      rwa [Downloads.unlink, Function.update_of_ne hpath] at hx

/-- `f.write(chunk)`. -/
def write (t : Tree) (path : String) (chunk : Bytes) : Tree where
  files := Function.update t.files path
    ((t.files path).map fun file => { file with content := file.content ++ chunk })
  names := t.names
  covers := by
    intro x hx
    by_cases hpath : x = path
    · subst hpath
      refine t.covers x fun hnone => hx ?_
      rw [Function.update_self, hnone, Option.map_none]
    · refine t.covers x ?_
      rwa [Function.update_of_ne hpath] at hx

/-- What `glob('**/*')` finds. -/
def glob (t : Tree) : List String := t.names.dedup.filter fun path => (t.files path).isSome

variable {t : Tree} {path other : String} {file : File} {chunk : Bytes}

@[simp] theorem files_put_self : (t.put path file).files path = some file :=
  Function.update_self _ _ _

theorem files_put_ne (h : other ≠ path) : (t.put path file).files other = t.files other :=
  Function.update_of_ne h _ _

@[simp] theorem files_unlink_self : (t.unlink path).files path = none := Function.update_self _ _ _

theorem files_unlink_ne (h : other ≠ path) : (t.unlink path).files other = t.files other :=
  Function.update_of_ne h _ _

@[simp] theorem files_write_self : (t.write path chunk).files path =
    (t.files path).map fun file => { file with content := file.content ++ chunk } :=
  Function.update_self _ _ _

theorem files_write_ne (h : other ≠ path) : (t.write path chunk).files other = t.files other :=
  Function.update_of_ne h _ _

theorem mem_glob : path ∈ t.glob ↔ t.files path ≠ none := by
  unfold glob
  rw [List.mem_filter, List.mem_dedup, Option.isSome_iff_ne_none]
  exact and_iff_right_of_imp (t.covers path)

theorem length_glob_le (t : Tree) : t.glob.length ≤ t.names.length :=
  Nat.le_trans (List.length_filter_le _ _) (List.dedup_sublist t.names).length_le

end Tree

/-- The name that `NamedTemporaryFile` makes for a destination. -/
def tempName (dst rand : String) : String :=
  let name := (dst.toList.reverse.takeWhile (· ≠ '/')).reverse
  let parent := dst.toList.take (dst.toList.length - name.length)
  String.ofList (parent ++ ['.'] ++ name ++ ['.'] ++ rand.toList ++ ".tmp".toList)

/-! ### The threads -/

structure Config where
  plan : Plan
  fastSkip : Bool
  env : String → ItemEnv
  threads : ℕ

inductive Main where
  /-- In the loop, with these destinations before it; in `join` behind the last one. -/
  | scanning (left : List Entry)
  | stopping (n : ℕ)
  | sweeping (left : List String)
  | ended
  /-- An exception has left the loop. -/
  | raised
  /-- An exception has left the search for old files or their removal. -/
  | aborted

inductive Worker where
  | idle
  | asking (e : Entry)
  /-- The temporary file is open, and this part of the answer is still to come. -/
  | writing (e : Entry) (tmp : String) (left : Bytes)
  /-- In `finally`, with an exception. -/
  | dropping (e : Entry) (tmp : String)
  /-- In the `except` branch. -/
  | failing (e : Entry)
  /-- Before `task_done`. -/
  | finishing
  | dead (e : Entry)
  | ended

structure State where
  main : Main
  queue : List (Option Entry)
  unfinished : ℕ
  workers : List Worker
  tree : Tree

def start (cfg : Config) (tree : Tree) : State where
  main := .scanning cfg.plan.entries
  queue := []
  unfinished := 0
  workers := List.replicate cfg.threads .idle
  tree

inductive MainMove where
  | scan
  | raise
  | join
  | stop
  | list
  | sweep
deriving DecidableEq, Repr

inductive WorkerMove where
  | take
  | refuse
  | create (rand : String) (now : ℤ)
  | write (n : ℕ)
  | raise
  | store
  | drop (ok : Bool)
  | remove (ok : Bool)
  | done
  | quit
deriving DecidableEq, Repr

inductive Label where
  | main (m : MainMove)
  | worker (w : ℕ) (m : WorkerMove)
deriving DecidableEq, Repr

/-- `task_queue.put(item)`. -/
def State.enqueue (s : State) (item : Option Entry) : State :=
  { s with queue := s.queue ++ [item], unfinished := s.unfinished + 1 }

def listed (p : Plan) : List String := p.entries.map Entry.dst

/-- `set(local_filelist) - set(remote_filelist)`. -/
def oldFiles (p : Plan) (t : Tree) : List String := t.glob.filter (· ∉ listed p)

def stepMain (cfg : Config) (s : State) : MainMove → Option State
  | .scan =>
      match s.main with
      | .scanning (e :: left) =>
          let s := { s with main := .scanning left }
          some (if due cfg.fastSkip e (s.tree.files e.dst) then s.enqueue (some e) else s)
      | _ => none
  | .raise =>
      match s.main with
      | .scanning (_ :: _) => some { s with main := .raised }
      | .scanning [] => if cfg.plan.raised then some { s with main := .raised } else none
      | .stopping 0 => if cfg.plan.cleaning then some { s with main := .aborted } else none
      | .sweeping _ => some { s with main := .aborted }
      | _ => none
  | .join =>
      match s.main with
      | .scanning [] =>
          if cfg.plan.raised = false ∧ s.unfinished = 0 then
            some { s with main := .stopping cfg.threads }
          else none
      | _ => none
  | .stop =>
      match s.main with
      | .stopping (n + 1) => some ({ s with main := .stopping n }.enqueue none)
      | _ => none
  | .list =>
      match s.main with
      | .stopping 0 =>
          some { s with main :=
            if cfg.plan.cleaning then .sweeping (oldFiles cfg.plan s.tree) else .ended }
      | _ => none
  | .sweep =>
      match s.main with
      | .sweeping (path :: left) =>
          some { s with main := .sweeping left, tree := s.tree.unlink path }
      | .sweeping [] => some { s with main := .ended }
      | _ => none

def State.setWorker (s : State) (w : ℕ) (x : Worker) : State :=
  { s with workers := s.workers.set w x }

/-- The bytes that come before the end of an answer. -/
def received : Answer → Bytes
  | .error => []
  | .aborted part => part
  | .body content => content

/-- The request, or the creation of the temporary file, raises an exception. -/
def refuses (env : ItemEnv) : Bool :=
  match env.answer with
  | .error => true
  | _ => !env.stored

/-- The server sends a body. -/
def responds (env : ItemEnv) : Bool :=
  match env.answer with
  | .error => false
  | _ => true

/-- The check of the size of the temporary file. -/
def sized (e : Entry) (file : File) : Bool :=
  decide (e.item.remoteSize = -1 ∨ (file.content.length : ℤ) = e.item.remoteSize)

/-- Behind its last byte the answer ends without an error. -/
def complete (env : ItemEnv) : Bool :=
  match env.answer with
  | .body _ => true
  | _ => false

/-- The temporary file is moved to its destination. -/
def stores (e : Entry) (env : ItemEnv) (file : File) (left : Bytes) : Bool :=
  left.isEmpty && complete env && env.stored && sized e file

/-- An operation on the temporary file, the connection or the check of the size raises an
exception. -/
def breaks (e : Entry) (env : ItemEnv) (file : File) (left : Bytes) : Bool :=
  !env.stored || left.isEmpty && !(complete env && sized e file)

def stepWorker (cfg : Config) (s : State) (w : ℕ) : Worker → WorkerMove → Option State
  | .idle, .take =>
      match s.queue with
      | some e :: queue => some ({ s with queue }.setWorker w (.asking e))
      | _ => none
  | .idle, .quit =>
      match s.queue with
      | none :: queue => some ({ s with queue }.setWorker w .ended)
      | _ => none
  | .asking e, .refuse =>
      if refuses (cfg.env e.dst) then some (s.setWorker w (.failing e)) else none
  | .asking e, .create rand now =>
      let tmp := tempName e.dst rand
      if responds (cfg.env e.dst) ∧ s.tree.files tmp = none ∧ tmp ∉ listed cfg.plan then
        some ({ s with tree := s.tree.put tmp ⟨[], now⟩ }.setWorker w
          (.writing e tmp (received (cfg.env e.dst).answer)))
      else none
  | .writing e tmp left, .write n =>
      if 0 < n ∧ n ≤ left.length then
        some ({ s with tree := s.tree.write tmp (left.take n) }.setWorker w
          (.writing e tmp (left.drop n)))
      else none
  | .writing e tmp left, .raise =>
      (s.tree.files tmp).bind fun file =>
        if breaks e (cfg.env e.dst) file left then some (s.setWorker w (.dropping e tmp)) else none
  | .writing e tmp left, .store =>
      (s.tree.files tmp).bind fun file =>
        if stores e (cfg.env e.dst) file left then
          some ({ s with tree := (s.tree.unlink tmp).put e.dst ⟨file.content, e.item.updated⟩
                  }.setWorker w .finishing)
        else none
  | .dropping e tmp, .drop ok =>
      some ({ s with tree := if ok then s.tree.unlink tmp else s.tree }.setWorker w (.failing e))
  | .failing e, .remove ok =>
      if ok then some ({ s with tree := s.tree.unlink e.dst }.setWorker w .finishing)
      else some (s.setWorker w (.dead e))
  | .finishing, .done => some ({ s with unfinished := s.unfinished - 1 }.setWorker w .idle)
  | _, _ => none

def step (cfg : Config) (s : State) : Label → Option State
  | .main m => stepMain cfg s m
  | .worker w m => s.workers[w]?.bind fun x => stepWorker cfg s w x m

/-! ### What the steps do -/

variable {cfg : Config} {s s' : State} {w : ℕ} {x : Worker}

/-- The steps of `main`. -/
inductive MainStep (cfg : Config) (s : State) : MainMove → State → Prop
  | put (e : Entry) (left : List Entry) : s.main = .scanning (e :: left) →
      due cfg.fastSkip e (s.tree.files e.dst) = true →
      MainStep cfg s .scan ({ s with main := .scanning left }.enqueue (some e))
  | skip (e : Entry) (left : List Entry) : s.main = .scanning (e :: left) →
      due cfg.fastSkip e (s.tree.files e.dst) = false →
      MainStep cfg s .scan { s with main := .scanning left }
  | raise (left : List Entry) : s.main = .scanning left →
      MainStep cfg s .raise { s with main := .raised }
  | abort : (s.main = .stopping 0 ∨ ∃ left, s.main = .sweeping left) →
      MainStep cfg s .raise { s with main := .aborted }
  | join : s.main = .scanning [] → cfg.plan.raised = false → s.unfinished = 0 →
      MainStep cfg s .join { s with main := .stopping cfg.threads }
  | stop (n : ℕ) : s.main = .stopping (n + 1) →
      MainStep cfg s .stop ({ s with main := .stopping n }.enqueue none)
  | list : s.main = .stopping 0 → cfg.plan.cleaning = true →
      MainStep cfg s .list { s with main := .sweeping (oldFiles cfg.plan s.tree) }
  | leave : s.main = .stopping 0 → cfg.plan.cleaning = false →
      MainStep cfg s .list { s with main := .ended }
  | sweep (path : String) (left : List String) : s.main = .sweeping (path :: left) →
      MainStep cfg s .sweep { s with main := .sweeping left, tree := s.tree.unlink path }
  | swept : s.main = .sweeping [] → MainStep cfg s .sweep { s with main := .ended }

/-- The steps of a thread. -/
inductive WorkerStep (cfg : Config) (s : State) (w : ℕ) : Worker → WorkerMove → State → Prop
  | take (e : Entry) (queue : List (Option Entry)) : s.queue = some e :: queue →
      WorkerStep cfg s w .idle .take ({ s with queue }.setWorker w (.asking e))
  | quit (queue : List (Option Entry)) : s.queue = none :: queue →
      WorkerStep cfg s w .idle .quit ({ s with queue }.setWorker w .ended)
  | refuse (e : Entry) : refuses (cfg.env e.dst) = true →
      WorkerStep cfg s w (.asking e) .refuse (s.setWorker w (.failing e))
  | create (e : Entry) (rand : String) (now : ℤ) : responds (cfg.env e.dst) = true →
      s.tree.files (tempName e.dst rand) = none → tempName e.dst rand ∉ listed cfg.plan →
      WorkerStep cfg s w (.asking e) (.create rand now)
        ({ s with tree := s.tree.put (tempName e.dst rand) ⟨[], now⟩ }.setWorker w
          (.writing e (tempName e.dst rand) (received (cfg.env e.dst).answer)))
  | write (e : Entry) (tmp : String) (left : Bytes) (n : ℕ) : 0 < n → n ≤ left.length →
      WorkerStep cfg s w (.writing e tmp left) (.write n)
        ({ s with tree := s.tree.write tmp (left.take n) }.setWorker w
          (.writing e tmp (left.drop n)))
  | raise (e : Entry) (tmp : String) (left : Bytes) (file : File) :
      s.tree.files tmp = some file → breaks e (cfg.env e.dst) file left = true →
      WorkerStep cfg s w (.writing e tmp left) .raise (s.setWorker w (.dropping e tmp))
  | store (e : Entry) (tmp : String) (left : Bytes) (file : File) :
      s.tree.files tmp = some file → stores e (cfg.env e.dst) file left = true →
      WorkerStep cfg s w (.writing e tmp left) .store
        ({ s with tree := (s.tree.unlink tmp).put e.dst ⟨file.content, e.item.updated⟩
           }.setWorker w .finishing)
  | drop (e : Entry) (tmp : String) (ok : Bool) :
      WorkerStep cfg s w (.dropping e tmp) (.drop ok)
        ({ s with tree := if ok then s.tree.unlink tmp else s.tree }.setWorker w (.failing e))
  | remove (e : Entry) :
      WorkerStep cfg s w (.failing e) (.remove true)
        ({ s with tree := s.tree.unlink e.dst }.setWorker w .finishing)
  | die (e : Entry) :
      WorkerStep cfg s w (.failing e) (.remove false) (s.setWorker w (.dead e))
  | done :
      WorkerStep cfg s w .finishing .done
        ({ s with unfinished := s.unfinished - 1 }.setWorker w .idle)

theorem stepMain_cases {m : MainMove} (h : stepMain cfg s m = some s') : MainStep cfg s m s' := by
  cases m with
  | scan =>
      simp only [stepMain] at h
      split at h
      · rename_i e left hmain
        obtain rfl := Option.some.inj h
        split
        · rename_i hdue
          exact .put e left hmain hdue
        · rename_i hdue
          exact .skip e left hmain (eq_false_of_ne_true hdue)
      · cases h
  | raise =>
      simp only [stepMain] at h
      split at h
      · rename_i e left hmain
        obtain rfl := Option.some.inj h
        exact .raise (e :: left) hmain
      · rename_i hmain
        obtain ⟨-, h⟩ := Option.ite_none_right_eq_some.mp h
        obtain rfl := Option.some.inj h
        exact .raise [] hmain
      · rename_i hmain
        obtain ⟨-, h⟩ := Option.ite_none_right_eq_some.mp h
        obtain rfl := Option.some.inj h
        exact .abort (.inl hmain)
      · rename_i left hmain
        obtain rfl := Option.some.inj h
        exact .abort (.inr ⟨left, hmain⟩)
      · cases h
  | join =>
      simp only [stepMain] at h
      split at h
      · rename_i hmain
        obtain ⟨⟨hraised, hzero⟩, h⟩ := Option.ite_none_right_eq_some.mp h
        obtain rfl := Option.some.inj h
        exact .join hmain hraised hzero
      · cases h
  | stop =>
      simp only [stepMain] at h
      split at h
      · rename_i n hmain
        obtain rfl := Option.some.inj h
        exact .stop n hmain
      · cases h
  | list =>
      simp only [stepMain] at h
      split at h
      · rename_i hmain
        obtain rfl := Option.some.inj h
        cases hclean : cfg.plan.cleaning with
        | true => exact .list hmain hclean
        | false => exact .leave hmain hclean
      · cases h
  | sweep =>
      simp only [stepMain] at h
      split at h
      · rename_i path left hmain
        obtain rfl := Option.some.inj h
        exact .sweep path left hmain
      · rename_i hmain
        obtain rfl := Option.some.inj h
        exact .swept hmain
      · cases h

theorem stepWorker_cases {m : WorkerMove} (h : stepWorker cfg s w x m = some s') :
    WorkerStep cfg s w x m s' := by
  unfold stepWorker at h
  split at h
  · split at h
    · rename_i e queue hqueue
      obtain rfl := Option.some.inj h
      exact .take e queue hqueue
    · cases h
  · split at h
    · rename_i queue hqueue
      obtain rfl := Option.some.inj h
      exact .quit queue hqueue
    · cases h
  · obtain ⟨hrefuses, h⟩ := Option.ite_none_right_eq_some.mp h
    obtain rfl := Option.some.inj h
    exact .refuse _ hrefuses
  · obtain ⟨⟨hresponds, hnone, hlisted⟩, h⟩ := Option.ite_none_right_eq_some.mp h
    obtain rfl := Option.some.inj h
    exact .create _ _ _ hresponds hnone hlisted
  · obtain ⟨⟨hpos, hle⟩, h⟩ := Option.ite_none_right_eq_some.mp h
    obtain rfl := Option.some.inj h
    exact .write _ _ _ _ hpos hle
  · obtain ⟨file, hfile, h⟩ := Option.bind_eq_some_iff.mp h
    obtain ⟨hbreaks, h⟩ := Option.ite_none_right_eq_some.mp h
    obtain rfl := Option.some.inj h
    exact .raise _ _ _ file hfile hbreaks
  · obtain ⟨file, hfile, h⟩ := Option.bind_eq_some_iff.mp h
    obtain ⟨hstores, h⟩ := Option.ite_none_right_eq_some.mp h
    obtain rfl := Option.some.inj h
    exact .store _ _ _ file hfile hstores
  · obtain rfl := Option.some.inj h
    exact .drop _ _ _
  · split at h
    · rename_i hok
      obtain rfl := Option.some.inj h
      rw [hok]
      exact .remove _
    · rename_i hok
      obtain rfl := Option.some.inj h
      rw [eq_false_of_ne_true hok]
      exact .die _
  · obtain rfl := Option.some.inj h
    exact .done
  · cases h

/-- A step is one of `main`, or one of a thread. -/
theorem step_cases {l : Label} (h : step cfg s l = some s') :
    (∃ m, l = .main m ∧ MainStep cfg s m s') ∨
      ∃ w x m, l = .worker w m ∧ s.workers[w]? = some x ∧ WorkerStep cfg s w x m s' := by
  cases l with
  | main m => exact .inl ⟨m, rfl, stepMain_cases h⟩
  | worker w m =>
      obtain ⟨x, hx, h⟩ := Option.bind_eq_some_iff.mp h
      exact .inr ⟨w, x, m, rfl, hx, stepWorker_cases h⟩

end KubeSync.ReleaseThreads
