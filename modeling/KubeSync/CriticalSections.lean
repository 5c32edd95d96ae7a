import KubeSync.Lts
import Mathlib.Data.List.Induction
import Mathlib.Data.List.Nodup
import Mathlib.Logic.Function.Basic

/-! # Critical sections

Threads that work on a common store under a readers-writer lock.  The code of a thread is a
sequence of atomic operations on the store (`Act`), and between two of them any other thread may
move that the lock admits.

* A thread that takes the lock for reading does not change the store, one that takes no lock
  does not look at it either (`Call`).
* `after calls s order` is the store when the calls of `order` are made one after the other from
  `s`, each without an interruption.
* `serial_of_run`: every run is equivalent to that.  The order is the one in which the threads were
  admitted, so that a thread that was answered before another one started comes before it.
* `exists_step` and `moves_le`: as long as a thread waits for its answer some thread can move, and
  a thread with at most `n` operations makes at most `n + 2` moves. -/

namespace CriticalSections

variable {ι σ ρ : Type*}

/-- Code that works on a store: it returns a value, or performs an operation and goes on with the
store that it has found. -/
inductive Act (σ ρ : Type*) where
  | ret (r : ρ)
  | op (f : σ → σ) (k : σ → Act σ ρ)

namespace Act

/-- The code without an interruption. -/
def exec : Act σ ρ → σ → σ × ρ
  | .ret r, s => (s, r)
  | .op f k, s => (k s).exec (f s)

/-- The code does not change the store. -/
def Reads : Act σ ρ → Prop
  | .ret _ => True
  | .op f k => ∀ s, f s = s ∧ (k s).Reads

/-- The code does not change the store, and returns `r` whatever is in it. -/
def Yields (r : ρ) : Act σ ρ → Prop
  | .ret r' => r' = r
  | .op f k => ∀ s, f s = s ∧ (k s).Yields r

/-- The code performs at most so many operations. -/
def Within : ℕ → Act σ ρ → Prop
  | _, .ret _ => True
  | 0, .op _ _ => False
  | n + 1, .op _ k => ∀ s, (k s).Within n

theorem Reads.exec {a : Act σ ρ} (h : a.Reads) (s : σ) : (a.exec s).1 = s := by
  induction a generalizing s with
  | ret r => rfl
  | op f k ih =>
      obtain ⟨hf, hk⟩ := h s
      have hstore : ((Act.op f k).exec s).1 = ((k s).exec (f s)).1 := rfl
      rw [hstore, hf]
      exact ih s hk s

theorem Yields.exec {a : Act σ ρ} {r : ρ} (h : a.Yields r) (s : σ) : a.exec s = (s, r) := by
  induction a generalizing s with
  | ret r' =>
      obtain rfl : r' = r := h
      rfl
  | op f k ih =>
      obtain ⟨hf, hk⟩ := h s
      have hstore : (Act.op f k).exec s = (k s).exec (f s) := rfl
      rw [hstore, hf]
      exact ih s hk s

end Act

inductive Mode where
  | free
  | read
  | write
deriving DecidableEq, Repr

/-- The code of a thread with the lock that it takes around it. -/
structure Call (σ ρ : Type*) where
  mode : Mode
  code : Act σ ρ
  reads : mode = .read → code.Reads
  yields : mode = .free → ∃ r, code.Yields r

inductive Thread (σ ρ : Type*) where
  | waiting
  | inside (rest : Act σ ρ)
  | answered (r : ρ)

/-- The store, the holders of the lock, and the threads. -/
structure State (ι σ ρ : Type*) where
  store : σ
  writer : Option ι
  readers : List ι
  threads : ι → Thread σ ρ

inductive Move (ι : Type*) where
  | enter (i : ι)
  | exec (i : ι)
  | leave (i : ι)

def start (s₀ : σ) : State ι σ ρ where
  store := s₀
  writer := none
  readers := []
  threads _ := .waiting

section

variable [DecidableEq ι] (calls : ι → Call σ ρ)

def step (s : State ι σ ρ) : Move ι → Option (State ι σ ρ)
  | .enter i =>
      match s.threads i with
      | .waiting =>
          let s' := { s with threads := Function.update s.threads i (.inside (calls i).code) }
          match (calls i).mode with
          | .free => some s'
          | .read => if s.writer = none then some { s' with readers := i :: s.readers } else none
          | .write =>
              if s.writer = none ∧ s.readers = [] then some { s' with writer := some i } else none
      | _ => none
  | .exec i =>
      match s.threads i with
      | .inside (.op f k) =>
          some { s with
            store := f s.store
            threads := Function.update s.threads i (.inside (k s.store)) }
      | _ => none
  | .leave i =>
      match s.threads i with
      | .inside (.ret r) =>
          let s' := { s with threads := Function.update s.threads i (.answered r) }
          match (calls i).mode with
          | .free => some s'
          | .read => some { s' with readers := s.readers.erase i }
          | .write => some { s' with writer := none }
      | _ => none

end

/-- Whose move it is. -/
def Move.thread : Move ι → ι
  | .enter i | .exec i | .leave i => i

/-- The threads in the order in which they were admitted. -/
def entered : List (Move ι) → List ι :=
  List.filterMap fun m =>
    match m with
    | .enter i => some i
    | _ => none

variable (calls : ι → Call σ ρ)

/-- The calls of `order`, one after the other. -/
def after (s : σ) (order : List ι) : σ :=
  order.foldl (fun s i => ((calls i).code.exec s).1) s

/-- `i` is in `order`, and its answer there is `r`. -/
def Answers (s₀ : σ) (order : List ι) (i : ι) (r : ρ) : Prop :=
  ∃ pre post, order = pre ++ i :: post ∧ ((calls i).code.exec (after calls s₀ pre)).2 = r

variable {calls} {s₀ : σ} {order : List ι}

theorem after_concat (i : ι) :
    after calls s₀ (order ++ [i]) = ((calls i).code.exec (after calls s₀ order)).1 := by
  unfold after
  rw [List.foldl_append]
  rfl

theorem after_concat_same {i : ι} (h : (calls i).mode ≠ .write) :
    after calls s₀ (order ++ [i]) = after calls s₀ order := by
  rw [after_concat]
  cases hmode : (calls i).mode with
  | free =>
      obtain ⟨r, hr⟩ := (calls i).yields hmode
      rw [hr.exec]
  | read => exact ((calls i).reads hmode).exec _
  | write => exact absurd hmode h

theorem after_append_free {post : List ι} (h : ∀ j ∈ post, (calls j).mode = .free) :
    after calls s₀ (order ++ post) = after calls s₀ order := by
  induction post generalizing order with
  | nil => rw [List.append_nil]
  | cons j post ih =>
      have hj : (calls j).mode ≠ .write := by
        rw [h j List.mem_cons_self]
        decide
      rw [List.append_cons, ih fun x hx => h x (List.mem_cons_of_mem j hx), after_concat_same hj]

theorem Answers.append {i : ι} {r : ρ} (h : Answers calls s₀ order i r) (more : List ι) :
    Answers calls s₀ (order ++ more) i r := by
  obtain ⟨pre, post, rfl, hr⟩ := h
  exact ⟨pre, post ++ more, by simp, hr⟩

theorem Answers.last {i : ι} {r : ρ} (h : ((calls i).code.exec (after calls s₀ order)).2 = r) :
    Answers calls s₀ (order ++ [i]) i r := ⟨order, [], rfl, h⟩

/-! ### What a move does -/

section

variable [DecidableEq ι] {s s' : State ι σ ρ} {m : Move ι}

/-- The state with `i` admitted. -/
def State.lock (calls : ι → Call σ ρ) (s : State ι σ ρ) (i : ι) : State ι σ ρ :=
  { s with
    threads := Function.update s.threads i (.inside (calls i).code)
    writer := if (calls i).mode = .write then some i else s.writer
    readers := if (calls i).mode = .read then i :: s.readers else s.readers }

/-- The state with `i` answered. -/
def State.release (calls : ι → Call σ ρ) (s : State ι σ ρ) (i : ι) (r : ρ) : State ι σ ρ :=
  { s with
    threads := Function.update s.threads i (.answered r)
    writer := if (calls i).mode = .write then none else s.writer
    readers := if (calls i).mode = .read then s.readers.erase i else s.readers }

theorem step_cases (h : step calls s m = some s') :
    (∃ i, m = .enter i ∧ s.threads i = .waiting ∧ s' = s.lock calls i ∧
      ((calls i).mode = .read → s.writer = none) ∧
      ((calls i).mode = .write → s.writer = none ∧ s.readers = [])) ∨
    (∃ i f k, m = .exec i ∧ s.threads i = .inside (.op f k) ∧
      s' = { s with
        store := f s.store
        threads := Function.update s.threads i (.inside (k s.store)) }) ∨
    (∃ i r, m = .leave i ∧ s.threads i = .inside (.ret r) ∧ s' = s.release calls i r) := by
  cases m with
  | enter i =>
      simp only [step] at h
      split at h
      · rename_i hwait
        refine .inl ⟨i, rfl, hwait, ?_⟩
        split at h
        · rename_i hmode
          obtain rfl := Option.some.inj h
          simp [State.lock, hmode]
        · rename_i hmode
          split at h
          · rename_i hwriter
            obtain rfl := Option.some.inj h
            simp [State.lock, hmode, hwriter]
          · cases h
        · rename_i hmode
          split at h
          · rename_i hfree
            obtain rfl := Option.some.inj h
            simp [State.lock, hmode, hfree]
          · cases h
      · cases h
  | exec i =>
      simp only [step] at h
      split at h
      · rename_i f k hop
        exact .inr (.inl ⟨i, f, k, rfl, hop, (Option.some.inj h).symm⟩)
      · cases h
  | leave i =>
      simp only [step] at h
      split at h
      · rename_i r hret
        refine .inr (.inr ⟨i, r, rfl, hret, ?_⟩)
        split at h
        all_goals
          rename_i hmode
          obtain rfl := Option.some.inj h
          simp [State.release, hmode]
      · cases h

/-! ### The invariant -/

/-- What a thread inside has left answers as its whole code did when it was admitted. -/
structure Sound (calls : ι → Call σ ρ) (s₀ : σ) (order : List ι) (s : State ι σ ρ) : Prop where
  /-- Without a writer, the store is that of the calls one after the other. -/
  quiet : s.writer = none → s.store = after calls s₀ order
  exclusive : s.writer ≠ none → s.readers = []
  /-- The writer was admitted last, but for threads that take no lock. -/
  writing : ∀ i, s.writer = some i → (calls i).mode = .write ∧ ∃ pre post rest,
    order = pre ++ i :: post ∧ (∀ j ∈ post, (calls j).mode = .free) ∧
    s.threads i = .inside rest ∧ rest.exec s.store = (calls i).code.exec (after calls s₀ pre)
  holds : ∀ i rest, s.threads i = .inside rest →
    ((calls i).mode = .write → s.writer = some i) ∧ ((calls i).mode = .read → i ∈ s.readers)
  reading : ∀ i rest, s.threads i = .inside rest → (calls i).mode = .read →
    rest.Reads ∧ Answers calls s₀ order i (rest.exec s.store).2
  free : ∀ i rest, s.threads i = .inside rest → (calls i).mode = .free →
    ∃ r, rest.Yields r ∧ Answers calls s₀ order i r
  answered : ∀ i r, s.threads i = .answered r → Answers calls s₀ order i r

omit [DecidableEq ι] in
theorem sound_start : Sound calls s₀ [] (start s₀) where
  quiet := fun _ => rfl
  exclusive := fun _ => rfl
  writing := fun _ h => by cases h
  holds := fun _ _ h => by cases h
  reading := fun _ _ h => by cases h
  free := fun _ _ h => by cases h
  answered := fun _ _ h => by cases h

omit [DecidableEq ι] in
/-- A reader inside keeps writers out. -/
theorem Sound.writer_none (hs : Sound calls s₀ order s) {i : ι} {rest : Act σ ρ}
    (hi : s.threads i = .inside rest) (hmode : (calls i).mode = .read) : s.writer = none := by
  by_contra hne
  have hmem := (hs.holds i rest hi).2 hmode
  rw [hs.exclusive hne] at hmem
  cases hmem

theorem lock_threads {i j : ι} (h : j ≠ i) : (s.lock calls i).threads j = s.threads j :=
  Function.update_of_ne h _ _

theorem lock_self (i : ι) : (s.lock calls i).threads i = .inside (calls i).code :=
  Function.update_self _ _ _

/-- The answers that were given stay, and no answer is given by an admission. -/
theorem Sound.lock_answered (hs : Sound calls s₀ order s) {i j : ι} {r : ρ}
    (hj : (s.lock calls i).threads j = .answered r) : Answers calls s₀ (order ++ [i]) j r := by
  have hji : j ≠ i := by
    rintro rfl
    rw [lock_self] at hj
    cases hj
  rw [lock_threads hji] at hj
  exact (hs.answered j r hj).append [i]

theorem Sound.lock_free (hs : Sound calls s₀ order s) {i j : ι} {rest : Act σ ρ}
    (hj : (s.lock calls i).threads j = .inside rest) (hm : (calls j).mode = .free) :
    ∃ r, rest.Yields r ∧ Answers calls s₀ (order ++ [i]) j r := by
  by_cases hji : j = i
  · subst hji
    rw [lock_self] at hj
    obtain rfl := Thread.inside.inj hj
    obtain ⟨r, hr⟩ := (calls j).yields hm
    exact ⟨r, hr, Answers.last (by rw [hr.exec])⟩
  · rw [lock_threads hji] at hj
    obtain ⟨r, hyields, hans⟩ := hs.free j rest hj hm
    exact ⟨r, hyields, hans.append [i]⟩

theorem sound_enter_write (hs : Sound calls s₀ order s) {i : ι}
    (hmode : (calls i).mode = .write) (hwriter : s.writer = none) (hreaders : s.readers = []) :
    Sound calls s₀ (order ++ [i]) (s.lock calls i) := by
  have hother : ∀ j rest, j ≠ i → (s.lock calls i).threads j = .inside rest →
      (calls j).mode = .free := by
    intro j rest hji hj
    rw [lock_threads hji] at hj
    obtain ⟨hw, hr⟩ := hs.holds j rest hj
    cases hm : (calls j).mode with
    | free => rfl
    | read =>
        have hmem := hr hm
        rw [hreaders] at hmem
        cases hmem
    | write =>
        have hsome := hw hm
        rw [hwriter] at hsome
        cases hsome
  refine ⟨?_, ?_, ?_, ?_, ?_, fun j rest => hs.lock_free, fun j r => hs.lock_answered⟩
  · intro h
    simp [State.lock, hmode] at h
  · intro _
    simp [State.lock, hmode, hreaders]
  · intro j hj
    obtain rfl : i = j := by simpa [State.lock, hmode] using hj
    refine ⟨hmode, order, [], (calls i).code, rfl, by simp, lock_self i, ?_⟩
    have hstore : (s.lock calls i).store = s.store := rfl
    rw [hstore, hs.quiet hwriter]
  · intro j rest hj
    by_cases hji : j = i
    · subst hji
      simp [State.lock, hmode]
    · simp [hother j rest hji hj]
  · intro j rest hj hm
    by_cases hji : j = i
    · rw [hji, hmode] at hm
      cases hm
    · rw [hother j rest hji hj] at hm
      cases hm

theorem sound_enter_read (hs : Sound calls s₀ order s) {i : ι}
    (hmode : (calls i).mode = .read) (hwriter : s.writer = none) :
    Sound calls s₀ (order ++ [i]) (s.lock calls i) := by
  have hlock : (s.lock calls i).writer = none := by simp [State.lock, hmode, hwriter]
  refine ⟨fun _ => ?_, fun h => absurd hlock h, fun j h => ?_, ?_, ?_,
    fun j rest => hs.lock_free, fun j r => hs.lock_answered⟩
  · rw [after_concat_same (by rw [hmode]; decide)]
    exact hs.quiet hwriter
  · rw [hlock] at h
    cases h
  · intro j rest hj
    by_cases hji : j = i
    · subst hji
      simp [State.lock, hmode]
    · rw [lock_threads hji] at hj
      obtain ⟨hw, hr⟩ := hs.holds j rest hj
      refine ⟨fun hm => ?_, fun hm => ?_⟩
      · rw [hwriter] at hw
        cases hw hm
      · simp [State.lock, hmode, hr hm]
  · intro j rest hj hm
    by_cases hji : j = i
    · subst hji
      rw [lock_self] at hj
      obtain rfl := Thread.inside.inj hj
      refine ⟨(calls j).reads hmode, Answers.last ?_⟩
      have hstore : (s.lock calls j).store = s.store := rfl
      rw [hstore, hs.quiet hwriter]
    · rw [lock_threads hji] at hj
      obtain ⟨hreads, hans⟩ := hs.reading j rest hj hm
      exact ⟨hreads, hans.append [i]⟩

theorem sound_enter_free (hs : Sound calls s₀ order s) {i : ι}
    (hmode : (calls i).mode = .free) : Sound calls s₀ (order ++ [i]) (s.lock calls i) := by
  have hwriter : (s.lock calls i).writer = s.writer := by simp [State.lock, hmode]
  have hreaders : (s.lock calls i).readers = s.readers := by simp [State.lock, hmode]
  have hne : ∀ j, (calls j).mode ≠ .free → j ≠ i := by
    rintro j hm rfl
    exact hm hmode
  refine ⟨fun h => ?_, fun h => ?_, fun j h => ?_, ?_, ?_, fun j rest => hs.lock_free,
    fun j r => hs.lock_answered⟩
  · rw [after_concat_same (by rw [hmode]; decide)]
    exact hs.quiet (hwriter ▸ h)
  · rw [hreaders]
    exact hs.exclusive (hwriter ▸ h)
  · obtain ⟨hm, pre, post, rest, rfl, hfree, hj, hexec⟩ := hs.writing j (hwriter ▸ h)
    have hji : j ≠ i := hne j (by rw [hm]; decide)
    refine ⟨hm, pre, post ++ [i], rest, by simp, ?_, by rw [lock_threads hji]; exact hj, hexec⟩
    intro x hx
    rcases List.mem_append.mp hx with hx | hx
    · exact hfree x hx
    · rw [List.mem_singleton.mp hx]
      exact hmode
  · intro j rest hj
    rw [hwriter, hreaders]
    by_cases hji : j = i
    · subst hji
      simp [hmode]
    · rw [lock_threads hji] at hj
      exact hs.holds j rest hj
  · intro j rest hj hm
    rw [lock_threads (hne j (by rw [hm]; decide))] at hj
    obtain ⟨hreads, hans⟩ := hs.reading j rest hj hm
    exact ⟨hreads, hans.append [i]⟩

/-- An operation of a thread inside: the writer changes the store, the others do not. -/
theorem sound_exec (hs : Sound calls s₀ order s) {i : ι} {f : σ → σ} {k : σ → Act σ ρ}
    (hi : s.threads i = .inside (.op f k)) :
    Sound calls s₀ order { s with
      store := f s.store
      threads := Function.update s.threads i (.inside (k s.store)) } := by
  have hstore : (calls i).mode ≠ .write → f s.store = s.store := by
    intro hne
    cases hm : (calls i).mode with
    | free =>
        obtain ⟨r, hyields, -⟩ := hs.free i _ hi hm
        exact (hyields s.store).1
    | read => exact ((hs.reading i _ hi hm).1 s.store).1
    | write => exact absurd hm hne
  refine ⟨?_, hs.exclusive, ?_, ?_, ?_, ?_, ?_⟩
  · intro hwriter
    have hne : (calls i).mode ≠ .write := by
      intro hm
      have hsome := (hs.holds i _ hi).1 hm
      rw [hwriter] at hsome
      cases hsome
    exact (hstore hne).trans (hs.quiet hwriter)
  · intro j hj
    obtain ⟨hm, pre, post, rest, horder, hfree, hjrest, hexec⟩ := hs.writing j hj
    by_cases hji : j = i
    · subst hji
      rw [hi] at hjrest
      obtain rfl := Thread.inside.inj hjrest
      refine ⟨hm, pre, post, k s.store, horder, hfree, by simp, ?_⟩
      rw [← hexec]
      rfl
    · refine ⟨hm, pre, post, rest, horder, hfree, by simp [hji, hjrest], ?_⟩
      have hne : (calls i).mode ≠ .write := by
        intro hmi
        have hsome := (hs.holds i _ hi).1 hmi
        exact hji (Option.some.inj (hj.symm.trans hsome))
      rw [hstore hne]
      exact hexec
  · intro j rest hj
    by_cases hji : j = i
    · subst hji
      exact hs.holds j _ hi
    · exact hs.holds j rest (by simpa [hji] using hj)
  · intro j rest hj hm
    have hstore' : f s.store = s.store := by
      refine hstore fun hmi => ?_
      by_cases hji : j = i
      · rw [hji, hmi] at hm
        cases hm
      · have hnone := hs.writer_none (i := j) (by simpa [hji] using hj) hm
        rw [(hs.holds i _ hi).1 hmi] at hnone
        cases hnone
    by_cases hji : j = i
    · subst hji
      obtain rfl : k s.store = rest := by simpa using hj
      obtain ⟨hreads, hans⟩ := hs.reading j _ hi hm
      exact ⟨(hreads s.store).2, hans⟩
    · obtain ⟨hreads, hans⟩ := hs.reading j rest (by simpa [hji] using hj) hm
      refine ⟨hreads, ?_⟩
      rw [← hstore'] at hans
      exact hans
  · intro j rest hj hm
    by_cases hji : j = i
    · subst hji
      obtain rfl : k s.store = rest := by simpa using hj
      obtain ⟨r, hyields, hans⟩ := hs.free j _ hi hm
      exact ⟨r, (hyields s.store).2, hans⟩
    · exact hs.free j rest (by simpa [hji] using hj) hm
  · intro j r hj
    have hji : j ≠ i := by
      rintro rfl
      simp at hj
    exact hs.answered j r (by simpa [hji] using hj)

theorem sound_leave (hs : Sound calls s₀ order s) {i : ι} {r : ρ}
    (hi : s.threads i = .inside (.ret r)) : Sound calls s₀ order (s.release calls i r) := by
  have hold : ∀ j, j ≠ i → (s.release calls i r).threads j = s.threads j := by
    intro j hji
    simp [State.release, hji]
  have hne : ∀ j rest, (s.release calls i r).threads j = .inside rest → j ≠ i := by
    rintro j rest hj rfl
    simp [State.release] at hj
  -- the writer stays, unless it is the thread that leaves
  have hwriter : ∀ j, (s.release calls i r).writer = some j → s.writer = some j ∧ j ≠ i := by
    intro j hj
    by_cases hm : (calls i).mode = .write
    · simp [State.release, hm] at hj
    · have hsame : s.writer = some j := by simpa [State.release, hm] using hj
      refine ⟨hsame, ?_⟩
      rintro rfl
      exact hm (hs.writing j hsame).1
  have hans : Answers calls s₀ order i r := by
    cases hm : (calls i).mode with
    | free =>
        obtain ⟨r', hyields, hans⟩ := hs.free i _ hi hm
        obtain rfl : r = r' := hyields
        exact hans
    | read => exact (hs.reading i _ hi hm).2
    | write =>
        obtain ⟨-, pre, post, rest, horder, -, hrest, hexec⟩ :=
          hs.writing i ((hs.holds i _ hi).1 hm)
        rw [hi] at hrest
        obtain rfl := Thread.inside.inj hrest
        exact ⟨pre, post, horder, by rw [← hexec]; rfl⟩
  refine ⟨?_, ?_, ?_, ?_, ?_, ?_, ?_⟩
  · intro hnone
    by_cases hm : (calls i).mode = .write
    · obtain ⟨-, pre, post, rest, rfl, hfree, hrest, hexec⟩ :=
        hs.writing i ((hs.holds i _ hi).1 hm)
      rw [hi] at hrest
      obtain rfl := Thread.inside.inj hrest
      rw [List.append_cons, after_append_free hfree, after_concat, ← hexec]
      rfl
    · exact hs.quiet (by simpa [State.release, hm] using hnone)
  · intro hsome
    obtain ⟨j, hj⟩ := Option.ne_none_iff_exists'.mp hsome
    have hnil := hs.exclusive (by rw [(hwriter j hj).1]; simp)
    simp [State.release, hnil]
  · intro j hj
    obtain ⟨hsame, hji⟩ := hwriter j hj
    obtain ⟨hm, pre, post, rest, horder, hfree, hjrest, hexec⟩ := hs.writing j hsame
    exact ⟨hm, pre, post, rest, horder, hfree, by rw [hold j hji]; exact hjrest, hexec⟩
  · intro j rest hj
    have hji := hne j rest hj
    rw [hold j hji] at hj
    obtain ⟨hw, hr⟩ := hs.holds j rest hj
    refine ⟨fun hm => ?_, fun hm => ?_⟩
    · have hmi : (calls i).mode ≠ .write := by
        intro hmi
        have hsame := (hw hm).symm.trans ((hs.holds i _ hi).1 hmi)
        exact hji (Option.some.inj hsame)
      simp [State.release, hmi, hw hm]
    · unfold State.release
      dsimp only
      split
      · exact (List.mem_erase_of_ne hji).mpr (hr hm)
      · exact hr hm
  · intro j rest hj hm
    have hji := hne j rest hj
    rw [hold j hji] at hj
    exact hs.reading j rest hj hm
  · intro j rest hj hm
    have hji := hne j rest hj
    rw [hold j hji] at hj
    exact hs.free j rest hj hm
  · intro j r' hj
    by_cases hji : j = i
    · subst hji
      obtain rfl : r = r' := by simpa [State.release] using hj
      exact hans
    · rw [hold j hji] at hj
      exact hs.answered j r' hj

theorem sound_step (hs : Sound calls s₀ order s) (h : step calls s m = some s') :
    Sound calls s₀ (order ++ entered [m]) s' := by
  obtain ⟨i, rfl, -, rfl, hread, hwrite⟩ | ⟨i, f, k, rfl, hi, rfl⟩ | ⟨i, r, rfl, hi, rfl⟩ :=
    step_cases h
  · cases hmode : (calls i).mode with
    | free => exact sound_enter_free hs hmode
    | read => exact sound_enter_read hs hmode (hread hmode)
    | write => exact sound_enter_write hs hmode (hwrite hmode).1 (hwrite hmode).2
  · have hnil : entered [Move.exec i] = [] := rfl
    rw [hnil, List.append_nil]
    exact sound_exec hs hi
  · have hnil : entered [Move.leave i] = [] := rfl
    rw [hnil, List.append_nil]
    exact sound_leave hs hi

theorem sound_run {ms : List (Move ι)} (hs : Sound calls s₀ order s)
    (hr : Lts.run (step calls) s ms = some s') : Sound calls s₀ (order ++ entered ms) s' := by
  induction ms generalizing s order with
  | nil =>
      obtain rfl := Option.some.inj hr
      rw [show entered ([] : List (Move ι)) = [] from rfl, List.append_nil]
      exact hs
  | cons m ms ih =>
      obtain ⟨t, ht, hr⟩ := Lts.run_cons.mp hr
      have hsplit : entered (m :: ms) = entered [m] ++ entered ms := by
        rw [entered, ← List.filterMap_append]
        rfl
      rw [hsplit, ← List.append_assoc]
      exact ih (sound_step hs ht) hr

/-! ### The order -/

/-- A thread is admitted once, and the ones that were admitted are those that do not wait. -/
theorem admitted_run {ms : List (Move ι)} (hr : Lts.run (step calls) (start s₀) ms = some s) :
    (entered ms).Nodup ∧ ∀ i, i ∈ entered ms ↔ s.threads i ≠ .waiting := by
  induction ms using List.reverseRecOn generalizing s with
  | nil =>
      obtain rfl := Option.some.inj hr
      exact ⟨List.nodup_nil, fun i => by simp [start, entered]⟩
  | append_singleton ms m ih =>
      obtain ⟨t, ht, hlast⟩ := Lts.run_append_iff.mp hr
      obtain ⟨u, hu, hend⟩ := Lts.run_cons.mp hlast
      obtain rfl := Option.some.inj hend
      obtain ⟨hnodup, hmem⟩ := ih ht
      have hsplit : entered (ms ++ [m]) = entered ms ++ entered [m] := by
        rw [entered, List.filterMap_append]
      rw [hsplit]
      obtain ⟨i, rfl, hwait, rfl, -, -⟩ | ⟨i, f, k, rfl, hi, rfl⟩ | ⟨i, r, rfl, hi, rfl⟩ :=
        step_cases hu
      · have hnew : i ∉ entered ms := fun h => (hmem i).mp h hwait
        rw [show entered [Move.enter i] = [i] from rfl]
        refine ⟨List.nodup_append.mpr ⟨hnodup, by simp, by simp; rintro a ha rfl; exact hnew ha⟩,
          fun j => ?_⟩
        by_cases hji : j = i
        · subst hji
          simp [State.lock]
        · simp [State.lock, hji, hmem j]
      · rw [show entered [Move.exec i] = [] from rfl, List.append_nil]
        refine ⟨hnodup, fun j => ?_⟩
        by_cases hji : j = i
        · subst hji
          simp [hmem j, hi]
        · simp [hji, hmem j]
      · rw [show entered [Move.leave i] = [] from rfl, List.append_nil]
        refine ⟨hnodup, fun j => ?_⟩
        by_cases hji : j = i
        · subst hji
          simp [State.release, hmem j, hi]
        · simp [State.release, hji, hmem j]

/-- **Serial equivalence.**  The answers of a run, and the store whenever no writer is inside, are
those of the calls made one after the other in the order in which they were admitted. -/
theorem serial_of_run {ms : List (Move ι)}
    (hr : Lts.run (step calls) (start s₀) ms = some s) :
    (∀ i r, s.threads i = .answered r → Answers calls s₀ (entered ms) i r) ∧
      (s.writer = none → s.store = after calls s₀ (entered ms)) := by
  have hs := sound_run sound_start hr
  rw [List.nil_append] at hs
  exact ⟨hs.answered, hs.quiet⟩

/-! ### Progress -/

/-- Every holder of a read lock is inside, and holds it once. -/
def ReadersInside (calls : ι → Call σ ρ) (s : State ι σ ρ) : Prop :=
  s.readers.Nodup ∧ ∀ i ∈ s.readers, (calls i).mode = .read ∧ ∃ rest, s.threads i = .inside rest

theorem readersInside_step (hs : ReadersInside calls s) (h : step calls s m = some s') :
    ReadersInside calls s' := by
  obtain ⟨hnodup, hin⟩ := hs
  obtain ⟨i, -, hwait, rfl, -, -⟩ | ⟨i, f, k, -, hi, rfl⟩ | ⟨i, r, -, hi, rfl⟩ := step_cases h
  · have hnew : i ∉ s.readers := by
      intro hmem
      obtain ⟨-, rest, hrest⟩ := hin i hmem
      rw [hwait] at hrest
      cases hrest
    have hold : ∀ j ∈ s.readers, (calls j).mode = .read ∧
        ∃ rest, (s.lock calls i).threads j = .inside rest := by
      intro j hj
      have hji : j ≠ i := fun he => hnew (he ▸ hj)
      rw [lock_threads hji]
      exact hin j hj
    by_cases hmode : (calls i).mode = .read
    · have hreaders : (s.lock calls i).readers = i :: s.readers := by simp [State.lock, hmode]
      refine ⟨hreaders ▸ List.nodup_cons.mpr ⟨hnew, hnodup⟩, fun j hj => ?_⟩
      rw [hreaders] at hj
      rcases List.mem_cons.mp hj with rfl | hj
      · exact ⟨hmode, _, lock_self j⟩
      · exact hold j hj
    · have hreaders : (s.lock calls i).readers = s.readers := by simp [State.lock, hmode]
      exact ⟨hreaders ▸ hnodup, fun j hj => hold j (hreaders ▸ hj)⟩
  · refine ⟨hnodup, fun j hj => ⟨(hin j hj).1, ?_⟩⟩
    by_cases hji : j = i
    · subst hji
      exact ⟨_, Function.update_self _ _ _⟩
    · obtain ⟨rest, hrest⟩ := (hin j hj).2
      exact ⟨rest, (Function.update_of_ne hji _ _).trans hrest⟩
  · have hother : ∀ j ∈ s.readers, j ≠ i → (calls j).mode = .read ∧
        ∃ rest, (s.release calls i r).threads j = .inside rest := by
      intro j hj hji
      obtain ⟨hmode, rest, hrest⟩ := hin j hj
      exact ⟨hmode, rest, (Function.update_of_ne hji _ _).trans hrest⟩
    by_cases hmode : (calls i).mode = .read
    · have hreaders : (s.release calls i r).readers = s.readers.erase i := by
        simp [State.release, hmode]
      refine ⟨hreaders ▸ hnodup.erase i, fun j hj => ?_⟩
      rw [hreaders, hnodup.mem_erase_iff] at hj
      exact hother j hj.2 hj.1
    · have hreaders : (s.release calls i r).readers = s.readers := by simp [State.release, hmode]
      refine ⟨hreaders ▸ hnodup, fun j hj => ?_⟩
      rw [hreaders] at hj
      exact hother j hj fun he => hmode (he ▸ (hin j hj).1)

theorem exists_step_of_inside {i : ι} {rest : Act σ ρ} (hi : s.threads i = .inside rest) :
    ∃ m s', step calls s m = some s' := by
  cases rest with
  | ret r =>
      have hsome : (step calls s (.leave i)).isSome = true := by
        cases hmode : (calls i).mode <;> simp [step, hi, hmode]
      exact ⟨.leave i, Option.isSome_iff_exists.mp hsome⟩
  | op f k =>
      have hsome : (step calls s (.exec i)).isSome = true := by simp [step, hi]
      exact ⟨.exec i, Option.isSome_iff_exists.mp hsome⟩

/-- **Progress.**  While a thread has no answer, some thread can move. -/
theorem exists_step {i : ι} (hs : Sound calls s₀ order s) (hin : ReadersInside calls s)
    (hi : ∀ r, s.threads i ≠ .answered r) : ∃ m s', step calls s m = some s' := by
  by_cases hany : ∃ j rest, s.threads j = .inside rest
  · obtain ⟨j, rest, hj⟩ := hany
    exact exists_step_of_inside hj
  -- nobody is inside, so that the lock is free for whoever waits
  have hwriter : s.writer = none := by
    cases hw : s.writer with
    | none => rfl
    | some j =>
        obtain ⟨-, pre, post, rest, -, -, hj, -⟩ := hs.writing j hw
        exact absurd ⟨j, rest, hj⟩ hany
  have hreaders : s.readers = [] := by
    rw [List.eq_nil_iff_forall_not_mem]
    intro j hj
    obtain ⟨-, rest, hrest⟩ := hin.2 j hj
    exact hany ⟨j, rest, hrest⟩
  cases hthread : s.threads i with
  | inside rest => exact absurd ⟨i, rest, hthread⟩ hany
  | answered r => exact absurd hthread (hi r)
  | waiting =>
      have hsome : (step calls s (.enter i)).isSome = true := by
        cases hmode : (calls i).mode <;> simp [step, hthread, hmode, hwriter, hreaders]
      exact ⟨.enter i, Option.isSome_iff_exists.mp hsome⟩

/-- The moves that a thread has made, where its code performs at most `n` operations. -/
def Spent (n k : ℕ) : Thread σ ρ → Prop
  | .waiting => k = 0
  | .inside rest => ∃ left, rest.Within left ∧ k + left ≤ n + 1
  | .answered _ => k ≤ n + 2

theorem spent_step {n k : ℕ} {i : ι} (hcode : (calls i).code.Within n)
    (hs : Spent n k (s.threads i)) (h : step calls s m = some s') :
    Spent n (k + if m.thread = i then 1 else 0) (s'.threads i) := by
  have other : ∀ {j : ι} {t : Thread σ ρ}, i ≠ j →
      Spent n (k + if j = i then 1 else 0) (Function.update s.threads j t i) := by
    intro j t hij
    rw [Function.update_of_ne hij, if_neg fun he => hij he.symm]
    exact hs
  obtain ⟨j, rfl, hwait, rfl, -, -⟩ | ⟨j, f, code, rfl, hj, rfl⟩ | ⟨j, r, rfl, hj, rfl⟩ :=
    step_cases h
  · by_cases hij : i = j
    · subst hij
      rw [hwait] at hs
      obtain rfl : k = 0 := hs
      rw [lock_self]
      refine ⟨n, hcode, ?_⟩
      simp only [Move.thread, if_true]
      omega
    · exact other hij
  · by_cases hij : i = j
    · subst hij
      rw [hj] at hs
      obtain ⟨left, hwithin, hle⟩ := hs
      dsimp only
      rw [Function.update_self]
      cases left with
      | zero => exact hwithin.elim
      | succ left =>
          refine ⟨left, hwithin s.store, ?_⟩
          simp only [Move.thread, if_true]
          omega
    · exact other hij
  · by_cases hij : i = j
    · subst hij
      rw [hj] at hs
      obtain ⟨left, -, hle⟩ := hs
      have hthread : (s.release calls i r).threads i = .answered r := Function.update_self _ _ _
      rw [hthread]
      simp only [Spent, Move.thread, if_true]
      omega
    · exact other hij

theorem spent_run {n k : ℕ} {i : ι} {ms : List (Move ι)} (hcode : (calls i).code.Within n)
    (hs : Spent n k (s.threads i)) (hr : Lts.run (step calls) s ms = some s') :
    Spent n (k + ms.countP fun m => m.thread = i) (s'.threads i) := by
  induction ms generalizing s k with
  | nil =>
      obtain rfl := Option.some.inj hr
      exact hs
  | cons m ms ih =>
      obtain ⟨t, ht, hr⟩ := Lts.run_cons.mp hr
      have hrest := ih (spent_step hcode hs ht) hr
      rw [List.countP_cons]
      simp only [decide_eq_true_eq]
      rw [Nat.add_comm (ms.countP _), ← Nat.add_assoc]
      exact hrest

/-- A thread makes two moves more than its code has operations. -/
theorem moves_le {n : ℕ} {i : ι} {ms : List (Move ι)} (hcode : (calls i).code.Within n)
    (hr : Lts.run (step calls) (start s₀) ms = some s) :
    ms.countP (fun m => m.thread = i) ≤ n + 2 := by
  have hs : Spent n 0 ((start s₀ : State ι σ ρ).threads i) := rfl
  have hend := spent_run hcode hs hr
  rw [Nat.zero_add] at hend
  cases hthread : s.threads i with
  | waiting =>
      rw [hthread] at hend
      have hzero : ms.countP (fun m => m.thread = i) = 0 := hend
      omega
  | inside rest =>
      rw [hthread] at hend
      obtain ⟨left, -, hle⟩ := hend
      omega
  | answered r =>
      rw [hthread] at hend
      exact hend

theorem readersInside_run {ms : List (Move ι)}
    (hr : Lts.run (step calls) (start s₀) ms = some s) : ReadersInside calls s := by
  have hstart : ReadersInside calls (start s₀) := ⟨List.nodup_nil, fun _ h => by cases h⟩
  exact Lts.run_invariant' (fun _ _ _ hi h => readersInside_step hi h) hstart hr

end

end CriticalSections
