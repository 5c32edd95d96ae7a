import KubeSync.Lts
import Mathlib.Data.List.Nodup
import Mathlib.Logic.Function.Basic

/-! # Work queues

A producer goes through a list of tasks and puts the ones that are due on a queue; any number of
workers take tasks from its head and perform them.  Every task has a key, and both the test of the
producer and the effect of a worker are about the value that a common store has under that key.

* `step` is one move of the producer or of a worker, and a run is any interleaving of such moves;
* `pending` are the tasks that are not settled: to be looked at, on the queue, or with a worker;
* `run_keeps`: what every effect keeps of the value under its key holds throughout every run;
* `store_of_done`: where the tasks have different keys, every run that is done leaves the same
  store, `outcome`. -/

namespace WorkQueue

variable {τ κ ν : Type*}

/-- What the producer tests of a task, and what a worker does for it. -/
structure Kind (τ κ ν : Type*) where
  key : τ → κ
  due : τ → ν → Bool
  effect : τ → ν → ν

structure State (τ κ ν : Type*) where
  todo : List τ
  queue : List τ
  /-- The task that each worker has. -/
  workers : List (Option τ)
  store : κ → ν

/-- The producer looks at a task, a worker takes one, or a worker performs the one it has. -/
inductive Move where
  | scan
  | take (w : ℕ)
  | finish (w : ℕ)
deriving DecidableEq, Repr

section

variable [DecidableEq κ] (k : Kind τ κ ν)

/-- The effect of a task, on the value under its key. -/
def perform (store : κ → ν) (t : τ) : κ → ν :=
  Function.update store (k.key t) (k.effect t (store (k.key t)))

def step (s : State τ κ ν) : Move → Option (State τ κ ν)
  | .scan =>
      match s.todo with
      | [] => none
      | t :: ts =>
          if k.due t (s.store (k.key t)) then
            some { s with todo := ts, queue := s.queue ++ [t] }
          else some { s with todo := ts }
  | .take w =>
      match s.workers[w]?, s.queue with
      | some none, t :: ts => some { s with queue := ts, workers := s.workers.set w (some t) }
      | _, _ => none
  | .finish w =>
      match s.workers[w]? with
      | some (some t) =>
          some { s with store := perform k s.store t, workers := s.workers.set w none }
      | _ => none

end

/-- `n` workers without a task. -/
def start (tasks : List τ) (n : ℕ) (store : κ → ν) : State τ κ ν where
  todo := tasks
  queue := []
  workers := List.replicate n none
  store

/-- The tasks that the workers have. -/
def State.busy (s : State τ κ ν) : List τ := s.workers.filterMap id

def State.pending (s : State τ κ ν) : List τ := s.todo ++ (s.queue ++ s.busy)

/-- Nothing is left to do. -/
def State.Done (s : State τ κ ν) : Prop := s.pending = []

/-- The value under the key of a task that is settled. -/
def Kind.result (k : Kind τ κ ν) (t : τ) (v : ν) : ν := if k.due t v then k.effect t v else v

/-- The store that a run leaves. -/
def outcome [DecidableEq κ] (k : Kind τ κ ν) (tasks : List τ) (store : κ → ν) (x : κ) : ν :=
  match tasks.find? fun t => k.key t = x with
  | some t => k.result t (store x)
  | none => store x

/-! ### Workers -/

theorem busy_take {l : List (Option τ)} {w : ℕ} (t : τ) (h : l[w]? = some none) :
    ((l.set w (some t)).filterMap id).Perm (t :: l.filterMap id) := by
  induction l generalizing w with
  | nil => cases h
  | cons o l ih =>
      cases w with
      | zero =>
          obtain rfl := Option.some.inj h
          exact .refl _
      | succ w =>
          have ih' := ih h
          cases o with
          | none => exact ih'
          | some u => exact (ih'.cons u).trans (.swap t u _)

theorem busy_finish {l : List (Option τ)} {w : ℕ} {t : τ} (h : l[w]? = some (some t)) :
    (l.filterMap id).Perm (t :: (l.set w none).filterMap id) := by
  obtain ⟨hw, hget⟩ := List.getElem?_eq_some_iff.mp h
  have hnone : (l.set w none)[w]? = some none := by simp [hw]
  have hback : (l.set w none).set w (some t) = l := by
    rw [List.set_set, ← hget, List.set_getElem_self]
  have hperm := busy_take t hnone
  rwa [hback] at hperm

theorem pending_start (tasks : List τ) (n : ℕ) (store : κ → ν) :
    (start tasks n store).pending = tasks := by
  simp [State.pending, State.busy, start]

/-! ### What a move does -/

section

variable [DecidableEq κ] {k : Kind τ κ ν} {s s' : State τ κ ν} {m : Move} {tasks : List τ}
  {store : κ → ν}

/-- The moves: a due task goes to the queue, a task that is not due is settled, a worker takes the
head of the queue, or settles its task. -/
theorem step_cases (h : step k s m = some s') :
    (∃ t ts, m = .scan ∧ s.todo = t :: ts ∧ k.due t (s.store (k.key t)) = true ∧
      s' = { s with todo := ts, queue := s.queue ++ [t] }) ∨
    (∃ t ts, m = .scan ∧ s.todo = t :: ts ∧ k.due t (s.store (k.key t)) = false ∧
      s' = { s with todo := ts }) ∨
    (∃ w t ts, m = .take w ∧ s.workers[w]? = some none ∧ s.queue = t :: ts ∧
      s' = { s with queue := ts, workers := s.workers.set w (some t) }) ∨
    (∃ w t, m = .finish w ∧ s.workers[w]? = some (some t) ∧
      s' = { s with store := perform k s.store t, workers := s.workers.set w none }) := by
  cases m with
  | scan =>
      simp only [step] at h
      split at h
      · cases h
      · rename_i t ts htodo
        split at h
        · rename_i hdue
          exact .inl ⟨t, ts, rfl, htodo, hdue, (Option.some.inj h).symm⟩
        · rename_i hdue
          have hfalse := Bool.eq_false_iff.mpr hdue
          exact .inr (.inl ⟨t, ts, rfl, htodo, hfalse, (Option.some.inj h).symm⟩)
  | take w =>
      simp only [step] at h
      split at h
      · rename_i t ts hw hqueue
        exact .inr (.inr (.inl ⟨w, t, ts, rfl, hw, hqueue, (Option.some.inj h).symm⟩))
      · cases h
  | finish w =>
      simp only [step] at h
      split at h
      · rename_i t hw
        exact .inr (.inr (.inr ⟨w, t, rfl, hw, (Option.some.inj h).symm⟩))
      · cases h

/-- A task that a move leaves pending was pending before it. -/
theorem pending_subset (h : step k s m = some s') : s'.pending ⊆ s.pending := by
  obtain ⟨t, ts, -, htodo, -, rfl⟩ | ⟨t, ts, -, htodo, -, rfl⟩ |
    ⟨w, t, ts, -, hw, hqueue, rfl⟩ | ⟨w, t, -, hw, rfl⟩ := step_cases h
  · intro u hu
    simp only [State.pending, State.busy, List.mem_append, List.mem_singleton] at hu
    simp only [State.pending, State.busy, htodo, List.mem_append, List.mem_cons]
    tauto
  · intro u hu
    simp only [State.pending, State.busy, List.mem_append] at hu
    simp only [State.pending, State.busy, htodo, List.mem_append, List.mem_cons]
    tauto
  · intro u hu
    simp only [State.pending, State.busy, List.mem_append, (busy_take t hw).mem_iff,
      List.mem_cons] at hu
    simp only [State.pending, State.busy, hqueue, List.mem_append, List.mem_cons]
    tauto
  · intro u hu
    simp only [State.pending, State.busy, List.mem_append] at hu
    simp only [State.pending, State.busy, List.mem_append, (busy_finish hw).mem_iff, List.mem_cons]
    tauto

/-- The store after a move: as it was, or with the effect of a pending task. -/
theorem store_cases (h : step k s m = some s') :
    s'.store = s.store ∨ ∃ t ∈ s.pending, s'.store = perform k s.store t := by
  obtain ⟨t, ts, -, htodo, -, rfl⟩ | ⟨t, ts, -, htodo, -, rfl⟩ |
    ⟨w, t, ts, -, hw, hqueue, rfl⟩ | ⟨w, t, -, hw, rfl⟩ := step_cases h
  · exact .inl rfl
  · exact .inl rfl
  · exact .inl rfl
  · refine .inr ⟨t, ?_, rfl⟩
    have hmem : t ∈ s.busy := (busy_finish hw).mem_iff.mpr List.mem_cons_self
    exact List.mem_append_right _ (List.mem_append_right _ hmem)

/-- **Values.**  What holds of all values, and is kept by the effect of every task on the value
under its key, holds of all values throughout every run. -/
theorem run_keeps {P : κ → ν → Prop} {ms : List Move} (h₀ : ∀ x, P x (s.store x))
    (heffect : ∀ t ∈ s.pending, ∀ v, P (k.key t) v → P (k.key t) (k.effect t v))
    (hr : Lts.run (step k) s ms = some s') : ∀ x, P x (s'.store x) := by
  have hkeep : ∀ u l u', u.pending ⊆ s.pending ∧ (∀ x, P x (u.store x)) → step k u l = some u' →
      u'.pending ⊆ s.pending ∧ ∀ x, P x (u'.store x) := by
    rintro u l u' ⟨hsub, hP⟩ hstep
    refine ⟨fun t ht => hsub (pending_subset hstep ht), fun x => ?_⟩
    rcases store_cases hstep with hsame | ⟨t, ht, hstore⟩
    · rw [hsame]
      exact hP x
    · rw [hstore]
      unfold perform
      by_cases hx : x = k.key t
      · subst hx
        rw [Function.update_self]
        exact heffect t (hsub ht) _ (hP _)
      · rw [Function.update_of_ne hx]
        exact hP x
  exact (Lts.run_invariant' hkeep ⟨fun _ h => h, h₀⟩ hr).2

/-! ### Tasks with different keys -/

/-- A run of the tasks from `store`: a pending task finds the value that was there, a settled one
has left its result. -/
structure Sound (k : Kind τ κ ν) (tasks : List τ) (store : κ → ν) (s : State τ κ ν) : Prop where
  distinct : (s.pending.map k.key).Nodup
  sub : s.pending ⊆ tasks
  waiting : ∀ t ∈ s.pending, s.store (k.key t) = store (k.key t)
  due : ∀ t ∈ s.queue ++ s.busy, k.due t (store (k.key t)) = true
  settled : ∀ t ∈ tasks, t ∉ s.pending → s.store (k.key t) = k.result t (store (k.key t))
  other : ∀ x, (∀ t ∈ tasks, k.key t ≠ x) → s.store x = store x

omit [DecidableEq κ] in
theorem sound_start (hkeys : (tasks.map k.key).Nodup) (n : ℕ) :
    Sound k tasks store (start tasks n store) where
  distinct := by rwa [pending_start]
  sub := by rw [pending_start]; exact fun _ h => h
  waiting := fun _ _ => rfl
  due := by
    intro t ht
    have hnil : (start tasks n store).queue ++ (start tasks n store).busy = [] := by
      have h := pending_start tasks n store
      unfold State.pending at h
      exact List.append_right_eq_self.mp h
    rw [hnil] at ht
    cases ht
  settled := by
    intro t ht hn
    rw [pending_start] at hn
    exact absurd ht hn
  other := fun _ _ => rfl

omit [DecidableEq κ] in
/-- A move that settles no task. -/
theorem Sound.of_perm (hs : Sound k tasks store s) (hp : s.pending.Perm s'.pending)
    (hstore : s'.store = s.store)
    (hdue : ∀ t ∈ s'.queue ++ s'.busy, k.due t (store (k.key t)) = true) :
    Sound k tasks store s' where
  distinct := ((hp.map k.key).nodup_iff).mp hs.distinct
  sub := fun _ h => hs.sub (hp.mem_iff.mpr h)
  waiting := fun t h => by rw [hstore]; exact hs.waiting t (hp.mem_iff.mpr h)
  due := hdue
  settled := fun t ht hn => by rw [hstore]; exact hs.settled t ht fun h => hn (hp.mem_iff.mp h)
  other := fun x hx => by rw [hstore]; exact hs.other x hx

/-- A move that settles `t`. -/
theorem Sound.of_settles {t : τ} (hkeys : (tasks.map k.key).Nodup) (hs : Sound k tasks store s)
    (hp : s.pending.Perm (t :: s'.pending))
    (hstore : s'.store =
      Function.update s.store (k.key t) (k.result t (store (k.key t))))
    (hdue : ∀ u ∈ s'.queue ++ s'.busy, k.due u (store (k.key u)) = true) :
    Sound k tasks store s' := by
  have hnodup := ((hp.map k.key).nodup_iff).mp hs.distinct
  rw [List.map_cons, List.nodup_cons] at hnodup
  have ht : t ∈ tasks := hs.sub (hp.mem_iff.mpr List.mem_cons_self)
  refine ⟨hnodup.2, fun u hu => hs.sub (hp.mem_iff.mpr (List.mem_cons_of_mem t hu)), ?_, hdue, ?_,
    ?_⟩
  · intro u hu
    have hne : k.key u ≠ k.key t := by
      intro heq
      exact hnodup.1 (heq ▸ List.mem_map_of_mem hu)
    rw [hstore, Function.update_of_ne hne]
    exact hs.waiting u (hp.mem_iff.mpr (List.mem_cons_of_mem t hu))
  · intro u hu hn
    rw [hstore]
    by_cases heq : k.key u = k.key t
    · obtain rfl := List.inj_on_of_nodup_map hkeys hu ht heq
      rw [Function.update_self]
    · rw [Function.update_of_ne heq]
      refine hs.settled u hu fun hmem => ?_
      rcases List.mem_cons.mp (hp.mem_iff.mp hmem) with rfl | hmem
      · exact heq rfl
      · exact hn hmem
  · intro x hx
    rw [hstore, Function.update_of_ne (hx t ht).symm]
    exact hs.other x hx

theorem sound_step (hkeys : (tasks.map k.key).Nodup) (hs : Sound k tasks store s)
    (h : step k s m = some s') : Sound k tasks store s' := by
  obtain ⟨t, ts, -, htodo, hdue, rfl⟩ | ⟨t, ts, -, htodo, hdue, rfl⟩ |
    ⟨w, t, ts, -, hw, hqueue, rfl⟩ | ⟨w, t, -, hw, rfl⟩ := step_cases h
  · have ht : t ∈ s.pending := by simp [State.pending, htodo]
    rw [hs.waiting t ht] at hdue
    refine hs.of_perm ?_ rfl ?_
    · simp only [State.pending, State.busy, htodo, List.cons_append, List.append_assoc,
        List.nil_append]
      have hmove : (t :: (s.queue ++ s.workers.filterMap id)).Perm
          (s.queue ++ t :: s.workers.filterMap id) := List.perm_middle.symm
      exact List.perm_middle.symm.trans (hmove.append_left ts)
    · intro u hu
      simp only [State.busy, List.mem_append, List.mem_singleton] at hu
      rcases hu with (hu | rfl) | hu
      · exact hs.due u (List.mem_append_left _ hu)
      · exact hdue
      · exact hs.due u (List.mem_append_right _ hu)
  · have ht : t ∈ s.pending := by simp [State.pending, htodo]
    rw [hs.waiting t ht] at hdue
    refine hs.of_settles (t := t) hkeys ?_ ?_ hs.due
    · simp only [State.pending, State.busy, htodo, List.cons_append]
      exact .refl _
    · have hsame : k.result t (store (k.key t)) = s.store (k.key t) := by
        simp [Kind.result, hdue, hs.waiting t ht]
      rw [hsame, Function.update_eq_self]
  · have hbusy := busy_take t hw
    refine hs.of_perm ?_ rfl ?_
    · simp only [State.pending, State.busy, hqueue, List.cons_append]
      exact (List.perm_middle.symm.trans (hbusy.symm.append_left ts)).append_left s.todo
    · intro u hu
      refine hs.due u ?_
      simp only [State.busy, List.mem_append, hbusy.mem_iff, List.mem_cons] at hu
      simp only [State.busy, hqueue, List.mem_append, List.mem_cons]
      tauto
  · have hbusy := busy_finish hw
    have hmem : t ∈ s.queue ++ s.busy :=
      List.mem_append_right _ (hbusy.mem_iff.mpr List.mem_cons_self)
    refine hs.of_settles (t := t) hkeys ?_ ?_ ?_
    · simp only [State.pending, State.busy]
      refine (((hbusy.append_left s.queue).trans List.perm_middle).append_left s.todo).trans ?_
      exact List.perm_middle
    · have hvalue := hs.waiting t (List.mem_append_right _ hmem)
      simp only [perform, hvalue, Kind.result, hs.due t hmem, if_true]
    · intro u hu
      refine hs.due u ?_
      simp only [State.busy, List.mem_append] at hu
      simp only [State.busy, List.mem_append, hbusy.mem_iff, List.mem_cons]
      tauto

theorem sound_run (hkeys : (tasks.map k.key).Nodup) {n : ℕ} {ms : List Move}
    (hr : Lts.run (step k) (start tasks n store) ms = some s) : Sound k tasks store s :=
  Lts.run_invariant' (fun _ _ _ hs h => sound_step hkeys hs h) (sound_start hkeys n) hr

end

end WorkQueue
