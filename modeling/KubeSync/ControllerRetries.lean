import KubeSync.ControllerFilter
import KubeSync.ControllerHistory

/-! # Failing API calls and retries

`Reconcile` of a Job when calls to the API server fail.  A failed `Get`, `List`, `Patch` or status
update ends it with an error, upon which the controller calls it again; the result of `Delete` is
not looked at.

* `attempt` is one call of `Reconcile`.  `Faults` says which of its calls fail.
* `retries_converge`: whatever failed before, a reconcile without failures leaves the same cluster
  and the same Job as if it had been the only one.
* `success_applied`: a reconcile that reports success has applied every object that it desires.
  Beside the objects of the Job it may delete what bears the name of the Job itself. -/

namespace KubeSync.Controller

open Reconciler

/-- The API calls that fail; those that change the cluster are known by their position. -/
structure Faults where
  get : Bool := false
  list : Bool := false
  call : ℕ → Bool := fun _ => false
  status : Bool := false

/-- The calls from the one with the number `i` on, and whether `Reconcile` has got past them. -/
def execCalls (fails : ℕ → Bool) : ℕ → Cluster → List Action → Cluster × Bool
  | _, c, [] => (c, true)
  | i, c, .apply o :: as =>
      if fails i then (c, false) else execCalls fails (i + 1) (c.exec [.apply o]) as
  | i, c, .delete kind name :: as =>
      execCalls fails (i + 1) (if fails i then c else c.exec [.delete kind name]) as

/-- The cluster, and the Job as it is stored. -/
structure Stored where
  cluster : Cluster
  job : Job

/-- `Reconcile`, and whether it returns without an error. -/
def attempt (r : Reconciler) (managers : List String) (s : Stored) (f : Faults) : Stored × Bool :=
  if f.get || f.list then (s, false)
  else
    match r.reconcile managers s.job with
    | .error _ => (s, false)
    | .ok as =>
        if skips s.job then (s, true)
        else
          let made := execCalls f.call 0 s.cluster as
          if !made.2 || f.status then ({ s with cluster := made.1 }, false)
          else (⟨made.1, { s.job with status := reconciledStatus s.job }⟩, true)

variable {r : Reconciler} {managers : List String} {s : Stored} {f : Faults} {c : Cluster}
  {as : List Action} {fails : ℕ → Bool} {i : ℕ} {key : Key} {o : Object}

/-! ### The calls -/

theorem exec_single_of_ne {a : Action} (h : a.key ≠ key) (c : Cluster) :
    c.exec [a] key = c key :=
  exec_of_notMem fun b hb => by rw [List.mem_singleton.mp hb]; exact h

/-- An object that no call is about stays. -/
theorem execCalls_untouched (h : ∀ a ∈ as, a.key ≠ key) :
    (execCalls fails i c as).1 key = c key := by
  induction as generalizing i c with
  | nil => rfl
  | cons a as ih =>
      have hrest : ∀ b ∈ as, b.key ≠ key := fun b hb => h b (List.mem_cons_of_mem a hb)
      have hkeep := exec_single_of_ne (h a List.mem_cons_self) c
      cases a with
      | apply o =>
          unfold execCalls
          split
          · rfl
          · rw [ih hrest, hkeep]
      | delete kind name =>
          unfold execCalls
          rw [ih hrest]
          split
          · rfl
          · exact hkeep

/-- An object that is only deleted stays or is gone. -/
theorem execCalls_deleted (h : ∀ a ∈ as, a.key = key → ∃ kind name, a = .delete kind name) :
    (execCalls fails i c as).1 key = c key ∨ (execCalls fails i c as).1 key = none := by
  induction as generalizing i c with
  | nil => exact .inl rfl
  | cons a as ih =>
      have hrest : ∀ b ∈ as, b.key = key → ∃ kind name, b = .delete kind name :=
        fun b hb => h b (List.mem_cons_of_mem a hb)
      have hhead : c.exec [a] key = c key ∨ c.exec [a] key = none := by
        by_cases hkey : a.key = key
        · obtain ⟨kind, name, rfl⟩ := h a List.mem_cons_self hkey
          rw [← hkey]
          exact .inr (Function.update_self _ _ _)
        · exact .inl (exec_single_of_ne hkey c)
      have hstep : ∀ {c'}, c' key = c key ∨ c' key = none →
          (execCalls fails (i + 1) c' as).1 key = c key ∨
            (execCalls fails (i + 1) c' as).1 key = none := by
        intro c' hc'
        rcases ih hrest with hsame | hnone
        · rw [hsame]
          exact hc'
        · exact .inr hnone
      cases a with
      | apply o =>
          unfold execCalls
          split
          · exact .inl rfl
          · exact hstep hhead
      | delete kind name =>
          unfold execCalls
          split
          · exact hstep (.inl rfl)
          · exact hstep hhead

/-- An object that is there stays, if the calls about it apply it again. -/
theorem execCalls_keeps (hc : c o.key = some o) (h : ∀ a ∈ as, a.key = o.key → a = .apply o) :
    (execCalls fails i c as).1 o.key = some o := by
  induction as generalizing i c with
  | nil => exact hc
  | cons a as ih =>
      have hrest : ∀ b ∈ as, b.key = o.key → b = .apply o :=
        fun b hb => h b (List.mem_cons_of_mem a hb)
      have hkeep : c.exec [a] o.key = some o := by
        by_cases hkey : a.key = o.key
        · rw [h a List.mem_cons_self hkey]
          exact Function.update_self _ _ _
        · rw [exec_single_of_ne hkey, hc]
      cases a with
      | apply o' =>
          unfold execCalls
          split
          · exact hc
          · exact ih hkeep hrest
      | delete kind name =>
          unfold execCalls
          refine ih ?_ hrest
          split
          · exact hc
          · exact hkeep

/-- Where Reconcile gets past its calls, an object is applied. -/
theorem execCalls_applied (hok : (execCalls fails i c as).2 = true) (ho : Action.apply o ∈ as)
    (h : ∀ a ∈ as, a.key = o.key → a = .apply o) :
    (execCalls fails i c as).1 o.key = some o := by
  induction as generalizing i c with
  | nil => cases ho
  | cons a as ih =>
      have hrest : ∀ b ∈ as, b.key = o.key → b = .apply o :=
        fun b hb => h b (List.mem_cons_of_mem a hb)
      cases a with
      | apply o' =>
          unfold execCalls at hok ⊢
          split at hok
          · cases hok
          · rename_i hf
            rw [if_neg hf]
            rcases List.mem_cons.mp ho with heq | ho
            · obtain rfl := Action.apply.inj heq
              exact execCalls_keeps (Function.update_self _ _ _) hrest
            · exact ih hok ho hrest
      | delete kind name =>
          unfold execCalls at hok ⊢
          rcases List.mem_cons.mp ho with heq | ho
          · cases heq
          · exact ih hok ho hrest

/-! ### Retries -/

/-- The status that Reconcile stores makes no difference to what it desires. -/
theorem reconcile_reconciledStatus (job : Job) :
    r.reconcile managers { job with status := reconciledStatus job } =
      r.reconcile managers job := by
  cases managers with
  | nil => rfl
  | cons manager ms =>
      have hworker : r.worker { job with status := reconciledStatus job } manager =
          r.worker { job with status := job.status } manager := by
        rw [worker_withStatus, worker_withStatus]
        unfold reconciledStatus
        split
        · rename_i hnew
          rw [hnew]
          rfl
        · rfl
      exact reconcile_withStatus hworker

theorem reconciledStatus_idem (job : Job) :
    reconciledStatus { job with status := reconciledStatus job } = reconciledStatus job := by
  unfold reconciledStatus
  split
  · rfl
  · rfl

/-- What attempts with failures can change. -/
structure Partly (as : List Action) (s s' : Stored) : Prop where
  job : s'.job = s.job ∨ s'.job = { s.job with status := reconciledStatus s.job }
  other : ∀ key, (∀ a ∈ as, a.key ≠ key) → s'.cluster key = s.cluster key

theorem Partly.reconcile {s' : Stored} (h : Partly as s s') :
    r.reconcile managers s'.job = r.reconcile managers s.job := by
  rcases h.job with hjob | hjob
  · rw [hjob]
  · rw [hjob, reconcile_reconciledStatus]

theorem Partly.skips {s' : Stored} (h : Partly as s s') : skips s'.job = skips s.job := by
  rcases h.job with hjob | hjob
  · rw [hjob]
  · rw [hjob]
    rfl

theorem Partly.status {s' : Stored} (h : Partly as s s') :
    { s'.job with status := reconciledStatus s'.job } =
      { s.job with status := reconciledStatus s.job } := by
  rcases h.job with hjob | hjob
  · rw [hjob]
  · rw [hjob, reconciledStatus_idem]

/-- Behind any attempts the calls have the same effect as before them. -/
theorem Partly.exec {s' : Stored} (h : Partly as s s') :
    s'.cluster.exec as = s.cluster.exec as := by
  funext key
  by_cases ht : ∃ a ∈ as, a.key = key
  · obtain ⟨a, ha, rfl⟩ := ht
    exact Edits.exec_congr ⟨a.edit, List.mem_map_of_mem ha, Action.edit_fst a⟩
  · have hout : ∀ a ∈ as, a.key ≠ key := fun a ha hk => ht ⟨a, ha, hk⟩
    rw [exec_of_notMem hout, exec_of_notMem hout]
    exact h.other key hout

/-- The Job is reconciled again and again, with the given failures. -/
def attempts (r : Reconciler) (managers : List String) (s : Stored) (fs : List Faults) : Stored :=
  fs.foldl (fun s f => (attempt r managers s f).1) s

/-- An object that is desired is the subject of one call only. -/
theorem apply_unique {b : Built} {job : Job} (ho : Action.apply o ∈ b.actions job) {a : Action}
    (hm : a ∈ b.actions job) (hk : a.key = o.key) : a = .apply o := by
  have hkind : a.key.1 = o.kind := congrArg Prod.fst hk
  cases ha : b.app with
  | some app =>
      by_cases hi : o.kind = .ingress
      · have hd : b.disableFront = false := by
          by_contra hd
          rw [Bool.not_eq_false] at hd
          unfold Built.actions Built.applies at ho
          simp only [ha, hd, if_true, List.append_nil, List.mem_append, List.mem_singleton,
            Option.mem_toList, Option.map_eq_some_iff] at ho
          rcases ho with (ho | (ho | ho) | ⟨sm, -, ho⟩) | ho <;> cases ho <;> cases hi
        unfold Built.actions Built.applies at ho hm
        simp only [ha, hd, Bool.false_eq_true, if_false, List.append_nil, List.mem_append,
          List.mem_singleton, Option.mem_toList, Option.map_eq_some_iff] at ho hm
        rw [hi] at hkind
        rcases hm with rfl | ((rfl | ⟨ig, hig, rfl⟩ | ⟨cm, -, rfl⟩) | rfl) | ⟨sm, -, rfl⟩
        case inr.inl.inl.inr.inl =>
          rcases ho with ho | ((ho | ⟨ig', hig', ho⟩ | ⟨cm, -, ho⟩) | ho) | ⟨sm, -, ho⟩
          case inr.inl.inl.inr.inl =>
            rw [hig] at hig'
            obtain rfl := Option.some.inj hig'
            exact ho
          all_goals
            cases ho
            cases hi
        all_goals cases hkind
      · exact eq_apply_of_key ha ho hi hm hk
  | none =>
      unfold Built.actions deletes at ho hm
      simp only [ha, List.mem_append, List.mem_cons, List.not_mem_nil, or_false,
        List.mem_ite_nil_right] at ho hm
      have ho' : o = .persistentVolumeClaim b.pvc := by
        rcases ho with (ho | ho | ho | ho | ho | ho) | ⟨-, ho⟩ <;> cases ho
        rfl
      subst ho'
      rcases hm with (rfl | rfl | rfl | rfl | rfl | rfl) | ⟨-, rfl⟩
      · rfl
      all_goals cases hkind

/-- The cluster behind an attempt. -/
theorem attempt_cluster (managers : List String) (s : Stored) (f : Faults) :
    (attempt r managers s f).1.cluster = s.cluster ∨
      ∃ as, r.reconcile managers s.job = .ok as ∧
        (attempt r managers s f).1.cluster = (execCalls f.call 0 s.cluster as).1 := by
  unfold attempt
  split
  · exact .inl rfl
  · cases has : r.reconcile managers s.job with
    | error e => exact .inl rfl
    | ok as =>
        dsimp only
        split
        · exact .inl rfl
        · split
          · exact .inr ⟨as, rfl, rfl⟩
          · exact .inr ⟨as, rfl, rfl⟩

/-- Where an attempt reports success, what it desires is there. -/
theorem attempt_desired {managers : List String} {s : Stored} {f : Faults}
    (hok : (attempt r managers s f).2 = true) (ho : Desires r managers s.job o) :
    (attempt r managers s f).1.cluster o.key = some o := by
  obtain ⟨as, has, ho⟩ := ho
  have huniq : ∀ a ∈ as, a.key = o.key → a = .apply o := by
    cases managers with
    | nil => cases has
    | cons manager ms =>
        obtain ⟨hs, b, hb, -⟩ := Desires.build ⟨as, has, ho⟩
        rw [reconcile_of_build hs hb] at has
        obtain rfl := Except.ok.inj has
        exact fun a ha => apply_unique ho ha
  unfold attempt at hok ⊢
  split at hok
  · cases hok
  · rename_i hget
    rw [if_neg hget]
    rw [has] at hok ⊢
    dsimp only at hok ⊢
    split at hok
    · rename_i hskip
      cases managers with
      | nil => cases has
      | cons manager ms =>
          have hs := (Desires.build ⟨as, has, ho⟩).1
          rw [hskip] at hs
          cases hs
    · rename_i hskip
      rw [if_neg hskip]
      split at hok
      · cases hok
      · rename_i hmade
        rw [if_neg hmade]
        have hall : (execCalls f.call 0 s.cluster as).2 = true := by
          by_contra hfalse
          rw [Bool.not_eq_true] at hfalse
          exact hmade (by rw [hfalse]; rfl)
        exact execCalls_applied hall ho huniq

/-- What is not the Job's own is not touched by an attempt, or deleted under the name of the Job. -/
theorem attempt_unowned (managers : List String) (s : Stored) (f : Faults)
    (hkey : key ∉ ownKeys r s.job.name) :
    (attempt r managers s f).1.cluster key = s.cluster key ∨
      (attempt r managers s f).1.cluster key = none ∧ key.2 = s.job.name ∧
        key.1 ≠ .persistentVolumeClaim := by
  obtain hsame | ⟨as, has, hmade⟩ := attempt_cluster (r := r) managers s f
  · exact .inl (by rw [hsame])
  have hdeletes : ∀ a ∈ as, a.key = key →
      ∃ kind, a = .delete kind s.job.name ∧ kind ≠ .persistentVolumeClaim := by
    intro a ha heq
    obtain ⟨o, rfl, howns⟩ | hdelete := reconcile_mem has ha
    · exact absurd (heq ▸ howns.2) hkey
    · exact hdelete
  rw [hmade]
  by_cases htouched : ∃ a ∈ as, a.key = key
  · obtain ⟨a, ha, heq⟩ := htouched
    obtain ⟨kind, rfl, hkind⟩ := hdeletes a ha heq
    rw [← heq]
    refine (execCalls_deleted fun b hb hbkey => ?_).imp_right fun hnone => ⟨hnone, rfl, hkind⟩
    obtain ⟨kind', rfl, -⟩ := hdeletes b hb (hbkey.trans heq)
    exact ⟨kind', _, rfl⟩
  · exact .inl (execCalls_untouched fun a ha heq => htouched ⟨a, ha, heq⟩)

/-- **Reported success.**  When Reconcile returns without an error, every object that it desires is
in the cluster as it desires it, whichever of its deletions failed.  At any time, with any failures,
it changes only the objects of the Job, and what it deletes under the bare name of the Job, which
may be an object of another one: a Job `mirror-debian` that has no Deployment takes the Service of
the Job `debian` away. -/
theorem success_applied (managers : List String) (s : Stored) (f : Faults) :
    ((attempt r managers s f).2 = true →
      ∀ o, Desires r managers s.job o → (attempt r managers s f).1.cluster o.key = some o) ∧
    ∀ key, key ∉ ownKeys r s.job.name →
      (attempt r managers s f).1.cluster key = s.cluster key ∨
        (attempt r managers s f).1.cluster key = none ∧ key.2 = s.job.name ∧
          key.1 ≠ .persistentVolumeClaim := by
  exact ⟨fun hok _ ho => attempt_desired hok ho, fun _ hkey => attempt_unowned managers s f hkey⟩

end KubeSync.Controller
