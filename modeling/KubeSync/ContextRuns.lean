import KubeSync.Context
import KubeSync.RunProtocol

/-! # The context over sync runs

The log limiter enters a context before each attempt and leaves it in its post-success or post-fail
method.  It is the first hook of every provider, so that these methods are called last, behind those
of all other hooks.

* `Traced` follows the state of a provider along the trace of a sync run, and `Runs` over any number
  of runs that return.
* An attempt leaves the context as it was, or it ends the run one layer deeper (`attempt_traced`).
* `runs_context_iff`: a run leaves the context as it found it exactly if `Terminate` and the hooks
  behind the sync succeed in it. -/

namespace KubeSync.ProviderContext

open WorkerConfig (Hook MirrorProvider Lib Config clean cleanStep joinPath newMirrorProvider
  execHooks parts_of_new)
open Controller (bind_eq_ok)
open Worker (Phase SyncEvent StartSel DoneSel Provider Outcome Finish runHooks report
  attempt attempts runJobWrapper outcome ends_runHooks report_cases attempt_cases attempts_cases)
open Prog (Ends ends_ret ends_op ends_call_bind)

/-- What a trace does to the state of the provider.  The log files may change at any other
operation. -/
inductive Traced (p : MirrorProvider) : State → List SyncEvent → State → Prop
  | nil (s : State) : Traced p s [] s
  | hook {s s₁ s' : State} {tr : List SyncEvent} {ph : Phase} {h : ℕ} {hook : Hook}
      {err : Option String} (env : HookEnv) : p.hooks[h]? = some hook →
      call p.base.name env s hook ph = some (s₁, err) → Traced p s₁ tr s' →
      Traced p s (⟨.hook ph h, err⟩ :: tr) s'
  | other {s s' : State} {tr : List SyncEvent} {ev : SyncEvent} (disk : Disk) :
      (∀ ph h, ev.1 ≠ .hook ph h) → Traced p { s with disk } tr s' → Traced p s (ev :: tr) s'

/-- The traces of the runs of one provider, as far as they return. -/
inductive Runs (p : MirrorProvider) (q : Provider) : State → List (List SyncEvent) → State → Prop
  | nil (s : State) : Runs p q s [] s
  | run {s s₁ s' : State} {tr : List SyncEvent} {trs : List (List SyncEvent)} :
      Ends (runJobWrapper q) tr (some ()) → Traced p s tr s₁ → Runs p q s₁ trs s' →
      Runs p q s (tr :: trs) s'

/-- The context is as it was: it has the same layers and gives the same answers. -/
def Same (s s' : State) : Prop :=
  s'.ctx.map Context.depth = s.ctx.map Context.depth ∧ ∀ key, s'.lookup key = s.lookup key

/-- `Terminate` or a hook behind the sync fails. -/
def leaks : SyncEvent → Bool
  | ⟨.hook .postSuccess _, some _⟩ => true
  | ⟨.hook .postFail _, some _⟩ => true
  | ⟨.awaitDone, .timeout (some _)⟩ => true
  | ⟨.awaitDone, .kill (some _)⟩ => true
  | _ => false

variable {p : MirrorProvider} {q : Provider} {s s₁ s' : State} {tr tr' : List SyncEvent}

theorem traced_append (h : Traced p s (tr ++ tr') s') :
    ∃ s₁, Traced p s tr s₁ ∧ Traced p s₁ tr' s' := by
  induction tr generalizing s with
  | nil => exact ⟨s, .nil s, h⟩
  | cons ev tr ih =>
      cases h with
      | hook env hk hc ht =>
          obtain ⟨s₂, h₁, h₂⟩ := ih ht
          exact ⟨s₂, .hook env hk hc h₁, h₂⟩
      | other disk hev ht =>
          obtain ⟨s₂, h₁, h₂⟩ := ih ht
          exact ⟨s₂, .other disk hev h₁, h₂⟩

/-- An operation that is no call of a hook. -/
theorem Traced.skip {ev : SyncEvent} (h : Traced p s (ev :: tr) s')
    (hev : ∀ ph h, ev.1 ≠ .hook ph h) : ∃ disk, Traced p { s with disk } tr s' := by
  cases h with
  | hook env hk hc ht => exact absurd rfl (hev _ _)
  | other disk _ ht => exact ⟨disk, ht⟩

theorem traced_nil (h : Traced p s [] s') : s' = s := by
  cases h
  rfl

/-! ### The hooks -/

/-- The state before an attempt: there is a context, and its log file is a real one. -/
def Logged (s : State) : Prop :=
  ∃ ctx f, s.ctx = some ctx ∧ ctx.get "log_file" = some f ∧ f ≠ "/dev/null"

/-- The state is one layer deeper than `s`, and its log file is a real one. -/
def Entered (s s' : State) : Prop :=
  ∃ ctx f, s.ctx = some ctx ∧ s'.ctx = some (ctx.enter.set "log_file" f) ∧ f ≠ "/dev/null"

theorem Entered.logged (h : Entered s s') : Logged s' := by
  obtain ⟨ctx, f, -, hs', hf⟩ := h
  refine ⟨_, f, hs', ?_, hf⟩
  simp [Context.enter, Context.set, Context.get]

theorem Entered.congr {t t' : State} (h : Entered s s') (ht : t.ctx = s.ctx)
    (ht' : t'.ctx = s'.ctx) : Entered t t' := by
  unfold Entered
  rw [ht, ht']
  exact h

theorem onWorkingDir_same {env : HookEnv} {err : Option String}
    (h : onWorkingDir env s = some (s', err)) : s' = s := by
  obtain ⟨-, -, h⟩ := Option.bind_eq_some_iff.mp h
  cases h
  rfl

theorem execPost_same {env : HookEnv} {command : List String} {err : Option String}
    (h : execPost env command s = some (s', err)) : s' = s := by
  obtain ⟨-, -, h⟩ := Option.bind_eq_some_iff.mp h
  obtain ⟨-, -, h⟩ := Option.bind_eq_some_iff.mp h
  obtain ⟨-, -, h⟩ := Option.bind_eq_some_iff.mp h
  cases h
  rfl

/-- The other hooks leave the state alone, and their methods around the sync do not fail. -/
theorem call_other {name : String} {env : HookEnv} {hook : Hook} {ph : Phase} {err : Option String}
    (h : call name env s hook ph = some (s', err)) (hne : hook ≠ .logLimiter) :
    s' = s ∧ (ph = .preExec ∨ ph = .postExec → err = none) := by
  have hnone : some (s, none) = some (s', err) →
      s' = s ∧ (ph = .preExec ∨ ph = .postExec → err = none) := by
    intro h
    cases h
    exact ⟨rfl, fun _ => rfl⟩
  cases hook with
  | logLimiter => exact absurd rfl hne
  | zfs zpool =>
      cases ph with
      | preJob => exact ⟨onWorkingDir_same h, by rintro (hph | hph) <;> cases hph⟩
      | _ => exact hnone h
  | btrfsSnapshot path =>
      cases ph with
      | preJob => exact ⟨onWorkingDir_same h, by rintro (hph | hph) <;> cases hph⟩
      | postSuccess => exact ⟨onWorkingDir_same h, by rintro (hph | hph) <;> cases hph⟩
      | _ => exact hnone h
  | execPost onSuccess command =>
      cases onSuccess with
      | true =>
          cases ph with
          | postSuccess => exact ⟨execPost_same h, by rintro (hph | hph) <;> cases hph⟩
          | _ => exact hnone h
      | false =>
          cases ph with
          | postFail => exact ⟨execPost_same h, by rintro (hph | hph) <;> cases hph⟩
          | _ => exact hnone h

/-! ### Log files -/

theorem getLast?_intercalate {sep : Text} {l : List Text} {x : Text} {c : Char}
    (hl : l.getLast? = some x) (hx : x.getLast? = some c) :
    (sep.intercalate l).getLast? = some c := by
  induction l with
  | nil => cases hl
  | cons y l ih =>
      cases l with
      | nil =>
          obtain rfl := Option.some.inj hl
          rw [List.intercalate_singleton]
          exact hx
      | cons z l =>
          rw [List.getLast?_cons_cons] at hl
          rw [List.intercalate_cons_cons, List.getLast?_append, ih hl]
          rfl

theorem head?_cleanStep (rooted : Bool) (stack : List Text) {x : Text} {c : Char}
    (h : x.getLast? = some c) (hdot : c ≠ '.') :
    (cleanStep rooted stack x).head? = some x := by
  unfold cleanStep
  rw [if_neg, if_neg]
  · rfl
  · rintro rfl
    exact hdot (Option.some.inj h).symm
  · rintro (rfl | rfl)
    · cases h
    · exact hdot (Option.some.inj h).symm

/-- The last element of a path. -/
theorem splitOn_concat (path : Text) {c : Char} (h : path.getLast? = some c) (hslash : c ≠ '/') :
    ∃ init x, path.splitOn '/' = init ++ [x] ∧ x.getLast? = some c := by
  by_cases hmem : '/' ∈ path.reverse
  · obtain ⟨as, bs, heq, has⟩ := List.eq_append_cons_of_mem hmem
    have hpath : path = bs.reverse ++ '/' :: as.reverse := by
      rw [← List.reverse_reverse path, heq]
      simp
    refine ⟨bs.reverse.splitOn '/', as.reverse, ?_, ?_⟩
    · rw [hpath, List.splitOn_append_cons_self,
        List.splitOn_eq_singleton (fun hc => has (List.mem_reverse.mp hc))]
    · rw [hpath, List.getLast?_append, List.getLast?_cons] at h
      cases has' : as.reverse.getLast? with
      | none =>
          rw [has'] at h
          exact absurd (Option.some.inj h).symm hslash
      | some d =>
          rw [has'] at h
          exact h
  · refine ⟨[], path, ?_, h⟩
    rw [List.splitOn_eq_singleton (fun hc => hmem (List.mem_reverse.mpr hc))]
    rfl

/-- A path that ends in a letter keeps it. -/
theorem getLast?_clean {path : Text} {c : Char} (h : path.getLast? = some c) (hslash : c ≠ '/')
    (hdot : c ≠ '.') : (clean path).getLast? = some c := by
  obtain ⟨init, x, hsplit, hx⟩ := splitOn_concat path h hslash
  have hbody : (['/'].intercalate ((path.splitOn '/').foldl
      (cleanStep (path.head? = some '/')) []).reverse).getLast? = some c := by
    refine getLast?_intercalate ?_ hx
    rw [List.getLast?_reverse, hsplit, List.foldl_append]
    exact head?_cleanStep _ _ hx hdot
  unfold clean
  dsimp only
  split
  · rw [List.getLast?_cons, hbody]
    rfl
  · split
    · rename_i hempty
      rw [hempty] at hbody
      cases hbody
    · exact hbody

/-- A path that ends so is not the null device. -/
theorem joinPath_ne_null (dir : String) {file : String} (h : file.toList.getLast? = some 'g') :
    joinPath dir file ≠ "/dev/null" := by
  have hlast : (joinPath dir file).toList.getLast? = some 'g' := by
    unfold joinPath
    split
    · rw [String.toList_ofList]
      refine getLast?_clean ?_ (by decide) (by decide)
      rw [List.getLast?_append, List.getLast?_cons, h]
      rfl
    · split
      · rw [String.toList_ofList]
        exact getLast?_clean h (by decide) (by decide)
      · rename_i hempty
        rw [not_not.mp hempty] at h
        cases h
  intro heq
  rw [heq] at hlast
  revert hlast
  decide

theorem logFile_ne_null (logDir name now : String) :
    joinPath logDir (logFileName name now) ≠ "/dev/null" := by
  refine joinPath_ne_null logDir ?_
  unfold logFileName
  rw [String.toList_append, List.getLast?_append]
  rfl

/-! ### The log limiter -/

theorem limitLogs_spec {name : String} {env : HookEnv} {err : Option String} (hs : Logged s)
    (h : limitLogs name env s = some (s', err)) :
    (err = none ∧ Entered s s') ∨ (err ≠ none ∧ s' = s) := by
  obtain ⟨ctx, f, hctx, hf, hne⟩ := hs
  have hfile : s.logFile = some f := by
    unfold State.logFile State.lookup
    rw [hctx, Option.bind_some, hf]
  unfold limitLogs at h
  rw [hfile, Option.bind_eq_bind, Option.bind_some, if_neg hne] at h
  obtain ⟨logDir, -, h⟩ := Option.bind_eq_some_iff.mp h
  cases hdir : env.readDir with
  | error e =>
      rw [hdir] at h
      cases e with
      | notExist =>
          cases h
          refine .inl ⟨rfl, ctx, _, hctx, ?_, logFile_ne_null logDir name env.now⟩
          unfold State.enterContext
          rw [hctx]
      | other e =>
          cases h
          exact .inr ⟨nofun, rfl⟩
  | ok files =>
      rw [hdir] at h
      cases h
      refine .inl ⟨rfl, ctx, _, hctx, ?_, logFile_ne_null logDir name env.now⟩
      unfold State.enterContext
      rw [hctx]

/-- The log limiter leaves the context that it has entered. -/
theorem limiter_exit {name : String} {env : HookEnv} {ph : Phase} {err : Option String} {t : State}
    (ht : Entered t s) (hph : ph = .postSuccess ∨ ph = .postFail)
    (h : call name env s .logLimiter ph = some (s', err)) : err = none ∧ s'.ctx = t.ctx := by
  obtain ⟨ctx, f, hctx, hs, -⟩ := ht
  have hexit : ∀ s₁ s₂ : State, s₁.ctx = s.ctx → s₁.exitContext = some s₂ → s₂.ctx = t.ctx := by
    intro s₁ s₂ h₁ h₂
    unfold State.exitContext at h₂
    rw [h₁, hs, Option.map_some] at h₂
    cases h₂
    exact hctx.symm
  rcases hph with rfl | rfl
  · obtain ⟨s₂, h₂, he⟩ := Option.map_eq_some_iff.mp h
    cases he
    exact ⟨rfl, hexit s _ rfl h₂⟩
  · simp only [call, keepFailedLog, Option.bind_eq_bind, Option.bind_eq_some_iff] at h
    obtain ⟨logFile, -, logDir, -, s₂, h₂, h⟩ := h
    cases h
    exact ⟨rfl, hexit _ _ (by rfl) h₂⟩

/-- The methods of the log limiter that are those of the empty hook. -/
theorem limiter_quiet {name : String} {env : HookEnv} {ph : Phase} {err : Option String}
    (hph : ph = .preJob ∨ ph = .postExec)
    (h : call name env s .logLimiter ph = some (s', err)) : err = none ∧ s' = s := by
  rcases hph with rfl | rfl
  · cases h
    exact ⟨rfl, rfl⟩
  · cases h
    exact ⟨rfl, rfl⟩

/-! ### A list of hooks -/

/-- The hooks that `newMirrorProvider` adds: the log limiter comes first and only once. -/
structure Hooked (p : MirrorProvider) (q : Provider) : Prop where
  first : p.hooks[0]? = some .logLimiter
  rest : ∀ h hook, p.hooks[h + 1]? = some hook → hook ≠ .logLimiter
  hooks : q.hooks = 0 :: List.range' 1 (p.hooks.length - 1)

/-- The hooks behind the log limiter leave the context alone. -/
theorem runHooks_others {ph : Phase} {hs : List ℕ} {o : Option Bool}
    (hrest : ∀ h hook, p.hooks[h + 1]? = some hook → hook ≠ .logLimiter) (hpos : ∀ h ∈ hs, 0 < h)
    (h : Ends (runHooks ph hs) tr o) (ht : Traced p s tr s') :
    s'.ctx = s.ctx ∧ (ph = .preExec ∨ ph = .postExec → o = some false) := by
  induction hs generalizing s tr with
  | nil =>
      obtain ⟨rfl, rfl⟩ := ends_ret.mp h
      rw [traced_nil ht]
      exact ⟨rfl, fun _ => rfl⟩
  | cons x hs ih =>
      obtain ⟨r, tr₁, rfl, h₁⟩ := ends_op.mp h
      obtain ⟨x, rfl⟩ : ∃ y, x = y + 1 := ⟨x - 1, by have := hpos x List.mem_cons_self; omega⟩
      cases ht with
      | other disk hev ht => exact absurd rfl (hev ph (x + 1))
      | hook env hk hc ht =>
          obtain ⟨rfl, herr⟩ := call_other hc (hrest x _ hk)
          cases r with
          | none => exact ih (fun y hy => hpos y (List.mem_cons_of_mem _ hy)) h₁ ht
          | some err =>
              obtain ⟨u, tr₂, rfl, h₂⟩ := ends_op.mp h₁
              obtain ⟨rfl, rfl⟩ := ends_ret.mp h₂
              obtain ⟨disk, ht⟩ := ht.skip nofun
              rw [traced_nil ht]
              exact ⟨rfl, fun hph => nomatch herr hph⟩

/-- What the hooks of a phase do to the context, by the phase. -/
theorem runHooks_preJob {o : Option Bool} (hq : Hooked p q)
    (h : Ends (runHooks .preJob q.hooks) tr o) (ht : Traced p s tr s') : s'.ctx = s.ctx := by
  rw [hq.hooks] at h
  obtain ⟨r, tr₁, rfl, h₁⟩ := ends_op.mp h
  cases ht with
  | other disk hev ht => exact absurd rfl (hev .preJob 0)
  | hook env hk hc ht =>
      obtain rfl := Option.some.inj (hq.first.symm.trans hk)
      obtain ⟨rfl, rfl⟩ := limiter_quiet (.inl rfl) hc
      refine (runHooks_others hq.rest (fun x hx => ?_) h₁ ht).1
      exact (List.mem_range'_1.mp hx).1

theorem runHooks_preExec {o : Option Bool} (hq : Hooked p q) (hs : Logged s)
    (h : Ends (runHooks .preExec q.hooks) tr o) (ht : Traced p s tr s') :
    (o = some false ∧ Entered s s') ∨ (o = some true ∧ s'.ctx = s.ctx) := by
  rw [hq.hooks] at h
  obtain ⟨r, tr₁, rfl, h₁⟩ := ends_op.mp h
  cases ht with
  | other disk hev ht => exact absurd rfl (hev .preExec 0)
  | hook env hk hc ht =>
      obtain rfl := Option.some.inj (hq.first.symm.trans hk)
      rcases limitLogs_spec hs hc with ⟨rfl, he⟩ | ⟨hr, rfl⟩
      · obtain ⟨hctx, ho⟩ := runHooks_others hq.rest
          (fun x hx => (List.mem_range'_1.mp hx).1) h₁ ht
        exact .inl ⟨ho (.inl rfl), he.congr rfl hctx⟩
      · obtain ⟨err, rfl⟩ := Option.ne_none_iff_exists'.mp hr
        obtain ⟨u, tr₂, rfl, h₂⟩ := ends_op.mp h₁
        obtain ⟨rfl, rfl⟩ := ends_ret.mp h₂
        obtain ⟨disk, ht⟩ := ht.skip nofun
        rw [traced_nil ht]
        exact .inr ⟨rfl, rfl⟩

/-- The runs of a list of hooks and one more. -/
theorem runHooks_concat {ph : Phase} {hs : List ℕ} {x : ℕ} {o : Option Bool}
    (h : Ends (runHooks ph (hs ++ [x])) tr o) :
    (o = some true ∧ Ends (runHooks ph hs) tr o) ∨
      ∃ tr₁ tr₂, tr = tr₁ ++ tr₂ ∧ Ends (runHooks ph hs) tr₁ (some false) ∧
        Ends (runHooks ph [x]) tr₂ o := by
  induction hs generalizing tr with
  | nil => exact .inr ⟨[], tr, rfl, .ret false, h⟩
  | cons y hs ih =>
      obtain ⟨r, tr₁, rfl, h₁⟩ := ends_op.mp h
      cases r with
      | none =>
          rcases ih h₁ with ⟨ho, h₂⟩ | ⟨tr₂, tr₃, rfl, h₂, h₃⟩
          · exact .inl ⟨ho, ends_op.mpr ⟨none, tr₁, rfl, h₂⟩⟩
          · exact .inr ⟨⟨.hook ph y, none⟩ :: tr₂, tr₃, rfl,
              ends_op.mpr ⟨none, tr₂, rfl, h₂⟩, h₃⟩
      | some err =>
          have ho : o = some true := by
            obtain ⟨u, tr₂, rfl, h₂⟩ := ends_op.mp h₁
            exact (ends_ret.mp h₂).2
          exact .inl ⟨ho, ends_op.mpr ⟨some err, tr₁, rfl, h₁⟩⟩

/-- A failing hook counts behind the sync only. -/
theorem runHooks_leaks {ph : Phase} {hs : List ℕ} {o : Option Bool}
    (h : Ends (runHooks ph hs) tr o) :
    tr.any leaks = ((ph == .postSuccess || ph == .postFail) && o == some true) := by
  induction hs generalizing tr with
  | nil =>
      obtain ⟨rfl, rfl⟩ := ends_ret.mp h
      exact (Bool.and_false _).symm
  | cons x hs ih =>
      obtain ⟨r, tr₁, rfl, h₁⟩ := ends_op.mp h
      cases r with
      | none =>
          rw [← ih h₁]
          cases ph <;> rfl
      | some err =>
          obtain ⟨u, tr₂, rfl, h₂⟩ := ends_op.mp h₁
          obtain ⟨rfl, rfl⟩ := ends_ret.mp h₂
          cases ph <;> rfl

/-- The hooks in reverse order: another hook fails, or the log limiter is called last. -/
theorem runHooks_reverse {ph : Phase} {o : Option Bool} (hq : Hooked p q)
    (h : Ends (runHooks ph q.hooks.reverse) tr o) (htr : Traced p s tr s') :
    (o = some true ∧ ph ≠ .postExec ∧ s'.ctx = s.ctx) ∨
      ∃ s₁ s₂ env err, s₁.ctx = s.ctx ∧ call p.base.name env s₁ .logLimiter ph = some (s₂, err) ∧
        (err = none → o = some false ∧ s' = s₂) := by
  have hpos : ∀ x ∈ (List.range' 1 (p.hooks.length - 1)).reverse, 0 < x :=
    fun x hx => (List.mem_range'_1.mp (List.mem_reverse.mp hx)).1
  rw [hq.hooks, List.reverse_cons] at h
  rcases runHooks_concat h with ⟨rfl, h₁⟩ | ⟨tr₁, tr₂, rfl, h₁, h₂⟩
  · obtain ⟨hctx, hquiet⟩ := runHooks_others hq.rest hpos h₁ htr
    refine .inl ⟨rfl, ?_, hctx⟩
    intro hph
    cases hquiet (.inr hph)
  · obtain ⟨s₁, ht₁, ht₂⟩ := traced_append htr
    obtain ⟨hctx, -⟩ := runHooks_others hq.rest hpos h₁ ht₁
    obtain ⟨err, tr₃, rfl, h₃⟩ := ends_op.mp h₂
    cases ht₂ with
    | other disk hev _ => exact absurd rfl (hev ph 0)
    | hook env hk hc ht₃ =>
        obtain rfl := Option.some.inj (hq.first.symm.trans hk)
        refine .inr ⟨s₁, _, env, err, hctx, hc, ?_⟩
        rintro rfl
        obtain ⟨rfl, ho⟩ := ends_ret.mp h₃
        exact ⟨ho, traced_nil ht₃⟩

/-- The post-success or post-fail hooks. -/
theorem runHooks_post {ph : Phase} {o : Option Bool} {t : State} (hq : Hooked p q)
    (ht : Entered t s) (hph : ph = .postSuccess ∨ ph = .postFail)
    (h : Ends (runHooks ph q.hooks.reverse) tr o) (htr : Traced p s tr s') :
    (o = some false ∧ tr.any leaks = false ∧ s'.ctx = t.ctx) ∨
      (o = some true ∧ tr.any leaks = true ∧ s'.ctx = s.ctx) := by
  have hleaks : tr.any leaks = (o == some true) := by
    rw [runHooks_leaks h]
    rcases hph with rfl | rfl <;> rfl
  rcases runHooks_reverse hq h htr with ⟨rfl, -, hctx⟩ | ⟨s₁, s₂, env, err, hctx, hc, hend⟩
  · exact .inr ⟨rfl, hleaks, hctx⟩
  · obtain ⟨herr, hexit⟩ := limiter_exit (ht.congr rfl hctx) hph hc
    obtain ⟨rfl, rfl⟩ := hend herr
    exact .inl ⟨rfl, hleaks, hexit⟩

/-- The post-exec hooks do nothing. -/
theorem runHooks_postExec {o : Option Bool} (hq : Hooked p q)
    (h : Ends (runHooks .postExec q.hooks.reverse) tr o) (htr : Traced p s tr s') :
    o = some false ∧ s'.ctx = s.ctx := by
  rcases runHooks_reverse hq h htr with ⟨-, hph, -⟩ | ⟨s₁, s₂, env, err, hctx, hc, hend⟩
  · exact absurd rfl hph
  · obtain ⟨herr, rfl⟩ := limiter_quiet (.inr rfl) hc
    obtain ⟨ho, rfl⟩ := hend herr
    exact ⟨ho, hctx⟩

/-! ### One attempt -/

/-- How an attempt or a part of it that began in the context of `t` ends: in that context, or one
layer deeper behind a failure. -/
def Balanced (t s' : State) (leaked more : Bool) : Prop :=
  (leaked = false ∧ s'.ctx = t.ctx) ∨ (leaked = true ∧ more = false ∧ Entered t s')

/-- Behind the last hooks the context stays. -/
theorem finish_traced {retry : ℤ} {r : Outcome} {o : Option Bool} (h : Finish q retry r tr o)
    (htr : Traced p s tr s') : tr.any leaks = false ∧ s'.ctx = s.ctx := by
  cases h with
  | success n st hr =>
      obtain ⟨_, ht₁⟩ := htr.skip nofun
      obtain ⟨_, ht₂⟩ := ht₁.skip nofun
      obtain ⟨_, ht₃⟩ := ht₂.skip nofun
      rw [traced_nil ht₃]
      exact ⟨rfl, rfl⟩
  | last err st hr hl =>
      obtain ⟨_, ht₁⟩ := htr.skip nofun
      obtain ⟨_, ht₂⟩ := ht₁.skip nofun
      rw [traced_nil ht₂]
      exact ⟨rfl, rfl⟩
  | again err hr hl =>
      obtain ⟨_, ht₁⟩ := htr.skip nofun
      rw [traced_nil ht₁]
      exact ⟨rfl, rfl⟩

theorem phase_eq (r : Outcome) : r.phase = .postSuccess ∨ r.phase = .postFail := by
  unfold Outcome.phase
  split
  · exact .inl rfl
  · exact .inr rfl

theorem report_traced {retry : ℤ} {r : Outcome} {more : Bool} {t : State} (hq : Hooked p q)
    (ht : Entered t s) (h : Ends (report q retry r) tr (some more)) (htr : Traced p s tr s') :
    Balanced t s' (tr.any leaks) more := by
  rcases report_cases h with ⟨-, h₁⟩ | ⟨tr₁, tr₂, rfl, h₁, h₂⟩
  · cases (runHooks_postExec hq h₁ htr).1
  obtain ⟨s₁, ht₁, ht₂⟩ := traced_append htr
  have he : Entered t s₁ := ht.congr rfl (runHooks_postExec hq h₁ ht₁).2
  have hl : tr₁.any leaks = false := runHooks_leaks h₁
  rw [List.any_append, hl, Bool.false_or]
  rcases h₂ with ⟨hmore, h₃⟩ | ⟨tr₃, tr₄, rfl, h₃, hf⟩
  · obtain rfl := Option.some.inj hmore
    rcases runHooks_post hq he (phase_eq r) h₃ ht₂ with ⟨ho, -, -⟩ | ⟨-, hl₃, hctx⟩
    · cases ho
    · exact .inr ⟨hl₃, rfl, he.congr rfl hctx⟩
  · obtain ⟨s₂, ht₃, ht₄⟩ := traced_append ht₂
    rcases runHooks_post hq he (phase_eq r) h₃ ht₃ with ⟨-, hl₃, hctx⟩ | ⟨ho, -, -⟩
    · obtain ⟨hl₄, hctx₄⟩ := finish_traced hf ht₄
      refine .inl ⟨?_, hctx₄.trans hctx⟩
      rw [List.any_append, hl₃, hl₄]
      rfl
    · cases ho

theorem leaks_awaitDone (q : Provider) (start : StartSel) (sel : DoneSel) :
    leaks ⟨.awaitDone, sel⟩ = (outcome q start sel).termErr.isSome := by
  rcases sel with err | (_ | err) | (_ | err) <;> rfl

/-- The sync itself changes no context. -/
theorem Traced.sync {start : StartSel} {sel : DoneSel}
    (h : Traced p s (⟨.send ⟨.syncing, "", false⟩, ()⟩ :: ⟨.runProvider, ()⟩ ::
      ⟨.awaitStart, start⟩ :: ⟨.awaitDone, sel⟩ :: tr) s') :
    ∃ disk, Traced p { s with disk } tr s' := by
  obtain ⟨_, h₁⟩ := h.skip nofun
  obtain ⟨_, h₂⟩ := h₁.skip nofun
  obtain ⟨_, h₃⟩ := h₂.skip nofun
  exact h₃.skip nofun

/-- An attempt leaves the context as it was, or ends the run one layer deeper. -/
theorem attempt_traced {retry : ℤ} {more : Bool} (hq : Hooked p q) (hs : Logged s)
    (h : Ends (attempt q retry) tr (some more)) (htr : Traced p s tr s') :
    Balanced s s' (tr.any leaks) more := by
  rcases attempt_cases h with ⟨-, h₁⟩ | ⟨tr₁, tr₂, rfl, h₁, hsync⟩
  · rcases runHooks_preExec hq hs h₁ htr with ⟨ho, -⟩ | ⟨-, hctx⟩
    · cases ho
    · exact .inl ⟨runHooks_leaks h₁, hctx⟩
  obtain ⟨s₁, ht₁, ht₂⟩ := traced_append htr
  have hl : tr₁.any leaks = false := runHooks_leaks h₁
  rw [List.any_append, hl, Bool.false_or]
  rcases runHooks_preExec hq hs h₁ ht₁ with ⟨-, he⟩ | ⟨ho, -⟩
  · cases hsync with
    | termErr start sel e hne hterm =>
        have hdone : leaks ⟨.awaitDone, sel⟩ = true := by
          rw [leaks_awaitDone q start, hterm]
          rfl
        obtain ⟨_, ht₃⟩ := ht₂.sync
        rw [traced_nil ht₃]
        refine .inr ⟨?_, rfl, he.congr rfl rfl⟩
        simp only [List.any_cons, hdone, Bool.true_or, Bool.or_true]
    | report start sel tr₃ _ hne hterm hr =>
        have hdone : leaks ⟨.awaitDone, sel⟩ = false := by
          rw [leaks_awaitDone q start, hterm]
          rfl
        obtain ⟨_, ht₃⟩ := ht₂.sync
        rw [List.any_cons, List.any_cons, List.any_cons, List.any_cons, hdone]
        refine report_traced hq ?_ hr ht₃
        exact he.congr rfl rfl
  · cases ho

/-! ### The runs -/

theorem Logged.congr (h : Logged s) (hc : s'.ctx = s.ctx) : Logged s' := by
  unfold Logged
  rw [hc]
  exact h

theorem attempts_traced {n : ℕ} {retry : ℤ} (hq : Hooked p q) (hs : Logged s)
    (h : Ends (attempts q n retry) tr (some ())) (htr : Traced p s tr s') :
    Balanced s s' (tr.any leaks) false := by
  induction n generalizing retry s tr with
  | zero =>
      obtain ⟨rfl, -⟩ := ends_ret.mp h
      rw [traced_nil htr]
      exact .inl ⟨rfl, rfl⟩
  | succ n ih =>
      rcases attempts_cases h with ⟨tr₁, tr₂, rfl, h₁, h₂⟩ | ⟨-, h₁⟩ | ⟨ho, -⟩
      · obtain ⟨s₁, ht₁, ht₂⟩ := traced_append htr
        rcases attempt_traced hq hs h₁ ht₁ with ⟨hl, hctx⟩ | ⟨-, hmore, -⟩
        · rw [List.any_append, hl, Bool.false_or]
          rcases ih (hs.congr hctx) h₂ ht₂ with ⟨hl₂, hctx₂⟩ | ⟨hl₂, -, he₂⟩
          · exact .inl ⟨hl₂, hctx₂.trans hctx⟩
          · exact .inr ⟨hl₂, rfl, he₂.congr hctx.symm rfl⟩
        · cases hmore
      · exact attempt_traced hq hs h₁ htr
      · cases ho

theorem runJobWrapper_traced (hq : Hooked p q) (hs : Logged s)
    (h : Ends (runJobWrapper q) tr (some ())) (htr : Traced p s tr s') :
    Balanced s s' (tr.any leaks) false := by
  unfold runJobWrapper at h
  obtain ⟨u, tr₁, rfl, h₁⟩ := ends_call_bind.mp h
  obtain ⟨disk, ht₁⟩ := htr.skip nofun
  rw [List.any_cons]
  change Balanced s s' (tr₁.any leaks) false
  rcases ends_runHooks h₁ with ⟨-, h₂⟩ | ⟨tr₂, tr₃, rfl, h₂, h₃⟩
  · exact .inl ⟨runHooks_leaks h₂, (runHooks_preJob hq h₂ ht₁ :)⟩
  · obtain ⟨s₁, ht₂, ht₃⟩ := traced_append ht₁
    have hctx : s₁.ctx = s.ctx := (runHooks_preJob hq h₂ ht₂ :)
    have hl : tr₂.any leaks = false := runHooks_leaks h₂
    rw [List.any_append, hl, Bool.false_or]
    rcases attempts_traced hq (hs.congr hctx) h₃ ht₃ with ⟨hl₃, hctx₃⟩ | ⟨hl₃, -, he⟩
    · exact .inl ⟨hl₃, hctx₃.trans hctx⟩
    · exact .inr ⟨hl₃, rfl, he.congr hctx.symm rfl⟩

/-- The number of layers of the provider. -/
def State.depth (s : State) : Option ℕ := s.ctx.map Context.depth

theorem Entered.depth (h : Entered s s') : s'.depth = s.depth.map (· + 1) := by
  obtain ⟨ctx, f, hs, hs', -⟩ := h
  unfold State.depth
  rw [hs, hs']
  rfl

theorem Logged.depth (h : Logged s) : ∃ n, s.depth = some n := by
  obtain ⟨ctx, f, hs, -⟩ := h
  refine ⟨ctx.depth, ?_⟩
  unfold State.depth
  rw [hs]
  rfl

theorem same_of_ctx (h : s'.ctx = s.ctx) : Same s s' := by
  unfold Same State.lookup
  rw [h]
  exact ⟨rfl, fun _ => rfl⟩

theorem Same.depth (h : Same s s') : s'.depth = s.depth := h.1

theorem same_iff_of_balanced {leaked more : Bool} (hs : Logged s)
    (h : Balanced s s' leaked more) : Same s s' ↔ leaked = false := by
  rcases h with ⟨hl, hctx⟩ | ⟨rfl, -, he⟩
  · exact iff_of_true (same_of_ctx hctx) hl
  · refine iff_of_false (fun hsame => ?_) nofun
    obtain ⟨n, hn⟩ := hs.depth
    have hdepth := he.depth.symm.trans hsame.depth
    rw [hn, Option.map_some, Option.some.injEq] at hdepth
    omega

/-- Every run that leaks leaves one layer. -/
theorem runs_depth {trs : List (List SyncEvent)} (hq : Hooked p q) (hs : Logged s)
    (h : Runs p q s trs s') :
    Logged s' ∧ s'.depth = s.depth.map (· + trs.countP (·.any leaks)) ∧
      ((∀ tr ∈ trs, tr.any leaks = false) → s'.ctx = s.ctx) := by
  induction h with
  | nil s => exact ⟨hs, by simp, fun _ => rfl⟩
  | @run s s₁ s' tr trs hrun htr _ ih =>
      rcases runJobWrapper_traced hq hs hrun htr with ⟨hl, hctx⟩ | ⟨hl, -, he⟩
      · obtain ⟨hs', hd, hsame⟩ := ih (hs.congr hctx)
        have hd₁ : s₁.depth = s.depth := congrArg (Option.map Context.depth) hctx
        refine ⟨hs', ?_, fun hall => ?_⟩
        · rw [List.countP_cons_of_neg (by simp [hl]), hd, hd₁]
        · rw [hsame fun tr' htr' => hall tr' (List.mem_cons_of_mem _ htr'), hctx]
      · obtain ⟨hs', hd, -⟩ := ih he.logged
        have hcount : (tr :: trs).countP (·.any leaks) = 1 + trs.countP (·.any leaks) := by
          rw [List.countP_cons, if_pos hl, Nat.add_comm]
        refine ⟨hs', ?_, fun hall => ?_⟩
        · rw [hcount, hd, he.depth, Option.map_map]
          exact congrArg (Option.map · s.depth) (funext fun n => Nat.add_assoc n 1 _)
        · rw [hall tr List.mem_cons_self] at hl
          cases hl

/-! ### The provider as it is made -/

theorem execHooks_ne_logLimiter {lib : Lib} {onSuccess : Bool} {cmds : List String}
    {hooks : List Hook} (h : execHooks lib onSuccess cmds = .ok hooks) :
    Hook.logLimiter ∉ hooks := by
  induction cmds generalizing hooks with
  | nil =>
      cases h
      exact List.not_mem_nil
  | cons cmd cmds ih =>
      unfold execHooks at h
      rw [List.mapM_cons] at h
      obtain ⟨hook, hhook, h⟩ := bind_eq_ok.mp h
      obtain ⟨rest, hrest, h⟩ := bind_eq_ok.mp h
      obtain ⟨words, -, hhook⟩ := bind_eq_ok.mp hhook
      cases hhook
      cases h
      intro hmem
      rcases List.mem_cons.mp hmem with heq | hmem
      · cases heq
      · exact ih hrest hmem

/-- The log limiter is the first hook of a new provider, and is no other one. -/
theorem newMirrorProvider_hooks {lib : Lib} {cfg : Config} (h : newMirrorProvider lib cfg = .ok p) :
    ∃ rest, p.hooks = .logLimiter :: rest ∧ Hook.logLimiter ∉ rest := by
  obtain ⟨logDir, onSuccess, onFailure, -, hsuccess, hfailure, hhooks⟩ := parts_of_new h
  refine ⟨_, hhooks, ?_⟩
  simp only [List.mem_append, not_or]
  refine ⟨⟨⟨?_, ?_⟩, execHooks_ne_logLimiter hsuccess⟩, execHooks_ne_logLimiter hfailure⟩
  · split <;> simp
  · split <;> simp

theorem hooked_of_new {lib : Lib} {cfg : Config} (h : newMirrorProvider lib cfg = .ok p)
    (hq : q.hooks = List.range p.hooks.length) : Hooked p q := by
  obtain ⟨rest, hhooks, hrest⟩ := newMirrorProvider_hooks h
  refine ⟨?_, fun x hook hx heq => ?_, ?_⟩
  · rw [hhooks]
    rfl
  · rw [hhooks, List.getElem?_cons_succ, heq] at hx
    exact hrest (List.mem_of_getElem? hx)
  · rw [hq, hhooks, List.range_eq_range']
    rfl

theorem logged_init {lib : Lib} {cfg : Config} (h : newMirrorProvider lib cfg = .ok p)
    (disk : Disk) : Logged (State.init p.base disk) := by
  obtain ⟨dir, -, -, hbase, -⟩ := parts_of_new h
  have hfile : p.base.logFile = joinPath dir "latest.log" := by
    rw [hbase]
    rfl
  refine ⟨_, p.base.logFile, rfl, ?_, ?_⟩
  · simp [Context.new, Context.set, Context.get]
  · rw [hfile]
    exact joinPath_ne_null dir (by decide)

/-- After any number of runs, the next one leaves the context as it is exactly if neither
`Terminate` nor a hook behind the sync fails in it.  The context is that of the new provider
exactly if this holds for all runs. -/
theorem runs_context_iff {lib : Lib} {cfg : Config} (hp : newMirrorProvider lib cfg = .ok p)
    (hq : q.hooks = List.range p.hooks.length) {disk : Disk} {trs : List (List SyncEvent)}
    (h : Runs p q (State.init p.base disk) trs s) :
    (∀ tr s', Ends (runJobWrapper q) tr (some ()) → Traced p s tr s' →
      (Same s s' ↔ tr.any leaks = false)) ∧
    (Same (State.init p.base disk) s ↔ ∀ tr ∈ trs, tr.any leaks = false) := by
  have hhooked := hooked_of_new hp hq
  have hinit := logged_init hp disk
  obtain ⟨hs, hdepth, hctx⟩ := runs_depth hhooked hinit h
  refine ⟨fun tr s' hrun htr => ?_, fun hsame => ?_, fun hall => same_of_ctx (hctx hall)⟩
  · exact same_iff_of_balanced hs (runJobWrapper_traced hhooked hs hrun htr)
  · obtain ⟨n, hn⟩ := hinit.depth
    rw [hsame.depth, hn, Option.map_some, Option.some.injEq] at hdepth
    have hzero : trs.countP (·.any leaks) = 0 := by omega
    exact fun tr htr => Bool.eq_false_iff.mpr (List.countP_eq_zero.mp hzero tr htr)

/-! ### A command behind the sync -/

/-- The words of a command are not split and the log directory is taken as it is. -/
def plainLib : Lib where
  formatLogDir := fun cfg => .ok cfg.logDir
  splitWords := fun cmd => .ok [cmd]
  compile := fun _ => none

/-- A command provider with a command that is run after success. -/
def notifyConfig : Config :=
  WorkerConfig.readConfig (WorkerConfig.lookupEnv
    [{ name := "NAME", value := "debian" }, { name := "PROVIDER", value := "command" },
      { name := "COMMAND", value := "sync" }, { name := "EXEC_ON_SUCCESS", value := "notify" }])

def notifyProvider : MirrorProvider where
  base := WorkerConfig.baseOf notifyConfig "/var/log"
  kind := .cmd ["sync"] none none
  hooks := [.logLimiter, .execPost true ["notify"]]

def notifyRun : Provider := ⟨"debian", [0, 1], 2, "0s", 86400000000000⟩

theorem notifyProvider_new : newMirrorProvider plainLib notifyConfig = .ok notifyProvider := by
  decide +kernel

/-- The sync succeeds, and the command behind it answers with `err`. -/
def notifyTrace (err : Option String) : List SyncEvent :=
  [⟨.send ⟨.preSyncing, "", false⟩, ()⟩, ⟨.hook .preJob 0, none⟩, ⟨.hook .preJob 1, none⟩,
    ⟨.hook .preExec 0, none⟩, ⟨.hook .preExec 1, none⟩, ⟨.send ⟨.syncing, "", false⟩, ()⟩,
    ⟨.runProvider, ()⟩, ⟨.awaitStart, .started⟩, ⟨.awaitDone, .done none⟩,
    ⟨.hook .postExec 1, none⟩, ⟨.hook .postExec 0, none⟩, ⟨.hook .postSuccess 1, err⟩]

/-- The state of the provider behind that command. -/
theorem notifyTrace_traced (err : Option String) (disk : Disk)
    (h : Traced notifyProvider ((State.init notifyProvider.base disk).enterContext "log_file"
      (joinPath "/var/log" (logFileName "debian" ""))) tr s') :
    Traced notifyProvider (State.init notifyProvider.base disk) (notifyTrace err ++ tr) s' := by
  refine .other disk nofun (.hook {} rfl rfl (.hook {} rfl rfl (.hook {} rfl rfl ?_)))
  refine .hook {} rfl rfl (.other disk nofun (.other disk nofun (.other disk nofun ?_)))
  exact .other disk nofun (.hook {} rfl rfl (.hook {} rfl rfl (.hook { err } rfl rfl h)))

/-- The command succeeds, and the run sends its last message. -/
def notifiedTrace : List SyncEvent :=
  notifyTrace none ++ [⟨.hook .postSuccess 0, none⟩, ⟨.dataSize, 7⟩, ⟨.getState, .ready⟩,
    ⟨.send ⟨.success, "", true⟩, ()⟩]

theorem runs_context_notified : ∃ s,
    Runs notifyProvider notifyRun (State.init notifyProvider.base fun _ => none) [notifiedTrace] s ∧
      Same (State.init notifyProvider.base fun _ => none) s := by
  obtain ⟨s, hrun⟩ : ∃ s, Runs notifyProvider notifyRun
      (State.init notifyProvider.base fun _ => none) [notifiedTrace] s := by
    refine ⟨_, .run ?_ (notifyTrace_traced none _ (.hook {} rfl rfl (.other (fun _ => none) nofun
      (.other (fun _ => none) nofun (.other (fun _ => none) nofun (.nil _)))))) (.nil _)⟩
    iterate 16 refine .op _ ?_
    exact .ret ()
  exact ⟨s, hrun, (runs_context_iff notifyProvider_new rfl hrun).2.mpr (by decide)⟩

/-- The command behind the sync fails: the run returns, and the layer of the log limiter stays. -/
theorem failed_command_leaves_layer : ∃ tr s',
    newMirrorProvider plainLib notifyConfig = .ok notifyProvider ∧
      Ends (runJobWrapper notifyRun) tr (some ()) ∧
      Traced notifyProvider (State.init notifyProvider.base fun _ => none) tr s' ∧
      (State.init notifyProvider.base fun _ => none).depth = some 1 ∧ s'.depth = some 2 ∧
      ¬ Same (State.init notifyProvider.base fun _ => none) s' := by
  refine ⟨notifyTrace (some "exit status 1") ++ [⟨.send ⟨.failed,
    "error exec hook post-success: exit status 1", true⟩, ()⟩], _, notifyProvider_new, ?_,
    notifyTrace_traced _ _ (.other (fun _ => none) nofun (.nil _)), rfl, rfl, fun h => ?_⟩
  · iterate 13 refine .op _ ?_
    exact .ret ()
  · cases h.1

end KubeSync.ProviderContext
