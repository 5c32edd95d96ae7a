import KubeSync.ProviderProcess

/-! # What the steps of a provider can do

`CallStep` has one constructor for each way in which a step of `Run` can go, with the condition it
is taken under and the state it leaves; `Step` adds the sync run and the exits of the processes.
Every step is one of these (`step_cases`), and the invariants of the provider are proved by cases on
them. -/

namespace KubeSync.ProviderProcess

open Worker (SyncProg SyncOp Reply JobState runJobWrapper)

/-- The steps of the call `k`. -/
inductive CallStep (kind : Kind) (s : State) (k : ℕ) (call : Call) : Label → State → Prop
  | refuse (x : Launch) : call.pc = .called → s.isRunning = true →
      CallStep kind s k call (.enter k x)
        (s.setPc k call (.returned (some "provider is currently running")))
  | enter (x : Launch) : call.pc = .called → s.isRunning = false →
      CallStep kind s k call (.enter k x) (launch kind s k call .first x)
  | read (stage : Stage) (c : ℕ) : call.pc = .launched stage → s.cmd = some c →
      CallStep kind s k call (.read k) (s.setPc k call (.waiting stage c))
  | reap (stage : Stage) (c : ℕ) (err : Option String) : call.pc = .waiting stage c →
      s.cmds[c]? = some (.exited err) →
      CallStep kind s k call (.reap k) (s.setPc k call (.waited stage err))
  | reapNotStarted (stage : Stage) (c : ℕ) : call.pc = .waiting stage c →
      s.cmds[c]? = some .notStarted →
      CallStep kind s k call (.reap k) (s.setPc k call (.waited stage (some "exec: not started")))
  | clear (stage : Stage) (err : Option String) : call.pc = .waited stage err →
      CallStep kind s k call (.clear k)
        ({ s with isRunning := false }.setPc k call (.cleared stage err))
  | fail (x : Launch) (matchErr : Option String) (stage : Stage) (e : String) :
      call.pc = .cleared stage (some e) →
      CallStep kind s k call (.resume k x matchErr) (s.setPc k call (.returned (some e)))
  | next (x : Launch) (matchErr : Option String) (stage : Stage) :
      call.pc = .cleared stage none → kind.goesOn stage = true →
      CallStep kind s k call (.resume k x matchErr) (launch kind s k call .second x)
  | finish (x : Launch) (matchErr : Option String) (stage : Stage) :
      call.pc = .cleared stage none → kind.goesOn stage = false →
      CallStep kind s k call (.resume k x matchErr)
        (s.setPc k call (.returned (kind.result matchErr)))

/-- The steps of the provider. -/
inductive Step (cfg : Config) (s : State) : Label → State → Prop
  | sync : Step cfg s .sync { s with wrapper := runJobWrapper cfg.provider }
  | wrapper (state : JobState) (x : Reply) (e : SyncOp) (k : e.Answer → SyncProg Unit)
      (a : e.Answer) : s.wrapper = .op e k →
      Step cfg s (.wrapper state x) { effect s e a with wrapper := k a }
  | exit (c : ℕ) (err : Option String) (signalled : Bool) :
      s.cmds[c]? = some (.running signalled) →
      Step cfg s (.exit c err) { s with cmds := s.cmds.set c (.exited err) }
  | call (k : ℕ) (call : Call) (l : Label) (s' : State) : s.calls[k]? = some call →
      CallStep cfg.kind s k call l s' → Step cfg s l s'

variable {cfg : Config} {kind : Kind} {s s' : State} {k : ℕ} {call : Call}

theorem stepEnter_cases {x : Launch} (hs : stepEnter kind s k call x = some s') :
    CallStep kind s k call (.enter k x) s' := by
  unfold stepEnter at hs
  split at hs
  · rename_i hpc
    split at hs
    · rename_i hr
      cases hs
      exact .refuse x hpc hr
    · rename_i hr
      cases hs
      exact .enter x hpc (eq_false_of_ne_true hr)
  · cases hs

theorem stepRead_cases (hs : stepRead s k call = some s') :
    CallStep kind s k call (.read k) s' := by
  unfold stepRead at hs
  split at hs
  · rename_i stage c hpc hcmd
    cases hs
    exact .read stage c hpc hcmd
  · cases hs

theorem stepReap_cases (hs : stepReap s k call = some s') :
    CallStep kind s k call (.reap k) s' := by
  unfold stepReap at hs
  split at hs
  · rename_i stage c hpc
    split at hs
    · rename_i err hx
      cases hs
      exact .reap stage c err hpc hx
    · rename_i hx
      cases hs
      exact .reapNotStarted stage c hpc hx
    · cases hs
  · cases hs

theorem stepClear_cases (hs : stepClear s k call = some s') :
    CallStep kind s k call (.clear k) s' := by
  unfold stepClear at hs
  split at hs
  · rename_i stage err hpc
    cases hs
    exact .clear stage err hpc
  · cases hs

theorem stepResume_cases {x : Launch} {matchErr : Option String}
    (hs : stepResume kind s k call x matchErr = some s') :
    CallStep kind s k call (.resume k x matchErr) s' := by
  unfold stepResume at hs
  split at hs
  · rename_i stage e hpc
    cases hs
    exact .fail x matchErr stage e hpc
  · rename_i stage hpc
    split at hs
    · rename_i hgo
      cases hs
      exact .next x matchErr stage hpc hgo
    · rename_i hgo
      cases hs
      exact .finish x matchErr stage hpc (eq_false_of_ne_true hgo)
  · cases hs

theorem stepExit_cases {c : ℕ} {err : Option String} (hs : stepExit s c err = some s') :
    ∃ signalled, s.cmds[c]? = some (.running signalled) ∧
      s' = { s with cmds := s.cmds.set c (.exited err) } := by
  unfold stepExit at hs
  split at hs
  · rename_i signalled hx
    cases hs
    exact ⟨signalled, hx, rfl⟩
  · cases hs

theorem step_cases {l : Label} (hs : step cfg s l = some s') : Step cfg s l s' := by
  cases l with
  | sync =>
      dsimp only [step] at hs
      unfold stepSync at hs
      split at hs
      · cases hs
        exact .sync
      · cases hs
  | wrapper state x =>
      dsimp only [step] at hs
      unfold stepWrapper at hs
      split at hs
      · rename_i e k hw
        obtain ⟨a, -, rfl⟩ := Option.map_eq_some_iff.mp hs
        exact .wrapper state x e k a hw
      · cases hs
  | exit c err =>
      obtain ⟨signalled, hx, rfl⟩ := stepExit_cases hs
      exact .exit c err signalled hx
  | enter k x =>
      obtain ⟨call, hk, hs⟩ := Option.bind_eq_some_iff.mp hs
      exact .call k call _ s' hk (stepEnter_cases hs)
  | read k =>
      obtain ⟨call, hk, hs⟩ := Option.bind_eq_some_iff.mp hs
      exact .call k call _ s' hk (stepRead_cases hs)
  | reap k =>
      obtain ⟨call, hk, hs⟩ := Option.bind_eq_some_iff.mp hs
      exact .call k call _ s' hk (stepReap_cases hs)
  | clear k =>
      obtain ⟨call, hk, hs⟩ := Option.bind_eq_some_iff.mp hs
      exact .call k call _ s' hk (stepClear_cases hs)
  | resume k x matchErr =>
      obtain ⟨call, hk, hs⟩ := Option.bind_eq_some_iff.mp hs
      exact .call k call _ s' hk (stepResume_cases hs)

end KubeSync.ProviderProcess
