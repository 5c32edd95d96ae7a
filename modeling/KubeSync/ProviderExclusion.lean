import KubeSync.Lts
import KubeSync.Pool
import KubeSync.ProviderSteps

/-! # One child process for a provider

At most one process of a provider is alive (`run_oneProcess`).  The invariant `Inv` says that one
call at a time owns the provider, that `isRunning` says when there is one, and that the process that
is alive is the one it waits for.  The command and the rsync provider keep it in every step; a
two-stage provider keeps it if its second stage finds that nothing is running (`rechecks`). -/

namespace KubeSync.ProviderProcess

open Worker (SyncProg SyncOp StartSel DoneSel Reply JobState runJobWrapper)

def Cmd.Alive (c : Cmd) : Prop := ∃ signalled, c = .running signalled

/-- The call has started a command and not yet stored `isRunning` behind it. -/
def Call.Owns (call : Call) : Prop :=
  match call.pc with
  | .launched _ | .waiting _ _ | .waited _ _ => True
  | _ => False

/-- The call waits, or is going to wait, for the command `c`. -/
def State.Tends (s : State) (call : Call) (c : ℕ) : Prop :=
  match call.pc with
  | .launched _ => s.cmd = some c
  | .waiting _ c' => c' = c
  | _ => False

/-- One call at a time owns the provider, `isRunning` says when there is one, and it waits for
every process that is alive. -/
structure Inv (s : State) : Prop where
  running : ∀ call ∈ s.calls, call.Owns → s.isRunning = true
  solo : Pool.Solo Call.Owns s.calls
  tended : ∀ (c : ℕ) (x : Cmd), s.cmds[c]? = some x → x.Alive →
    ∃ call ∈ s.calls, s.Tends call c

variable {cfg : Config} {kind : Kind} {s s' : State} {k : ℕ} {call : Call}

theorem State.Tends.owns {c : ℕ} (h : s.Tends call c) : call.Owns := by
  unfold State.Tends at h
  unfold Call.Owns
  split at h <;> simp_all

theorem State.Tends.unique {c c' : ℕ} (h : s.Tends call c) (h' : s.Tends call c') : c = c' := by
  unfold State.Tends at h h'
  split at h
  · rename_i hpc
    rw [hpc] at h'
    exact Option.some.inj (h.symm.trans h')
  · rename_i hpc
    rw [hpc] at h'
    exact h.symm.trans h'
  · exact h.elim

theorem Inv.init : Inv State.init where
  running _ h := by cases h
  solo := Pool.solo_of_none fun _ h => by cases h
  tended _ _ h := by cases h

theorem Inv.oneProcess (h : Inv s) : Pool.Solo Cmd.Alive s.cmds := by
  intro c c' x x' hc hc' hx hx'
  obtain ⟨call, hcall, ht⟩ := h.tended c x hc hx
  obtain ⟨call', hcall', ht'⟩ := h.tended c' x' hc' hx'
  obtain ⟨k, hk⟩ := List.getElem?_of_mem hcall
  obtain ⟨k', hk'⟩ := List.getElem?_of_mem hcall'
  obtain rfl := h.solo k k' call call' hk hk' ht.owns ht'.owns
  obtain rfl := Option.some.inj (hk.symm.trans hk')
  exact ht.unique ht'

theorem Inv.not_alive (h : Inv s) (hno : ∀ call ∈ s.calls, ¬ call.Owns) :
    ∀ x ∈ s.cmds, ¬ x.Alive := by
  intro x hx ha
  obtain ⟨c, hc⟩ := List.getElem?_of_mem hx
  obtain ⟨call, hcall, ht⟩ := h.tended c x hc ha
  exact hno call hcall ht.owns

theorem Inv.not_owns (h : Inv s) (hr : s.isRunning = false) : ∀ call ∈ s.calls, ¬ call.Owns := by
  intro call hcall ho
  rw [h.running call hcall ho] at hr
  cases hr

/-! ### The steps keep the invariant -/

/-- A step of a call that makes it neither an owner nor leave a process behind. -/
theorem Inv.setPc {pc : Pc} (h : Inv s) (hk : s.calls[k]? = some call)
    (ho : ({ call with pc } : Call).Owns → call.Owns)
    (ht : ∀ (c : ℕ) (x : Cmd), s.cmds[c]? = some x → x.Alive → s.Tends call c →
      s.Tends { call with pc } c) : Inv (s.setPc k call pc) where
  running := by
    refine Pool.forall_set h.running fun ho' => ?_
    exact h.running call (List.mem_of_getElem? hk) (ho ho')
  solo := h.solo.set hk ho
  tended c x hc hx := by
    exact Pool.exists_set (P := fun call => s.Tends call c) hk (ht c x hc hx) (h.tended c x hc hx)

/-- A call that did not own the provider returns. -/
theorem Inv.returned {err : Option String} (h : Inv s) (hk : s.calls[k]? = some call)
    (hno : ¬ call.Owns) : Inv (s.setPc k call (.returned err)) :=
  h.setPc hk (fun ho => ho.elim) fun _ _ _ _ ht => absurd ht.owns hno

theorem Inv.launch {stage : Stage} {x : Launch} (h : Inv s) (hk : s.calls[k]? = some call)
    (hno : ¬ call.Owns) (hr : s.isRunning = false) : Inv (launch kind s k call stage x) := by
  have hnone := h.not_owns hr
  have hdead := h.not_alive hnone
  have hfail : ∀ {x : Cmd} {err : Option String}, ¬ x.Alive →
      Inv ((s.addCmd x).setPc k call (.returned err)) := by
    intro x err hx
    have hnone' : ∀ c ∈ s.calls.set k { call with pc := .returned err }, ¬ c.Owns :=
      Pool.forall_set hnone fun ho => ho.elim
    refine ⟨fun c hc ho => absurd ho (hnone' c hc), Pool.solo_of_none hnone', ?_⟩
    intro c y hc hy
    rcases List.mem_append.mp (List.mem_of_getElem? hc) with hmem | hmem
    · exact absurd hy (hdead y hmem)
    · rw [List.mem_singleton.mp hmem] at hy
      exact absurd hy hx
  unfold ProviderProcess.launch
  split
  · exact h.returned hk hno
  · split
    · exact hfail nofun
    · exact hfail nofun
    · refine ⟨fun _ _ _ => rfl, Pool.solo_set_of_none hnone, fun c y hc hy => ?_⟩
      refine Pool.exists_set_new (P := fun call => State.Tends _ call c) hk ?_
      have hlast : Pool.Solo Cmd.Alive (s.cmds ++ [.running false]) := Pool.Solo.append hdead
      exact congrArg some (hlast s.cmds.length c (.running false) y (by simp) hc ⟨_, rfl⟩ hy)

theorem Inv.read {stage : Stage} {c : ℕ} (h : Inv s) (hk : s.calls[k]? = some call)
    (hpc : call.pc = .launched stage) (hcmd : s.cmd = some c) :
    Inv (s.setPc k call (.waiting stage c)) := by
  refine h.setPc hk (fun _ => ?_) fun c' x hc hx ht => ?_
  · unfold Call.Owns
    rw [hpc]
    trivial
  · unfold State.Tends at ht
    rw [hpc] at ht
    exact Option.some.inj (hcmd.symm.trans ht)

theorem Inv.reap {stage : Stage} {c : ℕ} {x : Cmd} {err : Option String} (h : Inv s)
    (hk : s.calls[k]? = some call) (hpc : call.pc = .waiting stage c) (hx : s.cmds[c]? = some x)
    (hdead : ¬ x.Alive) : Inv (s.setPc k call (.waited stage err)) := by
  refine h.setPc hk (fun _ => ?_) fun c' y hc hy ht => ?_
  · unfold Call.Owns
    rw [hpc]
    trivial
  · unfold State.Tends at ht
    rw [hpc] at ht
    obtain rfl : c = c' := ht
    obtain rfl := Option.some.inj (hx.symm.trans hc)
    exact absurd hy hdead

theorem Inv.clear {stage : Stage} {err : Option String} (h : Inv s)
    (hk : s.calls[k]? = some call) (hpc : call.pc = .waited stage err) :
    Inv ({ s with isRunning := false }.setPc k call (.cleared stage err)) := by
  have howns : call.Owns := by
    unfold Call.Owns
    rw [hpc]
    trivial
  have hnone : ∀ c ∈ s.calls.set k { call with pc := .cleared stage err }, ¬ c.Owns := by
    intro c hc
    rcases h.solo.others hk howns c hc with rfl | hno
    · exact id
    · exact hno
  refine ⟨fun c hc ho => absurd ho (hnone c hc), Pool.solo_of_none hnone, fun c x hc hx => ?_⟩
  obtain ⟨call', hmem, ht⟩ := h.tended c x hc hx
  obtain ⟨k', hk'⟩ := List.getElem?_of_mem hmem
  obtain rfl := h.solo k k' call call' hk hk' howns ht.owns
  obtain rfl := Option.some.inj (hk.symm.trans hk')
  unfold State.Tends at ht
  rw [hpc] at ht
  exact ht.elim

/-- The condition on a step: a `Run` that has locked again to start its next stage finds that
nothing is running. -/
def rechecks (cfg : Config) (s : State) : Label → Bool
  | .resume k _ _ =>
      s.calls[k]?.all fun call => match call.pc with
        | .cleared stage none => !cfg.kind.goesOn stage || !s.isRunning
        | _ => true
  | _ => true

theorem Inv.callStep {l : Label} (h : Inv s) (hk : s.calls[k]? = some call)
    (hc : rechecks cfg s l = true) (hs : CallStep cfg.kind s k call l s') : Inv s' := by
  have hcalled : call.pc = .called → ¬ call.Owns := by
    intro hpc
    unfold Call.Owns
    rw [hpc]
    exact id
  have hcleared : ∀ {stage err}, call.pc = .cleared stage err → ¬ call.Owns := by
    intro stage err hpc
    unfold Call.Owns
    rw [hpc]
    exact id
  cases hs with
  | refuse x hpc _ => exact h.returned hk (hcalled hpc)
  | enter x hpc hr => exact h.launch hk (hcalled hpc) hr
  | read stage c hpc hcmd => exact h.read hk hpc hcmd
  | reap stage c err hpc hx => exact h.reap hk hpc hx nofun
  | reapNotStarted stage c hpc hx => exact h.reap hk hpc hx nofun
  | clear stage err hpc => exact h.clear hk hpc
  | fail x matchErr stage e hpc => exact h.returned hk (hcleared hpc)
  | next x matchErr stage hpc hgo =>
      refine h.launch hk (hcleared hpc) ?_
      simpa [rechecks, hk, hpc, hgo] using hc
  | finish x matchErr stage hpc _ => exact h.returned hk (hcleared hpc)

theorem alive_of_set {cmds : List Cmd} {c c' : ℕ} {y x : Cmd}
    (hy : y.Alive → ∃ z, cmds[c]? = some z ∧ z.Alive) (hc : (cmds.set c y)[c']? = some x)
    (hx : x.Alive) : ∃ z, cmds[c']? = some z ∧ z.Alive := by
  by_cases heq : c = c'
  · subst heq
    have hlt : c < cmds.length := by
      have := (List.getElem?_eq_some_iff.mp hc).1
      rwa [List.length_set] at this
    rw [List.getElem?_set_self hlt] at hc
    obtain rfl := Option.some.inj hc
    exact hy hx
  · rw [List.getElem?_set_ne heq] at hc
    exact ⟨x, hc, hx⟩

/-- Commands may end or be sent a signal. -/
theorem Inv.setCmd {c : ℕ} {y : Cmd} (h : Inv s)
    (hy : y.Alive → ∃ z, s.cmds[c]? = some z ∧ z.Alive) :
    Inv { s with cmds := s.cmds.set c y } where
  running := h.running
  solo := h.solo
  tended c' x hc hx := by
    obtain ⟨z, hz, ha⟩ := alive_of_set hy hc hx
    exact h.tended c' z hz ha

theorem Inv.terminate (h : Inv s) : Inv (terminate s) := by
  unfold ProviderProcess.terminate
  split
  · rename_i c signalled ht
    refine h.setCmd fun _ => ?_
    unfold State.target at ht
    split at ht
    · obtain ⟨c', -, hc⟩ := Option.bind_eq_some_iff.mp ht
      obtain ⟨x, hx, heq⟩ := Option.map_eq_some_iff.mp hc
      cases heq
      exact ⟨_, hx, _, rfl⟩
    · cases ht
  · exact h

theorem Inv.congr (h : Inv s) (hr : s'.isRunning = s.isRunning) (hc : s'.cmd = s.cmd)
    (hcmds : s'.cmds = s.cmds) (hcalls : s'.calls = s.calls) : Inv s' := by
  obtain ⟨running, solo, tended⟩ := h
  obtain ⟨r, c, cmds, calls, w⟩ := s'
  cases hr
  cases hc
  cases hcmds
  cases hcalls
  exact ⟨running, solo, tended⟩

theorem Inv.spawn (h : Inv s) : Inv { s with calls := s.calls ++ [{}] } where
  running := Pool.forall_append h.running fun ho => ho.elim
  solo := h.solo.append_not id
  tended c x hc hx := Pool.exists_append (h.tended c x hc hx)

theorem Inv.effect (h : Inv s) (e : SyncOp) (a : e.Answer) : Inv (effect s e a) := by
  unfold ProviderProcess.effect
  split
  · exact h.spawn
  · exact h.terminate
  · exact h.terminate
  · exact h

theorem step_inv {l : Label} (h : Inv s) (hc : rechecks cfg s l = true)
    (hs : step cfg s l = some s') : Inv s' := by
  cases step_cases hs with
  | sync => exact h.congr rfl rfl rfl rfl
  | wrapper state x e k a _ => exact (h.effect e a).congr rfl rfl rfl rfl
  | exit c err signalled _ => exact h.setCmd nofun
  | call k call _ _ hk hcall => exact h.callStep hk hc hcall

theorem rechecks_of_single (h : ∀ profileOk, cfg.kind ≠ .twoStageRsync profileOk) (s : State)
    (l : Label) : rechecks cfg s l = true := by
  have hgo : ∀ stage, cfg.kind.goesOn stage = false := by
    intro stage
    cases hkind : cfg.kind with
    | cmd => rfl
    | rsync => rfl
    | twoStageRsync profileOk => exact absurd hkind (h profileOk)
  unfold rechecks
  split
  · rw [Option.all_eq_true]
    intro call _
    split
    · rw [hgo]
      rfl
    · rfl
  · rfl

/-- **One child process.**  Over every interleaving of the calls of the sync runs with the exits of
the processes, at most one process of the provider is alive; a two-stage provider needs for this
that each `Run` that locks again for its second stage finds that nothing is running. -/
theorem run_oneProcess (cfg : Config) (ls : List Label) (s : State)
    (h : Lts.run (step cfg) State.init ls = some s)
    (hc : ∀ profileOk, cfg.kind = .twoStageRsync profileOk →
      Lts.Along (step cfg) (fun s l => rechecks cfg s l = true) State.init ls) :
    Pool.Solo Cmd.Alive s.cmds := by
  by_cases hkind : ∃ profileOk, cfg.kind = .twoStageRsync profileOk
  · obtain ⟨profileOk, hkind⟩ := hkind
    have hkeep : ∀ s l s', Inv s → rechecks cfg s l = true → step cfg s l = some s' → Inv s' :=
      fun _ _ _ hi hr hs => step_inv hi hr hs
    exact (Lts.run_invariant hkeep Inv.init (hc profileOk hkind) h).oneProcess
  · have hsingle : ∀ profileOk, cfg.kind ≠ .twoStageRsync profileOk :=
      fun profileOk hk => hkind ⟨profileOk, hk⟩
    have hkeep : ∀ s l s', Inv s → step cfg s l = some s' → Inv s' :=
      fun s l _ hi hs => step_inv hi (rechecks_of_single hsingle s l) hs
    exact (Lts.run_invariant' hkeep Inv.init h).oneProcess

/-- A two-stage provider that is tried twice. -/
def twoStage : Config where
  kind := .twoStageRsync true
  provider := ⟨"debian", [], 2, "1h0m0s", 86400000000000⟩

/-- The first attempt starts its first stage, whose process exits with success. -/
def firstStage : List Label :=
  [.sync, .wrapper .ready .go, .wrapper .ready .go, .wrapper .ready .go, .enter 0 .ok,
    .wrapper .ready (.start .started), .read 0, .exit 0 none, .reap 0, .clear 0]

theorem run_oneProcess_second_stage : ∃ s,
    Lts.run (step twoStage) State.init (firstStage ++ [.resume 0 .ok none]) = some s ∧
      s.cmds = [.exited none, .running false] ∧ Pool.Solo Cmd.Alive s.cmds :=
  ⟨_, rfl, rfl, run_oneProcess twoStage (firstStage ++ [.resume 0 .ok none]) _ rfl
    fun _ _ => Lts.along_of_check rfl⟩

/-- The attempt times out between its stages, where nothing is running; the second attempt starts
before the first one locks again, and both have a process. -/
theorem late_second_stage_two_processes : ∃ s,
    Lts.run (step twoStage) State.init
        (firstStage ++
          [.wrapper .ready (.done (.timeout none)), .wrapper .ready .go, .wrapper .ready .go,
            .wrapper .ready .go, .enter 1 .ok, .resume 0 .ok none]) = some s ∧
      s.cmds = [.exited none, .running false, .running false] :=
  ⟨_, rfl, rfl⟩

end KubeSync.ProviderProcess
