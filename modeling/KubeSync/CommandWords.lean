import KubeSync.Lts
import KubeSync.Manager
import KubeSync.WorkerSteps

/-! # The words of commands

A command is a word and a flag.  The manager decodes the word, encodes it again for the worker, and
the worker decodes it and acts on it (`internal/types.go`, `PostJSON`, the `POST /` handler).

* A word that the decoder does not know becomes the zero value of `CmdVerb`, which is `CmdStart`.
* `command_words`: what the manager encodes is decoded to the same command, and along every run the
  handler of a known word sends no action but the one that the word names; `ping` flushes the
  schedule and changes nothing else. -/

namespace KubeSync

/-! ### The encoding -/

/-- `CmdVerb.String`. -/
def CmdVerb.string : CmdVerb → String
  | .start => "start"
  | .stop => "stop"
  | .restart => "restart"
  | .ping => "ping"
  | .update => ""

/-- `NewCmdVerbFromString`. -/
def newCmdVerbFromString (s : String) : CmdVerb :=
  let mapping : List (String × CmdVerb) :=
    [("start", .start), ("stop", .stop), ("restart", .restart), ("ping", .ping)]
  (mapping.lookup s).getD .start

/-- The quotation mark. -/
def quoteMark : Char := Char.ofNat 34

/-- `MarshalJSON`. -/
def CmdVerb.marshalJSON (c : CmdVerb) : List Char := quoteMark :: (c.string.toList ++ [quoteMark])

/-- `json.Unmarshal` into a string, for a literal without escapes. -/
def unquote : List Char → Option String
  | [] => none
  | c :: cs =>
      if c = quoteMark ∧ cs.getLast? = some quoteMark ∧ cs.dropLast.all Char.isAlpha then
        some (String.ofList cs.dropLast)
      else none

/-- `UnmarshalJSON`. -/
def unmarshalJSON (b : List Char) : Option CmdVerb := (unquote b).map newCmdVerbFromString

/-- The command that is read from the word `w` and the flag `force`. -/
def clientCmd (w : String) (force : Bool) : ClientCmd := { cmd := newCmdVerbFromString w, force }

/-- The command that the worker reads where the manager has sent `c`. -/
def ClientCmd.reread (c : ClientCmd) : Option ClientCmd :=
  (unmarshalJSON c.cmd.marshalJSON).map fun cmd => { c with cmd }

theorem newCmdVerbFromString_ne_update (s : String) : newCmdVerbFromString s ≠ .update := by
  intro hword
  unfold newCmdVerbFromString at hword
  dsimp only at hword
  generalize hlookup : List.lookup s _ = found at hword
  cases found with
  | none => cases hword
  | some c =>
      obtain ⟨l₁, l₂, hmapping, -⟩ := List.lookup_eq_some_iff.mp hlookup
      have hmem : (s, c) ∈ l₁ ++ (s, c) :: l₂ := List.mem_append_right _ List.mem_cons_self
      rw [← hmapping, show c = .update from hword] at hmem
      simp at hmem

theorem unmarshal_marshal {c : CmdVerb} (h : c ≠ .update) :
    unmarshalJSON c.marshalJSON = some c := by
  cases c with
  | update => exact absurd rfl h
  | _ => rfl

theorem reread_clientCmd (w : String) (force : Bool) :
    (clientCmd w force).reread = some (clientCmd w force) := by
  have h := unmarshal_marshal (newCmdVerbFromString_ne_update w)
  simp only [ClientCmd.reread, clientCmd, h, Option.map_some]

end KubeSync

namespace KubeSync.Manager

/-- Whatever `handleClientCmd` sends is the command that it was given. -/
theorem posted_handleClientCmd (s : Jobs) (env : Env) (id : String) (cmd : Decoded ClientCmd) :
    ∀ p ∈ (handleClientCmd s env id cmd).posted, p = (commandUrl id, cmd.value) := by
  intro p hp
  unfold handleClientCmd Code.handleClientCmd at hp
  split at hp
  · rw [Code.reply_get] at hp
    split at hp
    · cases hp
    · rw [Code.reply_write] at hp
      split at hp
      · cases hp
      · exact List.mem_singleton.mp hp
  · exact List.mem_singleton.mp hp

end KubeSync.Manager

namespace KubeSync.Worker

open Lts

variable {cfg : Config} {c : ClientCmd} {s s' : State}

/-! ### The handler of one command -/

/-- The action that a command names. -/
def action (force : Bool) : CmdVerb → Option CtrlAction
  | .start => some (if force then .forceStart else .start)
  | .stop => some .stop
  | .restart => some .restart
  | .ping => none
  | .update => none

/-- The handler is on its way through the command `c`. -/
def HandlerPc.Serves (c : ClientCmd) : HandlerPc → Prop
  | .remove c' => c' = c
  | .guard a => action c.force c.cmd = some a
  | .spawn a => action c.force c.cmd = some a
  | .check => c.cmd = .stop
  | .send a => action c.force c.cmd = some a
  | .reply code => code = if c.cmd = .update then 406 else 200

/-- The handler serves `c`, or has answered. -/
def Serving (c : ClientCmd) (s : State) : Prop := ∀ pc, s.handler = some pc → pc.Serves c

/-- What one step of the handler does for a command that names the action `a`: only `a` is sent,
the schedule at most flushed, the answer 200, and where no action is named nothing else changes. -/
structure Heeds (a : Option CtrlAction) (s s' : State) : Prop where
  state : s'.state = s.state
  ctrlChan : s'.ctrlChan = s.ctrlChan ∨ s.ctrlChan = none ∧ a.isSome ∧ s'.ctrlChan = a
  schedule : s'.schedule = s.schedule ∨ s'.schedule = { s.schedule with sched := false }
  reply : ∀ code, s'.handler = some (.reply code) → code = 200
  rest : a = none → s' = { s with schedule := s'.schedule, handler := s'.handler }

theorem serves_afterRemove (c : ClientCmd) : (afterRemove c).Serves c := by
  obtain ⟨verb, force⟩ := c
  cases verb <;> simp [afterRemove, HandlerPc.Serves, action]

theorem Serving.mk {pc : HandlerPc} (h : s.handler = some pc) (hpc : pc.Serves c) :
    Serving c s := by
  intro pc' h'
  rw [h] at h'
  cases h'
  exact hpc

/-- A step that leaves the channel and the schedule alone heeds every action. -/
theorem Heeds.of_handler {a : Option CtrlAction} {pc : HandlerPc}
    (h : ∀ code, pc = .reply code → code = 200) : Heeds a s { s with handler := some pc } where
  state := rfl
  ctrlChan := .inl rfl
  schedule := .inl rfl
  reply := fun code hcode => h code (Option.some.inj hcode)
  rest := fun _ => rfl

/-- A step of the handler keeps it on its way and heeds the action of the command. -/
theorem serving_handler (hc : c.cmd ≠ .update) (hs : Serving c s)
    (h : step cfg s .handler = some s') :
    Serving c s' ∧ Heeds (action c.force c.cmd) s s' := by
  have hcode : (if c.cmd = .update then 406 else 200) = 200 := if_neg hc
  cases step_cases h with
  | remove c' hpc hmu =>
      have hc' : c' = c := hs _ hpc
      subst hc'
      have hafter := serves_afterRemove c'
      refine ⟨.mk rfl hafter, rfl, .inl rfl, .inr rfl, fun code hr => ?_, fun _ => rfl⟩
      have hr' : afterRemove c' = .reply code := Option.some.inj hr
      rw [hr'] at hafter
      exact hafter.trans hcode
  | guardSpawn a hpc hst =>
      have ha := hs _ hpc
      exact ⟨.mk rfl ha, .of_handler nofun⟩
  | guardSend a hpc hst =>
      have ha := hs _ hpc
      exact ⟨.mk rfl ha, .of_handler nofun⟩
  | spawn a hpc =>
      have ha : action c.force c.cmd = some a := hs _ hpc
      refine ⟨.mk rfl ha, rfl, .inl rfl, .inl rfl, nofun, fun hn => ?_⟩
      rw [hn] at ha
      cases ha
  | checkSend hpc hst =>
      have ha : c.cmd = .stop := hs _ hpc
      have hstop : action c.force c.cmd = some .stop := by rw [ha]; rfl
      exact ⟨.mk rfl hstop, .of_handler nofun⟩
  | checkSkip hpc hst =>
      refine ⟨.mk rfl hcode.symm, .of_handler fun code h => ?_⟩
      cases h
      rfl
  | send a hpc hfree =>
      have ha : action c.force c.cmd = some a := hs _ hpc
      refine ⟨.mk rfl hcode.symm, rfl, .inr ⟨hfree, ?_, ha.symm⟩, .inl rfl, ?_, fun hn => ?_⟩
      · rw [ha]; rfl
      · intro code h
        cases h
        rfl
      · rw [hn] at ha
        cases ha
  | reply code hpc =>
      exact ⟨nofun, rfl, .inl rfl, .inl rfl, nofun, fun _ => rfl⟩

/-- No other step but the arrival of a command touches the handler. -/
theorem handler_of_step {l : Label} (hl : l ≠ .handler) (hc : ∀ x, l ≠ .command x)
    (h : step cfg s l = some s') : s'.handler = s.handler := by
  cases step_cases h with
  | badCommand _ => exact absurd rfl (hc _)
  | command x _ => exact absurd rfl (hc _)
  | remove | guardSpawn | guardSend | spawn | checkSend | checkSkip | send | reply =>
      exact absurd rfl hl
  | _ => rfl

/-- Along every run without a further command the handler heeds the command that it serves. -/
theorem along_heeds (hc : c.cmd ≠ .update) {ls : List Label} (hs : Serving c s)
    (hls : ∀ l ∈ ls, ∀ x, l ≠ .command x) :
    Along (step cfg) (fun s l => l = .handler → ∀ s', step cfg s l = some s' →
      Heeds (action c.force c.cmd) s s') s ls := by
  have hkeep : ∀ s l s', Serving c s → (∀ x, l ≠ .command x) → step cfg s l = some s' →
      Serving c s' := by
    intro s l s' hs hl h
    by_cases hh : l = .handler
    · subst hh
      exact (serving_handler hc hs h).1
    · intro pc hpc
      rw [handler_of_step hh hl h] at hpc
      exact hs pc hpc
  refine Along.of_invariant hkeep (fun s l hs _ hl s' h => ?_) hs (along_of_labels s hls)
  subst hl
  exact (serving_handler hc hs h).2

/-! ### Words -/

/-- The words that the commands are named by. -/
def words : List String := ["start", "stop", "restart", "ping"]

/-- The action of a word. -/
def wordAction (force : Bool) (w : String) : Option CtrlAction :=
  if w = "start" then some (if force then .forceStart else .start)
  else if w = "stop" then some .stop
  else if w = "restart" then some .restart
  else none

theorem action_of_word {w : String} (h : w ∈ words) (force : Bool) :
    action force (newCmdVerbFromString w) = wordAction force w := by
  simp only [words, List.mem_cons, List.not_mem_nil, or_false] at h
  rcases h with rfl | rfl | rfl | rfl <;> rfl

theorem serving_command {x : ClientCmd} (h : step cfg s (.command (some x)) = some s') :
    Serving x s' := by
  cases step_cases h with
  | command _ _ => exact .mk rfl rfl

/-- The manager sends what it has decoded and the worker decodes the same command; the handler of a
known word heeds the action of that name and no other, along every run up to the next command. -/
theorem command_words (cfg : Config) (w : String) (force : Bool) :
    (clientCmd w force).reread = some (clientCmd w force) ∧
      (∀ s env id ok, ∀ p ∈ (Manager.handleClientCmd s env id ⟨clientCmd w force, ok⟩).posted,
        p = (Manager.commandUrl id, clientCmd w force)) ∧
      (w ∈ words → ∀ s₀ s ls, step cfg s₀ (.command (clientCmd w force).reread) = some s →
        (∀ l ∈ ls, ∀ x, l ≠ .command x) →
        Along (step cfg) (fun s l => l = .handler → ∀ s', step cfg s l = some s' →
          Heeds (wordAction force w) s s') s ls) := by
  refine ⟨reread_clientCmd w force, fun s env id ok => ?_, fun hw s₀ s ls h hls => ?_⟩
  · exact Manager.posted_handleClientCmd s env id _
  · rw [reread_clientCmd] at h
    rw [← action_of_word hw]
    exact along_heeds (newCmdVerbFromString_ne_update w) (serving_command h) hls

/-- A job with the default settings of a worker. -/
def defaults : Config :=
  { provider :=
      { name := "debian", hooks := [], retry := 2, timeout := "0s", interval := 86400000000000 }
    concurrent := 3 }

/-- The worker books the first run of the job. -/
def booking : List Label :=
  [.sched 0, .fetched { status := .success }, .sched 0, .sched 0, .sched 0, .sched 0]

/-- The handler of `stop` takes the entry of the schedule away and sends the action. -/
theorem command_words_stop :
    ∃ s₀ s s', run (step defaults) .init booking = some s₀ ∧ s₀.schedule.sched = true ∧
      step defaults s₀ (.command (clientCmd "stop" false).reread) = some s ∧
      run (step defaults) s [.handler, .handler, .handler] = some s' ∧
      s'.schedule.sched = false ∧ s'.ctrlChan = some .stop ∧
      Along (step defaults) (fun s l => l = .handler → ∀ s', step defaults s l = some s' →
        Heeds (some .stop) s s') s [.handler, .handler, .handler] := by
  obtain ⟨s₀, s, s', h₀, hbooked, h, hrun, hdropped, hsent⟩ : ∃ s₀ s s',
      run (step defaults) .init booking = some s₀ ∧ s₀.schedule.sched = true ∧
      step defaults s₀ (.command (clientCmd "stop" false).reread) = some s ∧
      run (step defaults) s [.handler, .handler, .handler] = some s' ∧
      s'.schedule.sched = false ∧ s'.ctrlChan = some .stop :=
    ⟨_, _, _, rfl, rfl, rfl, rfl, rfl, rfl⟩
  exact ⟨s₀, s, s', h₀, hbooked, h, hrun, hdropped, hsent,
    (command_words defaults "stop" false).2.2 (by decide) s₀ s _ h (by simp)⟩

/-- The word `reload` sends the action `start` and is answered with 200; `ping` drops the entry of
the schedule. -/
theorem unknown_word_starts :
    "reload" ∉ words ∧
      ((run (step defaults) .init
          [.command (clientCmd "reload" false).reread, .handler, .handler, .handler]).map
        fun s => (s.ctrlChan, s.handler)) = some (some .start, some (.reply 200)) ∧
      ((run (step defaults) .init booking).map fun s => s.schedule.sched) = some true ∧
      ((run (step defaults) .init
          (booking ++ [.command (clientCmd "ping" false).reread, .handler])).map
        fun s => s.schedule.sched) = some false := by
  decide

end KubeSync.Worker
