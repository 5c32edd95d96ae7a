import KubeSync.Context

/-! # The log of a command sync

`cmdProvider.Run` (`worker/cmd_provider.go`) with the functions that open the log of the command and
read it again (`prepareLogFile` of `base_provider.go`, `FindAllSubmatchInFile` and
`ExtractSizeFromLog` of `util.go`, `ParseSizeStr` of `internal/types.go`).

* The log file is opened without truncation: behind the output of the command stands what is left of
  an older log of the same name.
* `RunEnv` has the answers of the system to one call: whether the file can be opened, the command be
  started and the log be read, and what the command does.
* A compiled expression is the function `FindAllSubmatch(content, -1)`: the matches, each with its
  groups. -/

namespace KubeSync.CommandLog

open ProviderContext (Bytes Context Disk State HookEnv limitLogs logFileName)
open WorkerConfig (joinPath)

/-! ### Sizes -/

def ascii (s : String) : Bytes := s.toList.map fun c => UInt8.ofNat c.toNat

/-- Floating-point numbers and `strings.ToUpper`. -/
structure SizeLib where
  Float64 : Type
  parseFloat : Bytes → Option Float64
  mul : Float64 → ℕ → Float64
  div : Float64 → ℕ → Float64
  uint64 : Float64 → ℕ
  toUpper : Bytes → Bytes

/-- `strings.TrimSuffix` for one byte. -/
def trimByte (s : Bytes) (b : Char) : Bytes :=
  if s.getLast? = some (UInt8.ofNat b.toNat) then s.dropLast else s

/-- The factor of the unit that a size ends with. -/
def unitOf (s : Bytes) : Option ℕ :=
  [('T', 1024 ^ 4), ('G', 1024 ^ 3), ('M', 1024 ^ 2), ('K', 1024)].findSome? fun (b, n) =>
    if s.getLast? = some (UInt8.ofNat b.toNat) then some n else none

/-- `ParseSizeStr`. -/
def parseSizeStr (lib : SizeLib) (sizeStr : Bytes) : ℕ :=
  if sizeStr = [] ∨ sizeStr = ascii "unknown" then 0
  else
    let s := sizeStr.filter fun b => b ∉ ascii " \n"
    let isBit := decide (s.getLast? = some (UInt8.ofNat 'b'.toNat))
    let s := lib.toUpper (trimByte (if isBit then trimByte s 'b' else trimByte s 'B') 'i')
    if s = [] then 0
    else
      -- The number in front of the last byte is parsed even where that byte is no unit.
      match lib.parseFloat s.dropLast with
      | none => 0
      | some x =>
          let sizeRaw :=
            match unitOf s with
            | some n => some (lib.mul x n)
            | none => lib.parseFloat s
          match sizeRaw with
          | none => 0
          | some x => lib.uint64 (if isBit then lib.div x 8 else x)

/-! ### Reading the log -/

abbrev Regexp := Bytes → List (List Bytes)

/-- `FindAllSubmatchInFile`; `read` is what `os.ReadFile` returns.  Its error is bound in an inner
scope and is lost. -/
def findAllSubmatchInFile (fileName : String) (read : Option Bytes) (re : Regexp) :
    List (List Bytes) × Option String :=
  if fileName = "/dev/null" then ([], some "Invalid log file")
  else
    match read with
    | some content => (re content, none)
    | none => ([], none)

/-- The size in the last of the matches.  An expression without a group is a run-time panic. -/
def sizeOfMatches (lib : SizeLib) (found : List (List Bytes)) : Option ℕ :=
  match found.getLast? with
  | none => some 0
  | some groups => groups[1]?.map (parseSizeStr lib)

def extractSizeFromLog (lib : SizeLib) (logFile : String) (read : Option Bytes) (re : Regexp) :
    Option ℕ :=
  sizeOfMatches lib (findAllSubmatchInFile logFile read re).1

/-! ### `Run` -/

/-- `cmdProvider`, whose expressions are nil where they are not configured. -/
structure CmdProvider where
  command : List String
  failOnMatch : Option Regexp
  sizePattern : Option Regexp

structure RunEnv where
  running : Bool := false
  openErr : Option String := none
  startErr : Option String := none
  /-- What the command writes to its log. -/
  output : Bytes
  /-- The error of `Wait`, nil if the command exits with 0. -/
  waitErr : Option String := none
  /-- Whether the log can be read for the one expression and for the other. -/
  readForMatch : Bool := true
  readForSize : Bool := true
  /-- `ExtractSizeFromWalk`. -/
  walked : ℕ := 0

/-- What `Run` leaves, and its error. -/
structure Outcome where
  state : State
  dataSize : ℕ
  err : Option String

/-- The content of a file with `old` in it after `new` has been written from its start on. -/
def overwrite (old new : Bytes) : Bytes := new ++ old.drop new.length

/-- `os.OpenFile` with `O_WRONLY|O_CREATE`. -/
def openFile (disk : Disk) (path : String) : Disk :=
  Function.update disk path (some ((disk path).getD []))

/-- The command writes to its log. -/
def writeFile (disk : Disk) (path : String) (output : Bytes) : Disk :=
  Function.update disk path ((disk path).map (overwrite · output))

/-- `prepareLogFile(false)`. -/
def prepareLogFile (env : RunEnv) (s : State) (logFile : String) : State × Option String :=
  if logFile = "/dev/null" then (s, none)
  else
    match env.openErr with
    | some err => (s, some err)
    | none => ({ s with disk := openFile s.disk logFile }, none)

/-- `Start`. -/
def start (p : CmdProvider) (env : RunEnv) (s : State) : Option (State × Option String) :=
  if env.running then some (s, some "provider is currently running")
  else do
    let _ ← s.workingDir
    let _ ← s.logDir
    let logFile ← s.logFile
    if p.command = [] then none
    else
      match prepareLogFile env s logFile with
      | (s, some err) => some (s, some err)
      | (s, none) => some (s, env.startErr)

/-- `Wait`: the command has written its output. -/
def wait (env : RunEnv) (s : State) (logFile : String) : State :=
  if logFile = "/dev/null" then s else { s with disk := writeFile s.disk logFile env.output }

/-- `os.ReadFile`. -/
def readFile (ok : Bool) (s : State) (path : String) : Option Bytes :=
  if ok then s.disk path else none

/-- The test of `failOnMatch`. -/
def matchErr (p : CmdProvider) (env : RunEnv) (s : State) (logFile : String) : Option String :=
  match p.failOnMatch with
  | none => none
  | some re =>
      match findAllSubmatchInFile logFile (readFile env.readForMatch s logFile) re with
      | (_, some err) => some err
      | ([], none) => none
      | (found, none) =>
          some ("Fail-on-match regexp found " ++ toString found.length ++ " matches")

/-- The size of a run that succeeds. -/
def sizeOfRun (lib : SizeLib) (p : CmdProvider) (env : RunEnv) (s : State) (logFile : String) :
    Option ℕ :=
  match p.sizePattern with
  | some re => extractSizeFromLog lib logFile (readFile env.readForSize s logFile) re
  | none => some env.walked

def run (lib : SizeLib) (p : CmdProvider) (env : RunEnv) (s : State) : Option Outcome := do
  let (s, err) ← start p env s
  match err with
  | some err => some { state := s, dataSize := 0, err := some err }
  | none =>
      let logFile ← s.logFile
      let s := wait env s logFile
      match env.waitErr with
      | some err => some { state := s, dataSize := 0, err := some err }
      | none =>
          match matchErr p env s logFile with
          | some err => some { state := s, dataSize := 0, err := some err }
          | none => do
              let dataSize ← sizeOfRun lib p env s logFile
              some { state := s, dataSize, err := none }

/-! ### Runs that succeed -/

variable {lib : SizeLib} {p : CmdProvider} {command : List String} {env : RunEnv} {s s' : State}
  {logFile : String} {o : Outcome}

/-- The command is run with this log and exits with 0. -/
structure Completes (command : List String) (env : RunEnv) (s : State) (logFile : String) :
    Prop where
  idle : env.running = false
  workingDir : s.workingDir ≠ none
  logDir : s.logDir ≠ none
  named : s.logFile = some logFile
  command : command ≠ []
  opened : logFile ≠ "/dev/null" → env.openErr = none
  started : env.startErr = none
  exited : env.waitErr = none

/-- The log behind the command. -/
def content (env : RunEnv) (s : State) (logFile : String) : Bytes :=
  overwrite ((s.disk logFile).getD []) env.output

/-- The state behind the command. -/
def written (env : RunEnv) (s : State) (logFile : String) : State :=
  if logFile = "/dev/null" then s
  else { s with disk := Function.update s.disk logFile (some (content env s logFile)) }

/-- A start that succeeds, from the log file on. -/
theorem prepared_of_start (h : start p env s = some (s', none)) :
    ∃ logFile, env.running = false ∧ s.workingDir ≠ none ∧ s.logDir ≠ none ∧
      s.logFile = some logFile ∧ p.command ≠ [] ∧ env.startErr = none ∧
      prepareLogFile env s logFile = (s', none) := by
  unfold start at h
  split at h
  · simp at h
  rename_i hr
  obtain ⟨dir, hdir, h⟩ := Option.bind_eq_some_iff.mp h
  obtain ⟨logDir, hlogDir, h⟩ := Option.bind_eq_some_iff.mp h
  obtain ⟨logFile, hlog, h⟩ := Option.bind_eq_some_iff.mp h
  split at h
  · simp at h
  rename_i hc
  refine ⟨logFile, by simpa using hr, by simp [hdir], by simp [hlogDir], hlog, hc, ?_⟩
  split at h <;> simp_all

theorem completes_of_run (h : run lib p env s = some o) (ho : o.err = none) :
    ∃ logFile, Completes p.command env s logFile := by
  obtain ⟨⟨s₁, err⟩, hstart, h⟩ := Option.bind_eq_some_iff.mp h
  cases err with
  | some err =>
      obtain rfl := Option.some.inj h
      simp at ho
  | none =>
      obtain ⟨logFile, hr, hdir, hlogDir, hlog, hc, hs, hp⟩ := prepared_of_start hstart
      refine ⟨logFile, hr, hdir, hlogDir, hlog, hc, fun hne => ?_, hs, ?_⟩
      · unfold prepareLogFile at hp
        rw [if_neg hne] at hp
        cases he : env.openErr with
        | none => rfl
        | some err => simp [he] at hp
      · obtain ⟨logFile', -, h⟩ := Option.bind_eq_some_iff.mp h
        cases hw : env.waitErr with
        | none => rfl
        | some err =>
            simp only [hw] at h
            obtain rfl := Option.some.inj h
            simp at ho

theorem wait_prepared (h : logFile ≠ "/dev/null") :
    wait env { s with disk := openFile s.disk logFile } logFile = written env s logFile := by
  unfold wait written content writeFile openFile
  rw [if_neg h, if_neg h]
  simp

/-- What is left to do behind a command that exits with 0. -/
theorem run_of_completes (lib : SizeLib) (h : Completes p.command env s logFile) :
    run lib p env s =
      match matchErr p env (written env s logFile) logFile with
      | some err => some { state := written env s logFile, dataSize := 0, err := some err }
      | none => (sizeOfRun lib p env (written env s logFile) logFile).map fun n =>
          { state := written env s logFile, dataSize := n, err := none } := by
  obtain ⟨dir, hdir⟩ := Option.ne_none_iff_exists'.mp h.workingDir
  obtain ⟨logDir, hlogDir⟩ := Option.ne_none_iff_exists'.mp h.logDir
  obtain ⟨s₁, hp, hlog, hw⟩ : ∃ s₁, prepareLogFile env s logFile = (s₁, none) ∧
      s₁.logFile = some logFile ∧ wait env s₁ logFile = written env s logFile := by
    unfold prepareLogFile
    by_cases hn : logFile = "/dev/null"
    · refine ⟨s, if_pos hn, h.named, ?_⟩
      unfold wait written
      rw [if_pos hn, if_pos hn]
    · rw [if_neg hn, h.opened hn]
      exact ⟨_, rfl, h.named, wait_prepared hn⟩
  have hstart : start p env s = some (s₁, none) := by
    unfold start
    rw [h.idle, hdir, hlogDir, h.named]
    simp [h.command, hp, h.started]
  unfold run
  rw [hstart]
  simp only [Option.bind_eq_bind, Option.bind_some, hlog, h.exited, hw]
  cases matchErr p env (written env s logFile) logFile with
  | some err => rfl
  | none => cases sizeOfRun lib p env (written env s logFile) logFile <;> rfl

theorem read_written (h : logFile ≠ "/dev/null") :
    readFile true (written env s logFile) logFile = some (content env s logFile) := by
  unfold readFile written
  rw [if_pos rfl, if_neg h]
  simp

theorem find_of_ne (h : logFile ≠ "/dev/null") (bytes : Bytes) (re : Regexp) :
    findAllSubmatchInFile logFile (some bytes) re = (re bytes, none) := if_neg h

theorem find_unread (h : logFile ≠ "/dev/null") (re : Regexp) :
    findAllSubmatchInFile logFile none re = ([], none) := if_neg h

theorem matchErr_eq_none {re : Regexp} (hp : p.failOnMatch = some re) :
    matchErr p env s logFile = none ↔
      findAllSubmatchInFile logFile (readFile env.readForMatch s logFile) re = ([], none) := by
  unfold matchErr
  rw [hp]
  dsimp only
  generalize findAllSubmatchInFile logFile (readFile env.readForMatch s logFile) re = result
  obtain ⟨_ | ⟨found, rest⟩, _ | err⟩ := result <;> simp

theorem sizeOfRun_pattern {re : Regexp} (hp : p.sizePattern = some re) :
    sizeOfRun lib p env s logFile =
      extractSizeFromLog lib logFile (readFile env.readForSize s logFile) re := by
  unfold sizeOfRun
  rw [hp]

/-! ### The log of this run -/

/-- A run that returns nil is judged on what it wrote itself: the command exited with 0, its log was
read and has no match, and the size is the one in its log. -/
def Judged (lib : SizeLib) (p : CmdProvider) (env : RunEnv) (s : State) : Prop :=
  ∀ o logFile, run lib p env s = some o → o.err = none → s.logFile = some logFile →
    env.waitErr = none ∧
      (∀ re, p.failOnMatch = some re → env.readForMatch = true ∧ re env.output = []) ∧
      ∀ re, p.sizePattern = some re →
        extractSizeFromLog lib logFile (some env.output) re = some o.dataSize

/-- What an expression finds in the file behind the command: nothing where it cannot be read. -/
def foundIn (ok : Bool) (env : RunEnv) (s : State) (logFile : String) (re : Regexp) :
    List (List Bytes) :=
  if ok then re (content env s logFile) else []

/-- Of a command that exits with 0, the expressions find in the file what they find in its
output. -/
def Unspoilt (lib : SizeLib) (p : CmdProvider) (env : RunEnv) (s : State) : Prop :=
  ∀ logFile, Completes p.command env s logFile → logFile ≠ "/dev/null" →
    (∀ re, p.failOnMatch = some re → foundIn env.readForMatch env s logFile re = []) →
    (∀ re, p.sizePattern = some re →
      sizeOfMatches lib (foundIn env.readForSize env s logFile re) ≠ none) →
    (∀ re, p.failOnMatch = some re → env.readForMatch = true ∧ re env.output = []) ∧
      ∀ re, p.sizePattern = some re →
        sizeOfMatches lib (re env.output) =
          sizeOfMatches lib (foundIn env.readForSize env s logFile re)

/-- Of a command that exits with 0, the log can be read for the expressions that are set, and if
there are any, an older log of the same name is not longer. -/
def OwnLog (p : CmdProvider) (env : RunEnv) (s : State) : Prop :=
  ∀ logFile, Completes p.command env s logFile → logFile ≠ "/dev/null" →
    (p.failOnMatch.isSome = true →
      env.readForMatch = true ∧ ((s.disk logFile).getD []).length ≤ env.output.length) ∧
    (p.sizePattern.isSome = true →
      env.readForSize = true ∧ ((s.disk logFile).getD []).length ≤ env.output.length)

theorem overwrite_eq_iff {old new : Bytes} : overwrite old new = new ↔ old.length ≤ new.length := by
  unfold overwrite
  rw [List.append_right_eq_self, List.drop_eq_nil_iff]

theorem find_written (h : logFile ≠ "/dev/null") (ok : Bool) (re : Regexp) :
    findAllSubmatchInFile logFile (readFile ok (written env s logFile) logFile) re =
      (foundIn ok env s logFile re, none) := by
  cases ok with
  | true => rw [read_written h, find_of_ne h, foundIn, if_pos rfl]
  | false => exact find_unread h re

theorem matchErr_written (h : logFile ≠ "/dev/null") :
    matchErr p env (written env s logFile) logFile = none ↔
      ∀ re, p.failOnMatch = some re → foundIn env.readForMatch env s logFile re = [] := by
  cases hp : p.failOnMatch with
  | none =>
      refine iff_of_true ?_ nofun
      unfold matchErr
      rw [hp]
  | some re =>
      rw [matchErr_eq_none hp, find_written h]
      simp

theorem extractSize_written (h : logFile ≠ "/dev/null") (re : Regexp) :
    extractSizeFromLog lib logFile (readFile env.readForSize (written env s logFile) logFile) re =
      sizeOfMatches lib (foundIn env.readForSize env s logFile re) := by
  unfold extractSizeFromLog
  rw [find_written h]

theorem extractSize_output (h : logFile ≠ "/dev/null") (re : Regexp) :
    extractSizeFromLog lib logFile (some env.output) re = sizeOfMatches lib (re env.output) := by
  unfold extractSizeFromLog
  rw [find_of_ne h]

/-- A run that returns nil has passed its tests. -/
theorem passed_of_run (hrun : run lib p env s = some o) (ho : o.err = none) :
    ∃ logFile, Completes p.command env s logFile ∧
      matchErr p env (written env s logFile) logFile = none ∧
      sizeOfRun lib p env (written env s logFile) logFile = some o.dataSize := by
  obtain ⟨logFile, hc⟩ := completes_of_run hrun ho
  rw [run_of_completes lib hc] at hrun
  cases hm : matchErr p env (written env s logFile) logFile with
  | some err =>
      rw [hm] at hrun
      obtain rfl := Option.some.inj hrun
      cases ho
  | none =>
      rw [hm] at hrun
      obtain ⟨n, hn, rfl⟩ := Option.map_eq_some_iff.mp hrun
      exact ⟨logFile, hc, hm, hn⟩

theorem Unspoilt.judged (h : Unspoilt lib p env s) : Judged lib p env s := by
  intro o logFile hrun ho hlog
  obtain ⟨logFile', hc, hm, hn⟩ := passed_of_run hrun ho
  obtain rfl := Option.some.inj (hlog.symm.trans hc.named)
  refine ⟨hc.exited, ?_⟩
  by_cases hnull : logFile = "/dev/null"
  · subst hnull
    refine ⟨fun re hre => ?_, fun re hre => ?_⟩
    · cases (matchErr_eq_none hre).mp hm
    · rw [sizeOfRun_pattern hre] at hn
      exact hn
  · have hsize : ∀ re, p.sizePattern = some re →
        sizeOfMatches lib (foundIn env.readForSize env s logFile re) = some o.dataSize := by
      intro re hre
      rw [← extractSize_written hnull, ← sizeOfRun_pattern hre]
      exact hn
    have hreturns : ∀ re, p.sizePattern = some re →
        sizeOfMatches lib (foundIn env.readForSize env s logFile re) ≠ none :=
      fun re hre => Option.ne_none_iff_exists'.mpr ⟨_, hsize re hre⟩
    obtain ⟨hmatch, hpattern⟩ := h logFile hc hnull ((matchErr_written hnull).mp hm) hreturns
    refine ⟨hmatch, fun re hre => ?_⟩
    rw [extractSize_output hnull, hpattern re hre, hsize re hre]

/-- A run with its own log is judged by it. -/
theorem judged_of_ownLog (h : OwnLog p env s) : Judged lib p env s := by
  refine Unspoilt.judged fun logFile hc hne hpasses _ => ?_
  obtain ⟨hmatch, hsize⟩ := h logFile hc hne
  have hfound : ∀ {ok : Bool} {re : Regexp}, ok = true →
      ((s.disk logFile).getD []).length ≤ env.output.length →
      foundIn ok env s logFile re = re env.output := by
    intro ok re hok hle
    have hcontent : content env s logFile = env.output := overwrite_eq_iff.mpr hle
    rw [foundIn, if_pos hok, hcontent]
  refine ⟨fun re hre => ?_, fun re hre => ?_⟩
  · obtain ⟨hread, hle⟩ := hmatch (by rw [hre]; rfl)
    exact ⟨hread, (hfound hread hle).symm.trans (hpasses re hre)⟩
  · obtain ⟨hread, hle⟩ := hsize (by rw [hre]; rfl)
    rw [hfound hread hle]

/-! ### Other expressions -/

@[simp] theorem logFile_enterContext (s : State) (f : String) :
    (s.enterContext "log_file" f).logFile = some f := by
  unfold State.enterContext
  split <;> simp [State.logFile, State.lookup, Context.enter, Context.new, Context.set, Context.get]

@[simp] theorem disk_enterContext (s : State) (key value : String) :
    (s.enterContext key value).disk = s.disk := by
  unfold State.enterContext
  split <;> rfl

theorem foldl_remove_none {henv : HookEnv} {path : String} (paths : List String) {disk : Disk}
    (h : disk path = none) : paths.foldl (ProviderContext.remove henv) disk path = none := by
  induction paths generalizing disk with
  | nil => exact h
  | cons p paths ih =>
      refine ih ?_
      unfold ProviderContext.remove
      by_cases hp : path = p
      · split <;> simp_all
      · split
        · rwa [Function.update_of_ne hp]
        · exact h

/-- The log that the log limiter names after the minute is the first one with this name: the run is
judged on it. -/
theorem judged_of_new_log {name : String} {henv : HookEnv}
    (h : limitLogs name henv s = some (s', none))
    (hnew : ∀ dir, s.logDir = some dir → s.disk (joinPath dir (logFileName name henv.now)) = none)
    (hm : env.readForMatch = true) (hs : env.readForSize = true) : Judged lib p env s' := by
  refine judged_of_ownLog fun logFile hc hne => ?_
  suffices hle : ((s'.disk logFile).getD []).length ≤ env.output.length from
    ⟨fun _ => ⟨hm, hle⟩, fun _ => ⟨hs, hle⟩⟩
  obtain ⟨f, hf, h⟩ := Option.bind_eq_some_iff.mp h
  split at h
  next hnull =>
    obtain rfl := (Prod.mk.inj (Option.some.inj h)).1
    exact absurd (Option.some.inj (hc.named.symm.trans hf) ▸ hnull) hne
  next hnull =>
    obtain ⟨dir, hdir, h⟩ := Option.bind_eq_some_iff.mp h
    have hlog : ∀ disk, disk (joinPath dir (logFileName name henv.now)) = none →
        s' = { s with disk }.enterContext "log_file" (joinPath dir (logFileName name henv.now)) →
        ((s'.disk logFile).getD []).length ≤ env.output.length := by
      rintro disk hdisk rfl
      have hnamed := hc.named
      rw [logFile_enterContext] at hnamed
      rw [disk_enterContext, ← Option.some.inj hnamed]
      simp [hdisk]
    split at h
    · cases h
    · cases h
      exact hlog s.disk (hnew dir hdir) rfl
    · cases h
      exact hlog _ (foldl_remove_none _ (hnew dir hdir)) rfl

end KubeSync.CommandLog
