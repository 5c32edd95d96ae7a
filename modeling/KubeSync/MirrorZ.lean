import KubeSync.ManagerFiles

/-! # The `mirrorz.json` document

`mirrorZ` of the manager (`manager/server.go`, `manager/mirrorz/types.go`), as a system of any
number of requests over a store whose content does not change.

* All requests build their answer in the one document `m.option.MirrorZ`.  The code up to the first
  `List` call, between the two and behind the second one is one step each.
* A `List` call may fail, which the code passes over, and returns the objects in any order: the
  cache does not sort them.
* `ListZ` of an external job is answered by the network, and can be a run-time panic (`none`).  A
  job whose provider is unknown has no `External` at all, and the call is one.  `gin.Recovery`
  answers then.
* The fields of the document that are only copied from the environment of the manager (all of
  `Site` but `Disk`, the version, the endpoints) are left out. -/

namespace KubeSync.MirrorZ

open Manager (File)

/-! ### The document -/

structure InfoUrl where
  name : Text
  url : Text
deriving DecidableEq, Repr

structure Info where
  distro : String
  category : String
  urls : List InfoUrl
deriving DecidableEq, Repr

structure Mirror where
  cname : String
  desc : String := ""
  url : String
  status : String
  help : String := ""
  upstream : String := ""
  size : Text := []
  disable : Bool := false
deriving DecidableEq, Repr

/-- An entry of `mirrors`, with where it comes from: a job of the store or an external listing. -/
inductive Entry where
  | job (m : Mirror)
  | external (m : Mirror)
deriving DecidableEq, Repr

structure Doc where
  info : List Info := []
  mirrors : List Entry := []
  disk : Text := []
deriving DecidableEq, Repr

/-! ### The entry of a File and of a Job -/

/-- The entry of a File; one without files has none. -/
def infoOf (v : String × File) : Option Info :=
  if 0 < v.2.status.files.length then
    some
      { distro := if v.2.spec.aliasName = "" then v.1 else v.2.spec.aliasName
        category := v.2.spec.type
        urls := v.2.status.files.map fun u => { name := u.name, url := u.path } }
  else none

/-- The letter of a status and its time, or `U` without one. -/
def stamp (letter : String) (time : ℤ) : String :=
  if time ≠ 0 then letter ++ toString time else "U"

/-- The switch over the status. -/
def letterOf (st : JobStatus) : String :=
  match st.status with
  | .success => stamp "S" st.lastUpdate
  | .preSyncing => stamp "D" st.scheduled
  | .syncing => stamp "Y" st.lastStarted
  | .failed => stamp "F" st.lastEnded
  | .paused => stamp "P" st.lastEnded
  | .created => stamp "N" st.lastRegister
  | _ => "U"

/-- What is appended to a known status. -/
def suffixOf (st : JobStatus) : String :=
  (if st.scheduled ≠ 0 then "X" ++ toString st.scheduled else "") ++
    (if st.lastUpdate = 0 ∧ st.lastRegister ≠ 0 then "N" ++ toString st.lastRegister else "") ++
    (if (st.status = .syncing ∨ st.status = .failed) ∧ st.lastUpdate ≠ 0 then
      "O" ++ toString st.lastUpdate else "")

def statusOf (v : Job) : String :=
  match v.spec.config.type with
  | .proxy => "C"
  | _ =>
      if letterOf v.status ≠ "U" then letterOf v.status ++ suffixOf v.status
      else letterOf v.status

def mirrorOf (v : Job) : Mirror :=
  { cname := v.name
    desc := v.spec.config.desc
    url := if v.spec.config.url = "" then "/" ++ v.name else v.spec.config.url
    status := statusOf v
    help := v.spec.config.helpUrl
    upstream := v.spec.config.upstream
    size := parseSize v.status.size
    disable := v.spec.config.type ≠ .proxy ∧ v.status.status = .disabled }

/-! ### The two loops -/

def addFiles (d : Doc) (items : List (String × File)) : Doc :=
  { d with info := d.info ++ items.filterMap infoOf }

/-- The loop over the jobs with `fullSize`, which is `none` when it has panicked. -/
def addJobs (listZ : Job → Option (List Mirror)) : Doc → ℕ → List Job → Doc × Option ℕ
  | d, fullSize, [] => (d, some fullSize)
  | d, fullSize, v :: vs =>
      if v.spec.config.type = .external then
        if v.spec.config.provider = "gitea" then
          match listZ v with
          | some ws => addJobs listZ { d with mirrors := d.mirrors ++ ws.map .external } fullSize vs
          | none => (d, none)
        else (d, none)
      else
        addJobs listZ { d with mirrors := d.mirrors ++ [.job (mirrorOf v)] }
          ((fullSize + v.status.size) % 2 ^ 64) vs

def setDisk (total : String) (fullSize : ℕ) (d : Doc) : Doc :=
  { d with disk := parseSize fullSize ++ if total ≠ "" then "/".toList ++ total.toList else [] }

/-! ### The system -/

/-- The answer: the document as it stands, packed in a list or not, or that of `gin.Recovery`. -/
inductive Response where
  | json (pack : Bool) (d : Doc)
  | recovered
deriving DecidableEq, Repr

/-- A request: in its first `List` call, in its second one, answered. -/
inductive Request where
  | listFiles
  | listJobs
  | answered (r : Response)
deriving DecidableEq, Repr

/-- The content of the store and the option `Total`. -/
structure Content where
  files : List (String × File)
  jobs : List Job
  total : String := ""

/-- The document and the requests.  `filesSince` and `jobsSince` count how often a whole list was
appended since the last reset of the document, and `brokenSince` how often the loop over the jobs
panicked; the code has no such counters. -/
structure State where
  doc : Doc := {}
  requests : List Request := []
  filesSince : ℕ := 0
  jobsSince : ℕ := 0
  brokenSince : ℕ := 0
deriving DecidableEq, Repr

def State.init : State := {}

/-- A new request resets the two lists. -/
def stepStart (s : State) : State :=
  { doc := { s.doc with info := [], mirrors := [] }, requests := s.requests ++ [.listFiles] }

/-- Behind the first `List` call of the request `i`. -/
def stepFiles (s : State) (i : ℕ) (items : Option (List (String × File))) : State :=
  match items with
  | none => { s with requests := s.requests.set i .listJobs }
  | some items =>
      { s with
        doc := addFiles s.doc items
        requests := s.requests.set i .listJobs
        filesSince := s.filesSince + 1 }

/-- The answer of the request `i`, with the size of all jobs. -/
def answer (total : String) (s : State) (i : ℕ) (pack : Bool) (fullSize : ℕ) : State :=
  let d := setDisk total fullSize s.doc
  { s with doc := d, requests := s.requests.set i (.answered (.json pack d)) }

/-- Behind the second `List` call of the request `i`. -/
def stepJobs (total : String) (s : State) (i : ℕ) (items : Option (List Job))
    (listZ : Job → Option (List Mirror)) (pack : Bool) : State :=
  match items with
  | none => answer total s i pack 0
  | some items =>
      match addJobs listZ s.doc 0 items with
      | (d, some fullSize) =>
          answer total { s with doc := d, jobsSince := s.jobsSince + 1 } i pack fullSize
      | (d, none) =>
          { s with
            doc := d
            requests := s.requests.set i (.answered .recovered)
            brokenSince := s.brokenSince + 1 }

/-- A request arrives, or one of its `List` calls returns, with an error or with what the store
has in some order. -/
inductive Label where
  | start
  | files (i : ℕ) (items : Option (List (String × File)))
  | jobs (i : ℕ) (items : Option (List Job)) (listZ : Job → Option (List Mirror)) (pack : Bool)

def step (content : Content) (s : State) : Label → Option State
  | .start => some (stepStart s)
  | .files i items =>
      if s.requests[i]? = some .listFiles ∧ items.all (·.isPerm content.files) then
        some (stepFiles s i items)
      else none
  | .jobs i items listZ pack =>
      if s.requests[i]? = some .listJobs ∧ items.all (·.isPerm content.jobs) then
        some (stepJobs content.total s i items listZ pack)
      else none

end KubeSync.MirrorZ
