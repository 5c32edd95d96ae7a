import KubeSync.Manager
import KubeSync.Recognizer

/-! # The manager's handlers for announcements and files

`createAnnouncement` and `updateFile` of `manager/server.go`.

* Announcements and Files live in the API server like the Jobs: `Get` is answered by a cache that
  may be behind, `Patch` with `client.Apply` sets the spec and creates the object if there is none,
  and `Status().Update` is refused when the version that was read is no longer current.
* Both handlers hold `rwmu` from their first read to their last write, so that each is one step.
* `updateFile` goes through the map of its body before it reads anything; `files` has the entries in
  the order in which the loop meets them. -/

namespace KubeSync.Manager

open Versioned (Store)

/-- What a handler for objects other than Jobs leaves behind. -/
structure Answer (σ : Type) where
  store : σ
  written : List Response

/-- `client.Patch` with `client.Apply`, where the call does not fail: `set` replaces the spec of the
stored object, `new` is the object that is created. -/
def applyObject {α : Type} [DecidableEq α] (s : Store String α) (id : String) (new : α)
    (set : α → α) : Store String α :=
  match s.value id with
  | some v => s.write id (set v)
  | none => s.write id new

/-! ### Announcements -/

/-- `v1beta1.AnnouncementSpec`. -/
structure AnnouncementSpec where
  title : String := ""
  author : String := ""
  content : String := ""
deriving DecidableEq, Repr

/-- `v1beta1.AnnouncementStatus`. -/
structure AnnouncementStatus where
  pubTime : ℤ := 0
  editTime : ℤ := 0
deriving DecidableEq, Repr

/-- `v1beta1.Announcement` without its name. -/
structure Announcement where
  spec : AnnouncementSpec := {}
  status : AnnouncementStatus := {}
deriving DecidableEq, Repr

abbrev News := Store String Announcement

/-- The entries of the map that `createAnnouncement` looks up. -/
structure NewsFields where
  title : Option String := none
  content : Option String := none
  author : Option String := none

/-- The body of `createAnnouncement`: read as a spec when the announcement is unknown, and as a map
of fields when it is known. -/
structure NewsBody where
  spec : Decoded AnnouncementSpec
  fields : Decoded NewsFields

/-- `client.Get` for an announcement. -/
def getNews (s : News) (env : Env) (id : String) : Option Announcement :=
  if env.getFails then none else (s.seen env.lag id).map Prod.snd

def AnnouncementSpec.update (spec : AnnouncementSpec) (fields : NewsFields) : AnnouncementSpec where
  title := fields.title.getD spec.title
  content := fields.content.getD spec.content
  author := fields.author.getD spec.author

/-- The spec that `createAnnouncement` applies, and what `BindJSON` has answered. -/
def newsSpec (s : News) (env : Env) (id : String) (body : NewsBody) :
    AnnouncementSpec × List Response :=
  match getNews s env id with
  | none => (body.spec.value, body.spec.answer)
  | some oNews => (oNews.spec.update body.fields.value, body.fields.answer)

def createAnnouncement (s : News) (env : Env) (id : String) (body : NewsBody) : Answer News :=
  let (spec, before) := newsSpec s env id body
  if env.writeFails then
    ⟨s, before ++ [returnErrJSON 500 ("failed to patch announcement " ++ id ++ ": " ++ env.err)]⟩
  else
    ⟨applyObject s id { spec } fun news => { news with spec },
      before ++ [⟨200, .message ("patch " ++ id ++ " succeed")⟩]⟩

/-! ### Files -/

/-- `v1beta1.FileSpec`; `aliasName` is its `Alias`. -/
structure FileSpec where
  type : String := ""
  aliasName : String := ""
deriving DecidableEq, Repr

/-- `v1beta1.FileStatus`. -/
structure FileStatus where
  files : List FileInfo := []
  updateTime : ℤ := 0
deriving DecidableEq, Repr

/-- `v1beta1.File` without its name. -/
structure File where
  spec : FileSpec := {}
  status : FileStatus := {}
deriving DecidableEq, Repr

abbrev Files := Store String File

/-- `internal.FileBase`. -/
structure FileBase where
  type : String := ""
  aliasName : String := ""
  files : List (Text × ℕ) := []

/-- What `updateFile` gets from outside: how far the cache is behind in its two reads, and which of
its four API calls fail. -/
structure FileEnv where
  now : ℤ := 0
  lag : ℕ := 0
  getFails : Bool := false
  patchFails : Bool := false
  lag' : ℕ := 0
  getFails' : Bool := false
  statusFails : Bool := false
  err : String := ""

/-- The loop over the files of the body; `none` when the recogniser panics. -/
def fileInfos : List (Text × ℕ) → Option (List FileInfo)
  | [] => some []
  | (k, v) :: files => do
      let info ← recognizer k
      let rest ← fileInfos files
      some (if info.name ≠ [] then { info with size := v, sizeStr := parseSize v } :: rest
        else rest)

/-- `client.Get` for a file. -/
def getFile (s : Files) (fails : Bool) (lag : ℕ) (id : String) : Option (ℕ × File) :=
  if fails then none else s.seen lag id

/-- The spec of the copy that was read; a File that was not read is the zero value. -/
def oldSpec (oFile : Option (ℕ × File)) : FileSpec := (oFile.map fun c => c.2.spec).getD {}

/-- The spec that `updateFile` asks for. -/
def newSpec (nFile : FileBase) (oFile : Option (ℕ × File)) : FileSpec :=
  match oFile with
  | none => { type := if nFile.type = "" then "os" else nFile.type, aliasName := nFile.aliasName }
  | some (_, f) =>
      { type := if nFile.type = "" then f.spec.type else nFile.type
        aliasName := if nFile.aliasName = "" then f.spec.aliasName else nFile.aliasName }

/-- `Status().Update` with the new list, for the copy that was read. -/
def updateFiles (s : Files) (env : FileEnv) (id : String) (copy : Option (ℕ × File))
    (infos : List FileInfo) : Option Files :=
  match copy with
  | none => none
  | some (n, _) =>
      if env.statusFails then none
      else s.modify id n fun f => { f with status := { files := infos, updateTime := env.now } }

/-- `updateFile` from the second `len(fileInfo) > 0` on. -/
def finishFile (s : Files) (env : FileEnv) (id : String) (copy : Option (ℕ × File))
    (infos : List FileInfo) (before : List Response) : Answer Files :=
  let ok : Response := ⟨200, .message ("update " ++ id ++ " succeed")⟩
  if infos = [] then ⟨s, before ++ [ok]⟩
  else
    match updateFiles s env id copy infos with
    | some s' => ⟨s', before ++ [ok]⟩
    | none =>
        ⟨s, before ++
          [returnErrJSON 500 ("failed to update file " ++ id ++ " list: " ++ env.err)]⟩

def updateFile (s : Files) (env : FileEnv) (id : String) (nFile : Decoded FileBase) :
    Answer Files :=
  match fileInfos nFile.value.files with
  | none => ⟨s, nFile.answer ++ [recovered]⟩
  | some infos =>
      let oFile := getFile s env.getFails env.lag id
      let spec := newSpec nFile.value oFile
      if spec = oldSpec oFile then finishFile s env id oFile infos nFile.answer
      else if env.patchFails then
        ⟨s, nFile.answer ++
          [returnErrJSON 500 ("failed to patch file " ++ id ++ " info: " ++ env.err)]⟩
      else
        let s' := applyObject s id { spec } fun f => { f with spec }
        match infos, getFile s' env.getFails' env.lag' id with
        | _ :: _, none =>
            ⟨s', nFile.answer ++ [returnErrJSON 500 ("failed to get file: " ++ env.err)]⟩
        | _, copy => finishFile s' env id copy infos nFile.answer

end KubeSync.Manager
