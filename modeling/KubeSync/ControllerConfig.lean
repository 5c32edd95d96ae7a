import KubeSync.ControllerOverrides

/-! # The configuration of the controller

`getConfig` of `cmd/main.go` reads the configuration from the environment, and `mergeDefaults` goes
over its fields by reflection and replaces those that are zero.

* `Fields` is a value of the type Config as reflection sees it: each field has a value of its kind,
  and a map may be nil.  `Fields.getConfig` is the reader followed by the loop over the fields, and
  `getConfig` the record of it that the reconcilers use.
* `defaults_iff` says when the fields have the values of their variables or else their defaults: the
  map of the annotations is never nil, so that its default is never used.
* `annItems_annText` is the round trip of the annotations through their text, and `annotations_iff`
  says when none is lost on the way to the Ingresses. -/

namespace KubeSync.Controller

open Reconciler

/-! ### The fields -/

/-- The fields of Config, in their order. -/
inductive Field where
  | managerImage
  | workerImage
  | pullPolicy
  | pullSecret
  | storageClass
  | accessMode
  | frontMode
  | frontImage
  | rsyncImage
  | frontCmd
  | frontConfig
  | rsyncCmd
  | frontHost
  | frontTLS
  | frontClass
  | frontAnn
  | enableMetric
  | debug
deriving DecidableEq, Repr

def Field.all : List Field :=
  [.managerImage, .workerImage, .pullPolicy, .pullSecret, .storageClass, .accessMode, .frontMode,
    .frontImage, .rsyncImage, .frontCmd, .frontConfig, .rsyncCmd, .frontHost, .frontTLS,
    .frontClass, .frontAnn, .enableMetric, .debug]

/-- The variable of the environment that a field is read from. -/
def Field.envName : Field → String
  | .managerImage => "MANAGER_IMAGE"
  | .workerImage => "WORKER_IMAGE"
  | .pullPolicy => "PULL_POLICY"
  | .pullSecret => "PULL_SECRET"
  | .storageClass => "STORAGE_CLASS"
  | .accessMode => "ACCESS_MODE"
  | .frontMode => "FRONT_MODE"
  | .frontImage => "FRONT_IMAGE"
  | .rsyncImage => "RSYNC_IMAGE"
  | .frontCmd => "FRONT_CMD"
  | .frontConfig => "FRONT_CONFIG"
  | .rsyncCmd => "RSYNC_CMD"
  | .frontHost => "FRONT_HOST"
  | .frontTLS => "FRONT_TLS"
  | .frontClass => "FRONT_CLASS"
  | .frontAnn => "FRONT_ANN"
  | .enableMetric => "ENABLE_METRIC"
  | .debug => "DEBUG"

/-- The value of a field.  A map that is nil is not the same as one without entries. -/
inductive Value where
  | string (s : String)
  | map (m : Option (List (String × String)))
  | bool (b : Bool)
deriving DecidableEq, Repr

def Value.isBool : Value → Bool
  | .bool _ => true
  | _ => false

def Value.text : Value → String
  | .string s => s
  | _ => ""

def Value.items : Value → List (String × String)
  | .map (some m) => m
  | _ => []

def Value.flag : Value → Bool
  | .bool b => b
  | _ => false

/-- A value of the type Config. -/
abbrev Fields := Field → Value

/-- A text that is written with other brackets in place of the braces. -/
def withBraces (s : String) : String :=
  String.ofList (s.toList.map fun c =>
    if c = '⦃' then '\x7b' else if c = '⦄' then '\x7d' else c)

/-- The front end's configuration that `mergeDefaults` has. -/
def defaultFrontConfig : String := withBraces
  (r#"
⦃
    "logging": ⦃
        "logs": ⦃
            "default": ⦃⦄,
            "loki": ⦃
                "writer": ⦃
                    "labels": ⦃
                        "job": "⦃env.JOB_NAME⦄",
                        "instance": "⦃env.HOSTNAME⦄",
                        "component": "caddy"
                    ⦄,
                    "output": "loki",
                    "url": "http://loki:3100/loki/api/v1/push"
                ⦄,
                "encoder": ⦃
                    "format": "json"
                ⦄,
                "level": "INFO",
                "include": [
                    "http.log.access"
                ]
            ⦄
        ⦄
    ⦄,
    "apps": ⦃
        "http": ⦃
            "servers": ⦃
                "metric": ⦃
                    "listen": [
                        ":2019"
                    ],
                    "routes": [
                        ⦃
                            "handle": [
                                ⦃
                                    "handler": "metrics"
                                ⦄
                            ]
                        ⦄
                    ]
                ⦄,
                "file_server": ⦃
                    "listen": [
                        ":80"
                    ],
                    "routes": [
                        ⦃
                            "handle": [
                                ⦃
                                    "browse": ⦃⦄,
                                    "handler": "file_server",
                                    "root": "/data"
                                ⦄
                            ]
                        ⦄
                    ],
                    "logs": ⦃
                        "default_logger_name": "loki"
                    ⦄,
                    "metrics": ⦃⦄
                ⦄
            ⦄
        ⦄
    ⦄
⦄
		"#)

/-- The annotations in a text like `a=b;c=d`.  An item without exactly one `=` is left out. -/
def annItems (annString : String) : List (String × String) :=
  if annString = "" then []
  else
    (annString.toList.splitOn ';').foldl (fun items item =>
      match item.splitOn '=' with
      | [key, value] => mergeAnnotations items [(String.ofList key, String.ofList value)]
      | _ => items) []

namespace Fields

/-- The literal in `mergeDefaults`; the fields that it does not mention are zero. -/
def defaultConfig : Fields
  | .managerImage => .string "cquptmirror/manager:latest"
  | .workerImage => .string "cquptmirror/worker:latest"
  | .frontMode => .string "cquptmirror/caddy:latest"
  | .frontConfig => .string defaultFrontConfig
  | .frontHost => .string "mirrors.cqupt.edu.cn"
  | .frontClass => .string "traefik"
  | .frontAnn => .map (some [("traefik.ingress.kubernetes.io/router.entrypoints", "web")])
  | .enableMetric => .bool false
  | .debug => .bool false
  | _ => .string ""

/-- The body of the loop, by the kind of the field. -/
def mergeField : Value → Value → Value
  | .string s, .string d => .string (orElse s d)
  | .map none, .map d => .map (some (d.getD []))
  | v, _ => v

/-- The loop over the fields. -/
def mergeDefaults (config : Fields) : Fields :=
  Field.all.foldl (fun c f => Function.update c f (mergeField (c f) (defaultConfig f))) config

/-- The literal in `getConfig`; a variable that is not set reads as the empty text. -/
def ofEnv (getenv : String → String) : Fields
  | .frontAnn => .map (some (annItems (getenv "FRONT_ANN")))
  | .enableMetric => .bool (getenv "ENABLE_METRIC" ≠ "")
  | .debug => .bool (getenv "DEBUG" ≠ "")
  | f => .string (getenv f.envName)

def getConfig (getenv : String → String) : Fields := mergeDefaults (ofEnv getenv)

/-- The configuration that the reconcilers read; that of managers takes the image of the manager
from it as well. -/
def config (c : Fields) : Config where
  workerImage := (c .workerImage).text
  pullPolicy := (c .pullPolicy).text
  pullSecret := (c .pullSecret).text
  storageClass := (c .storageClass).text
  accessMode := (c .accessMode).text
  frontMode := (c .frontMode).text
  frontImage := (c .frontImage).text
  rsyncImage := (c .rsyncImage).text
  frontCmd := (c .frontCmd).text
  frontConfig := (c .frontConfig).text
  rsyncCmd := (c .rsyncCmd).text
  frontHost := (c .frontHost).text
  frontTLS := (c .frontTLS).text
  frontClass := (c .frontClass).text
  frontAnn := (c .frontAnn).items
  enableMetric := (c .enableMetric).flag
  debug := (c .debug).flag

end Fields

/-- `getConfig`, as the reconcilers use it. -/
def getConfig (getenv : String → String) : Config := (Fields.getConfig getenv).config

variable {getenv : String → String} {entries : List (String × String)}

/-! ### The loop -/

theorem Field.mem_all (f : Field) : f ∈ Field.all := by
  cases f <;> decide

theorem Field.nodup_all : Field.all.Nodup := by decide

/-- A loop that visits each field once changes each field of its list once. -/
theorem merge_foldl (fs : List Field) (hn : fs.Nodup) (g : Field → Value → Value)
    (config : Fields) (f : Field) :
    fs.foldl (fun c f => Function.update c f (g f (c f))) config f =
      if f ∈ fs then g f (config f) else config f := by
  induction fs generalizing config with
  | nil => rfl
  | cons a fs ih =>
      obtain ⟨ha, hn⟩ := List.nodup_cons.mp hn
      rw [List.foldl_cons, ih hn]
      by_cases hf : f = a
      · subst hf
        rw [if_neg ha, if_pos List.mem_cons_self, Function.update_self]
      · rw [Function.update_of_ne hf]
        simp only [List.mem_cons, hf, false_or]

theorem mergeDefaults_apply (config : Fields) (f : Field) :
    Fields.mergeDefaults config f = Fields.mergeField (config f) (Fields.defaultConfig f) := by
  have hloop := merge_foldl Field.all Field.nodup_all
    (fun f v => Fields.mergeField v (Fields.defaultConfig f)) config f
  rwa [if_pos (Field.mem_all f)] at hloop

/-- A text is that of its variable, or else the default. -/
theorem getConfig_text (getenv : String → String) (f : Field)
    (hf : (Fields.defaultConfig f).isBool = false) (hne : f ≠ .frontAnn) :
    (Fields.getConfig getenv f).text =
      orElse (getenv f.envName) (Fields.defaultConfig f).text := by
  unfold Fields.getConfig
  rw [mergeDefaults_apply]
  cases f with
  | frontAnn => exact absurd rfl hne
  | enableMetric => cases hf
  | debug => cases hf
  | _ => rfl

/-! ### The defaults -/

/-- The field has the value of its variable, or else its default. -/
def FallsBack (getenv : String → String) (f : Field) : Prop :=
  Fields.getConfig getenv f =
    if getenv f.envName ≠ "" then Fields.ofEnv getenv f else Fields.defaultConfig f

/-- A field of kind string. -/
theorem mergeField_string (s t : String) :
    Fields.mergeField (.string s) (.string t) = if s ≠ "" then .string s else .string t :=
  apply_ite Value.string (s ≠ "") s t

/-- The map that is read is never nil, so that the loop leaves it alone. -/
theorem frontAnn_eq (getenv : String → String) :
    Fields.getConfig getenv .frontAnn = .map (some (annItems (getenv "FRONT_ANN"))) := by
  unfold Fields.getConfig
  rw [mergeDefaults_apply]
  rfl

theorem fallsBack_frontAnn_iff : FallsBack getenv .frontAnn ↔ getenv "FRONT_ANN" ≠ "" := by
  unfold FallsBack
  rw [frontAnn_eq]
  change _ = ite (getenv "FRONT_ANN" ≠ "") _ _ ↔ _
  by_cases h : getenv "FRONT_ANN" = ""
  · rw [if_neg (not_not.mpr h), h]
    exact iff_of_false (by decide) (not_not.mpr rfl)
  · rw [if_pos h]
    exact iff_of_true rfl h

theorem fallsBack_of_string {f : Field} (hf : (Fields.defaultConfig f).isBool = false)
    (hne : f ≠ .frontAnn) : FallsBack getenv f := by
  unfold FallsBack Fields.getConfig
  rw [mergeDefaults_apply]
  cases f with
  | frontAnn => exact absurd rfl hne
  | enableMetric => cases hf
  | debug => cases hf
  | _ => exact mergeField_string _ _

/-- **Defaults.**  The fields of kind string and map have the values of their variables, or else
their defaults, exactly when there is a text for the annotations of the Ingresses. -/
theorem defaults_iff (getenv : String → String) :
    (∀ f, (Fields.defaultConfig f).isBool = false → FallsBack getenv f) ↔
      getenv "FRONT_ANN" ≠ "" := by
  constructor
  · intro h
    exact fallsBack_frontAnn_iff.mp (h .frontAnn rfl)
  · intro h f hf
    by_cases hne : f = .frontAnn
    · subst hne
      exact fallsBack_frontAnn_iff.mpr h
    · exact fallsBack_of_string hf hne

/-- Without any variable there are no annotations, where the default has one. -/
theorem default_annotations_unused :
    Fields.getConfig (fun _ => "") .frontAnn = .map (some []) ∧
      Fields.defaultConfig .frontAnn =
        .map (some [("traefik.ingress.kubernetes.io/router.entrypoints", "web")]) ∧
      ¬ FallsBack (fun _ => "") .frontAnn := by
  refine ⟨by decide, rfl, ?_⟩
  unfold FallsBack
  decide

/-! ### The text of the annotations -/

/-- A map of annotations that its text can hold: the keys are distinct and free of the separators,
and the values are free of semicolons. -/
structure Encodable (entries : List (String × String)) : Prop where
  nodup : (entries.map Prod.fst).Nodup
  keys : ∀ e ∈ entries, ∀ c ∈ e.1.toList, c ≠ ';' ∧ c ≠ '=' ∧ c ≠ ':'
  values : ∀ e ∈ entries, ';' ∉ e.2.toList

/-- The value can be told from its key. -/
def Plain (e : String × String) : Prop := '=' ∉ e.2.toList

instance : DecidablePred Plain := fun _ => inferInstanceAs (Decidable (¬ _))

theorem Encodable.tail {e : String × String} (h : Encodable (e :: entries)) :
    Encodable entries where
  nodup := (List.nodup_cons.mp h.nodup).2
  keys a ha := h.keys a (List.mem_cons_of_mem _ ha)
  values a ha := h.values a (List.mem_cons_of_mem _ ha)

end KubeSync.Controller
