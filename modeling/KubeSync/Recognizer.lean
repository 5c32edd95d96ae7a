import Mathlib.Algebra.Group.Int.Defs
import Mathlib.Algebra.Group.Nat.Defs
import Mathlib.Data.List.Basic

/-! # The file recogniser (`internal/recognizer.go`, `ParseSize` of `internal/types.go`)

`Recognizer` reads the version, the architecture and the edition of a distribution image off the
path of its file.

* A Go string is the list of its characters.  The code looks at single bytes only to split at ASCII
  characters and to compare a first byte with an ASCII one, where bytes and characters agree.
* An index that is out of range is a run-time panic: `none`.
* Each group of cases of the switch with a body of its own is a function `FileInfo → Text → Option
  FileInfo` that fills in what it has read. -/

namespace KubeSync

abbrev Text := List Char

/-- `v1beta1.FileInfo`. -/
structure FileInfo where
  name : Text := []
  ext : Text := []
  majorVersion : Text := []
  version : Text := []
  arch : Text := []
  edition : Text := []
  editionType : Text := []
  part : ℤ := 0
  path : Text := []
  size : ℕ := 0
  sizeStr : Text := []
deriving DecidableEq, Repr

namespace Recognizer

/-! ### The string functions it uses -/

def hasPrefix (s : Text) (p : String) : Bool := p.toList.isPrefixOf s

def hasSuffix (s : Text) (e : String) : Bool := e.toList.isSuffixOf s

def trimPrefix (s : Text) (p : String) : Text :=
  if hasPrefix s p then s.drop p.toList.length else s

def trimSuffix (s e : Text) : Text :=
  if e.isSuffixOf s then s.take (s.length - e.length) else s

def contains (s : Text) (p : String) : Bool := s.tails.any p.toList.isPrefixOf

/-- `strings.Split(s, "-")`. -/
def split (s : Text) : List Text := s.splitOn '-'

/-- `strings.Join(parts, "-")`. -/
def join (parts : List Text) : Text := ['-'].intercalate parts

/-- `path.Base`. -/
def base (path : Text) : Text :=
  let last := ((path.reverse.dropWhile (· = '/')).takeWhile (· ≠ '/')).reverse
  if path = [] then ['.'] else if last = [] then ['/'] else last

/-- `path.Ext`: from the last dot of the last element on. -/
def ext (path : Text) : Text :=
  let last := path.reverse.takeWhile (· ≠ '/')
  if '.' ∈ last then '.' :: (last.takeWhile (· ≠ '.')).reverse else []

def digits (s : Text) : Option ℕ :=
  if s ≠ [] ∧ s.all Char.isDigit then some (s.foldl (fun n c => 10 * n + (c.toNat - 48)) 0)
  else none

theorem digits_toDigits (n : ℕ) : digits (Nat.toDigits 10 n) = some n := by
  have hall : (Nat.toDigits 10 n).all Char.isDigit = true := by
    rw [List.all_eq_true]
    intro c hc
    exact Nat.isDigit_of_mem_toDigits (by decide) (by decide) hc
  have hvalue : (Nat.toDigits 10 n).foldl (fun n c => 10 * n + (c.toNat - 48)) 0 = n := by
    have h := Nat.ofDigitChars_ten_toDigits (n := n)
    rwa [Nat.ofDigitChars_eq_foldl] at h
  unfold digits
  rw [if_pos ⟨Nat.toDigits_ne_nil, hall⟩, hvalue]

/-- `strconv.Atoi`: the result and whether there was no error.  A number that is out of range gives
the nearest one that is not. -/
def atoi (s : Text) : ℤ × Bool :=
  let (neg, ds) := match s with
    | '-' :: ds => (true, ds)
    | '+' :: ds => (false, ds)
    | ds => (false, ds)
  match digits ds with
  | none => (0, false)
  | some n =>
      if neg then if n ≤ 2 ^ 63 then (-n, true) else (-2 ^ 63, false)
      else if n < 2 ^ 63 then (n, true) else (2 ^ 63 - 1, false)

def combine (s : List Text) (e : Text) : Text :=
  trimSuffix ((s.filter (· ≠ [])).flatMap (· ++ e)) e

/-! ### The cases of the switch -/

def centOS (f : FileInfo) (name : Text) : Option FileInfo := do
  let name := trimPrefix name "CentOS-"
  let stream := hasPrefix name "Stream-"
  let nameSp := split (trimPrefix name "Stream-")
  let majorVersion ← nameSp[0]?
  let f := { f with majorVersion }
  if nameSp.length > 3 then
    let a ← nameSp[1]?
    let b ← nameSp[2]?
    let c ← nameSp[3]?
    if majorVersion = "6".toList ∨ majorVersion = "7".toList then
      some { f with arch := a, edition := b, version := join (nameSp.drop 3) }
    else
      some { f with
        version := if stream then "Stream-".toList ++ a else a
        arch := b
        edition := c }
  else
    some f

/-- The parts of a Debian name from `start` on, when there are at least three of them. -/
def debianRest (f : FileInfo) (nameSp : List Text) (start : ℕ) : Option FileInfo := do
  let version ← nameSp[start]?
  let arch ← nameSp[start + 1]?
  let f := { f with version, arch }
  if nameSp.length ≥ start + 3 then
    let editionType ← nameSp[start + 2]?
    let f :=
      if f.edition = "live".toList then { f with edition := editionType, editionType := f.edition }
      else { f with editionType }
    let f := if f.arch = "source".toList then { f with edition := f.arch, arch := [] } else f
    if nameSp.length = start + 4 then
      let part ← nameSp[start + 3]?
      some { f with part := (atoi part).1 }
    else
      some f
  else
    some f

def debian (f : FileInfo) (name : Text) : Option FileInfo :=
  let nameSp := split (trimPrefix name "debian-")
  if nameSp.length ≥ 3 then do
    let first ← nameSp[0]?
    let c ← first[0]?
    if '0' > c ∨ c > '9' then debianRest { f with edition := first } nameSp 1
    else debianRest f nameSp 0
  else
    some f

/-- The part of the two groups of Ubuntu flavours behind the name of the flavour, which has `n`
parts. -/
def flavourRest (f : FileInfo) (nameSp : List Text) (n : ℕ) : Option FileInfo := do
  let version ← nameSp[n]?
  let edition ← nameSp[n + 1]?
  if edition = "beta".toList then
    let next ← nameSp[n + 2]?
    let f := { f with version := version ++ '-' :: edition, edition := next }
    if nameSp.length ≥ n + 4 then
      let arch ← nameSp[n + 3]?
      some { f with arch }
    else
      some f
  else
    let f := { f with version, edition }
    if nameSp.length ≥ n + 3 then
      let arch ← nameSp[n + 2]?
      some { f with arch }
    else
      some f

/-- `edubuntu-` to `xubuntu-`. -/
def ubuntuFlavour (f : FileInfo) (name : Text) : Option FileInfo :=
  let nameSp := split name
  if nameSp.length ≥ 4 then do
    let majorVersion ← nameSp[0]?
    flavourRest { f with majorVersion } nameSp 1
  else
    some f

/-- `ubuntu-budgie-` to `ubuntu-unity-`. -/
def ubuntuDesktop (f : FileInfo) (name : Text) : Option FileInfo :=
  let nameSp := split name
  if nameSp.length ≥ 5 then do
    let a ← nameSp[0]?
    let b ← nameSp[1]?
    flavourRest { f with majorVersion := a ++ '-' :: b } nameSp 2
  else
    some f

/-- The edition and the architecture of an Ubuntu image, from `start` on. -/
def ubuntuEdition (f : FileInfo) (nameSp : List Text) (start : ℕ) : Option FileInfo := do
  let first ← nameSp[start]?
  let second ← nameSp[start + 1]?
  let legacy := first = "legacy".toList
  let edition := if legacy then first ++ '-' :: second else first
  let start := if legacy then start + 1 else start
  let arch ← nameSp[start + 1]?
  let finish (edition arch : Text) : FileInfo :=
    { f with edition, arch := if hasSuffix arch "+intel" then arch ++ "-iot".toList else arch }
  if arch = "legacy".toList then
    let next ← nameSp[start + 2]?
    some (finish (edition ++ "-legacy".toList) next)
  else
    some (finish edition arch)

def ubuntu (f : FileInfo) (name : Text) : Option FileInfo :=
  let nameSp := split (trimPrefix name "ubuntu-")
  if nameSp.length ≥ 3 then do
    let version ← nameSp[0]?
    let second ← nameSp[1]?
    let beta := second = "beta".toList
    let f := { f with version := if beta then version ++ "-beta".toList else version }
    let start := if beta then 2 else 1
    let live ← nameSp[start]?
    let start := if live = "live".toList then start + 1 else start
    let src ← nameSp[start]?
    if src = "src".toList then
      let part ← nameSp[start + 1]?
      some { f with edition := src, part := (atoi part).1 }
    else if nameSp.length ≥ start + 2 then
      ubuntuEdition f nameSp start
    else
      some f
  else
    some f

def fedora (f : FileInfo) (name : Text) : Option FileInfo :=
  let nameSp := split (trimPrefix name "Fedora-")
  if nameSp.length ≥ 5 then do
    let edition ← nameSp[0]?
    let editionType ← nameSp[1]?
    let arch ← nameSp[2]?
    let majorVersion ← nameSp[3]?
    let version ← nameSp[4]?
    some { f with edition, editionType, arch, majorVersion, version }
  else
    some f

def deepin (f : FileInfo) (name : Text) : Option FileInfo :=
  let nameSp := split (trimPrefix name "deepin-")
  if nameSp.length ≥ 4 then do
    let edition ← nameSp[0]?
    let editionType ← nameSp[1]?
    let arch ← nameSp[nameSp.length - 1]?
    some { f with
      edition, editionType, arch
      version := join ((nameSp.take (nameSp.length - 1)).drop 2) }
  else
    some f

def kali (f : FileInfo) (name : Text) : Option FileInfo := do
  let nameSp := split (trimPrefix name "kali-linux-")
  let version ← nameSp[0]?
  let f := { f with version }
  if nameSp.length ≥ 3 then
    let week ← nameSp[1]?
    let c ← week[0]?
    let f := if c = 'W' then { f with version := version ++ '-' :: week } else f
    let start := if c = 'W' then 2 else 1
    if nameSp.length = start + 2 then
      let edition ← nameSp[start]?
      let arch ← nameSp[start + 1]?
      some { f with edition := if edition = "installer".toList then [] else edition, arch }
    else if nameSp.length = start + 3 then
      let edition ← nameSp[start + 1]?
      let arch ← nameSp[start + 2]?
      some { f with edition, arch }
    else
      some f
  else
    some f

/-- The architecture of an openSUSE Leap image, from `start` on. -/
def leapArch (f : FileInfo) (nameSp : List Text) (start : ℕ) : Option FileInfo :=
  if nameSp.length ≥ start + 1 then do
    let live ← nameSp[start]?
    let arch ← nameSp[if live = "Live".toList then start + 1 else start]?
    some { f with arch }
  else
    some f

def leap (f : FileInfo) (nameSp : List Text) : Option FileInfo :=
  if nameSp.length ≥ 3 then do
    let version ← nameSp[1]?
    let editionType ← nameSp[2]?
    let f := { f with version, editionType }
    if editionType = "Rescue".toList then
      leapArch f nameSp 4
    else if editionType = "CR".toList then
      let editionType ← nameSp[3]?
      leapArch { f with editionType } nameSp 4
    else if (atoi editionType).2 then
      let next ← nameSp[3]?
      leapArch { f with version := version ++ '-' :: editionType, editionType := next } nameSp 4
    else
      leapArch f nameSp 3
  else
    some f

def tumbleweed (f : FileInfo) (nameSp : List Text) : Option FileInfo :=
  if nameSp.length ≥ 2 then do
    let first ← nameSp[1]?
    let rescue := first = "Rescue".toList
    let editionType ←
      (if rescue then nameSp[2]?.map fun next => first ++ '-' :: next else some first)
    let f := { f with editionType }
    let start := if rescue then 3 else 2
    let start := if nameSp[start]? = some "Live".toList then start + 1 else start
    if hasPrefix editionType "Yomi" then
      match editionType.splitOn '.' with
      | [editionType, arch] => some { f with arch, editionType }
      | _ => some f
    else
      let arch ← nameSp[start]?
      some { f with arch }
  else
    some f

def openSUSE (f : FileInfo) (name : Text) : Option FileInfo :=
  if contains name "Micro" = false ∧ hasSuffix name "-Current" then do
    let nameSp := split (trimPrefix name "openSUSE-")
    let majorVersion ← nameSp[0]?
    let f := { f with majorVersion }
    if majorVersion = "Leap".toList then
      leap f nameSp
    else if majorVersion = "Tumbleweed".toList then
      tumbleweed f nameSp
    else if majorVersion = "Kubic".toList ∧ nameSp.length ≥ 3 then
      let editionType ← nameSp[1]?
      let arch ← nameSp[2]?
      some { f with editionType, arch }
    else
      some f
  else
    some f

def archlinux (f : FileInfo) (name : Text) : Option FileInfo :=
  match split (trimPrefix name "archlinux-") with
  | version :: arch :: _ => some { f with version, arch }
  | _ => some f

def alpine (f : FileInfo) (name : Text) : Option FileInfo :=
  match split (trimPrefix name "alpine-") with
  | [version, arch] => some { f with version, arch }
  | [edition, version, arch] => some { f with edition, version, arch }
  | _ => some f

def proxmox (f : FileInfo) (name : Text) : Option FileInfo :=
  match name.splitOn '_' with
  | [majorVersion, version] => some { f with majorVersion, version }
  | _ => some f

def almaLinux (f : FileInfo) (name : Text) : Option FileInfo := do
  let nameSp := split (trimPrefix name "AlmaLinux-")
  let version ← nameSp[0]?
  let f := { f with version }
  if nameSp.length ≥ 3 then
    let second ← nameSp[1]?
    let start := if second = "latest".toList then 2 else 1
    let arch ← nameSp[start]?
    let editionType ← nameSp[start + 1]?
    let f := { f with arch, editionType }
    if editionType = "Live".toList then some { f with edition := join (nameSp.drop (start + 2)) }
    else some f
  else
    some f

def texlive (f : FileInfo) (name : Text) : Option FileInfo :=
  match split (trimPrefix name "texlive") with
  | _ :: version :: _ => some { f with version }
  | _ => some f

def flavours : List String :=
  ["edubuntu-", "kubuntu-", "lubuntu-", "mythbuntu-", "ubuntucinnamon-", "ubuntukylin-",
    "ubuntustudio-", "xubuntu-"]

def desktops : List String :=
  ["ubuntu-budgie-", "ubuntu-gnome-", "ubuntu-mate-", "ubuntu-unity-"]

/-- The switch on the name. -/
def recognize (f : FileInfo) (name : Text) : Option FileInfo :=
  if hasPrefix name "CentOS-" then centOS f name
  else if hasPrefix name "debian-" then debian f name
  else if flavours.any (hasPrefix name) then ubuntuFlavour f name
  else if desktops.any (hasPrefix name) then ubuntuDesktop f name
  else if hasPrefix name "ubuntu-" then ubuntu f name
  else if hasPrefix name "Fedora-" then fedora f name
  else if hasPrefix name "deepin-" then deepin f name
  else if hasPrefix name "kali-linux-" then kali f name
  else if hasPrefix name "openSUSE-" then openSUSE f name
  else if hasPrefix name "archlinux-" then archlinux f name
  else if hasPrefix name "alpine-" then alpine f name
  else if hasPrefix name "proxmox-" then proxmox f name
  else if hasPrefix name "AlmaLinux-" then almaLinux f name
  else if hasPrefix name "texlive" then texlive f name
  else some f

/-- The name that is shown for what was read. -/
def displayName (f : FileInfo) : Text :=
  if f.majorVersion ≠ [] ∨ f.version ≠ [] then
    let part := if f.part > 0 then "Part ".toList ++ Nat.toDigits 10 f.part.toNat else []
    let name :=
      combine [f.majorVersion, f.version] " ".toList ++ " (".toList ++
        combine [f.arch, f.edition, f.editionType, part] ", ".toList ++ ")".toList
    if hasSuffix name "()" then trimSuffix name " ()".toList else name
  else []

end Recognizer

open Recognizer in
/-- `Recognizer`. -/
def recognizer (filepath : Text) : Option FileInfo := do
  let f : FileInfo := { path := filepath, ext := ext filepath }
  let f ← recognize f (trimSuffix (base filepath) f.ext)
  some { f with name := displayName f }

/-! ### `ParseSize` -/

/-- `%.2f` of `n / unit`, read as exact arithmetic: rounded to the nearest hundredth, and to the
even one of two. -/
def twoDecimals (n unit : ℕ) : Text :=
  let q := 100 * n / unit
  let r := 100 * n % unit
  let h := if 2 * r > unit ∨ 2 * r = unit ∧ q % 2 = 1 then q + 1 else q
  Nat.toDigits 10 (h / 100) ++ ['.', Nat.digitChar (h % 100 / 10), Nat.digitChar (h % 10)]

def parseSize (size : ℕ) : Text :=
  if size > 1024 ^ 4 then twoDecimals size (1024 ^ 4) ++ ['T']
  else if size > 1024 ^ 3 then twoDecimals size (1024 ^ 3) ++ ['G']
  else if size > 1024 ^ 2 then twoDecimals size (1024 ^ 2) ++ ['M']
  else if size > 1024 then twoDecimals size 1024 ++ ['K']
  else if size ≠ 0 then Nat.toDigits 10 size ++ ['B']
  else []

example : recognizer "/iso/ubuntu-22.04.3-live-server-amd64.iso".toList =
    some { name := "22.04.3 (amd64, server)".toList, ext := ".iso".toList
           version := "22.04.3".toList, arch := "amd64".toList, edition := "server".toList
           path := "/iso/ubuntu-22.04.3-live-server-amd64.iso".toList } := by decide

end KubeSync
