import KubeSync.CommandLog
import KubeSync.Recognizer
import Mathlib.Data.Rat.Floor
import Mathlib.Algebra.Order.Floor.Semifield
import Mathlib.Tactic.IntervalCases
import Mathlib.Tactic.Positivity

/-! # Sizes as texts

`ParseSize` and `ParseSizeStr` of `internal/types.go` and `ExtractSizeFromRsyncLog` of
`worker/util.go`, with decimal numerals read as rational numbers.

* `exact` is the library of floating-point numbers where they are rational.  What the conversion
  makes of a number that is not below 2^64 depends on the platform and is a parameter.
* `parseSizeStr_letter` and `parseSizeStr_bytes` are what `ParseSizeStr` does with the texts of a
  numeral and a unit; everything else follows from them.
* `roundTrips_iff` says which sizes can be read back.
* `rsyncRegexp` is the expression for the log of rsync, and `rsyncSize_iff` says which of the units
  that it admits are understood. -/

namespace KubeSync.Sizes

open CommandLog
open ProviderContext (Bytes)
open Recognizer (digits digits_toDigits)

/-! ### Decimal numerals -/

def bytesOf (t : Text) : Bytes := t.map fun c => UInt8.ofNat c.toNat

def textOf (s : Bytes) : Text := s.map fun b => Char.ofNat b.toNat

/-- `strconv.ParseFloat` on digits with at most one point, which are the only texts here that it
accepts. -/
def parseDecimal (s : Text) : Option ℚ :=
  match s.splitOn '.' with
  | [a] => (digits a).map fun n : ℕ => (n : ℚ)
  | [a, b] => (digits (a ++ b)).map fun n : ℕ => (n : ℚ) / 10 ^ b.length
  | _ => none

def upper (b : UInt8) : UInt8 := if 97 ≤ b ∧ b ≤ 122 then b - 32 else b

/-- The conversion to uint64; `overflow` is what it makes of a number that is out of range. -/
def toUint64 (overflow : ℚ → ℕ) (x : ℚ) : ℕ :=
  if 0 ≤ x ∧ x < 2 ^ 64 then ⌊x⌋₊ else overflow x

/-- Exact arithmetic. -/
def exact (overflow : ℚ → ℕ) : SizeLib where
  Float64 := ℚ
  parseFloat s := parseDecimal (textOf s)
  mul x n := x * n
  div x n := x / n
  uint64 := toUint64 overflow
  toUpper s := s.map upper

/-- The text is a numeral with this value: digits, or digits around a point. -/
def Numeral (d : Text) (x : ℚ) : Prop :=
  ∃ a b n, (d = a ∧ b = [] ∨ d = a ++ '.' :: b) ∧ digits (a ++ b) = some n ∧
    x = n / 10 ^ b.length

variable {overflow : ℚ → ℕ} {s t : Bytes} {d : Text} {x : ℚ} {n : ℕ}

theorem isDigit_of_digits (h : digits d = some n) : ∀ c ∈ d, c.isDigit := by
  unfold digits at h
  rw [Option.ite_none_right_eq_some] at h
  exact List.all_eq_true.mp h.1.2

theorem point_notMem (h : ∀ c ∈ d, c.isDigit) : '.' ∉ d :=
  fun hm => absurd (h '.' hm) (by decide)

theorem parseDecimal_of_numeral (h : Numeral d x) : parseDecimal d = some x := by
  obtain ⟨a, b, n, hd, hn, rfl⟩ := h
  have hdigit := isDigit_of_digits hn
  have ha : '.' ∉ a := point_notMem fun c hc => hdigit c (List.mem_append_left _ hc)
  have hb : '.' ∉ b := point_notMem fun c hc => hdigit c (List.mem_append_right _ hc)
  unfold parseDecimal
  rcases hd with ⟨rfl, rfl⟩ | rfl
  · rw [List.append_nil] at hn
    rw [List.splitOn_eq_singleton ha]
    simp [hn]
  · rw [List.splitOn_append_cons_self, List.splitOn_eq_singleton ha, List.splitOn_eq_singleton hb]
    simp [hn]

/-- A numeral has digits and points only. -/
theorem numeric_of_parseDecimal (h : parseDecimal d = some x) :
    ∀ c ∈ d, c.isDigit ∨ c = '.' := by
  have hjoin : ['.'].intercalate (d.splitOn '.') = d := List.intercalate_splitOn '.'
  unfold parseDecimal at h
  intro c hc
  rw [← hjoin] at hc
  split at h
  next a hsplit =>
    obtain ⟨n, hn, -⟩ := Option.map_eq_some_iff.mp h
    rw [hsplit, List.intercalate_singleton] at hc
    exact .inl (isDigit_of_digits hn c hc)
  next a b hsplit =>
    obtain ⟨n, hn, -⟩ := Option.map_eq_some_iff.mp h
    have hdigit := isDigit_of_digits hn
    rw [hsplit, List.intercalate_cons_cons, List.intercalate_singleton, List.mem_append,
      List.mem_append, List.mem_singleton] at hc
    rcases hc with (hc | hc) | hc
    · exact .inl (hdigit c (List.mem_append_left _ hc))
    · exact .inr hc
    · exact .inl (hdigit c (List.mem_append_right _ hc))
  next => cases h

theorem parseDecimal_nil : parseDecimal [] = none := by decide

theorem numeral_toDigits (n : ℕ) : Numeral (Nat.toDigits 10 n) n :=
  ⟨Nat.toDigits 10 n, [], n, .inl ⟨rfl, rfl⟩, by rw [List.append_nil, digits_toDigits], by simp⟩

theorem nonneg_of_numeral (h : Numeral d x) : 0 ≤ x := by
  obtain ⟨a, b, n, -, -, rfl⟩ := h
  positivity

/-! ### Texts without anything to trim -/

/-- The bytes of numerals and of units in capitals. -/
def Clean (s : Bytes) : Prop := ∀ b ∈ s, b ∈ ascii "0123456789.KMGTP"

theorem clean_byte : ∀ b ∈ ascii "0123456789.KMGTP",
    b ∉ ascii " \n" ∧ b ≠ UInt8.ofNat 'u'.toNat ∧ upper b = b := by
  decide +kernel

theorem Clean.filter (h : Clean s) : s.filter (fun b => b ∉ ascii " \n") = s := by
  rw [List.filter_eq_self]
  intro b hb
  exact decide_eq_true (clean_byte b (h b hb)).1

theorem Clean.toUpper (h : Clean s) : s.map upper = s := by
  refine (List.map_congr_left fun b hb => ?_).trans s.map_id
  exact (clean_byte b (h b hb)).2.2

theorem Clean.getLast_ne (h : Clean s) {b : UInt8} (hb : b ∉ ascii "0123456789.KMGTP") :
    s.getLast? ≠ some b :=
  fun hl => hb (h b (List.mem_of_getLast? hl))

theorem Clean.trimByte_eq (h : Clean s) {b : Char}
    (hb : UInt8.ofNat b.toNat ∉ ascii "0123456789.KMGTP") : trimByte s b = s :=
  if_neg (h.getLast_ne hb)

/-- The bytes of a numeral. -/
theorem mem_numeric (h : ∀ c ∈ d, c.isDigit ∨ c = '.') :
    ∀ b ∈ bytesOf d, b ∈ ascii "0123456789." := by
  intro b hb
  obtain ⟨c, hc, rfl⟩ := List.mem_map.mp hb
  rcases h c hc with hdigit | rfl
  · have hlo : 48 ≤ c.toNat := (Char.isDigit_iff_toNat.mp hdigit).1
    have hhi : c.toNat ≤ 57 := (Char.isDigit_iff_toNat.mp hdigit).2
    generalize c.toNat = k at hlo hhi
    interval_cases k <;> decide
  · decide

theorem clean_numeric (h : ∀ c ∈ d, c.isDigit ∨ c = '.') : Clean (bytesOf d) := by
  have hclean : ∀ b ∈ ascii "0123456789.", b ∈ ascii "0123456789.KMGTP" := by
    decide +kernel
  exact fun b hb => hclean b (mem_numeric h b hb)

theorem textOf_bytesOf (h : ∀ c ∈ d, c.toNat < 256) : textOf (bytesOf d) = d := by
  unfold textOf bytesOf
  rw [List.map_map]
  refine (List.map_congr_left fun c hc => ?_).trans d.map_id
  have hbyte : (UInt8.ofNat c.toNat).toNat = c.toNat := by
    have hlt := h c hc
    simp
    omega
  change Char.ofNat (UInt8.ofNat c.toNat).toNat = c
  rw [hbyte, Char.ofNat_toNat]

/-- `ParseSizeStr` behind the trimming. -/
def cleanSize (lib : SizeLib) (s : Bytes) : ℕ :=
  match lib.parseFloat s.dropLast with
  | none => 0
  | some x =>
      match unitOf s with
      | some n => lib.uint64 (lib.mul x n)
      | none => ((lib.parseFloat s).map lib.uint64).getD 0

/-- A clean text is read as it is, and so is one with the letter for bytes behind it. -/
theorem parseSizeStr_eq (h : Clean s) (hne : s ≠ []) (ht : t = [] ∨ t = ascii "B") :
    parseSizeStr (exact overflow) (s ++ t) = cleanSize (exact overflow) s := by
  have hknown : ¬ (s ++ t = [] ∨ s ++ t = ascii "unknown") := by
    rintro (hnil | hunknown)
    · exact hne (List.append_eq_nil_iff.mp hnil).1
    · obtain ⟨b, s', rfl⟩ := List.exists_cons_of_ne_nil hne
      exact (clean_byte b (h b List.mem_cons_self)).2.1 (List.cons.inj hunknown).1
  have hfilter : (s ++ t).filter (fun b => b ∉ ascii " \n") = s ++ t := by
    rw [List.filter_append, h.filter]
    rcases ht with rfl | rfl
    · rfl
    · exact congrArg (s ++ ·) (by decide)
  have hbit : (s ++ t).getLast? ≠ some (UInt8.ofNat 'b'.toNat) := by
    rcases ht with rfl | rfl
    · rw [List.append_nil]
      exact h.getLast_ne (by decide)
    · rw [List.getLast?_append]
      exact of_decide_eq_true rfl
  have htrim : trimByte (s ++ t) 'B' = s := by
    rcases ht with rfl | rfl
    · rw [List.append_nil]
      exact h.trimByte_eq (by decide)
    · exact (if_pos List.getLast?_concat).trans List.dropLast_concat
  unfold parseSizeStr cleanSize
  rw [if_neg hknown]
  simp only [hfilter, hbit, decide_false, Bool.false_eq_true, if_false, htrim,
    h.trimByte_eq (b := 'i') (by decide)]
  change (if s.map upper = [] then 0 else _) = _
  simp only [exact, h.toUpper, if_neg hne]
  cases parseDecimal (textOf s.dropLast) with
  | none => rfl
  | some x =>
      cases unitOf s with
      | some n => rfl
      | none => cases parseDecimal (textOf s) <;> rfl

/-! ### Numerals with a unit -/

/-- The units of the log of rsync. -/
inductive SizeUnit where
  | K
  | M
  | G
  | T
  | P
deriving DecidableEq, Repr

def SizeUnit.letter : SizeUnit → Char
  | K => 'K'
  | M => 'M'
  | G => 'G'
  | T => 'T'
  | P => 'P'

/-- The unit of the k-th letter is 1024^k. -/
def SizeUnit.factor : SizeUnit → ℕ
  | K => 1024
  | M => 1024 ^ 2
  | G => 1024 ^ 3
  | T => 1024 ^ 4
  | P => 1024 ^ 5

variable {u : SizeUnit} {logFile : String} {content : Bytes}

theorem SizeUnit.factor_pos (u : SizeUnit) : 0 < u.factor := by
  cases u <;> decide

theorem lt_of_numeric (h : ∀ c ∈ d, c.isDigit ∨ c = '.') : ∀ c ∈ d, c.toNat < 256 := by
  intro c hc
  rcases h c hc with hdigit | rfl
  · have hhi : c.toNat ≤ 57 := (Char.isDigit_iff_toNat.mp hdigit).2
    omega
  · decide

theorem parseFloat_bytesOf (h : ∀ c ∈ d, c.isDigit ∨ c = '.') :
    (exact overflow).parseFloat (bytesOf d) = parseDecimal d :=
  congrArg parseDecimal (textOf_bytesOf (lt_of_numeric h))

theorem bytesOf_concat (d : Text) (c : Char) :
    bytesOf (d ++ [c]) = bytesOf d ++ [UInt8.ofNat c.toNat] := by
  unfold bytesOf
  rw [List.map_append]
  rfl

/-- The parser knows all units but the last. -/
theorem unitOf_letter (s : Bytes) (u : SizeUnit) :
    unitOf (s ++ [UInt8.ofNat u.letter.toNat]) = if u = .P then none else some u.factor := by
  unfold unitOf
  rw [List.getLast?_concat]
  cases u <;> decide

theorem clean_letter (h : Clean s) (u : SizeUnit) :
    Clean (s ++ [UInt8.ofNat u.letter.toNat]) := by
  intro b hb
  rcases List.mem_append.mp hb with hb | hb
  · exact h b hb
  · rw [List.mem_singleton.mp hb]
    cases u <;> decide

/-- The letter of a unit is no part of a numeral. -/
theorem parseFloat_letter (h : ∀ c ∈ d, c.isDigit ∨ c = '.') (u : SizeUnit) :
    (exact overflow).parseFloat (bytesOf (d ++ [u.letter])) = none := by
  have hlt : ∀ c ∈ d ++ [u.letter], c.toNat < 256 := by
    intro c hc
    rcases List.mem_append.mp hc with hc | hc
    · exact lt_of_numeric h c hc
    · rw [List.mem_singleton.mp hc]
      cases u <;> decide
  change parseDecimal (textOf (bytesOf (d ++ [u.letter]))) = none
  rw [textOf_bytesOf hlt, Option.eq_none_iff_forall_ne_some]
  intro x hx
  have hletter := numeric_of_parseDecimal hx u.letter (by simp)
  revert hletter
  cases u <;> decide

/-- A numeral with a unit; one with the last of the units is taken for a numeral, which it is
not. -/
theorem parseSizeStr_letter (hd : Numeral d x) :
    parseSizeStr (exact overflow) (bytesOf (d ++ [u.letter])) =
      if u = .P then 0 else toUint64 overflow (x * u.factor) := by
  have hp := parseDecimal_of_numeral hd
  have hnum := numeric_of_parseDecimal hp
  have hclean := clean_letter (clean_numeric hnum) u
  have hread : parseSizeStr (exact overflow) (_ ++ []) = _ :=
    parseSizeStr_eq hclean (by simp) (.inl rfl)
  rw [List.append_nil, ← bytesOf_concat] at hread
  rw [hread]
  unfold cleanSize
  rw [parseFloat_letter hnum, bytesOf_concat, List.dropLast_concat, parseFloat_bytesOf hnum, hp,
    unitOf_letter]
  by_cases hu : u = .P
  · rw [if_pos hu, if_pos hu]
    rfl
  · rw [if_neg hu, if_neg hu]
    rfl

theorem toUint64_natCast (hn : n < 2 ^ 64) : toUint64 overflow n = n := by
  have hlt : (n : ℚ) < 2 ^ 64 := by exact_mod_cast hn
  unfold toUint64
  rw [if_pos ⟨by positivity, hlt⟩, Nat.floor_natCast]

theorem numeric_of_numeral (hd : Numeral d x) : ∀ c ∈ d, c.isDigit ∨ c = '.' :=
  numeric_of_parseDecimal (parseDecimal_of_numeral hd)

/-- A digit is no unit. -/
theorem unitOf_digit (s : Bytes) {k : ℕ} (hk : k < 10) :
    unitOf (s ++ [UInt8.ofNat (Nat.digitChar k).toNat]) = none := by
  unfold unitOf
  rw [List.getLast?_concat]
  interval_cases k <;> decide

/-- The digits of a number with the letter for bytes: all of them but the last must be a numeral
as well. -/
theorem parseSizeStr_bytes (hn : n < 2 ^ 64) :
    parseSizeStr (exact overflow) (bytesOf (Nat.toDigits 10 n ++ ['B'])) =
      if n < 10 then 0 else n := by
  have hnum := numeric_of_numeral (numeral_toDigits n)
  have hne : bytesOf (Nat.toDigits 10 n) ≠ [] := by
    simp [bytesOf]
  rw [bytesOf_concat]
  change parseSizeStr (exact overflow) (bytesOf (Nat.toDigits 10 n) ++ ascii "B") = _
  rw [parseSizeStr_eq (clean_numeric hnum) hne (.inr rfl)]
  unfold cleanSize
  rw [parseFloat_bytesOf hnum, parseDecimal_of_numeral (numeral_toDigits n)]
  by_cases hlt : n < 10
  · rw [if_pos hlt, Nat.toDigits_of_lt_base hlt]
    rfl
  · rw [if_neg hlt, Nat.toDigits_of_base_le (by decide) (by omega), bytesOf_concat,
      List.dropLast_concat, unitOf_digit _ (Nat.mod_lt _ (by decide)),
      parseFloat_bytesOf (numeric_of_numeral (numeral_toDigits (n / 10))),
      parseDecimal_of_numeral (numeral_toDigits (n / 10))]
    exact toUint64_natCast hn

/-! ### Two decimals -/

/-- The hundredths that are written. -/
def hundredths (n unit : ℕ) : ℕ :=
  let q := 100 * n / unit
  let r := 100 * n % unit
  if 2 * r > unit ∨ 2 * r = unit ∧ q % 2 = 1 then q + 1 else q

/-- They are the nearest. -/
theorem hundredths_bounds (n : ℕ) {unit : ℕ} (hpos : 0 < unit) :
    200 * n ≤ 2 * (hundredths n unit * unit) + unit ∧
      2 * (hundredths n unit * unit) ≤ 200 * n + unit := by
  have hdiv : 100 * n / unit * unit + 100 * n % unit = 100 * n := Nat.div_add_mod' _ _
  have hmod : 100 * n % unit < unit := Nat.mod_lt _ hpos
  unfold hundredths
  dsimp only
  split
  · rw [Nat.add_mul, Nat.one_mul]
    omega
  · omega

theorem digits_concat {k : ℕ} (h : digits d = some n) (hk : k < 10) :
    digits (d ++ [Nat.digitChar k]) = some (10 * n + k) := by
  have hdigit : (Nat.digitChar k).isDigit = true := by
    interval_cases k <;> decide
  unfold digits at h ⊢
  rw [Option.ite_none_right_eq_some] at h
  obtain ⟨⟨-, hall⟩, hvalue⟩ := h
  have hlast : (d ++ [Nat.digitChar k]).all Char.isDigit = true := by
    rw [List.all_append, hall]
    simpa using hdigit
  rw [if_pos ⟨by simp, hlast⟩, List.foldl_append, Option.some.inj hvalue, List.foldl_cons,
    List.foldl_nil, Nat.toNat_digitChar_of_lt_ten hk, Nat.add_sub_cancel_left]

theorem digits_two (h : ℕ) :
    digits (Nat.toDigits 10 (h / 100) ++
      [Nat.digitChar (h % 100 / 10), Nat.digitChar (h % 10)]) = some h := by
  have hten := digits_concat (digits_toDigits (h / 100)) (k := h % 100 / 10) (by omega)
  have hone := digits_concat hten (k := h % 10) (by omega)
  rw [List.append_assoc, List.singleton_append] at hone
  rw [hone]
  congr 1
  omega

theorem numeral_twoDecimals (n unit : ℕ) :
    Numeral (twoDecimals n unit) (hundredths n unit / 100) := by
  refine ⟨Nat.toDigits 10 (hundredths n unit / 100), _, hundredths n unit, .inr rfl,
    digits_two _, ?_⟩
  norm_num

/-! ### The round trip -/

/-- The unit that `ParseSize` chooses; there is none for bytes and for the empty text. -/
def sizeUnit (n : ℕ) : Option SizeUnit :=
  if n > 1024 ^ 4 then some .T
  else if n > 1024 ^ 3 then some .G
  else if n > 1024 ^ 2 then some .M
  else if n > 1024 then some .K
  else none

/-- `ParseSizeStr` behind `ParseSize`. -/
def readBack (overflow : ℚ → ℕ) (n : ℕ) : ℕ :=
  parseSizeStr (exact overflow) (bytesOf (parseSize n))

/-- The size is read back up to a hundredth of its unit, and exactly where there is none. -/
structure RoundTrips (overflow : ℚ → ℕ) (n : ℕ) : Prop where
  near : ∀ u, sizeUnit n = some u → 100 * |(readBack overflow n : ℤ) - n| < u.factor
  same : sizeUnit n = none → readBack overflow n = n

theorem parseSize_eq (n : ℕ) :
    parseSize n =
      match sizeUnit n with
      | some u => twoDecimals n u.factor ++ [u.letter]
      | none => if n ≠ 0 then Nat.toDigits 10 n ++ ['B'] else [] := by
  unfold parseSize sizeUnit
  split_ifs <;> rfl

theorem sizeUnit_ne_peta (h : sizeUnit n = some u) : u ≠ .P := by
  unfold sizeUnit at h
  split_ifs at h <;> cases h <;> decide

theorem factor_lt_of_sizeUnit (h : sizeUnit n = some u) : u.factor < n := by
  unfold sizeUnit at h
  split_ifs at h with hT hG hM hK <;> cases h <;> assumption

theorem le_of_sizeUnit_none (h : sizeUnit n = none) : n ≤ 1024 := by
  unfold sizeUnit at h
  split_ifs at h
  omega

/-- Only the last unit is chosen for numbers near 2^64. -/
theorem le_of_sizeUnit_ne (h : sizeUnit n = some u) (hu : u ≠ .T) : n ≤ 1024 ^ 4 := by
  unfold sizeUnit at h
  split_ifs at h with hT
  · cases h
    exact absurd rfl hu
  all_goals omega

theorem readBack_of_unit (h : sizeUnit n = some u) :
    readBack overflow n = toUint64 overflow (hundredths n u.factor / 100 * u.factor) := by
  unfold readBack
  rw [parseSize_eq, h, parseSizeStr_letter (numeral_twoDecimals n u.factor),
    if_neg (sizeUnit_ne_peta h)]

theorem readBack_of_none (h : sizeUnit n = none) :
    readBack overflow n = if n < 10 then 0 else n := by
  unfold readBack
  rw [parseSize_eq, h]
  dsimp only
  by_cases hn : n = 0
  · rw [if_neg (not_not.mpr hn), hn]
    rfl
  · rw [if_pos hn]
    have hle := le_of_sizeUnit_none h
    exact parseSizeStr_bytes (by omega)

/-- The conversion in range cuts off the fraction. -/
theorem toUint64_hundredths {h unit : ℕ} (hlt : h * unit < 100 * 2 ^ 64) :
    toUint64 overflow (h / 100 * unit) = h * unit / 100 := by
  have hx : (h / 100 * unit : ℚ) = ((h * unit : ℕ) : ℚ) / (100 : ℕ) := by
    push_cast
    ring
  have hrange : ((h * unit : ℕ) : ℚ) / (100 : ℕ) < 2 ^ 64 := by
    rw [div_lt_iff₀ (by norm_num)]
    have hcast : ((h * unit : ℕ) : ℚ) < ((100 * 2 ^ 64 : ℕ) : ℚ) := by exact_mod_cast hlt
    push_cast at hcast ⊢
    linarith
  unfold toUint64
  rw [hx, if_pos ⟨by positivity, hrange⟩, Nat.floor_div_eq_div]

/-- A number whose text is in range is read back up to a hundredth of its unit. -/
theorem near_of_lt (h : sizeUnit n = some u)
    (hlt : hundredths n u.factor * u.factor < 100 * 2 ^ 64) :
    100 * |(readBack overflow n : ℤ) - n| < u.factor := by
  have hbounds := hundredths_bounds n u.factor_pos
  have hunit : 1024 ≤ u.factor := by cases u <;> decide
  rw [readBack_of_unit h, toUint64_hundredths hlt]
  generalize hundredths n u.factor * u.factor = k at hbounds
  generalize u.factor = unit at hbounds hunit
  have hfloor : 100 * (k / 100) + k % 100 = k := Nat.div_add_mod k 100
  have hrem : k % 100 < 100 := Nat.mod_lt _ (by decide)
  rcases abs_cases (((k / 100 : ℕ) : ℤ) - n) with ⟨habs, -⟩ | ⟨habs, -⟩
  · rw [habs]
    omega
  · rw [habs]
    omega

/-- The hundredths of a number just below 2^64 are rounded up to it. -/
theorem hundredths_top (hn : n < 2 ^ 64) (htop : 2 ^ 64 ≤ n + 5497558138) :
    hundredths n SizeUnit.T.factor = 100 * 2 ^ 24 := by
  have hbounds := hundredths_bounds n SizeUnit.T.factor_pos
  change 200 * n ≤ 2 * (_ * 1024 ^ 4) + 1024 ^ 4 ∧ 2 * (_ * 1024 ^ 4) ≤ 200 * n + 1024 ^ 4
    at hbounds
  omega

theorem hundredths_lt (hn : n + 5497558138 < 2 ^ 64) (h : sizeUnit n = some u) :
    hundredths n u.factor * u.factor < 100 * 2 ^ 64 := by
  have hbounds := hundredths_bounds n u.factor_pos
  by_cases hu : u = .T
  · subst hu
    change 200 * n ≤ 2 * (_ * 1024 ^ 4) + 1024 ^ 4 ∧ 2 * (_ * 1024 ^ 4) ≤ 200 * n + 1024 ^ 4
      at hbounds
    change _ * 1024 ^ 4 < _
    omega
  · have hle := le_of_sizeUnit_ne h hu
    have hfactor := factor_lt_of_sizeUnit h
    omega

theorem readBack_top (hn : n < 2 ^ 64) (htop : 2 ^ 64 ≤ n + 5497558138) :
    sizeUnit n = some .T ∧ readBack overflow n = overflow (2 ^ 64) := by
  have hT : sizeUnit n = some .T := if_pos (by omega)
  refine ⟨hT, ?_⟩
  have hx : (((100 * 2 ^ 24 : ℕ) : ℚ) / 100 * SizeUnit.T.factor) = 2 ^ 64 := by
    norm_num [SizeUnit.factor]
  rw [readBack_of_unit hT, hundredths_top hn htop, hx]
  exact if_neg fun hlt => lt_irrefl _ hlt.2

/-- **Sizes.**  A size is read back exactly when it is not a single digit, and the text of a size
near 2^64, which stands for 2^64, is converted to a number near the size. -/
theorem roundTrips_iff (overflow : ℚ → ℕ) (n : ℕ) (hn : n < 2 ^ 64) :
    RoundTrips overflow n ↔
      (n = 0 ∨ 10 ≤ n) ∧
        (n + 5497558138 < 2 ^ 64 ∨ 100 * |(overflow (2 ^ 64) : ℤ) - n| < 1024 ^ 4) := by
  by_cases htop : n + 5497558138 < 2 ^ 64
  · rw [and_iff_left (.inl htop)]
    cases hu : sizeUnit n with
    | some u =>
        have hfactor := factor_lt_of_sizeUnit hu
        have hunit : 1024 ≤ u.factor := by cases u <;> decide
        refine iff_of_true ⟨fun v hv => ?_, fun hnone => ?_⟩ (.inr (by omega))
        · exact near_of_lt hv (hundredths_lt htop hv)
        · cases hu.symm.trans hnone
    | none =>
        have hread : readBack overflow n = if n < 10 then 0 else n := readBack_of_none hu
        constructor
        · intro h
          have hsame := h.same hu
          rw [hread] at hsame
          split at hsame <;> omega
        · intro h
          refine ⟨fun v hv => ?_, fun _ => ?_⟩
          · cases hu.symm.trans hv
          · rw [hread]
            split <;> omega
  · obtain ⟨hT, hread⟩ : sizeUnit n = some .T ∧ readBack overflow n = overflow (2 ^ 64) :=
      readBack_top hn (by omega)
    rw [and_iff_right (.inr (by omega)), or_iff_right htop]
    constructor
    · intro h
      have hnear := h.near .T hT
      rwa [hread] at hnear
    · intro h
      refine ⟨fun v hv => ?_, fun hnone => ?_⟩
      · obtain rfl := Option.some.inj (hT.symm.trans hv)
        rwa [hread]
      · cases hT.symm.trans hnone

/-- A conversion as on amd64, where a number that is out of range has only its highest bit. -/
def highestBit (_ : ℚ) : ℕ := 2 ^ 63

theorem roundTrips_1536 : parseSize 1536 = "1.50K".toList ∧ RoundTrips highestBit 1536 :=
  ⟨by decide, (roundTrips_iff highestBit 1536 (by decide)).mpr
    ⟨.inr (by decide), .inl (by decide)⟩⟩

/-- The text of a single digit has no numeral in front of its last byte. -/
theorem single_digit_lost : parseSize 5 = "5B".toList ∧ readBack highestBit 5 = 0 ∧
    ¬ RoundTrips highestBit 5 := by
  have hread : readBack highestBit 5 = 0 := readBack_of_none rfl
  refine ⟨by decide, hread, fun h => ?_⟩
  cases hread.symm.trans (h.same rfl)

/-! ### The log of rsync -/

def isNumeric (b : UInt8) : Bool := (48 ≤ b ∧ b ≤ 57) ∨ b = 46

/-- A line that the expression `^Total file size: ([0-9\.]+[KMGTP]?) bytes` matches, with the group.
The classes of the expression are disjoint, so that there is one way to match. -/
def rsyncLine (line : Bytes) : Option (List Bytes) :=
  let head := ascii "Total file size: "
  let rest := line.drop head.length
  let num := rest.takeWhile isNumeric
  let rest := rest.drop num.length
  let unit := (rest.take 1).filter (· ∈ ascii "KMGTP")
  let rest := rest.drop unit.length
  if head.isPrefixOf line ∧ num ≠ [] ∧ (ascii " bytes").isPrefixOf rest then
    some [head ++ num ++ unit ++ ascii " bytes", num ++ unit]
  else none

/-- `FindAllSubmatch` for the expression: with the flag `m` it can only match at the start of a
line, and no match goes beyond its line. -/
def rsyncRegexp : Regexp := fun content => (content.splitOn 10).filterMap rsyncLine

def extractSizeFromRsyncLog (lib : SizeLib) (logFile : String) (read : Option Bytes) : Option ℕ :=
  extractSizeFromLog lib logFile read rsyncRegexp

/-- The last line of the log that the expression matches has this numeral and this unit. -/
def LastSize (content : Bytes) (d : Text) (u : SizeUnit) : Prop :=
  ∃ before tail after, content.splitOn 10 =
      before ++ (ascii "Total file size: " ++ bytesOf (d ++ [u.letter]) ++ ascii " bytes" ++ tail)
        :: after ∧
    ∀ line ∈ after, rsyncLine line = none

theorem numeral_ne_nil (hd : Numeral d x) : d ≠ [] := by
  rintro rfl
  cases (parseDecimal_of_numeral hd).symm.trans parseDecimal_nil

theorem isNumeric_bytesOf (h : ∀ c ∈ d, c.isDigit ∨ c = '.') : ∀ b ∈ bytesOf d, isNumeric b := by
  have hnumeric : ∀ b ∈ ascii "0123456789.", isNumeric b = true := by decide +kernel
  exact fun b hb => hnumeric b (mem_numeric h b hb)

/-- A line with a numeral and a unit is matched, whatever stands behind it. -/
theorem rsyncLine_eq (hd : Numeral d x) (tail : Bytes) :
    ∃ whole, rsyncLine (ascii "Total file size: " ++ bytesOf (d ++ [u.letter]) ++ ascii " bytes" ++
      tail) = some [whole, bytesOf (d ++ [u.letter])] := by
  have hnum := isNumeric_bytesOf (numeric_of_numeral hd)
  have hne : bytesOf d ≠ [] := by
    simpa [bytesOf] using numeral_ne_nil hd
  have hletter : ¬ isNumeric (UInt8.ofNat u.letter.toNat) = true := by
    cases u <;> decide
  have hunit : UInt8.ofNat u.letter.toNat ∈ ascii "KMGTP" := by
    cases u <;> decide
  rw [bytesOf_concat]
  generalize bytesOf d = num at hnum hne
  generalize UInt8.ofNat u.letter.toNat = b at hletter hunit
  have htake : (num ++ b :: (ascii " bytes" ++ tail)).takeWhile isNumeric = num := by
    rw [List.takeWhile_append_of_pos hnum, List.takeWhile_cons_of_neg hletter, List.append_nil]
  have hfilter : [b].filter (· ∈ ascii "KMGTP") = [b] :=
    List.filter_cons_of_pos (decide_eq_true hunit)
  have hline : ascii "Total file size: " ++ (num ++ [b]) ++ ascii " bytes" ++ tail =
      ascii "Total file size: " ++ (num ++ b :: (ascii " bytes" ++ tail)) := by
    simp
  refine ⟨ascii "Total file size: " ++ num ++ [b] ++ ascii " bytes", ?_⟩
  unfold rsyncLine
  rw [hline]
  simp only [List.drop_left, htake, List.take_succ_cons, List.take_zero, hfilter,
    List.length_singleton, List.drop_succ_cons, List.drop_zero]
  refine if_pos ⟨?_, hne, ?_⟩
  · exact List.isPrefixOf_iff_prefix.mpr (List.prefix_append _ _)
  · exact List.isPrefixOf_iff_prefix.mpr (List.prefix_append _ _)

/-- The last match is that of the line. -/
theorem extractSize_eq (hfile : logFile ≠ "/dev/null") (hd : Numeral d x)
    (hlog : LastSize content d u) :
    extractSizeFromRsyncLog (exact overflow) logFile (some content) =
      some (if u = .P then 0 else toUint64 overflow (x * u.factor)) := by
  obtain ⟨before, tail, after, hcontent, hafter⟩ := hlog
  obtain ⟨whole, hline⟩ := rsyncLine_eq (u := u) hd tail
  have hrest : after.filterMap rsyncLine = [] := List.filterMap_eq_nil_iff.mpr hafter
  have hfound : rsyncRegexp content =
      before.filterMap rsyncLine ++ [[whole, bytesOf (d ++ [u.letter])]] := by
    unfold rsyncRegexp
    rw [hcontent, List.filterMap_append, List.filterMap_cons_some hline, hrest]
  unfold extractSizeFromRsyncLog extractSizeFromLog findAllSubmatchInFile sizeOfMatches
  rw [if_neg hfile]
  dsimp only
  rw [hfound, List.getLast?_concat]
  exact congrArg some (parseSizeStr_letter hd)

/-- **The log of rsync.**  The size in the last matching line is understood exactly when its unit is
not the last one that the expression admits, or the size is below one byte. -/
theorem rsyncSize_iff (overflow : ℚ → ℕ) (logFile : String) (content : Bytes) (d : Text) (x : ℚ)
    (u : SizeUnit) (hfile : logFile ≠ "/dev/null") (hd : Numeral d x)
    (hlog : LastSize content d u) (hlt : x * u.factor < 2 ^ 64) :
    extractSizeFromRsyncLog (exact overflow) logFile (some content) = some ⌊x * u.factor⌋₊ ↔
      u ≠ .P ∨ x * 1024 ^ 5 < 1 := by
  have hnonneg : 0 ≤ x * u.factor := mul_nonneg (nonneg_of_numeral hd) (Nat.cast_nonneg _)
  rw [extractSize_eq hfile hd hlog, Option.some.injEq]
  by_cases hu : u = .P
  · subst hu
    have hfactor : ((SizeUnit.P.factor : ℕ) : ℚ) = 1024 ^ 5 := by
      norm_num [SizeUnit.factor]
    rw [if_pos rfl, or_iff_right (not_not.mpr rfl), eq_comm, Nat.floor_eq_zero, hfactor]
  · rw [if_neg hu]
    exact iff_of_true (if_pos ⟨hnonneg, hlt⟩) (.inl hu)

/-- A log with two sizes, the last of which is 1.50G. -/
def rsyncLog : Bytes :=
  ascii "Total file size: 12.00K bytes\nsent 20 bytes\nTotal file size: 1.50G bytes\n\n"

theorem numeral_one_point_five : Numeral "1.50".toList (3 / 2) :=
  ⟨['1'], ['5', '0'], 150, .inr rfl, by decide, by norm_num⟩

theorem rsyncSize_giga :
    extractSizeFromRsyncLog (exact highestBit) "latest.log" (some rsyncLog) =
      some ⌊(3 / 2 : ℚ) * SizeUnit.G.factor⌋₊ :=
  (rsyncSize_iff highestBit "latest.log" rsyncLog "1.50".toList (3 / 2) .G (by decide)
    numeral_one_point_five
    ⟨[ascii "Total file size: 12.00K bytes", ascii "sent 20 bytes"], [], [[], []], by decide,
      by decide⟩ (by norm_num [SizeUnit.factor])).mpr (.inl (by decide))

/-- The same with the last unit. -/
def petaLog : Bytes := ascii "Total file size: 1.50P bytes\n"

theorem peta_not_understood :
    LastSize petaLog "1.50".toList .P ∧
      extractSizeFromRsyncLog (exact highestBit) "latest.log" (some petaLog) = some 0 ∧
      ⌊(3 / 2 : ℚ) * SizeUnit.P.factor⌋₊ = 1688849860263936 := by
  have hlast : LastSize petaLog "1.50".toList .P := ⟨[], [], [[]], by decide, by decide⟩
  refine ⟨hlast, ?_, ?_⟩
  · rw [extractSize_eq (by decide) numeral_one_point_five hlast, if_pos rfl]
  · rw [Nat.floor_eq_iff (by positivity)]
    norm_num [SizeUnit.factor]

end KubeSync.Sizes
