import Mathlib.Data.Nat.Digits.Defs
import Mathlib.Data.List.TakeWhile
import Cxpr.Source.Plan

/-! Fixed durations (`src/resample.c`): a count and a unit, in nanoseconds, with the spelling that stands for it. -/

namespace Cxpr.Resample
open Source (Interval)

/-! ### Parsing -/

/-- The units of `parse_unit`. -/
inductive TimeUnit where
  | ns | us | ms | s | m | h | d
  deriving DecidableEq

def TimeUnit.name : TimeUnit → String
  | .ns => "ns"
  | .us => "us"
  | .ms => "ms"
  | .s => "s"
  | .m => "m"
  | .h => "h"
  | .d => "d"

def TimeUnit.factor : TimeUnit → UInt64
  | .ns => 1
  | .us => 1000
  | .ms => 1000000
  | .s => 1000000000
  | .m => 60000000000
  | .h => 3600000000000
  | .d => 86400000000000

def units : List TimeUnit := [.ns, .us, .ms, .s, .m, .h, .d]

def parseUnit (unit : List Char) : Option TimeUnit := units.find? fun entry => entry.name.toList == unit

def uint64Max : UInt64 := 18446744073709551615

def int64Max : UInt64 := 9223372036854775807

def canonicalSize : Nat := 32

def scanCount (count : UInt64) : List Char → Except String (UInt64 × List Char)
  | [] => .ok (count, [])
  | c :: rest =>
    if c.isDigit then
      let digit := (c.val - '0'.val).toUInt64
      if count > (uint64Max - digit) / 10 then .error "Fixed duration overflows"
      else scanCount (count * 10 + digit) rest
    else .ok (count, c :: rest)

/-- What `cxpr_parse_fixed_duration` does behind the digits. -/
def finishDuration (count : UInt64) (unit : TimeUnit) : Except String Interval :=
  if count > int64Max / unit.factor then .error "Fixed duration overflows nanoseconds"
  else
    let canonical := toString count.toNat ++ unit.name
    if canonicalSize ≤ canonical.length then .error "Canonical fixed duration is too long"
    else .ok ⟨(count * unit.factor).toNat, canonical⟩

def parseFixedDuration (text : String) : Except String Interval :=
  if text.isEmpty then .error "Fixed duration must be a positive integer and unit"
  else
    match scanCount 0 text.toList with
    | .error message => .error message
    | .ok (count, rest) =>
      if rest.length = text.toList.length ∨ count = 0 then .error "Fixed duration must be greater than zero"
      else
        match parseUnit rest with
        | none => .error "Unsupported fixed-duration unit; expected ns, us, ms, s, m, h, or d"
        | some unit => finishDuration count unit

open Nat (ofDigitChars)

theorem le_ofDigitChars (digits : List Char) (n : Nat) : n ≤ ofDigitChars 10 digits n := by
  induction digits generalizing n with
  | nil => exact le_rfl
  | cons c digits ih =>
    have hstep := ih (10 * n + (c.toNat - '0'.toNat))
    rw [Nat.ofDigitChars_cons]
    omega

theorem toNat_digit {c : Char} (h : c.isDigit = true) :
    ((c.val - '0'.val).toUInt64).toNat = c.toNat - '0'.toNat ∧ c.toNat - '0'.toNat ≤ 9 := by
  obtain ⟨hlow, hhigh⟩ : (48 : UInt32) ≤ c.val ∧ c.val ≤ 57 := by simpa [Char.isDigit] using h
  have hlow' : 48 ≤ c.val.toNat := UInt32.le_iff_toNat_le.mp hlow
  have hhigh' : c.val.toNat ≤ 57 := UInt32.le_iff_toNat_le.mp hhigh
  have hzero : ('0'.val : UInt32) = 48 := rfl
  have hsub : (c.val - '0'.val).toNat = c.val.toNat - 48 := UInt32.toNat_sub_of_le _ _ hlow
  constructor
  · rw [UInt32.toNat_toUInt64, hsub]
    rfl
  · show c.val.toNat - 48 ≤ 9
    omega

theorem guard_iff {count digit : UInt64} (h : digit.toNat ≤ 9) :
    count > (uint64Max - digit) / 10 ↔ 2 ^ 64 ≤ 10 * count.toNat + digit.toNat := by
  have hmax : uint64Max.toNat = 18446744073709551615 := rfl
  have hle : digit ≤ uint64Max := UInt64.le_iff_toNat_le.mpr (by omega)
  have hten : (10 : UInt64).toNat = 10 := rfl
  rw [gt_iff_lt, UInt64.lt_iff_toNat_lt, UInt64.toNat_div, UInt64.toNat_sub_of_le _ _ hle, hmax, hten]
  omega

theorem toNat_step {count digit : UInt64} (h : 10 * count.toNat + digit.toNat < 2 ^ 64) :
    (count * 10 + digit).toNat = 10 * count.toNat + digit.toNat := by
  have hten : (10 : UInt64).toNat = 10 := rfl
  rw [UInt64.toNat_add, UInt64.toNat_mul, hten]
  omega

theorem scanCount_eq (t : List Char) (count : UInt64) :
    scanCount count t =
      if ofDigitChars 10 (t.takeWhile Char.isDigit) count.toNat < 2 ^ 64 then
        .ok (UInt64.ofNat (ofDigitChars 10 (t.takeWhile Char.isDigit) count.toNat), t.dropWhile Char.isDigit)
      else .error "Fixed duration overflows" := by
  induction t generalizing count with
  | nil =>
    have hlt : count.toNat < 2 ^ 64 := count.toNat_lt
    rw [scanCount, List.takeWhile_nil, Nat.ofDigitChars_nil, if_pos hlt, UInt64.ofNat_toNat]
    rfl
  | cons c rest ih =>
    by_cases hc : c.isDigit = true
    · obtain ⟨hdigit, hnine⟩ := toNat_digit hc
      rw [← hdigit] at hnine
      rw [scanCount, if_pos hc, List.takeWhile_cons_of_pos hc, List.dropWhile_cons_of_pos hc, Nat.ofDigitChars_cons,
        ← hdigit]
      by_cases hover : 2 ^ 64 ≤ 10 * count.toNat + (c.val - '0'.val).toUInt64.toNat
      · have hle := le_ofDigitChars (rest.takeWhile Char.isDigit) (10 * count.toNat + (c.val - '0'.val).toUInt64.toNat)
        rw [if_pos ((guard_iff hnine).mpr hover), if_neg (by omega)]
      · rw [if_neg fun hguard => hover ((guard_iff hnine).mp hguard), ih, toNat_step (by omega)]
    · have hlt : count.toNat < 2 ^ 64 := count.toNat_lt
      rw [scanCount, if_neg hc, List.takeWhile_cons_of_neg hc, List.dropWhile_cons_of_neg hc, Nat.ofDigitChars_nil,
        if_pos hlt, UInt64.ofNat_toNat]

def Denotes (text : String) (n : Nat) (unit : TimeUnit) : Prop :=
  ∃ digits : List Char, digits ≠ [] ∧ (∀ c ∈ digits, c.isDigit = true) ∧ ofDigitChars 10 digits 0 = n ∧
    text.toList = digits ++ unit.name.toList

variable {unit : TimeUnit} {text : String} {out : Interval}

theorem parseUnit_eq_some {rest : List Char} : parseUnit rest = some unit ↔ rest = unit.name.toList := by
  constructor
  · intro h
    have hname := List.find?_some h
    exact (eq_of_beq hname).symm
  · rintro rfl
    cases unit <;> rfl

theorem name_head (unit : TimeUnit) : ∃ c rest, unit.name.toList = c :: rest ∧ c.isDigit = false := by
  cases unit <;> exact ⟨_, _, rfl, rfl⟩

theorem Denotes.cut {n : Nat} (h : Denotes text n unit) :
    text.toList.takeWhile Char.isDigit ≠ [] ∧ ofDigitChars 10 (text.toList.takeWhile Char.isDigit) 0 = n ∧
      text.toList.dropWhile Char.isDigit = unit.name.toList := by
  obtain ⟨digits, hne, hdigits, hvalue, htext⟩ := h
  obtain ⟨c, rest, hname, hc⟩ := name_head unit
  have htake : text.toList.takeWhile Char.isDigit = digits := by
    rw [htext, List.takeWhile_append_of_pos hdigits, hname, List.takeWhile_cons_of_neg (by simp [hc]), List.append_nil]
  have hdrop : text.toList.dropWhile Char.isDigit = unit.name.toList := by
    rw [htext, List.dropWhile_append_of_pos hdigits, hname, List.dropWhile_cons_of_neg (by simp [hc])]
  rw [htake]
  exact ⟨hne, hvalue, hdrop⟩

theorem name_injective {u v : TimeUnit} (h : u.name = v.name) : u = v := by
  cases u <;> cases v <;> first | rfl | exact absurd h (by decide)

theorem Denotes.unique {n n' : Nat} {unit' : TimeUnit} (h : Denotes text n unit)
    (h' : Denotes text n' unit') : n = n' ∧ unit = unit' := by
  obtain ⟨-, hvalue, hname⟩ := h.cut
  obtain ⟨-, hvalue', hname'⟩ := h'.cut
  exact ⟨hvalue.symm.trans hvalue', name_injective (String.toList_inj.mp (hname.symm.trans hname'))⟩

def canonicalText (n : Nat) (unit : TimeUnit) : String := toString n ++ unit.name

theorem denotes_canonicalText (n : Nat) (unit : TimeUnit) : Denotes (canonicalText n unit) n unit := by
  refine ⟨Nat.toDigits 10 n, Nat.toDigits_ne_nil, ?_, Nat.ofDigitChars_ten_toDigits, ?_⟩
  · intro c hc
    exact Nat.isDigit_of_mem_toDigits (by decide) (by decide) hc
  · rw [canonicalText, String.toList_append, Nat.toString_eq_ofList_toDigits, String.toList_ofList]

theorem length_canonicalText {n : Nat} (h : n < 2 ^ 64) (unit : TimeUnit) :
    (canonicalText n unit).length < canonicalSize := by
  have hdigits : (toString n).length ≤ 20 := Nat.repr_length n 20 (by decide) (by omega)
  have hname : unit.name.length ≤ 2 := by cases unit <;> decide
  have hsize : canonicalSize = 32 := rfl
  rw [canonicalText, String.length_append]
  omega

theorem factor_pos (unit : TimeUnit) : 0 < unit.factor.toNat := by cases unit <;> decide

theorem product_iff {count : UInt64} (unit : TimeUnit) :
    count > int64Max / unit.factor ↔ int64Max.toNat < count.toNat * unit.factor.toNat := by
  rw [gt_iff_lt, UInt64.lt_iff_toNat_lt, UInt64.toNat_div, Nat.div_lt_iff_lt_mul (factor_pos unit)]

def duration (n : Nat) (unit : TimeUnit) : Nat := n * unit.factor.toNat

theorem finishDuration_eq {n : Nat} (hn : n < 2 ^ 64) (unit : TimeUnit) :
    finishDuration (UInt64.ofNat n) unit =
      if int64Max.toNat < duration n unit then .error "Fixed duration overflows nanoseconds"
      else .ok ⟨duration n unit, canonicalText n unit⟩ := by
  have hcount : (UInt64.ofNat n).toNat = n := UInt64.toNat_ofNat_of_lt' hn
  have hguard := @product_iff (UInt64.ofNat n) unit
  rw [hcount] at hguard
  unfold finishDuration
  by_cases hover : int64Max.toNat < duration n unit
  · rw [if_pos hover, if_pos (hguard.mpr hover)]
  · have hmax : int64Max.toNat = 9223372036854775807 := rfl
    have hmul : (UInt64.ofNat n * unit.factor).toNat = duration n unit := by
      rw [UInt64.toNat_mul, hcount]
      exact Nat.mod_eq_of_lt (by unfold duration at hover; omega)
    rw [if_neg hover, if_neg fun h => hover (hguard.mp h), hmul, hcount]
    exact if_neg (Nat.not_le.mpr (length_canonicalText hn unit))

theorem parseFixedDuration_of_denotes {n : Nat} (h : Denotes text n unit)
    (hn : n < 2 ^ 64) :
    parseFixedDuration text =
      if n = 0 then .error "Fixed duration must be greater than zero"
      else if int64Max.toNat < duration n unit then .error "Fixed duration overflows nanoseconds"
      else .ok ⟨duration n unit, canonicalText n unit⟩ := by
  obtain ⟨hne, hvalue, hname⟩ := h.cut
  have htext : text.isEmpty = false := by
    rw [Bool.eq_false_iff, Ne, String.isEmpty_iff]
    rintro rfl
    exact hne rfl
  have hscan : scanCount 0 text.toList = .ok (UInt64.ofNat n, unit.name.toList) := by
    have hzero : (0 : UInt64).toNat = 0 := rfl
    rw [scanCount_eq, hzero, hvalue, hname, if_pos hn]
  have hlength : unit.name.toList.length ≠ text.toList.length := by
    have hsum := congrArg List.length (List.takeWhile_append_dropWhile (p := Char.isDigit) (l := text.toList))
    have hpos := List.length_pos_iff.mpr hne
    rw [List.length_append, hname] at hsum
    omega
  have hzero : UInt64.ofNat n = 0 ↔ n = 0 := by
    rw [← UInt64.toNat_inj, UInt64.toNat_ofNat_of_lt' hn]
    rfl
  have hunit : parseUnit unit.name.toList = some unit := parseUnit_eq_some.mpr rfl
  simp only [parseFixedDuration, htext, hscan, hlength, hzero, false_or, hunit, finishDuration_eq hn, if_false,
    Bool.false_eq_true]

theorem denotes_of_parse (h : parseFixedDuration text = .ok out) :
    ∃ n unit, Denotes text n unit ∧ n < 2 ^ 64 := by
  have hzero : (0 : UInt64).toNat = 0 := rfl
  rw [parseFixedDuration, scanCount_eq, hzero] at h
  split at h
  · cases h
  by_cases hlt : ofDigitChars 10 (text.toList.takeWhile Char.isDigit) 0 < 2 ^ 64
  · simp only [if_pos hlt] at h
    split at h
    · cases h
    rename_i hguard
    cases hunit : parseUnit (text.toList.dropWhile Char.isDigit) with
    | none =>
      rw [hunit] at h
      cases h
    | some unit =>
      have hsum := List.takeWhile_append_dropWhile (p := Char.isDigit) (l := text.toList)
      refine ⟨_, unit, ⟨text.toList.takeWhile Char.isDigit, ?_, ?_, rfl, ?_⟩, hlt⟩
      · intro hnil
        rw [hnil, List.nil_append] at hsum
        exact hguard (.inl (congrArg List.length hsum))
      · intro c hc
        exact List.mem_takeWhile_imp hc
      · rw [← parseUnit_eq_some.mp hunit, hsum]
  · rw [if_neg hlt] at h
    cases h

theorem parseFixedDuration_eq_ok :
    parseFixedDuration text = .ok out ↔
      ∃ n unit, Denotes text n unit ∧ 1 ≤ n ∧ duration n unit ≤ int64Max.toNat ∧
        out = ⟨duration n unit, canonicalText n unit⟩ := by
  constructor
  · intro h
    obtain ⟨n, unit, hdenotes, hn⟩ := denotes_of_parse h
    rw [parseFixedDuration_of_denotes hdenotes hn] at h
    split at h
    · cases h
    split at h
    · cases h
    cases h
    exact ⟨n, unit, hdenotes, by omega, by omega, rfl⟩
  · rintro ⟨n, unit, hdenotes, hpos, hle, rfl⟩
    have hmax : int64Max.toNat = 9223372036854775807 := rfl
    have hn : n ≤ duration n unit := Nat.le_mul_of_pos_right n (factor_pos unit)
    rw [parseFixedDuration_of_denotes hdenotes (by omega), if_neg (by omega), if_neg (by omega)]

theorem parseFixedDuration_denotes {n : Nat}
    (h : parseFixedDuration text = .ok out) (hdenotes : Denotes text n unit) :
    1 ≤ n ∧ duration n unit ≤ int64Max.toNat ∧ out = ⟨duration n unit, canonicalText n unit⟩ := by
  obtain ⟨n', unit', hdenotes', hpos, hle, hout⟩ := parseFixedDuration_eq_ok.mp h
  obtain ⟨rfl, rfl⟩ := hdenotes.unique hdenotes'
  exact ⟨hpos, hle, hout⟩

theorem canonicalText_inj {n n' : Nat} {unit' : TimeUnit} :
    canonicalText n unit = canonicalText n' unit' ↔ n = n' ∧ unit = unit' := by
  constructor
  · intro h
    exact (h ▸ denotes_canonicalText n unit : Denotes (canonicalText n' unit') n unit).unique
      (denotes_canonicalText n' unit')
  · rintro ⟨rfl, rfl⟩
    rfl

/-- The parser accepts the counts and units whose duration has 63 bits and is not zero, with the exact duration; the
    canonical text parses to the same result, and is the same for the same count and unit only. -/
theorem parseFixedDuration_exact :
    (∀ text, (∃ out, parseFixedDuration text = .ok out) ↔
      ∃ n unit, Denotes text n unit ∧ 1 ≤ n ∧ n * unit.factor.toNat ≤ int64Max.toNat) ∧
    (∀ text out n unit, parseFixedDuration text = .ok out → Denotes text n unit →
      out.durationNs = n * unit.factor.toNat) ∧
    (∀ text out, parseFixedDuration text = .ok out → parseFixedDuration out.canonical = .ok out) ∧
    ∀ text text' out out', parseFixedDuration text = .ok out → parseFixedDuration text' = .ok out' →
      (out.canonical = out'.canonical ↔ ∃ n unit, Denotes text n unit ∧ Denotes text' n unit) := by
  refine ⟨?_, ?_, ?_, ?_⟩
  · intro text
    constructor
    · rintro ⟨out, h⟩
      obtain ⟨n, unit, hdenotes, hpos, hle, -⟩ := parseFixedDuration_eq_ok.mp h
      exact ⟨n, unit, hdenotes, hpos, hle⟩
    · rintro ⟨n, unit, hdenotes, hpos, hle⟩
      exact ⟨_, parseFixedDuration_eq_ok.mpr ⟨n, unit, hdenotes, hpos, hle, rfl⟩⟩
  · intro text out n unit h hdenotes
    obtain ⟨-, -, rfl⟩ := parseFixedDuration_denotes h hdenotes
    rfl
  · intro text out h
    obtain ⟨n, unit, -, hpos, hle, rfl⟩ := parseFixedDuration_eq_ok.mp h
    exact parseFixedDuration_eq_ok.mpr ⟨n, unit, denotes_canonicalText n unit, hpos, hle, rfl⟩
  · intro text text' out out' h h'
    obtain ⟨n, unit, hdenotes, -, -, rfl⟩ := parseFixedDuration_eq_ok.mp h
    obtain ⟨n', unit', hdenotes', -, -, rfl⟩ := parseFixedDuration_eq_ok.mp h'
    rw [canonicalText_inj]
    constructor
    · rintro ⟨rfl, rfl⟩
      exact ⟨n, unit, hdenotes, hdenotes'⟩
    · rintro ⟨m, u, hm, hm'⟩
      obtain ⟨rfl, rfl⟩ := hdenotes.unique hm
      obtain ⟨rfl, rfl⟩ := hdenotes'.unique hm'
      exact ⟨rfl, rfl⟩

end Cxpr.Resample
