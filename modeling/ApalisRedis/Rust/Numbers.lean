import Mathlib.Data.Nat.Basic
import Mathlib.Data.String.Basic
import Mathlib.Tactic.Cases

/-!
# Rust integers and durations

The pieces of the Rust standard library that the queue relies on: fixed-width
subtraction in a build with or without overflow checks, `str::parse` for the
unsigned types, and `std::time::Duration`.

**Results.**
* `parseUnsigned_repr`: parsing the decimal text of `n` gives `n` back when `n`
  fits the type, and the overflow error otherwise.
* `Duration.mul_eq_some`: when a multiplication of durations does not panic.
* `Duration.mul_eq_saturatingMul_iff`: when it saturates, with a factor that is cast.
-/

namespace Rust

/-- `a - b` on `u64`: a panic (`none`) or a wrapped value on underflow, as the
build has overflow checks or not. -/
def u64Sub (overflowChecks : Bool) (a b : Nat) : Option Nat :=
  if b ≤ a then some (a - b)
  else if overflowChecks then none
  else some (2 ^ 64 + a - b)

theorem u64Sub_of_le (checks : Bool) {a b : Nat} (h : b ≤ a) :
    u64Sub checks a b = some (a - b) := by
  simp [u64Sub, h]

/-- The subtraction panics exactly on an underflow that is checked. -/
theorem exists_u64Sub (checks : Bool) (a b : Nat) :
    (∃ c, u64Sub checks a b = some c) ↔ (checks = true → b ≤ a) := by
  unfold u64Sub
  by_cases hle : b ≤ a
  · simp [hle]
  · cases checks <;> simp [hle]

/-- A wrapped difference lies above the minuend. -/
theorem lt_u64Sub_of_lt {checks : Bool} {a b c : Nat} (hb : b < 2 ^ 64) (h : a < b)
    (hc : u64Sub checks a b = some c) : a < c := by
  unfold u64Sub at hc
  rw [if_neg (by omega)] at hc
  cases checks <;> simp at hc
  omega

/-- An underflow is never the difference that is clamped at zero. -/
theorem u64Sub_eq_clamped_iff {checks : Bool} {a b : Nat} (hb : b < 2 ^ 64) :
    u64Sub checks a b = some (a - b) ↔ b ≤ a := by
  constructor
  · intro h
    by_contra hlt
    have hwrap := lt_u64Sub_of_lt hb (Nat.not_le.mp hlt) h
    omega
  · exact u64Sub_of_le checks

/-- What is subtracted can be told from an exact difference. -/
theorem u64Sub_eq_some_sub_iff {checks : Bool} {a b c : Nat} (hb : b < 2 ^ 64) (hc : c ≤ a) :
    u64Sub checks a b = some (a - c) ↔ b = c := by
  constructor
  · intro h
    rcases Nat.lt_or_ge a b with hlt | hle
    · have hwrap := lt_u64Sub_of_lt hb hlt h
      omega
    · have hsame := Option.some.inj ((u64Sub_of_le checks hle).symm.trans h)
      omega
  · rintro rfl
    exact u64Sub_of_le checks hc

/-- `n as u32`. -/
def asU32 (n : Nat) : Nat :=
  n % 2 ^ 32

theorem asU32_of_lt {n : Nat} (h : n < 2 ^ 32) : asU32 n = n :=
  Nat.mod_eq_of_lt h

/-- The digit loop of `from_str_radix`. -/
def parseDigits (bits : Nat) : List Char → Nat → Except String Nat
  | [], acc => .ok acc
  | c :: cs, acc =>
      if c.isDigit then
        if acc * 10 + (c.toNat - '0'.toNat) < 2 ^ bits then
          parseDigits bits cs (acc * 10 + (c.toNat - '0'.toNat))
        else
          .error "number too large to fit in target type"
      else
        .error "invalid digit found in string"

/-- `str::parse` for the unsigned type of the given width. -/
def parseUnsigned (bits : Nat) (s : String) : Except String Nat :=
  match s.toList with
  | [] => .error "cannot parse integer from empty string"
  | ['+'] => .error "invalid digit found in string"
  | '+' :: cs => parseDigits bits cs 0
  | cs => parseDigits bits cs 0

theorem le_ofDigitChars (cs : List Char) (acc : Nat) :
    acc ≤ Nat.ofDigitChars 10 cs acc := by
  rw [Nat.ofDigitChars_eq_ofDigitChars_zero]
  have hpos : 1 ≤ 10 ^ cs.length := Nat.one_le_pow _ _ (by decide)
  have hmul : 1 * acc ≤ 10 ^ cs.length * acc := Nat.mul_le_mul_right _ hpos
  omega

theorem parseDigits_of_isDigit (bits : Nat) :
    ∀ (cs : List Char), (∀ c ∈ cs, c.isDigit = true) → ∀ acc : Nat, acc < 2 ^ bits →
      parseDigits bits cs acc =
        if Nat.ofDigitChars 10 cs acc < 2 ^ bits then
          .ok (Nat.ofDigitChars 10 cs acc)
        else
          .error "number too large to fit in target type"
  | [], _, acc, hacc => by
      simp [parseDigits, hacc]
  | c :: cs, hcs, acc, hacc => by
      have hc : c.isDigit = true := hcs c (by simp)
      have htail : ∀ d ∈ cs, d.isDigit = true := fun d hd => hcs d (by simp [hd])
      rw [parseDigits, if_pos hc, Nat.ofDigitChars_cons, Nat.mul_comm 10 acc]
      by_cases hlt : acc * 10 + (c.toNat - '0'.toNat) < 2 ^ bits
      · rw [if_pos hlt, parseDigits_of_isDigit bits cs htail _ hlt]
      · have hle := le_ofDigitChars cs (acc * 10 + (c.toNat - '0'.toNat))
        rw [if_neg hlt, if_neg (by omega)]

theorem isDigit_of_mem_toDigits {n : Nat} {c : Char} (hc : c ∈ Nat.toDigits 10 n) :
    c.isDigit = true :=
  Nat.isDigit_of_mem_toDigits (by decide) (by decide) hc

/-- **Printing then parsing an unsigned integer.** -/
theorem parseUnsigned_repr (bits n : Nat) :
    parseUnsigned bits n.repr =
      if n < 2 ^ bits then .ok n
      else .error "number too large to fit in target type" := by
  have hdigits := parseDigits_of_isDigit bits (Nat.toDigits 10 n)
    (fun c hc => isDigit_of_mem_toDigits hc) 0 (Nat.two_pow_pos bits)
  rw [Nat.ofDigitChars_ten_toDigits] at hdigits
  have hplus : '+' ∉ Nat.toDigits 10 n := fun h =>
    absurd (isDigit_of_mem_toDigits h) (by decide)
  unfold parseUnsigned
  rw [Nat.toList_repr]
  cases hlist : Nat.toDigits 10 n with
  | nil => exact absurd hlist Nat.toDigits_ne_nil
  | cons c cs =>
      rw [hlist] at hdigits hplus
      have hc : c ≠ '+' := fun h => hplus (by simp [h])
      split
      · contradiction
      · simp_all
      · simp_all
      · exact hdigits

theorem parseUnsigned_repr_of_lt {bits n : Nat} (h : n < 2 ^ bits) :
    parseUnsigned bits n.repr = .ok n := by
  rw [parseUnsigned_repr, if_pos h]

/-- Different numbers print differently. -/
theorem repr_injective : Function.Injective Nat.repr := by
  intro m n hmn
  have hm : m < 2 ^ (m + n) := Nat.lt_of_le_of_lt (Nat.le_add_right m n) Nat.lt_two_pow_self
  have hn : n < 2 ^ (m + n) := Nat.lt_of_le_of_lt (Nat.le_add_left n m) Nat.lt_two_pow_self
  have hparse := parseUnsigned_repr_of_lt hm
  rw [hmn, parseUnsigned_repr_of_lt hn] at hparse
  exact (Except.ok.inj hparse).symm

theorem isDigit_of_parseDigits {bits : Nat} :
    ∀ {cs : List Char} {acc n : Nat}, parseDigits bits cs acc = .ok n → ∀ c ∈ cs, c.isDigit = true
  | [], _, _, _ => by simp
  | d :: cs, acc, n, h => by
      unfold parseDigits at h
      split at h
      · next hd =>
          split at h
          · exact List.forall_mem_cons.mpr ⟨hd, isDigit_of_parseDigits h⟩
          · cases h
      · cases h

/-- The digit loop succeeds on digits whose value fits. -/
theorem parseDigits_eq_ok {bits : Nat} {cs : List Char} {n : Nat} :
    parseDigits bits cs 0 = .ok n ↔
      (∀ c ∈ cs, c.isDigit = true) ∧ Nat.ofDigitChars 10 cs 0 = n ∧ n < 2 ^ bits := by
  have hvalue := fun hcs => parseDigits_of_isDigit bits cs hcs 0 (Nat.two_pow_pos bits)
  constructor
  · intro h
    have hcs := isDigit_of_parseDigits h
    rw [hvalue hcs] at h
    split at h
    · next hlt =>
        cases h
        exact ⟨hcs, rfl, hlt⟩
    · cases h
  · rintro ⟨hcs, rfl, hlt⟩
    rw [hvalue hcs, if_pos hlt]

/-- A decimal numeral, with an optional sign. -/
def Numeral (text : String) (n : Nat) : Prop :=
  ∃ digits : List Char, digits ≠ [] ∧ (∀ c ∈ digits, c.isDigit = true) ∧
    (text.toList = digits ∨ text.toList = '+' :: digits) ∧ Nat.ofDigitChars 10 digits 0 = n

/-- **What the unsigned types parse**: the numerals of their values. -/
theorem parseUnsigned_eq_ok {bits : Nat} {text : String} {n : Nat} :
    parseUnsigned bits text = .ok n ↔ Numeral text n ∧ n < 2 ^ bits := by
  have hplus : ¬('+').isDigit = true := by decide
  unfold parseUnsigned Numeral
  constructor
  · intro h
    split at h
    · cases h
    · cases h
    · next cs hcs htext =>
        obtain ⟨hdigits, hn, hlt⟩ := parseDigits_eq_ok.mp h
        refine ⟨⟨cs, ?_, hdigits, .inr htext, hn⟩, hlt⟩
        rintro rfl
        exact hcs rfl
    · next hempty _ _ =>
        obtain ⟨hdigits, hn, hlt⟩ := parseDigits_eq_ok.mp h
        exact ⟨⟨text.toList, hempty, hdigits, .inl rfl, hn⟩, hlt⟩
  · rintro ⟨⟨digits, hne, hdigits, htext, hn⟩, hlt⟩
    have hok := parseDigits_eq_ok.mpr ⟨hdigits, hn, hlt⟩
    rcases htext with htext | htext
    · rw [htext]
      cases digits with
      | nil => exact absurd rfl hne
      | cons c cs =>
          have hc : c ≠ '+' := fun h => hplus (h ▸ hdigits c List.mem_cons_self)
          split
          · contradiction
          · simp_all
          · simp_all
          · exact hok
    · rw [htext]
      cases digits with
      | nil => exact absurd rfl hne
      | cons c cs => exact hok

/-- A parsed value fits its type. -/
theorem lt_of_parseUnsigned {bits n : Nat} {s : String}
    (h : parseUnsigned bits s = .ok n) : n < 2 ^ bits :=
  (parseUnsigned_eq_ok.mp h).2

/-- `std::time::Duration`: a number of nanoseconds whose seconds fit a `u64`. -/
structure Duration where
  nanos : Nat
  inRange : nanos < 2 ^ 64 * 10 ^ 9
deriving DecidableEq

namespace Duration

/-- `Duration::as_secs` drops the fraction. -/
def asSecs (d : Duration) : Nat :=
  d.nanos / 10 ^ 9

/-- `Duration::subsec_nanos`. -/
def subsecNanos (d : Duration) : Nat :=
  d.nanos % 10 ^ 9

/-- `Duration::from_secs`. -/
def fromSecs (secs : Nat) (h : secs < 2 ^ 64) : Duration where
  nanos := secs * 10 ^ 9
  inRange := Nat.mul_lt_mul_of_pos_right h (by decide)

/-- `Duration * u32`, which panics (`none`) on overflow. -/
def mul (d : Duration) (k : Nat) : Option Duration :=
  if h : d.nanos * k < 2 ^ 64 * 10 ^ 9 then some ⟨d.nanos * k, h⟩ else none

theorem mul_eq_some {d e : Duration} {k : Nat} :
    d.mul k = some e ↔ e.nanos = d.nanos * k := by
  unfold mul
  constructor
  · intro h
    split at h
    · cases h
      rfl
    · cases h
  · intro h
    have hlt : d.nanos * k < 2 ^ 64 * 10 ^ 9 := h ▸ e.inRange
    rw [dif_pos hlt]
    cases e
    cases h
    rfl

/-- `Duration::MAX` -/
def largest : Duration where
  nanos := 2 ^ 64 * 10 ^ 9 - 1
  inRange := by decide

/-- `Duration::saturating_mul`, for a factor of any size. -/
def saturatingMul (d : Duration) (k : Nat) : Duration where
  nanos := min (d.nanos * k) largest.nanos
  inRange := Nat.lt_of_le_of_lt (Nat.min_le_right _ _) largest.inRange

theorem saturatingMul_le {d e : Duration} {k l : Nat} (hde : d.nanos ≤ e.nanos) (hkl : k ≤ l) :
    (d.saturatingMul k).nanos ≤ (e.saturatingMul l).nanos := by
  have hproduct : d.nanos * k ≤ e.nanos * l := Nat.mul_le_mul hde hkl
  simp only [saturatingMul]
  omega

/-- **When a multiplication by a cast factor saturates**: when the factor fits the cast and
the product the type, and else when the product is zero or the cut factor gives the
largest duration. -/
theorem mul_eq_saturatingMul_iff {d : Duration} {k : Nat} :
    d.mul (asU32 k) = some (d.saturatingMul k) ↔
      (k < 2 ^ 32 ∧ d.nanos * k ≤ largest.nanos) ∨ d.nanos = 0 ∨
        d.nanos * asU32 k = largest.nanos := by
  rw [mul_eq_some]
  change min (d.nanos * k) largest.nanos = d.nanos * asU32 k ↔ _
  rcases Nat.eq_zero_or_pos d.nanos with hzero | hpos
  · simp [hzero]
  · rcases Nat.lt_or_ge k (2 ^ 32) with hk | hk
    · rw [asU32_of_lt hk]
      omega
    · have hcut : asU32 k < k := Nat.lt_of_lt_of_le (Nat.mod_lt k (by decide)) hk
      have hless : d.nanos * asU32 k < d.nanos * k := Nat.mul_lt_mul_of_pos_left hcut hpos
      omega

/-- A shorter duration has no more whole seconds. -/
theorem asSecs_le {d e : Duration} (h : d.nanos ≤ e.nanos) : d.asSecs ≤ e.asSecs :=
  Nat.div_le_div_right h

theorem asSecs_lt (d : Duration) : d.asSecs < 2 ^ 64 :=
  Nat.div_lt_of_lt_mul (by rw [Nat.mul_comm]; exact d.inRange)

theorem nanos_eq (d : Duration) : d.nanos = d.asSecs * 10 ^ 9 + d.subsecNanos := by
  have := Nat.div_add_mod d.nanos (10 ^ 9)
  simp only [asSecs, subsecNanos]
  omega

theorem subsecNanos_lt (d : Duration) : d.subsecNanos < 10 ^ 9 :=
  Nat.mod_lt _ (by decide)

end Duration

end Rust
