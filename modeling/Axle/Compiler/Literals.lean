import Axle.Lib.NearestDouble
import Axle.Compiler.Parser

/-!
# Numeric literals of the C compiler

What `digit_chars_to_value` makes of a string of digits, and what the lexer makes of a literal with
a point: the values of the digits before and behind the point are written as `f64`s, with a point
between them, and this text is parsed.  So the zeros that the digits behind the point start with are
lost.

* `digitCharsToValue_eq` — **PROVED**: the value of any digits, with overflow checks or without;
* `parseFormatted_eq_iff` — **PROVED**: the literal's own number is parsed exactly if no zeros are
  lost, up to `2 ^ 48` before the point and `2 ^ 53` behind it.
-/

namespace Axle.Compiler

/-! ### Doubles -/

/-- `f64`. -/
def binary64 : BinaryFormat := .double

def digitsValue (digits : List Char) : ℕ := Nat.ofDigitChars 10 digits 0

/-- The number of digits with a point between them. -/
def decimalValue (before after : List Char) : ℚ :=
  digitsValue before + digitsValue after / 10 ^ after.length

/-- `str::parse::<f64>` of digits, a point and digits. -/
def parseFloat (before after : List Char) : BitVec 64 :=
  BitVec.ofNat 64 (binary64.code (decimalValue before after))

/-- The whole number that `Display` writes for `value as f64`: with the fewest digits before its
zeros, of those that are read as the same double. -/
def displayedValue (value : ℕ) : ℕ :=
  let double := binary64.nearest value
  let rounded : List ℕ := (List.range 21).reverse.map fun zeros =>
    roundHalfEven (double / 10 ^ zeros) * 10 ^ zeros
  (rounded.find? fun n : ℕ => binary64.nearest n = double).getD value

/-- `format!("{value}")` of a value as an `f64`. -/
def displayF64 (value : BitVec 64) : List Char := Nat.toDigits 10 (displayedValue value.toNat)

/-- `format!("{before}.{after}").parse()`. -/
def parseFormatted (before after : BitVec 64) : BitVec 64 :=
  parseFloat (displayF64 before) (displayF64 after)

theorem displayedValue_of_lt {value : ℕ} (h : value < 2 ^ 53) : displayedValue value = value := by
  have hnearest : ∀ n : ℕ, binary64.nearest n = binary64.nearest value ↔ n = value := by
    intro n
    rw [BinaryFormat.nearest_natCast (f := binary64) (by decide) h]
    exact BinaryFormat.nearest_natCast_iff (by decide) h
  unfold displayedValue
  dsimp only
  cases hfind : List.find? (fun n : ℕ => decide (binary64.nearest n = binary64.nearest value)) _ with
  | none => rfl
  | some n =>
    have hfound := List.find?_some hfind
    rw [decide_eq_true_eq] at hfound
    exact (hnearest n).mp hfound

/-! ### The value of digits -/

theorem digitsValue_append (digits : List Char) (c : Char) :
    digitsValue (digits ++ [c]) = digitsValue digits * 10 + (c.toNat - '0'.toNat) := by
  rw [digitsValue, Nat.ofDigitChars_append, Nat.ofDigitChars_cons, Nat.ofDigitChars_nil, mul_comm]
  rfl

theorem digitsValue_cons (c : Char) (digits : List Char) :
    digitsValue (c :: digits) = (c.toNat - '0'.toNat) * 10 ^ digits.length + digitsValue digits := by
  rw [digitsValue, Nat.ofDigitChars_cons, Nat.ofDigitChars_eq_ofDigitChars_zero, mul_zero, zero_add,
    mul_comm]
  rfl

theorem digit_lt {c : Char} (h : c.isDigit = true) : c.toNat - '0'.toNat < 10 := by
  simp only [Char.isDigit, Bool.and_eq_true, decide_eq_true_eq, ge_iff_le,
    UInt32.le_iff_toNat_le] at h
  have hhigh : c.toNat ≤ 57 := h.2
  show c.toNat - 48 < 10
  omega

theorem digitsValue_lt {digits : List Char} (h : ∀ c ∈ digits, c.isDigit = true) :
    digitsValue digits < 10 ^ digits.length := by
  induction digits with
  | nil => decide
  | cons c digits ih =>
    have hc := digit_lt (h c List.mem_cons_self)
    have hrest := ih fun d hd => h d (List.mem_cons_of_mem _ hd)
    rw [digitsValue_cons, List.length_cons, pow_succ]
    have hle : (c.toNat - '0'.toNat) * 10 ^ digits.length ≤ 9 * 10 ^ digits.length :=
      Nat.mul_le_mul_right _ (by omega)
    omega

/-- One more digit. -/
theorem umul_uadd_eq (checks : Bool) {n d : ℕ} (hn : checks = true → n < 2 ^ 64) (hd : d < 10) :
    ((umul checks (BitVec.ofNat 64 n) 10).bind fun shifted =>
        uadd checks shifted (BitVec.ofNat 64 d)) =
      if checks = true ∧ 2 ^ 64 ≤ n * 10 + d then none
      else some (BitVec.ofNat 64 (n * 10 + d)) := by
  have hvalue : BitVec.ofNat 64 n * 10 + BitVec.ofNat 64 d = BitVec.ofNat 64 (n * 10 + d) := by
    rw [BitVec.ofNat_add, BitVec.ofNat_mul]
    rfl
  cases checks with
  | false =>
    rw [if_neg (by simp), ← hvalue]
    rfl
  | true =>
    have hnval : (BitVec.ofNat 64 n).toNat = n := by
      rw [BitVec.toNat_ofNat, Nat.mod_eq_of_lt (hn rfl)]
    have hdval : (BitVec.ofNat 64 d).toNat = d := by
      rw [BitVec.toNat_ofNat, Nat.mod_eq_of_lt (by omega)]
    have hmul : (BitVec.ofNat 64 n).umulOverflow 10 = decide (2 ^ 64 ≤ n * 10) := by
      rw [BitVec.umulOverflow, hnval]
      rfl
    rw [umul, hmul, checked]
    by_cases hover : 2 ^ 64 ≤ n * 10
    · rw [decide_eq_true hover, Bool.and_self, if_pos rfl, if_pos ⟨rfl, by omega⟩]
      rfl
    · have hshifted : (BitVec.ofNat 64 n * 10).toNat = n * 10 := by
        rw [BitVec.toNat_mul, hnval]
        exact Nat.mod_eq_of_lt (not_le.mp hover)
      have hadd : (BitVec.ofNat 64 n * 10).uaddOverflow (BitVec.ofNat 64 d) =
          decide (2 ^ 64 ≤ n * 10 + d) := by
        rw [BitVec.uaddOverflow, hshifted, hdval]
      rw [decide_eq_false hover]
      show uadd true (BitVec.ofNat 64 n * 10) (BitVec.ofNat 64 d) = _
      rw [uadd, hadd, hvalue, checked]
      by_cases hlarge : 2 ^ 64 ≤ n * 10 + d
      · rw [decide_eq_true hlarge, Bool.and_self, if_pos rfl, if_pos ⟨rfl, hlarge⟩]
      · rw [decide_eq_false hlarge, Bool.and_false, if_neg (by decide), if_neg fun h => hlarge h.2]

/-- **The value of digits (proved)**, or an overflow where that is checked. -/
theorem digitCharsToValue_eq (checks : Bool) {digits : List Char}
    (h : ∀ c ∈ digits, c.isDigit = true) :
    digitCharsToValue checks digits =
      if checks = true ∧ 2 ^ 64 ≤ digitsValue digits then none
      else some (BitVec.ofNat 64 (digitsValue digits)) := by
  induction digits using List.reverseRecOn with
  | nil => cases checks <;> rfl
  | append_singleton digits c ih =>
    have hdigit := digit_lt (h c (by simp))
    have hsplit : digitCharsToValue checks (digits ++ [c]) =
        (digitCharsToValue checks digits).bind fun value =>
          (umul checks value 10).bind fun shifted =>
            uadd checks shifted (BitVec.ofNat 64 (c.toNat - '0'.toNat)) := by
      unfold digitCharsToValue
      rw [List.foldlM_append]
      simp only [List.foldlM_cons, List.foldlM_nil, bind_pure]
      rfl
    rw [hsplit, ih fun d hd => h d (List.mem_append_left _ hd), digitsValue_append]
    by_cases hover : checks = true ∧ 2 ^ 64 ≤ digitsValue digits
    · rw [if_pos hover, if_pos ⟨hover.1, by omega⟩]
      rfl
    · rw [if_neg hover]
      exact umul_uadd_eq checks (fun hchecks => not_le.mp fun hle => hover ⟨hchecks, hle⟩) hdigit

/-! ### Literals with a point -/

section Fraction

variable {before after : List Char}

theorem length_toDigits {digits : List Char} (hdigits : ∀ c ∈ digits, c.isDigit = true)
    (hzero : digits.head? ≠ some '0') (hpos : digitsValue digits ≠ 0) :
    (Nat.toDigits 10 (digitsValue digits)).length = digits.length := by
  cases digits with
  | nil => exact absurd rfl hpos
  | cons c digits =>
    have hc : 0 < c.toNat - '0'.toNat := by
      have hdigit := hdigits c List.mem_cons_self
      simp only [Char.isDigit, Bool.and_eq_true, decide_eq_true_eq, ge_iff_le,
        UInt32.le_iff_toNat_le] at hdigit
      have hlow : 48 ≤ c.toNat := hdigit.1
      have hne : c.toNat ≠ 48 := fun heq => by
        refine hzero ?_
        rw [List.head?_cons, ← Char.ofNat_toNat c, heq]
      show 0 < c.toNat - 48
      omega
    refine Nat.le_antisymm ?_ ?_
    · rw [Nat.length_toDigits_le_iff (by decide) (by simp)]
      exact digitsValue_lt hdigits
    · rw [List.length_cons, Nat.succ_le_iff, ← not_le]
      intro hle
      rcases Nat.eq_zero_or_pos digits.length with hnil | hlength
      · have := Nat.length_toDigits_pos (b := 10) (n := digitsValue (c :: digits))
        omega
      · rw [Nat.length_toDigits_le_iff (by decide) hlength, digitsValue_cons] at hle
        have := Nat.le_mul_of_pos_left (10 ^ digits.length) hc
        omega

theorem decimalValue_toDigits (b a : ℕ) :
    decimalValue (Nat.toDigits 10 b) (Nat.toDigits 10 a) =
      b + a / 10 ^ (Nat.toDigits 10 a).length := by
  rw [decimalValue, digitsValue, digitsValue, Nat.ofDigitChars_ten_toDigits,
    Nat.ofDigitChars_ten_toDigits]

theorem code_le_infinity (q : ℚ) : binary64.code q ≤ 2047 * 2 ^ 52 := by
  unfold BinaryFormat.code
  split
  · exact Nat.zero_le _
  · exact min_le_right _ _

theorem parseFloat_eq_iff {before' after' : List Char} :
    parseFloat before after = parseFloat before' after' ↔
      binary64.code (decimalValue before after) = binary64.code (decimalValue before' after') := by
  refine ⟨fun h => ?_, fun h => congrArg (BitVec.ofNat 64) h⟩
  have hcodes := congrArg BitVec.toNat h
  unfold parseFloat at hcodes
  rw [BitVec.toNat_ofNat, BitVec.toNat_ofNat, Nat.mod_eq_of_lt, Nat.mod_eq_of_lt] at hcodes
  · exact hcodes
  · exact (code_le_infinity _).trans_lt (by decide)
  · exact (code_le_infinity _).trans_lt (by decide)

/-- Below `2 ^ 48` doubles are closer to each other than the first digit behind the point counts. -/
theorem lastPlace_le {q : ℚ} (hq : 0 < q) (h : q < 2 ^ 48) : binary64.lastPlace q ≤ -5 := by
  have hlog : Int.log 2 q < 48 := by
    rw [← Int.lt_zpow_iff_log_lt (by norm_num) hq]
    exact_mod_cast h
  show max (Int.log 2 q - (53 - 1 : ℕ)) (-1074) ≤ -5
  omega

theorem code_lt_infinity {q : ℚ} (hq : 0 < q) (h : q < 2 ^ 48) :
    binary64.code q < binary64.infinity := by
  have hplace := lastPlace_le hq h
  have hdigits := BinaryFormat.significand_le (f := binary64) hq
  rw [BinaryFormat.code, if_neg hq.ne']
  refine (min_le_left _ _).trans_lt ?_
  have hle : (binary64.lastPlace q - binary64.least).toNat ≤ 1069 := by
    show (binary64.lastPlace q - -1074).toNat ≤ 1069
    omega
  calc (binary64.lastPlace q - binary64.least).toNat * 2 ^ (binary64.digits - 1) +
      binary64.significand q
      ≤ 1069 * 2 ^ (binary64.digits - 1) + 2 ^ binary64.digits :=
        Nat.add_le_add (Nat.mul_le_mul_right _ hle) hdigits
    _ < binary64.infinity := by decide

/-- The part of `n` behind a point in front of its digits. -/
theorem fraction_bounds {n : ℕ} (hn : n ≠ 0) :
    (1 : ℚ) / 10 ≤ n / 10 ^ (Nat.toDigits 10 n).length ∧
      (n : ℚ) / 10 ^ (Nat.toDigits 10 n).length < 1 := by
  have hlength := Nat.length_toDigits_pos (b := 10) (n := n)
  have hpow : (0 : ℚ) < 10 ^ (Nat.toDigits 10 n).length := by positivity
  constructor
  · have hle : 10 ^ ((Nat.toDigits 10 n).length - 1) ≤ n := by
      rcases Nat.eq_zero_or_pos ((Nat.toDigits 10 n).length - 1) with hzero | hpos
      · rw [hzero]
        omega
      · rw [← not_lt, ← Nat.length_toDigits_le_iff (by decide) hpos]
        omega
    rw [div_le_div_iff₀ (by norm_num) hpow]
    calc (1 : ℚ) * 10 ^ (Nat.toDigits 10 n).length
        = 10 ^ ((Nat.toDigits 10 n).length - 1) * 10 := by
          rw [one_mul, ← pow_succ, Nat.sub_add_cancel hlength]
      _ ≤ n * 10 := by
        refine mul_le_mul_of_nonneg_right ?_ (by norm_num)
        exact_mod_cast hle
  · rw [div_lt_one hpow]
    exact_mod_cast (Nat.length_toDigits_le_iff (by decide) hlength).mp le_rfl

/-- A zero behind the point makes the number smaller by more than two doubles are apart. -/
theorem code_ne_of_leadingZero {digits : List Char}
    (hdigits : ∀ c ∈ digits, c.isDigit = true) (hbefore : digitsValue before < 2 ^ 48)
    (hpos : digitsValue digits ≠ 0) :
    binary64.code (decimalValue before ('0' :: digits)) ≠
      binary64.code (digitsValue before +
        digitsValue digits / 10 ^ (Nat.toDigits 10 (digitsValue digits)).length) := by
  have hvalue : decimalValue before ('0' :: digits) =
      digitsValue before + digitsValue digits / 10 ^ (digits.length + 1) := by
    rw [decimalValue, digitsValue_cons, List.length_cons]
    simp
  obtain ⟨hlow, hhigh⟩ := fraction_bounds hpos
  have hshorter : (Nat.toDigits 10 (digitsValue digits)).length ≤ digits.length := by
    cases digits with
    | nil => exact absurd rfl hpos
    | cons c digits =>
      rw [Nat.length_toDigits_le_iff (by decide) (by simp)]
      exact digitsValue_lt hdigits
  generalize (Nat.toDigits 10 (digitsValue digits)).length = shown at hlow hhigh hshorter ⊢
  have hb : (digitsValue before : ℚ) + 1 ≤ 2 ^ 48 := by exact_mod_cast hbefore
  have ha : (0 : ℚ) < digitsValue digits := by exact_mod_cast Nat.pos_of_ne_zero hpos
  have htenth : (digitsValue digits : ℚ) / 10 ^ (digits.length + 1) ≤
      digitsValue digits / 10 ^ shown / 10 := by
    rw [div_div, ← pow_succ]
    exact div_le_div_of_nonneg_left ha.le (by positivity)
      (pow_le_pow_right₀ (by norm_num) (Nat.succ_le_succ hshorter))
  have hsmall : (0 : ℚ) < digitsValue digits / 10 ^ (digits.length + 1) := by positivity
  refine BinaryFormat.code_ne (by linarith) (by linarith) ?_ (code_lt_infinity ?_ ?_)
  · have hplace := lastPlace_le (q := digitsValue before + digitsValue digits / 10 ^ shown)
      (by linarith) (by linarith)
    calc (2 : ℚ) ^ binary64.lastPlace _ ≤ 2 ^ (-5 : ℤ) :=
          zpow_le_zpow_right₀ (by norm_num) hplace
      _ < 9 / 100 := by norm_num
      _ ≤ _ := by linarith
  · linarith
  · linarith

/-- **The zeros behind the point (proved)**: the literal's own number is parsed exactly if the
digits behind the point do not start with a zero, or denote zero. -/
theorem parseFormatted_eq_iff (hdigits : ∀ c ∈ after, c.isDigit = true)
    (hbefore : digitsValue before < 2 ^ 48) (hafter : digitsValue after < 2 ^ 53) :
    parseFormatted (BitVec.ofNat 64 (digitsValue before)) (BitVec.ofNat 64 (digitsValue after)) =
        parseFloat before after ↔
      digitsValue after = 0 ∨ after.head? ≠ some '0' := by
  have hshown : ∀ n < 2 ^ 53, displayF64 (BitVec.ofNat 64 n) = Nat.toDigits 10 n := by
    intro n hn
    rw [displayF64, BitVec.toNat_ofNat, Nat.mod_eq_of_lt (by omega), displayedValue_of_lt hn]
  rw [parseFormatted, hshown _ (by omega), hshown _ hafter, parseFloat_eq_iff,
    decimalValue_toDigits]
  by_cases hzero : digitsValue after = 0
  · rw [decimalValue, hzero]
    simp
  by_cases hhead : after.head? = some '0'
  · refine iff_of_false (Ne.symm ?_) (by simp [hzero, hhead])
    obtain ⟨digits, rfl⟩ := List.head?_eq_some_iff.mp hhead
    have hvalue : digitsValue ('0' :: digits) = digitsValue digits := by
      rw [digitsValue_cons]
      simp
    exact code_ne_of_leadingZero (fun c hc => hdigits c (List.mem_cons_of_mem _ hc)) hbefore hzero
  · refine iff_of_true ?_ (.inr hhead)
    rw [decimalValue, length_toDigits hdigits hhead hzero]

end Fraction

end Axle.Compiler
