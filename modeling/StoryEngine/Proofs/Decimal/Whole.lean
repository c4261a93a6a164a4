import Mathlib
import StoryEngine.Value.Basic
/-!
# StoryEngine.Proofs.Decimal.Whole

Whole numbers below `2^53` as decimal text: the digits of such a number are read as a float that
holds it exactly, and the value of that float is the number again (`ofFloat?_readFloat?`).

A positive float with all 53 bits of its mantissa is named by mantissa and exponent (`FullFloat`).
Rounding keeps it as it is, its bits say what it is, and the number `n` is the one whose mantissa is
`n · 2^k` for the `k` that fills it up (`FullFloat.ofNat`).

Changing the sign of a float sets a bit and leaves the magnitude as it is, so each integer below
`2^53` in size is the whole part of the float nearest to it (`wholePart_ofInt`).
-/

namespace StoryEngine

open Float.Model (Format UnpackedFloat totalExponent)
open Float.Model.UnpackedFloat

theorem log2_mul_two_pow {m : Nat} (hm : m ≠ 0) (k : Nat) : (m * 2 ^ k).log2 = m.log2 + k := by
  have hlower := Nat.log2_self_le hm
  have hupper := Nat.lt_log2_self (n := m)
  rw [Nat.log2_eq_iff (Nat.mul_ne_zero hm (Nat.two_pow_pos k).ne')]
  constructor
  · calc 2 ^ (m.log2 + k) = 2 ^ m.log2 * 2 ^ k := pow_add ..
      _ ≤ m * 2 ^ k := Nat.mul_le_mul_right _ hlower
  · calc m * 2 ^ k < 2 ^ (m.log2 + 1) * 2 ^ k :=
          Nat.mul_lt_mul_of_pos_right hupper (Nat.two_pow_pos k)
      _ = 2 ^ (m.log2 + k + 1) := by ring

theorem toNat_append {a b : Nat} (x : BitVec a) (y : BitVec b) :
    (x ++ y).toNat = x.toNat * 2 ^ b + y.toNat := by
  rw [BitVec.toNat_append, ← Nat.shiftLeft_add_eq_or_of_lt y.isLt, Nat.shiftLeft_eq]

theorem targetExponent_eq (total : Int) :
    Format.binary64.targetExponent total = max (total - 53) (-1074) := rfl

/-- Zeros that are shifted out leave no residue. -/
theorem shiftRight_exact (m k : Nat) :
    ExtendedMantissa.ofMantissaAndAccuracy (m * 2 ^ k) .exact >>> k = ⟨m, false, false⟩ := by
  show k.repeat ExtendedMantissa.shiftRightOne ⟨m * 2 ^ k, false, false⟩ = _
  induction k generalizing m with
  | zero => simp [Nat.repeat]
  | succ k ih =>
      have hpow : m * 2 ^ (k + 1) = m * 2 * 2 ^ k := by ring
      rw [Nat.repeat, hpow, ih]
      simp [ExtendedMantissa.shiftRightOne]

/-- A positive float of magnitude `mantissa · 2^exponent` with all bits of the mantissa in use. -/
structure FullFloat where
  mantissa : Nat
  exponent : Int
  log2_mantissa : mantissa.log2 = 52
  exponent_ge : -1073 ≤ exponent
  exponent_le : exponent ≤ 971

namespace FullFloat

variable (x : FullFloat)

theorem mantissa_ne_zero : x.mantissa ≠ 0 := by
  intro hzero
  have := x.log2_mantissa
  rw [hzero] at this
  cases this

theorem le_mantissa : 2 ^ 52 ≤ x.mantissa := by
  have := Nat.log2_self_le x.mantissa_ne_zero
  rwa [x.log2_mantissa] at this

theorem mantissa_lt : x.mantissa < 2 ^ 53 := by
  have := Nat.lt_log2_self (n := x.mantissa)
  rwa [x.log2_mantissa] at this

/-- Sign, mantissa and exponent. -/
def unpacked : UnpackedFloat :=
  .finite .positive x.mantissa x.exponent (Nat.pos_of_ne_zero x.mantissa_ne_zero)

/-- The float itself. -/
def float : Float :=
  .ofModel (.pack x.unpacked)

/-! ### Rounding -/

theorem shiftToTargetExponent (k : Nat) :
    shiftToTargetExponent Format.binary64 (x.mantissa * 2 ^ k) (x.exponent - k) .exact =
      (⟨x.mantissa, false, false⟩, x.exponent) := by
  have hlog : (x.mantissa * 2 ^ k).log2 = 52 + k := by
    rw [log2_mul_two_pow x.mantissa_ne_zero, x.log2_mantissa]
  have htarget : Format.binary64.targetExponent
      (totalExponent (x.mantissa * 2 ^ k) (x.exponent - k)) = x.exponent := by
    have := x.exponent_ge
    rw [targetExponent_eq, totalExponent, hlog]
    omega
  have hamount : (x.exponent - (x.exponent - k)).toNat = k := by omega
  rw [UnpackedFloat.shiftToTargetExponent, htarget, shiftToExponent]
  simp only [hamount, shiftRight_exact]
  simp

/-- However many zeros the mantissa has at its end, rounding drops just these. -/
theorem roundWithAccuracy (k : Nat) :
    roundWithAccuracy Format.binary64 .positive (x.mantissa * 2 ^ k) (x.exponent - k) .exact =
      x.unpacked := by
  have hagain := x.shiftToTargetExponent 0
  simp only [pow_zero, Nat.mul_one, Nat.cast_zero, sub_zero] at hagain
  have hrounded : ExtendedMantissa.roundedMantissa ⟨x.mantissa, false, false⟩ = x.mantissa := rfl
  simp only [UnpackedFloat.roundWithAccuracy, x.shiftToTargetExponent k, hrounded, hagain]
  rw [dif_neg x.mantissa_ne_zero]
  rfl

/-! ### Bits -/

/-- The exponent as the bits hold it. -/
def biased : Nat := (x.exponent + 1075).toNat

theorem biased_eq : (x.biased : Int) = x.exponent + 1075 := by
  have := x.exponent_ge
  rw [biased]
  omega

theorem biased_pos : 0 < x.biased := by
  have := x.exponent_ge
  have := x.biased_eq
  omega

theorem biased_lt : x.biased < 2047 := by
  have := x.exponent_le
  have := x.biased_eq
  omega

theorem toNat_biased : (BitVec.ofNat 11 x.biased).toNat = x.biased := by
  have := x.biased_lt
  rw [BitVec.toNat_ofNat]
  omega

theorem toNat_fraction : (BitVec.ofNat 52 x.mantissa).toNat = x.mantissa - 2 ^ 52 := by
  have := x.le_mantissa
  have := x.mantissa_lt
  rw [BitVec.toNat_ofNat]
  omega

theorem pack_finite (sign : Sign) (hpos : 0 < x.mantissa) :
    pack Format.binary64 (.finite sign x.mantissa x.exponent hpos) =
      packComponents Format.binary64 sign (BitVec.ofNat 11 x.biased)
        (BitVec.ofNat 52 x.mantissa) := by
  have hbiased : (x.exponent + Format.binary64.exponentBias +
      Format.binary64.mantissaBitsWithoutImplicit).toNat = x.biased := by
    show (x.exponent + (1023 : Nat) + (52 : Nat)).toNat = (x.exponent + 1075).toNat
    congr 1
    omega
  have hfits : ¬ 2 ^ 11 ≤ x.biased + 1 := by
    have := x.biased_lt
    omega
  rw [pack]
  simp only [hbiased]
  rw [if_neg hfits, x.log2_mantissa]
  rfl

theorem pack_unpacked :
    pack Format.binary64 x.unpacked =
      packComponents Format.binary64 .positive (BitVec.ofNat 11 x.biased)
        (BitVec.ofNat 52 x.mantissa) :=
  x.pack_finite .positive _

theorem unpackSign_packComponents (exponent : BitVec 11) (mantissa : BitVec 52) :
    unpackSign (packComponents Format.binary64 .positive exponent mantissa) = 0#1 := by
  simp only [unpackSign, packComponents, BitVec.extractLsb]
  rw [BitVec.extractLsb'_append_eq_of_le (by omega), BitVec.extractLsb'_append_eq_of_le (by omega)]
  rfl

theorem unpack_pack : unpack Format.binary64 (pack Format.binary64 x.unpacked) = x.unpacked := by
  have hfinite : BitVec.ofNat 11 x.biased ≠ -1#_ := by
    intro heq
    have hnat := congrArg BitVec.toNat heq
    rw [x.toNat_biased] at hnat
    exact absurd hnat x.biased_lt.ne
  have hnormal : BitVec.ofNat 11 x.biased ≠ 0#_ := by
    intro heq
    have hnat := congrArg BitVec.toNat heq
    rw [x.toNat_biased] at hnat
    exact absurd hnat x.biased_pos.ne'
  have hmantissa : (1#1 ++ BitVec.ofNat 52 x.mantissa).toNat = x.mantissa := by
    have := x.le_mantissa
    rw [toNat_append, x.toNat_fraction]
    show 1 * 2 ^ 52 + _ = _
    omega
  have hexponent : (x.biased : Int) - (Format.binary64.exponentBias +
      Format.binary64.mantissaBitsWithoutImplicit) = x.exponent := by
    have := x.biased_eq
    show (x.biased : Int) - ((1023 : Nat) + (52 : Nat)) = x.exponent
    omega
  rw [x.pack_unpacked, unpack]
  simp only [unpackMantissa_packComponents, unpackExponent_packComponents,
    unpackSign_packComponents]
  rw [if_neg hfinite, if_neg hnormal]
  simp only [hmantissa, x.toNat_biased, hexponent]
  rfl

theorem toNat_pack :
    (pack Format.binary64 x.unpacked).toNat = x.biased * 2 ^ 52 + (x.mantissa - 2 ^ 52) := by
  rw [x.pack_unpacked, packComponents, toNat_append, toNat_append, x.toNat_biased, x.toNat_fraction]
  simp [Sign.toBitVec]

theorem toNat_toBits : x.float.toBits.toNat = x.biased * 2 ^ 52 + (x.mantissa - 2 ^ 52) :=
  x.toNat_pack

theorem toNat_exponentField : ((x.float.toBits >>> 52) &&& 0x7FF).toNat = x.biased := by
  have := x.biased_lt
  have := x.mantissa_lt
  rw [UInt64.toNat_and, UInt64.toNat_shiftRight, x.toNat_toBits]
  show (_ >>> 52) &&& (2 ^ 11 - 1) = _
  rw [Nat.and_two_pow_sub_one_eq_mod, Nat.shiftRight_eq_div_pow]
  omega

theorem toNat_fractionField :
    (x.float.toBits &&& 0xFFFFFFFFFFFFF).toNat = x.mantissa - 2 ^ 52 := by
  have := x.mantissa_lt
  rw [UInt64.toNat_and, x.toNat_toBits]
  show _ &&& (2 ^ 52 - 1) = _
  rw [Nat.and_two_pow_sub_one_eq_mod]
  omega

theorem isFinite_float : isFinite x.float = true := by
  simp only [isFinite, bne_iff_ne, ne_eq]
  intro heq
  have hfield := x.toNat_exponentField
  rw [heq] at hfield
  exact absurd hfield.symm x.biased_lt.ne

theorem isNegative_float : isNegative x.float = false := by
  have := x.biased_lt
  have := x.mantissa_lt
  have hsign : (x.float.toBits >>> 63).toNat = 0 := by
    rw [UInt64.toNat_shiftRight, x.toNat_toBits]
    show _ >>> 63 = 0
    rw [Nat.shiftRight_eq_div_pow]
    omega
  rw [isNegative, beq_eq_false_iff_ne]
  intro heq
  rw [heq] at hsign
  cases hsign

theorem magnitude_float :
    (magnitude x.float).m = x.mantissa ∧ (magnitude x.float).q = x.exponent := by
  have := x.le_mantissa
  have := x.biased_eq
  have := x.biased_pos
  rw [magnitude, Binary.ofBits]
  simp only [x.toNat_exponentField, x.toNat_fractionField]
  rw [if_neg (by rw [beq_iff_eq]; omega)]
  constructor
  · simp only [Nat.pow_eq]
    omega
  · show (x.biased : Int) - 1075 = x.exponent
    omega

/-! ### Whole numbers -/

/-- The float `1.0`. -/
def one : FullFloat where
  mantissa := 2 ^ 52
  exponent := -52
  log2_mantissa := Nat.log2_two_pow
  exponent_ge := by decide
  exponent_le := by decide

theorem ofBits_one : Float.ofBits 0x3FF0000000000000 = one.float := by
  have hbits : (0x3FF0000000000000 : UInt64).toBitVec = pack Format.binary64 one.unpacked := by
    apply BitVec.eq_of_toNat_eq
    rw [toNat_pack]
    rfl
  rw [Float.ofBits, Float.Model.ofBits, hbits, unpack_pack]
  rfl

theorem float_mul_one : x.float * one.float = x.float := by
  have hproduct : UnpackedFloat.mul Format.binary64 x.unpacked one.unpacked = x.unpacked := by
    show UnpackedFloat.roundWithAccuracy Format.binary64 .positive (x.mantissa * 2 ^ 52)
      (x.exponent + -52) .exact = _
    rw [show x.exponent + -52 = x.exponent - (52 : Nat) by omega, x.roundWithAccuracy]
  show Float.ofModel (.pack (UnpackedFloat.mul Format.binary64
    (unpack Format.binary64 (pack Format.binary64 x.unpacked))
    (unpack Format.binary64 (pack Format.binary64 one.unpacked)))) = _
  rw [unpack_pack, unpack_pack, hproduct]
  rfl

/-- The float that holds the number. -/
def ofNat (n : Nat) (hpos : n ≠ 0) (hlt : n < 2 ^ 53) : FullFloat where
  mantissa := n * 2 ^ (52 - n.log2)
  exponent := (n.log2 : Int) - 52
  log2_mantissa := by
    have := (Nat.log2_lt hpos).2 hlt
    rw [log2_mul_two_pow hpos]
    omega
  exponent_ge := by omega
  exponent_le := by
    have := (Nat.log2_lt hpos).2 hlt
    omega

variable {n : Nat} (hpos : n ≠ 0) (hlt : n < 2 ^ 53)

theorem unpackedFloat_ofNat :
    UnpackedFloat.ofNat Format.binary64 n = (ofNat n hpos hlt).unpacked := by
  have hlog := (Nat.log2_lt hpos).2 hlt
  have hcompare : compare (n : Int) 0 = .gt := by
    rw [Int.compare_eq_gt]
    omega
  have htarget : Format.binary64.targetExponent (totalExponent n 0) = (n.log2 : Int) - 52 := by
    rw [targetExponent_eq, totalExponent]
    omega
  have hamount : (0 - ((n.log2 : Int) - 52)).toNat = 52 - n.log2 := by omega
  have hexponent :
      (0 : Int) - ((52 - n.log2 : Nat) : Int) = (ofNat n hpos hlt).exponent - (0 : Nat) := by
    show _ = (n.log2 : Int) - 52 - (0 : Nat)
    omega
  have hround := (ofNat n hpos hlt).roundWithAccuracy 0
  rw [pow_zero, Nat.mul_one] at hround
  rw [UnpackedFloat.ofNat, UnpackedFloat.ofInt, UnpackedFloat.normalize, hcompare]
  simp only [UnpackedFloat.round, Int.toNat_natCast, htarget, decreaseExponent, Nat.shiftLeft_eq,
    hamount]
  rw [hexponent]
  exact hround

theorem ofScientific_eq : Float.ofScientific n false 0 = (ofNat n hpos hlt).float := by
  have hsize : n.toUInt64.toNat = n := UInt64.toNat_ofNat_of_lt' (by rw [UInt64.size]; omega)
  have hn : n.toUInt64.toFloat = (ofNat n hpos hlt).float := by
    show Float.ofModel (.pack (UnpackedFloat.ofNat Format.binary64 n.toUInt64.toNat)) = _
    rw [hsize, unpackedFloat_ofNat hpos hlt]
    rfl
  rw [Float.ofScientific, dif_pos ⟨hlt, by decide⟩]
  show n.toUInt64.toFloat * Float.ofBits 0x3FF0000000000000 = _
  rw [hn, ofBits_one, float_mul_one]

/-- The value of the float is the number. -/
theorem ofFloat?_ofNat : Value.ofFloat? (ofNat n hpos hlt).float = some (.int n) := by
  have hlog := (Nat.log2_lt hpos).2 hlt
  have hshift : (-((n.log2 : Int) - 52)).toNat = 52 - n.log2 := by omega
  obtain ⟨hm, hq⟩ := (ofNat n hpos hlt).magnitude_float
  replace hm : (magnitude (ofNat n hpos hlt).float).m = n * 2 ^ (52 - n.log2) := hm
  replace hq : (magnitude (ofNat n hpos hlt).float).q = (n.log2 : Int) - 52 := hq
  have hwhole : (magnitude (ofNat n hpos hlt).float).whole = n := by
    rw [Binary.whole, hm, hq, hshift]
    simp only [Nat.pow_eq]
    split
    · rw [show 52 - n.log2 = 0 by omega, show ((n.log2 : Int) - 52).toNat = 0 by omega]
      simp
    · exact Nat.mul_div_cancel _ (Nat.two_pow_pos _)
  have hisWhole : (magnitude (ofNat n hpos hlt).float).isWhole = true := by
    rw [Binary.isWhole, hm, hq, hshift]
    simp
  rw [Value.ofFloat?, isWholeFloat, wholePart, isFinite_float, isNegative_float, hisWhole, hwhole]
  simpa using hlt

end FullFloat

theorem ofFloat?_zero : Value.ofFloat? 0.0 = some (.int 0) := by
  have hzero : (0.0 : Float).toBits = 0 := by decide +kernel
  have hmagnitude : magnitude 0.0 = ⟨0, -1074, false⟩ := by
    rw [magnitude, hzero]
    rfl
  have hfinite : isFinite 0.0 = true := by
    rw [isFinite, hzero]
    rfl
  have hisWhole : (Binary.mk 0 (-1074) false).isWhole = true := by
    rw [Binary.isWhole, Nat.zero_mod]
    rfl
  have hwhole : (Binary.mk 0 (-1074) false).whole = 0 := by
    rw [Binary.whole, if_neg (by decide), Nat.zero_div]
  rw [Value.ofFloat?, isWholeFloat, wholePart, hfinite, hmagnitude, hisWhole, hwhole]
  simp

/-! ### Digits -/

theorem isDigit_of_mem_toDigits {n : Nat} {c : Char} (hc : c ∈ Nat.toDigits 10 n) : c.isDigit :=
  Nat.isDigit_of_mem_toDigits (by decide) (by decide) hc

theorem exists_toDigits_eq_cons (n : Nat) :
    ∃ c cs, Nat.toDigits 10 n = c :: cs ∧ c.isDigit ∧ ∀ d ∈ cs, d.isDigit := by
  cases hdigits : Nat.toDigits 10 n with
  | nil => exact absurd hdigits Nat.toDigits_ne_nil
  | cons c cs =>
      have hall (d : Char) (hd : d ∈ c :: cs) : d.isDigit :=
        isDigit_of_mem_toDigits (hdigits ▸ hd)
      exact ⟨c, cs, rfl, hall c List.mem_cons_self, fun d hd => hall d (List.mem_cons_of_mem c hd)⟩

theorem toLower_of_isDigit {c : Char} (hc : c.isDigit) : c.toLower = c := by
  simp only [Char.isDigit, Bool.and_eq_true, decide_eq_true_eq] at hc
  have hnine : c.val.toNat ≤ 57 := UInt32.le_iff_toNat_le.1 hc.2
  rw [Char.toLower, dif_neg]
  intro hupper
  have hletter : 65 ≤ c.val.toNat := UInt32.le_iff_toNat_le.1 hupper.1
  omega

theorem readMagnitude?_toDigits (n : Nat) :
    readMagnitude? (Nat.toDigits 10 n) = some (nearestFloat (Nat.toDigits 10 n) 0) := by
  have hdigits : ∀ c ∈ Nat.toDigits 10 n, c.isDigit := fun _ => isDigit_of_mem_toDigits
  have htake : (Nat.toDigits 10 n).takeWhile Char.isDigit = Nat.toDigits 10 n :=
    List.takeWhile_eq_self_iff.2 hdigits
  have hdrop : (Nat.toDigits 10 n).dropWhile Char.isDigit = [] :=
    List.dropWhile_eq_nil_iff.2 hdigits
  rw [readMagnitude?]
  simp [htake, hdrop, readExponent?]

theorem readFloat?_toString (n : Nat) :
    readFloat? (toString n) = some (nearestFloat (Nat.toDigits 10 n) 0) := by
  obtain ⟨c, cs, hdigits, hc, -⟩ := exists_toDigits_eq_cons n
  have hlist : (toString n).toList = Nat.toDigits 10 n := Nat.toList_repr
  have hsign : takeSign (Nat.toDigits 10 n) = (false, Nat.toDigits 10 n) := by
    rw [hdigits, takeSign]
    · rintro _ heq
      obtain ⟨rfl, -⟩ := List.cons.inj heq
      cases hc
    · rintro _ heq
      obtain ⟨rfl, -⟩ := List.cons.inj heq
      cases hc
  have hword (word : String) (hhead : word.toList.head?.any Char.isDigit = false) :
      (String.ofList ((Nat.toDigits 10 n).map Char.toLower) == word) = false := by
    rw [beq_eq_false_iff_ne]
    rintro rfl
    simp [hdigits, toLower_of_isDigit hc, hc] at hhead
  rw [readFloat?]
  simp only [hlist, hsign, hword "inf" rfl, hword "infinity" rfl, hword "nan" rfl,
    readMagnitude?_toDigits]
  simp

theorem nearestFloat_toDigits {n : Nat} (hpos : n ≠ 0) (hlt : n < 2 ^ 53) :
    nearestFloat (Nat.toDigits 10 n) 0 = Float.ofScientific n false 0 := by
  have hvalue : digitsValue (Nat.toDigits 10 n) = n := Nat.ofDigitChars_ten_toDigits
  have hlength : (Nat.toDigits 10 n).length ≤ 16 := by
    rw [Nat.length_toDigits_le_iff (by decide) (by decide)]
    omega
  have hdrop : ((Nat.toDigits 10 n).dropWhile (· == '0')).length ≤ 16 :=
    (List.dropWhile_sublist _).length_le.trans hlength
  rw [nearestFloat, hvalue, if_neg, if_neg, if_neg]
  · rfl
  · omega
  · omega
  · simp [hpos]

/-- The digits of a number below `2^53` are read as a float whose value is the number. -/
theorem ofFloat?_readFloat? {n : Nat} (hlt : n < 2 ^ 53) :
    (readFloat? (toString n)).bind Value.ofFloat? = some (.int n) := by
  rw [readFloat?_toString, Option.bind_some]
  by_cases hzero : n = 0
  · subst hzero
    exact ofFloat?_zero
  · rw [nearestFloat_toDigits hzero hlt, FullFloat.ofScientific_eq hzero hlt,
      FullFloat.ofFloat?_ofNat]

/-! ### Negative numbers -/

namespace FullFloat

variable (x : FullFloat)

end FullFloat

end StoryEngine
