/-
**Whole numbers as floats.**

A whole number of 64 bits becomes the nearest float: its leading 53 bits, rounded by those that follow, times
a power of two.  Rounding keeps the order of numbers, though it may make different ones equal; and up to
`2 ^ 53` no bit is lost, so that different numbers stay different.

Main definitions:

* `Stencil.Decimal.nearest`, `Stencil.Decimal.rounded` — a mantissa rounded to 53 bits, and its exponent;
* `Stencil.Decimal.wholeParts` — mantissa and exponent of the nearest float to a whole number;
* `Stencil.Decimal.unpacked` — this float, as a sign with a mantissa and an exponent.

Main results:

* `Stencil.Decimal.roundWithAccuracy_eq` — how a mantissa is rounded that has enough bits;
* `Stencil.Decimal.unpack_pack_number` — a mantissa of 53 bits is packed without loss;
* `Stencil.Decimal.unpack_ofInt` — the float that a whole number becomes;
* `Stencil.Decimal.compare_unpacked` — **floats of whole numbers are in the order of the numbers**, or are
  equal, which different numbers up to `2 ^ 53` never are.
-/

import Mathlib
import Stencil.Decimal.Double

set_option autoImplicit false

open Float.Model Float.Model.UnpackedFloat

namespace Stencil.Decimal

/-! ### Mantissas with the bits behind them -/

/-- A mantissa with nothing behind it. -/
def exactly (m : Nat) : ExtendedMantissa := ⟨m, false, false⟩

/-- A mantissa with two bits behind it, of which the second one stands for all that follow. -/
def weight (x : ExtendedMantissa) : Nat := 4 * x.mantissa + 2 * x.roundBit.toNat + x.stickyBit.toNat

theorem weight_shiftRightOne_le {x y : ExtendedMantissa} (h : weight x ≤ weight y) :
    weight x.shiftRightOne ≤ weight y.shiftRightOne := by
  obtain ⟨m, r, s⟩ := x
  obtain ⟨m', r', s'⟩ := y
  simp only [weight, ExtendedMantissa.shiftRightOne] at h ⊢
  -- the bit taken off is the last one of the mantissa
  rcases Nat.mod_two_eq_zero_or_one m with hm | hm <;>
    rcases Nat.mod_two_eq_zero_or_one m' with hm' | hm' <;>
    cases r <;> cases s <;> cases r' <;> cases s' <;> simp [hm, hm'] at h ⊢ <;> omega

/-- Taking bits off at the end keeps the order. -/
theorem weight_shiftRight_le {x y : ExtendedMantissa} (h : weight x ≤ weight y) (n : Nat) :
    weight (x >>> n) ≤ weight (y >>> n) := by
  change weight (Nat.repeat _ n x) ≤ weight (Nat.repeat _ n y)
  induction n with
  | zero => exact h
  | succ n ih => exact weight_shiftRightOne_le ih

/-- So does rounding. -/
theorem roundedMantissa_le {x y : ExtendedMantissa} (h : weight x ≤ weight y) :
    x.roundedMantissa ≤ y.roundedMantissa := by
  obtain ⟨m, r, s⟩ := x
  obtain ⟨m', r', s'⟩ := y
  simp only [weight, ExtendedMantissa.roundedMantissa] at h ⊢
  cases r <;> cases s <;> cases r' <;> cases s' <;>
    simp [ExtendedMantissa.accuracy, Accuracy.roundToNearestEven] at h ⊢ <;> omega

theorem roundedMantissa_bounds (x : ExtendedMantissa) :
    x.mantissa ≤ x.roundedMantissa ∧ x.roundedMantissa ≤ x.mantissa + 1 := by
  obtain ⟨m, r, s⟩ := x
  cases r <;> cases s <;>
    simp [ExtendedMantissa.roundedMantissa, ExtendedMantissa.accuracy, Accuracy.roundToNearestEven]
  omega

theorem mantissa_shiftRight (x : ExtendedMantissa) (n : Nat) :
    (x >>> n).mantissa = x.mantissa / 2 ^ n := by
  change (Nat.repeat ExtendedMantissa.shiftRightOne n x).mantissa = _
  induction n with
  | zero => simp [Nat.repeat]
  | succ n ih => rw [Nat.repeat, ExtendedMantissa.shiftRightOne, ih, Nat.div_div_eq_div_mul, pow_succ]

/-- Nothing is lost where the bits taken off are zero. -/
theorem exactly_shiftRight (m n : Nat) : exactly (m * 2 ^ n) >>> n = exactly m := by
  change Nat.repeat ExtendedMantissa.shiftRightOne n _ = _
  induction n generalizing m with
  | zero => simp [Nat.repeat]
  | succ n ih =>
      have hm : m * 2 ^ (n + 1) = m * 2 * 2 ^ n := by ring
      rw [Nat.repeat, hm, ih]
      simp [ExtendedMantissa.shiftRightOne, exactly]

theorem log2_mul_two_pow {n : Nat} (hn : n ≠ 0) (k : Nat) : (n * 2 ^ k).log2 = n.log2 + k := by
  have hpos : 0 < 2 ^ k := by positivity
  refine (Nat.log2_eq_iff (by positivity)).2 ⟨?_, ?_⟩
  · rw [pow_add]
    exact Nat.mul_le_mul_right _ (Nat.log2_self_le hn)
  · rw [show n.log2 + k + 1 = n.log2 + 1 + k by omega, pow_add]
    exact Nat.mul_lt_mul_of_pos_right Nat.lt_log2_self hpos

/-! ### Rounding -/

/-- The nearest mantissa of 53 bits, in the place of the leading bits. -/
def nearest (m : Nat) : Nat := (exactly m >>> (m.log2 - 52)).roundedMantissa

theorem nearest_bounds {m : Nat} (hm : 52 ≤ m.log2) : 2 ^ 52 ≤ nearest m ∧ nearest m ≤ 2 ^ 53 := by
  have hne : m ≠ 0 := by
    rintro rfl
    simp at hm
  have hpos : 0 < 2 ^ (m.log2 - 52) := by positivity
  have hlow : 2 ^ 52 ≤ m / 2 ^ (m.log2 - 52) := by
    rw [Nat.le_div_iff_mul_le hpos, ← pow_add, Nat.add_sub_cancel' hm]
    exact Nat.log2_self_le hne
  have hhigh : m / 2 ^ (m.log2 - 52) < 2 ^ 53 := by
    rw [Nat.div_lt_iff_lt_mul hpos, ← pow_add, show 53 + (m.log2 - 52) = m.log2 + 1 by omega]
    exact Nat.lt_log2_self
  have hbounds := roundedMantissa_bounds (exactly m >>> (m.log2 - 52))
  rw [mantissa_shiftRight] at hbounds
  change m / 2 ^ (m.log2 - 52) ≤ nearest m ∧ nearest m ≤ m / 2 ^ (m.log2 - 52) + 1 at hbounds
  omega

/-- A mantissa rounded to 53 bits, with its exponent.  Rounding up may give one bit more. -/
def rounded (m : Nat) (e : Int) : Nat × Int :=
  if nearest m < 2 ^ 53 then (nearest m, e + (m.log2 - 52)) else (2 ^ 52, e + (m.log2 - 51))

/-- Rounding gives a mantissa of 53 bits. -/
theorem rounded_bounds {m : Nat} (hm : 52 ≤ m.log2) (e : Int) : (rounded m e).1.log2 = 52 ∧
    e + (m.log2 - 52) ≤ (rounded m e).2 ∧ (rounded m e).2 ≤ e + (m.log2 - 51) := by
  have hbounds := nearest_bounds hm
  unfold rounded
  split
  · next hlt => exact ⟨(Nat.log2_eq_iff (by omega)).2 ⟨hbounds.1, hlt⟩, le_refl _, by dsimp only; omega⟩
  · exact ⟨Nat.log2_two_pow, by dsimp only; omega, le_refl _⟩

/-- A mantissa of 53 bits stays as it is, with any number of zeros behind it. -/
theorem rounded_mul_two_pow {m : Nat} (hm : m.log2 = 52) (k : Nat) (e : Int) :
    rounded (m * 2 ^ k) e = (m, e + k) := by
  have hne : m ≠ 0 := by
    rintro rfl
    simp at hm
  have hlt := ((Nat.log2_eq_iff hne).1 hm).2
  have hlog := log2_mul_two_pow hne k
  have hshift : m.log2 + k - 52 = k := by omega
  have hnearest : nearest (m * 2 ^ k) = m := by
    rw [nearest, hlog, hshift, exactly_shiftRight]
    rfl
  rw [rounded, hnearest, if_pos hlt, hlog, hm]
  refine Prod.ext rfl ?_
  push_cast
  ring

theorem shiftToTargetExponent_eq {m : Nat} {e : Int} (hm : 52 ≤ m.log2)
    (he : -1074 ≤ e + (m.log2 - 52)) : shiftToTargetExponent .binary64 m e .exact =
      (exactly m >>> (m.log2 - 52), e + (m.log2 - 52)) := by
  have htarget : Format.binary64.targetExponent (totalExponent m e) = e + (m.log2 - 52) := by
    simp only [Format.targetExponent, totalExponent, Format.mantissaBits, Format.minExponent]
    norm_num
    omega
  have hshift : (e + (m.log2 - 52 : Int) - e).toNat = m.log2 - 52 := by omega
  rw [shiftToTargetExponent, htarget, shiftToExponent, hshift]
  refine Prod.ext rfl ?_
  dsimp only
  omega

/-- A mantissa with an exponent and a sign. -/
def number (s : Sign) (m : Nat) (e : Int) : UnpackedFloat :=
  if h : m = 0 then .zero s else .finite s m e (Nat.pos_of_ne_zero h)

/-- How a mantissa is rounded that has enough bits: what is shifted out decides whether it goes up, and where
this gives one bit more, it is shifted once again. -/
theorem roundWithAccuracy_eq (s : Sign) {m : Nat} {e : Int} (hm : 52 ≤ m.log2)
    (he : -1074 ≤ e + (m.log2 - 52)) :
    roundWithAccuracy .binary64 s m e .exact = number s (rounded m e).1 (rounded m e).2 := by
  obtain ⟨hlow, hhigh⟩ := nearest_bounds hm
  have hagain : shiftToTargetExponent .binary64 (nearest m) (e + (m.log2 - 52)) .exact =
      (exactly (rounded m e).1, (rounded m e).2) := by
    unfold rounded
    split
    · next hlt =>
        have hlog : (nearest m).log2 = 52 := (Nat.log2_eq_iff (by omega)).2 ⟨hlow, hlt⟩
        have hnone := exactly_shiftRight (nearest m) 0
        rw [pow_zero, mul_one] at hnone
        rw [shiftToTargetExponent_eq (by omega) (by omega), hlog]
        simp [hnone]
    · next hge =>
        have heq : nearest m = 2 ^ 53 := by omega
        have hlog : (2 ^ 53 : Nat).log2 = 53 := Nat.log2_two_pow
        rw [heq, shiftToTargetExponent_eq (by omega) (by omega), hlog]
        refine Prod.ext (exactly_shiftRight (2 ^ 52) 1) ?_
        push_cast
        ring
  have hrounded : (exactly m >>> (m.log2 - 52)).roundedMantissa = nearest m := rfl
  rw [roundWithAccuracy, shiftToTargetExponent_eq hm he]
  dsimp only
  simp only [hrounded, hagain]
  rfl

/-! ### Packing -/

/-- A mantissa of 53 bits with an exponent that is not too large is packed without loss. -/
theorem unpack_pack_number (s : Sign) {m : Nat} {e : Int} (hm : m.log2 = 52) (he : -1074 ≤ e)
    (he' : e ≤ 971) : (Float.Model.pack (number s m e)).unpack = number s m e := by
  have hne : m ≠ 0 := by
    rintro rfl
    simp at hm
  obtain ⟨hge, hlt⟩ := (Nat.log2_eq_iff hne).1 hm
  have hbias : (e + Format.binary64.exponentBias + (52 : Nat)).toNat = (e + 1075).toNat := by
    change (e + ((1023 : Nat) : Int) + (52 : Nat)).toNat = _
    omega
  have hexponent : (BitVec.ofNat 11 (e + 1075).toNat).toNat = (e + 1075).toNat := by
    rw [BitVec.toNat_ofNat, Nat.mod_eq_of_lt (by omega)]
  -- the exponent is neither that of zeros nor that of infinities
  have hother : ∀ b : BitVec 11, b.toNat ≠ (e + 1075).toNat → BitVec.ofNat 11 (e + 1075).toNat ≠ b := by
    rintro b hb rfl
    exact hb hexponent
  have hmantissa : (1#1 ++ BitVec.ofNat 52 m).toNat = m := by
    rw [BitVec.toNat_append, ← Nat.shiftLeft_add_eq_or_of_lt (BitVec.ofNat 52 m).isLt,
      BitVec.toNat_ofNat]
    change 1 <<< 52 + m % 2 ^ 52 = m
    rw [Nat.shiftLeft_eq]
    omega
  have hsign : Sign.ofBitVec s.toBitVec = s := by cases s <;> rfl
  have hpack : UnpackedFloat.pack .binary64 (number s m e) =
      packComponents .binary64 s (BitVec.ofNat 11 (e + 1075).toNat) (BitVec.ofNat 52 m) := by
    rw [number, dif_neg hne]
    simp only [UnpackedFloat.pack, hbias, hm]
    rw [if_neg (by omega), if_pos (by decide)]
  have hback : UnpackedFloat.unpack .binary64
      (packComponents .binary64 s (BitVec.ofNat 11 (e + 1075).toNat) (BitVec.ofNat 52 m)) =
        number s m e := by
    rw [UnpackedFloat.unpack]
    simp only [unpackExponent_packComponents, unpackMantissa_packComponents,
      unpackSign_packComponents]
    rw [if_neg (hother _ (by simp; omega)), if_neg (hother _ (by simp; omega)), number, dif_neg hne]
    simp only [hmantissa, hexponent, hsign]
    congr 1
    change ((e + 1075).toNat : Int) - (((1023 : Nat) : Int) + (52 : Nat)) = e
    omega
  exact (congrArg (UnpackedFloat.unpack .binary64) hpack).trans hback

/-- A product whose mantissa has enough bits. -/
theorem unpack_pack_mul {m m' : Nat} {e e' : Int} (hm : m ≠ 0) (hm' : m' ≠ 0)
    (hlog : 52 ≤ (m * m').log2) (hlow : -1074 ≤ e + e' + ((m * m').log2 - 52))
    (hhigh : e + e' + ((m * m').log2 - 51) ≤ 971) :
    (Float.Model.pack (UnpackedFloat.mul .binary64 (number .positive m e)
      (number .positive m' e'))).unpack =
        number .positive (rounded (m * m') (e + e')).1 (rounded (m * m') (e + e')).2 := by
  obtain ⟨hbits, he, he'⟩ := rounded_bounds hlog (e + e')
  have hmul : UnpackedFloat.mul .binary64 (number .positive m e) (number .positive m' e') =
      roundWithAccuracy .binary64 .positive (m * m') (e + e') .exact := by
    rw [number, number, dif_neg hm, dif_neg hm']
    rfl
  rw [hmul, roundWithAccuracy_eq .positive hlog hlow,
    unpack_pack_number .positive hbits (by omega) (by omega)]

/-! ### Whole numbers -/

/-- Mantissa and exponent of the nearest float to a whole number. -/
def wholeParts (n : Nat) : Nat × Int := rounded (n * 2 ^ 53) (-53)

theorem wholeParts_bounds {n : Nat} (hn : n ≠ 0) : (wholeParts n).1.log2 = 52 ∧
    n.log2 - 52 ≤ (wholeParts n).2 ∧ (wholeParts n).2 ≤ n.log2 - 51 := by
  have hlog := log2_mul_two_pow hn 53
  obtain ⟨hbits, he, he'⟩ := rounded_bounds (m := n * 2 ^ 53) (by omega) (-53)
  rw [wholeParts]
  exact ⟨hbits, by omega, by omega⟩

theorem wholeParts_ne_zero {n : Nat} (hn : n ≠ 0) : (wholeParts n).1 ≠ 0 := by
  have hbits := (wholeParts_bounds hn).1
  intro hzero
  simp [hzero] at hbits

theorem wholeParts_zero : (wholeParts 0).1 = 0 := by
  have hnone := exactly_shiftRight 0 ((0 : Nat).log2 - 52)
  rw [zero_mul] at hnone
  have hnearest : nearest 0 = 0 := by
    rw [nearest, hnone]
    rfl
  rw [wholeParts, zero_mul, rounded, hnearest, if_pos (by positivity)]

theorem log2_le_of_lt {n : Nat} (hn : n ≠ 0) (h : n < 2 ^ 53) : n.log2 ≤ 52 := by
  have := (Nat.log2_lt hn).2 h
  omega

/-- A number below `2 ^ 53` shifted to the left until it has 53 bits. -/
theorem log2_shifted {n : Nat} (hn : n ≠ 0) (h : n < 2 ^ 53) : (n * 2 ^ (52 - n.log2)).log2 = 52 := by
  have := log2_le_of_lt hn h
  rw [log2_mul_two_pow hn]
  omega

/-- A number below `2 ^ 53` loses no bit. -/
theorem wholeParts_eq {n : Nat} (hn : n ≠ 0) (h : n < 2 ^ 53) :
    wholeParts n = (n * 2 ^ (52 - n.log2), (n.log2 : Int) - 52) := by
  have hlog := log2_le_of_lt hn h
  have hpow : n * 2 ^ 53 = n * 2 ^ (52 - n.log2) * 2 ^ (n.log2 + 1) := by
    rw [mul_assoc, ← pow_add]
    congr 2
    omega
  rw [wholeParts, hpow, rounded_mul_two_pow (log2_shifted hn h)]
  refine Prod.ext rfl ?_
  push_cast
  ring

theorem unpack_toFloat {n : Nat} (hn : n ≠ 0) (h : n < 2 ^ 53) : n.toUInt64.toFloat.toModel.unpack =
    number .positive (n * 2 ^ (52 - n.log2)) (n.log2 - 52) := by
  have hlog := log2_le_of_lt hn h
  have hm := log2_shifted hn h
  have hnat : n.toUInt64.toNat = n := Nat.mod_eq_of_lt (by omega)
  have hcompare : compare (n : Int) 0 = .gt := Int.compare_eq_gt.2 (by omega)
  have htarget : Format.binary64.targetExponent (totalExponent n 0) = n.log2 - 52 := by
    simp only [Format.targetExponent, totalExponent, Format.mantissaBits, Format.minExponent]
    norm_num
    omega
  have hshift : ((0 : Int) - (n.log2 - 52)).toNat = 52 - n.log2 := by omega
  have hexponent : (0 : Int) - ((52 - n.log2 : Nat) : Int) = n.log2 - 52 := by omega
  have hexact := rounded_mul_two_pow hm 0 (n.log2 - 52)
  rw [pow_zero, mul_one, Nat.cast_zero, add_zero] at hexact
  have hround : UnpackedFloat.ofUInt64 .binary64 n.toUInt64 =
      number .positive (n * 2 ^ (52 - n.log2)) (n.log2 - 52) := by
    rw [UnpackedFloat.ofUInt64, hnat, UnpackedFloat.ofNat, UnpackedFloat.ofInt,
      UnpackedFloat.normalize, hcompare]
    dsimp only
    rw [UnpackedFloat.round, Int.toNat_natCast, htarget, decreaseExponent, hshift, Nat.shiftLeft_eq]
    dsimp only
    rw [hexponent, roundWithAccuracy_eq .positive (by omega) (by omega), hexact]
  calc n.toUInt64.toFloat.toModel.unpack
      = (Float.Model.pack (UnpackedFloat.ofUInt64 .binary64 n.toUInt64)).unpack := rfl
    _ = _ := by rw [hround, unpack_pack_number .positive hm (by omega) (by omega)]

/-- The float that a number without sign becomes.  Up to 53 bits it is read as it is, and times one; beyond
it is the product of its digits and a power of ten, which is one. -/
theorem unpack_ofScientific {n : Nat} (hn : n ≠ 0) (hlog : n.log2 ≤ 64) :
    (Float.ofScientific n false 0).toModel.unpack =
      number .positive (wholeParts n).1 (wholeParts n).2 := by
  rw [Float.ofScientific]
  split
  · next h =>
      -- the factor is one, with all of its 53 bits written out
      have hone : Float.exactlyRepresentablePowersOfTen[0].toModel.unpack =
          number .positive (2 ^ 52) (-52) := rfl
      have hlow := log2_le_of_lt hn h.1
      have hm := log2_shifted hn h.1
      have hne : n * 2 ^ (52 - n.log2) ≠ 0 := by positivity
      have hlog' : (n * 2 ^ (52 - n.log2) * 2 ^ 52).log2 = 104 := by
        rw [log2_mul_two_pow hne, hm]
      have hproduct := rounded_mul_two_pow hm 52 (n.log2 - 52 + -52)
      calc (n.toUInt64.toFloat * Float.exactlyRepresentablePowersOfTen[0]).toModel.unpack
          = (Float.Model.pack (UnpackedFloat.mul .binary64 n.toUInt64.toFloat.toModel.unpack
              Float.exactlyRepresentablePowersOfTen[0].toModel.unpack)).unpack := rfl
        _ = _ := by
            rw [unpack_toFloat hn h.1, hone, unpack_pack_mul hne (by decide) (by omega) (by omega)
              (by omega), hproduct, wholeParts_eq hn h.1]
            congr 1
            push_cast
            ring
  · have hne : n * 2 ^ 53 ≠ 0 := by positivity
    have hlog' : (n * 2 ^ 53).log2 = n.log2 + 53 := log2_mul_two_pow hn 53
    have hscaled : UnpackedFloat.ofScientific .binary64 n 0 = UnpackedFloat.mul .binary64
        (number .positive (n * 2 ^ 53) (-53)) (number .positive 1 0) := by
      have hlarge : (0 : Int) ≤ 2 ^ Format.binary64.exponentBits := Int.pow_nonneg (by decide)
      have hshift : n <<< Format.binary64.mantissaBits = n * 2 ^ 53 := Nat.shiftLeft_eq n 53
      rw [UnpackedFloat.ofScientific, dif_neg hn, if_neg (by decide), if_neg (by omega),
        if_pos le_rfl]
      simp only [hshift]
      rw [number, number, dif_neg hne, dif_neg (by decide)]
      rfl
    calc (Float.Model.pack (UnpackedFloat.ofScientific .binary64 n 0)).unpack
        = number .positive (rounded (n * 2 ^ 53 * 1) (-53 + 0)).1
            (rounded (n * 2 ^ 53 * 1) (-53 + 0)).2 := by
          rw [hscaled]
          exact unpack_pack_mul hne (by decide) (by rw [mul_one]; omega) (by rw [mul_one]; omega)
            (by rw [mul_one]; omega)
      _ = number .positive (wholeParts n).1 (wholeParts n).2 := by rw [mul_one, add_zero, wholeParts]

/-- The nearest float to a whole number. -/
def unpacked (n : Int) : UnpackedFloat :=
  number (if n < 0 then .negative else .positive) (wholeParts n.natAbs).1 (wholeParts n.natAbs).2

/-- The float that a whole number becomes. -/
theorem unpack_ofInt {n : Int} (hn : n.natAbs < 2 ^ 64) : (ofInt n).toModel.unpack = unpacked n := by
  have hlog : n.natAbs ≠ 0 → n.natAbs.log2 ≤ 63 := fun hne => by
    have := (Nat.log2_lt hne).2 hn
    omega
  unfold ofInt unpacked
  split
  · next hneg =>
      have hne : n.natAbs ≠ 0 := by omega
      obtain ⟨hbits, he, he'⟩ := wholeParts_bounds hne
      have hlow := hlog hne
      have hnumber : (number .positive (wholeParts n.natAbs).1 (wholeParts n.natAbs).2).neg =
          number .negative (wholeParts n.natAbs).1 (wholeParts n.natAbs).2 := by
        unfold number
        split <;> rfl
      calc (-Float.ofScientific n.natAbs false 0).toModel.unpack
          = (Float.Model.pack (Float.ofScientific n.natAbs false 0).toModel.unpack.neg).unpack := rfl
        _ = number .negative (wholeParts n.natAbs).1 (wholeParts n.natAbs).2 := by
            rw [unpack_ofScientific hne (by omega), hnumber,
              unpack_pack_number .negative hbits (by omega) (by omega)]
  · by_cases hne : n.natAbs = 0
    · rw [hne, number, dif_pos wholeParts_zero]
      rfl
    · have hlow := hlog hne
      exact unpack_ofScientific hne (by omega)

/-! ### Order -/

/-- The order of mantissas with exponents: by the exponents, and where these are equal by the mantissas. -/
def compareNumbers (p q : Nat × Int) : Ordering := (compare p.2 q.2).then (compare p.1 q.1)

theorem compareNumbers_swap (p q : Nat × Int) : compareNumbers q p = (compareNumbers p q).swap := by
  simp [compareNumbers, Ordering.swap_then, Int.compare_swap, Nat.compare_swap]

theorem compareNumbers_self (p : Nat × Int) : compareNumbers p p = .eq := by
  simp [compareNumbers]

theorem compareNumbers_of_lt {p q : Nat × Int} (h : p.2 < q.2 ∨ p.2 = q.2 ∧ p.1 < q.1) :
    compareNumbers p q = .lt := by
  rcases h with h | ⟨heq, h⟩
  · simp [compareNumbers, Int.compare_eq_lt.2 h]
  · simp [compareNumbers, heq, Nat.compare_eq_lt.2 h]

theorem compareNumbers_of_le {p q : Nat × Int} (h : p.2 < q.2 ∨ p.2 = q.2 ∧ p.1 ≤ q.1) :
    compareNumbers p q = .lt ∨ compareNumbers p q = .eq := by
  by_cases hlt : p.2 < q.2 ∨ p.2 = q.2 ∧ p.1 < q.1
  · exact .inl (compareNumbers_of_lt hlt)
  · obtain rfl : p = q := Prod.ext (by omega) (by omega)
    exact .inr (compareNumbers_self p)

/-- Rounding keeps the order of whole numbers. -/
theorem wholeParts_le {n m : Nat} (hn : n ≠ 0) (h : n ≤ m) : (wholeParts n).2 < (wholeParts m).2 ∨
    (wholeParts n).2 = (wholeParts m).2 ∧ (wholeParts n).1 ≤ (wholeParts m).1 := by
  have hm : m ≠ 0 := by omega
  have hlog : n.log2 ≤ m.log2 := (Nat.le_log2 hm).2 ((Nat.log2_self_le hn).trans h)
  have hn' := log2_mul_two_pow hn 53
  have hm' := log2_mul_two_pow hm 53
  have hboundsn := nearest_bounds (m := n * 2 ^ 53) (by omega)
  have hboundsm := nearest_bounds (m := m * 2 ^ 53) (by omega)
  rcases hlog.eq_or_lt with heq | hlt
  · have hnearest : nearest (n * 2 ^ 53) ≤ nearest (m * 2 ^ 53) := by
      rw [nearest, nearest, hn', hm', heq]
      refine roundedMantissa_le (weight_shiftRight_le ?_ _)
      simp only [weight, exactly]
      omega
    simp only [wholeParts, rounded, hn', hm', heq]
    split <;> split <;> dsimp only <;> omega
  · -- the one with fewer bits may be rounded up to the least one with more bits
    simp only [wholeParts, rounded, hn', hm']
    split <;> split <;> dsimp only <;> omega

/-- Up to `2 ^ 53` different numbers stay different. -/
theorem wholeParts_lt {n m : Nat} (hn : n ≠ 0) (h : n < m) (hm : m ≤ 2 ^ 53) :
    (wholeParts n).2 < (wholeParts m).2 ∨
      (wholeParts n).2 = (wholeParts m).2 ∧ (wholeParts n).1 < (wholeParts m).1 := by
  have hlog : n.log2 ≤ m.log2 := (Nat.le_log2 (by omega)).2 ((Nat.log2_self_le hn).trans h.le)
  rcases hm.lt_or_eq with hm | rfl
  · rw [wholeParts_eq hn (by omega), wholeParts_eq (by omega) hm]
    rcases hlog.lt_or_eq with hlt | heq
    · exact .inl (by dsimp only; omega)
    · refine .inr ⟨by rw [heq], ?_⟩
      rw [heq]
      exact Nat.mul_lt_mul_of_pos_right h (by positivity)
  · have hlow := log2_le_of_lt hn h
    have hparts : wholeParts (2 ^ 53) = (2 ^ 52, 1) :=
      rounded_mul_two_pow (m := 2 ^ 52) Nat.log2_two_pow 54 (-53)
    rw [wholeParts_eq hn h, hparts]
    exact .inl (by dsimp only; omega)

theorem compareNumbers_wholeParts {n m : Nat} (hn : n ≠ 0) (hm : m ≠ 0) :
    (compareNumbers (wholeParts n) (wholeParts m) = compare n m ∨
        compareNumbers (wholeParts n) (wholeParts m) = .eq) ∧
      (n ≤ 2 ^ 53 → m ≤ 2 ^ 53 → compareNumbers (wholeParts n) (wholeParts m) = compare n m) := by
  rcases lt_trichotomy n m with h | rfl | h
  · rw [Nat.compare_eq_lt.2 h]
    exact ⟨compareNumbers_of_le (wholeParts_le hn h.le),
      fun _ hsmall => compareNumbers_of_lt (wholeParts_lt hn h hsmall)⟩
  · rw [compareNumbers_self, Nat.compare_eq_eq.2 rfl]
    exact ⟨.inl rfl, fun _ _ => rfl⟩
  · rw [Nat.compare_eq_gt.2 h, compareNumbers_swap (wholeParts m) (wholeParts n)]
    refine ⟨(compareNumbers_of_le (wholeParts_le hm h.le)).imp (fun h => ?_) fun h => ?_,
      fun hsmall _ => ?_⟩
    · rw [h, Ordering.swap_lt]
    · rw [h, Ordering.swap_eq]
    · rw [compareNumbers_of_lt (wholeParts_lt hm h hsmall), Ordering.swap_lt]

/-- Floats that change places. -/
theorem compare_swap (u v : UnpackedFloat) : v.compare u = (u.compare v).map Ordering.swap := by
  cases u with
  | notANumber => cases v <;> rfl
  | infinity s =>
      cases v with
      | infinity t => cases s <;> cases t <;> rfl
      | _ => cases s <;> rfl
  | zero s =>
      cases v with
      | finite t | infinity t => cases t <;> rfl
      | _ => rfl
  | finite s m e hm =>
      cases v with
      | finite t m' e' hm' =>
          cases s <;> cases t <;>
            simp [UnpackedFloat.compare, Ordering.swap_then, Int.compare_swap, Nat.compare_swap]
      | infinity t => cases s <;> cases t <;> rfl
      | zero _ => cases s <;> rfl
      | _ => rfl

theorem unpacked_zero : unpacked 0 = .zero .positive := by
  rw [unpacked, number, dif_pos (by exact wholeParts_zero)]
  rfl

theorem unpacked_of_pos {n : Int} (hn : 0 < n) : ∃ h, unpacked n =
    .finite .positive (wholeParts n.natAbs).1 (wholeParts n.natAbs).2 h := by
  rw [unpacked, if_neg (by omega)]
  exact ⟨_, dif_neg (wholeParts_ne_zero (by omega))⟩

theorem unpacked_of_neg {n : Int} (hn : n < 0) : ∃ h, unpacked n =
    .finite .negative (wholeParts n.natAbs).1 (wholeParts n.natAbs).2 h := by
  rw [unpacked, if_pos hn]
  exact ⟨_, dif_neg (wholeParts_ne_zero (by omega))⟩

/-- What is below zero comes before what is not, and zero before what is above. -/
theorem compare_unpacked_across {a b : Int} (ha : a ≤ 0) (hb : 0 ≤ b) (h : a < b) :
    (unpacked a).compare (unpacked b) = some .lt := by
  rcases ha.lt_or_eq with ha | rfl
  · obtain ⟨_, ha'⟩ := unpacked_of_neg ha
    rcases hb.lt_or_eq with hb | rfl
    · obtain ⟨_, hb'⟩ := unpacked_of_pos hb
      rw [ha', hb']
      rfl
    · rw [ha', unpacked_zero]
      rfl
  · obtain ⟨_, hb'⟩ := unpacked_of_pos h
    rw [hb', unpacked_zero]
    rfl

/-- **Floats of whole numbers are in the order of the numbers**, or are equal; up to `2 ^ 53` they are equal
only if the numbers are. -/
theorem compare_unpacked (a b : Int) : ∃ o, (unpacked a).compare (unpacked b) = some o ∧
    (o = compare a b ∨ o = .eq) ∧ (a.natAbs ≤ 2 ^ 53 → b.natAbs ≤ 2 ^ 53 → o = compare a b) := by
  have hexact : (unpacked a).compare (unpacked b) = some (compare a b) →
      ∃ o, (unpacked a).compare (unpacked b) = some o ∧ (o = compare a b ∨ o = .eq) ∧
        (a.natAbs ≤ 2 ^ 53 → b.natAbs ≤ 2 ^ 53 → o = compare a b) :=
    fun h => ⟨_, h, .inl rfl, fun _ _ => rfl⟩
  by_cases hneg : a < 0 ∧ b < 0
  · -- below zero, the order is that of the numbers without sign, the other way round
    obtain ⟨_, ha'⟩ := unpacked_of_neg hneg.1
    obtain ⟨_, hb'⟩ := unpacked_of_neg hneg.2
    have habs : compare b.natAbs a.natAbs = compare a b := by
      rcases lt_trichotomy a b with h | rfl | h
      · rw [Int.compare_eq_lt.2 h, Nat.compare_eq_lt.2 (by omega)]
      · rw [Int.compare_eq_eq.2 rfl, Nat.compare_eq_eq.2 rfl]
      · rw [Int.compare_eq_gt.2 h, Nat.compare_eq_gt.2 (by omega)]
    obtain ⟨hor, hsmall⟩ := compareNumbers_wholeParts (n := b.natAbs) (m := a.natAbs) (by omega)
      (by omega)
    rw [habs] at hor hsmall
    refine ⟨compareNumbers (wholeParts b.natAbs) (wholeParts a.natAbs), ?_, hor,
      fun ha hb => hsmall hb ha⟩
    rw [ha', hb', compareNumbers_swap]
    rfl
  by_cases hpos : 0 < a ∧ 0 < b
  · obtain ⟨_, ha'⟩ := unpacked_of_pos hpos.1
    obtain ⟨_, hb'⟩ := unpacked_of_pos hpos.2
    have habs : compare a.natAbs b.natAbs = compare a b := by
      rcases lt_trichotomy a b with h | rfl | h
      · rw [Int.compare_eq_lt.2 h, Nat.compare_eq_lt.2 (by omega)]
      · rw [Int.compare_eq_eq.2 rfl, Nat.compare_eq_eq.2 rfl]
      · rw [Int.compare_eq_gt.2 h, Nat.compare_eq_gt.2 (by omega)]
    obtain ⟨hor, hsmall⟩ := compareNumbers_wholeParts (n := a.natAbs) (m := b.natAbs) (by omega)
      (by omega)
    rw [habs] at hor hsmall
    refine ⟨compareNumbers (wholeParts a.natAbs) (wholeParts b.natAbs), ?_, hor, hsmall⟩
    rw [ha', hb']
    rfl
  · refine hexact ?_
    rcases lt_trichotomy a b with h | rfl | h
    · rw [compare_unpacked_across (by omega) (by omega) h, Int.compare_eq_lt.2 h]
    · obtain rfl : a = 0 := by omega
      rw [unpacked_zero]
      rfl
    · rw [compare_swap (unpacked b), compare_unpacked_across (by omega) (by omega) h,
        Int.compare_eq_gt.2 h]
      rfl

end Stencil.Decimal
