/-
# Doubles that are numbers

The field of a double that holds its exponent tells whether the double is a number: it is, unless
all bits of the field are set. In the model of doubles as signs, mantissas and exponents this is a
bound on the exponent, and the bound is kept when a double changes its sign, when it is divided by
a power of ten, and when it is the one nearest to an integer of 64 bits. Products may be too large;
those are not treated here.

Key definitions: `exponentField`, `Fits`, `target`.
Key theorems: `isFiniteFloat_iff`, `unpack_fields`, `unpack_cases`, `isFiniteFloat_pack`,
`fits_roundWithAccuracy`, `isFiniteFloat_neg`, `isFiniteFloat_div_powerOfTen`,
`isFiniteFloat_floatOfInt`.
-/
import Gleaner.Json.Numeral
import Mathlib.Algebra.Ring.Parity

namespace Gleaner.Number

open Float.Model (Format UnpackedFloat totalExponent)
open Json (powerOfTen)
open Float.Model.UnpackedFloat (Sign Accuracy ExtendedMantissa unpackExponent unpackMantissa
  unpackSign)

/-! ### The field of the exponent -/

/-- The field of a packed double that holds its exponent. -/
def exponentField (b : BitVec Format.binary64.numBits) : Nat :=
  (unpackExponent b).toNat

theorem exponentField_eq (b : BitVec Format.binary64.numBits) :
    exponentField b = b.toNat / twoTo 52 % 2048 := by
  simp [exponentField, unpackExponent, BitVec.extractLsb_toNat, Nat.shiftRight_eq_div_pow, twoTo]

theorem exponentField_lt (b : BitVec Format.binary64.numBits) : exponentField b < 2048 :=
  (unpackExponent b).isLt

/-- A double is a number when some bit of its exponent field is not set. -/
theorem isFiniteFloat_iff {x : Float} :
    isFiniteFloat x = true ↔ exponentField x.toBits.toBitVec ≠ 2047 := by
  have hfield : exponentField x.toBits.toBitVec = x.toBits.toNat / twoTo 52 % 2048 :=
    exponentField_eq _
  rw [hfield]
  unfold isFiniteFloat Binary64.ofFloat
  by_cases hfull : x.toBits.toNat / twoTo 52 % 2048 = 2047
  · by_cases hfraction : x.toBits.toNat % twoTo 52 = 0
    · simp [hfull, hfraction]
    · simp [hfull, hfraction]
  · by_cases hzero : x.toBits.toNat / twoTo 52 % 2048 = 0
    · simp [hzero]
    · simp [hfull, hzero]

/-- A packed double is not negative when its topmost bit is not set. -/
theorem unpackSign_eq_zero_iff (b : BitVec Format.binary64.numBits) :
    unpackSign b = 0#1 ↔ b.toNat < twoTo 63 := by
  have hlt : b.toNat < 2 ^ 64 := b.isLt
  have hsign : (unpackSign b).toNat = b.toNat / 2 ^ 63 % 2 := by
    show (b.extractLsb 63 63).toNat = _
    rw [BitVec.extractLsb_toNat, Nat.shiftRight_eq_div_pow]
  rw [← BitVec.toNat_inj, hsign]
  show b.toNat / 2 ^ 63 % 2 = 0 ↔ b.toNat < 2 ^ 63
  omega

/-- The mantissa of a normal double is its field with one more bit in front. -/
theorem toNat_normal (b : BitVec Format.binary64.numBits) :
    (1#1 ++ unpackMantissa b).toNat = twoTo 52 + b.toNat % twoTo 52 := by
  have hfield : (unpackMantissa b).toNat = b.toNat % twoTo 52 := by
    simp [unpackMantissa, BitVec.extractLsb_toNat, twoTo]
  rw [BitVec.toNat_append, ← Nat.shiftLeft_add_eq_or_of_lt (unpackMantissa b).isLt, hfield]
  rfl

/-- A double whose exponent field is neither empty nor full, taken apart by its bits. -/
theorem unpack_fields {b : BitVec Format.binary64.numBits} (hpos : 0 < exponentField b)
    (hlt : exponentField b < 2047) :
    ∃ h : 0 < twoTo 52 + b.toNat % twoTo 52,
      UnpackedFloat.unpack Format.binary64 b =
        .finite (if b.toNat < twoTo 63 then .positive else .negative)
          (twoTo 52 + b.toNat % twoTo 52) ((exponentField b : Int) - 1075) h := by
  have hfull : unpackExponent b ≠ -1#11 := fun h => by
    rw [exponentField, h] at hlt
    exact absurd hlt (by decide)
  have hempty : unpackExponent b ≠ 0#11 := fun h => by
    rw [exponentField, h] at hpos
    exact absurd hpos (by decide)
  have hmantissa := toNat_normal b
  have hsign : Sign.ofBitVec (unpackSign b) =
      if b.toNat < twoTo 63 then .positive else .negative := by
    unfold Sign.ofBitVec
    simp only [unpackSign_eq_zero_iff]
  have hm : 0 < (1#1 ++ unpackMantissa b).toNat := by
    rw [hmantissa]
    exact Nat.add_pos_left (twoTo_pos 52) _
  have hunpack : UnpackedFloat.unpack Format.binary64 b =
      .finite (.ofBitVec (unpackSign b)) (1#1 ++ unpackMantissa b).toNat
        ((exponentField b : Int) - 1075) hm := by
    unfold UnpackedFloat.unpack
    exact (if_neg hfull).trans (if_neg hempty)
  have hcongr {s t : Sign} {m n : Nat} (hs : s = t) (hn : m = n) (e : Int) (h : 0 < m) :
      UnpackedFloat.finite s m e h = .finite t n e (hn ▸ h) := by
    subst hs hn
    rfl
  exact ⟨hmantissa ▸ hm, hunpack.trans (hcongr hsign hmantissa _ hm)⟩

/-- A double whose exponent field is neither empty nor full is a mantissa of 53 bits with the
exponent of the field. -/
theorem unpack_normal {b : BitVec Format.binary64.numBits} (hpos : 0 < exponentField b)
    (hlt : exponentField b < 2047) :
    ∃ sign mantissa, ∃ h : 0 < mantissa,
      UnpackedFloat.unpack Format.binary64 b =
          .finite sign mantissa ((exponentField b : Int) - 1075) h ∧
        mantissa.log2 = 52 := by
  obtain ⟨h, hunpack⟩ := unpack_fields hpos hlt
  have hrest : b.toNat % twoTo 52 < twoTo 52 := Nat.mod_lt _ (twoTo_pos 52)
  refine ⟨_, _, h, hunpack, (Nat.log2_eq_iff (Nat.ne_of_gt h)).2 ⟨Nat.le_add_right .., ?_⟩⟩
  show _ < twoTo 53
  rw [twoTo_succ 52]
  omega

/-- A double with an empty exponent field is zero, or a mantissa of at most 52 bits with the least
exponent. -/
theorem unpack_subnormal {b : BitVec Format.binary64.numBits} (hzero : exponentField b = 0) :
    (∃ sign, UnpackedFloat.unpack Format.binary64 b = .zero sign) ∨
      ∃ sign mantissa, ∃ h : 0 < mantissa,
        UnpackedFloat.unpack Format.binary64 b = .finite sign mantissa (-1074) h ∧
          mantissa.log2 < 52 := by
  have hempty : unpackExponent b = 0#11 := BitVec.eq_of_toNat_eq hzero
  have hfull : unpackExponent b ≠ -1#11 := by
    rw [hempty]
    decide
  have hunpack : UnpackedFloat.unpack Format.binary64 b =
      if h : unpackMantissa b = 0#52 then .zero (.ofBitVec (unpackSign b))
      else .finite (.ofBitVec (unpackSign b)) (unpackMantissa b).toNat
        (-1074) (by simpa [BitVec.toNat_pos, BitVec.pos_iff_ne_zero]) := by
    unfold UnpackedFloat.unpack
    refine (if_neg hfull).trans ((if_pos hempty).trans ?_)
    rw [hempty]
    rfl
  by_cases hm : unpackMantissa b = 0#52
  · rw [hunpack, dif_pos hm]
    exact .inl ⟨_, rfl⟩
  · rw [hunpack, dif_neg hm]
    have hne : (unpackMantissa b).toNat ≠ 0 := fun h => hm (BitVec.eq_of_toNat_eq h)
    exact .inr ⟨_, _, _, rfl, (Nat.log2_lt hne).2 (unpackMantissa b).isLt⟩

/-! ### Doubles in the model -/

/-- A number that is not too large for a double. -/
def Fits : UnpackedFloat → Prop
  | .zero _ => True
  | .finite _ _ exponent _ => exponent ≤ 971
  | .infinity _ | .notANumber => False

/-- The parts of a double that is a number: zero, or a mantissa of at most 53 bits with an exponent
that is not too large. -/
theorem unpack_cases {x : Float} (h : isFiniteFloat x = true) :
    (∃ sign, x.toModel.unpack = .zero sign) ∨
      ∃ sign mantissa exponent, ∃ hpos : 0 < mantissa,
        x.toModel.unpack = .finite sign mantissa exponent hpos ∧
          mantissa.log2 ≤ 52 ∧ exponent ≤ 971 := by
  rw [isFiniteFloat_iff] at h
  have hbits := exponentField_lt x.toBits.toBitVec
  by_cases hzero : exponentField x.toBits.toBitVec = 0
  · rcases unpack_subnormal hzero with ⟨sign, hunpack⟩ | ⟨sign, mantissa, hpos, hunpack, hlog⟩
    · exact .inl ⟨sign, hunpack⟩
    · exact .inr ⟨sign, mantissa, _, hpos, hunpack, by omega, by decide⟩
  · have hpos : 0 < exponentField x.toBits.toBitVec := Nat.pos_of_ne_zero hzero
    have hlt : exponentField x.toBits.toBitVec < 2047 := by omega
    obtain ⟨sign, mantissa, hm, hunpack, hlog⟩ := unpack_normal hpos hlt
    exact .inr ⟨sign, mantissa, _, hm, hunpack, Nat.le_of_eq hlog, by omega⟩

theorem exponentField_packComponents (sign : Sign) (exponent : BitVec 11) (mantissa : BitVec 52) :
    exponentField (UnpackedFloat.packComponents Format.binary64 sign exponent mantissa) =
      exponent.toNat :=
  congrArg BitVec.toNat Float.Model.UnpackedFloat.unpackExponent_packComponents

/-- The exponent field of a packed number that fits is its exponent, or empty. -/
theorem exponentField_pack {sign : Sign} {mantissa : Nat} {exponent : Int} {h : 0 < mantissa}
    (hfits : exponent ≤ 971) :
    exponentField (UnpackedFloat.pack Format.binary64 (.finite sign mantissa exponent h)) =
      if mantissa.log2 = 52 then (exponent + 1075).toNat else 0 := by
  have hlt : (exponent + 1075).toNat < 2047 := by omega
  have hbias : (exponent + (Format.binary64.exponentBias : Int) +
      (Format.binary64.mantissaBitsWithoutImplicit : Int)).toNat = (exponent + 1075).toNat := by
    show (exponent + 1023 + 52).toNat = _
    omega
  have hroom : ¬2 ^ Format.binary64.exponentBits ≤ (exponent + 1075).toNat + 1 := by
    show ¬2048 ≤ (exponent + 1075).toNat + 1
    omega
  have hnormal : mantissa.log2 + 1 = Format.binary64.mantissaBits ↔ mantissa.log2 = 52 := by
    show mantissa.log2 + 1 = 53 ↔ _
    omega
  show exponentField (if 2 ^ Format.binary64.exponentBits ≤ _ + 1 then _
    else if mantissa.log2 + 1 = Format.binary64.mantissaBits then _ else _) = _
  rw [hbias, if_neg hroom]
  simp only [hnormal]
  split
  · rw [exponentField_packComponents, BitVec.toNat_ofNat]
    exact Nat.mod_eq_of_lt (by omega)
  · exact exponentField_packComponents _ _ _

/-- A number that fits is packed to a double that is a number. -/
theorem isFiniteFloat_pack {u : UnpackedFloat} (h : Fits u) :
    isFiniteFloat (.ofModel (.pack u)) = true := by
  rw [isFiniteFloat_iff]
  show exponentField (UnpackedFloat.pack Format.binary64 u) ≠ 2047
  cases u with
  | zero sign =>
    rw [show exponentField (UnpackedFloat.pack Format.binary64 (.zero sign)) = 0 from
      exponentField_packComponents _ _ _]
    decide
  | finite sign mantissa exponent hpos =>
    have hexponent : exponent ≤ 971 := h
    rw [exponentField_pack hexponent]
    split
    · omega
    · decide
  | infinity sign => exact h.elim
  | notANumber => exact h.elim

/-! ### Signs -/

/-- A number with the other sign is a number. -/
theorem isFiniteFloat_neg {x : Float} (h : isFiniteFloat x = true) :
    isFiniteFloat (-x) = true := by
  have hneg : -x = .ofModel (.pack x.toModel.unpack.neg) := rfl
  rw [hneg]
  apply isFiniteFloat_pack
  rcases unpack_cases h with ⟨sign, hunpack⟩ | ⟨sign, mantissa, exponent, hpos, hunpack, -, hle⟩
  · rw [hunpack]
    trivial
  · rw [hunpack]
    exact hle

/-! ### Rounding -/

theorem mantissa_shiftRight (em : ExtendedMantissa) : ∀ k : Nat,
    (em >>> k).mantissa = em.mantissa / 2 ^ k
  | 0 => (Nat.div_one _).symm
  | k + 1 => by
    have hstep : (em >>> (k + 1)).mantissa = (em >>> k).mantissa / 2 := rfl
    rw [hstep, mantissa_shiftRight em k, Nat.div_div_eq_div_mul, Nat.pow_succ]

/-- Rounding adds at most one to a mantissa. -/
theorem roundedMantissa_le (em : ExtendedMantissa) : em.roundedMantissa ≤ em.mantissa + 1 := by
  obtain ⟨mantissa, roundBit, stickyBit⟩ := em
  have hparity : mantissa % 2 < 2 := Nat.mod_lt _ (by decide)
  cases roundBit with
  | false =>
    cases stickyBit with
    | false => exact Nat.le_succ mantissa
    | true => exact Nat.le_succ mantissa
  | true =>
    cases stickyBit with
    | false =>
      show mantissa + mantissa % 2 ≤ mantissa + 1
      omega
    | true => exact Nat.le_refl _

/-- What is left of a mantissa that is shifted to an exponent. -/
theorem shiftToExponent_eq (mantissa : Nat) (exponent : Int) (accuracy : Accuracy) (target : Int) :
    (UnpackedFloat.shiftToExponent mantissa exponent accuracy target).1.mantissa =
        mantissa / 2 ^ (target - exponent).toNat ∧
      (UnpackedFloat.shiftToExponent mantissa exponent accuracy target).2 = max exponent target := by
  have hstart : (ExtendedMantissa.ofMantissaAndAccuracy mantissa accuracy).mantissa = mantissa := by
    cases accuracy with
    | exact => rfl
    | inexact relation => cases relation <;> rfl
  have hshift := mantissa_shiftRight (.ofMantissaAndAccuracy mantissa accuracy)
    (target - exponent).toNat
  rw [hstart] at hshift
  have hmoved : exponent + ((target - exponent).toNat : Int) = max exponent target := by omega
  exact ⟨hshift, hmoved⟩

/-- The exponent at which a number has a mantissa of 53 bits, or the least one. -/
def target (mantissa : Nat) (exponent : Int) : Int :=
  max (mantissa.log2 + 1 + exponent - 53) (-1074)

/-- A mantissa is shifted to at most 53 bits. -/
theorem shifted_lt (mantissa : Nat) (exponent : Int) :
    mantissa / 2 ^ (target mantissa exponent - exponent).toNat < 2 ^ 53 := by
  have hbits : mantissa.log2 + 1 ≤ 53 + (target mantissa exponent - exponent).toNat := by
    unfold target
    omega
  rw [Nat.div_lt_iff_lt_mul (Nat.two_pow_pos _), ← Nat.pow_add]
  calc mantissa < 2 ^ (mantissa.log2 + 1) := Nat.lt_log2_self
    _ ≤ 2 ^ (53 + (target mantissa exponent - exponent).toNat) :=
        Nat.pow_le_pow_right (by decide) hbits

/-- Rounding comes to a number that fits, if the number before it lies below half of the bound of
doubles. -/
theorem fits_roundWithAccuracy (sign : Sign) {mantissa : Nat} {exponent : Int} (accuracy : Accuracy)
    (hexponent : exponent ≤ 970) (htotal : mantissa.log2 + 1 + exponent ≤ 1023) :
    Fits (UnpackedFloat.roundWithAccuracy Format.binary64 sign mantissa exponent accuracy) := by
  generalize hfirst : UnpackedFloat.shiftToTargetExponent Format.binary64 mantissa exponent
    accuracy = first
  generalize hlast : UnpackedFloat.shiftToTargetExponent Format.binary64 first.1.roundedMantissa
    first.2 .exact = last
  have hround : UnpackedFloat.roundWithAccuracy Format.binary64 sign mantissa exponent accuracy =
      if h : last.1.mantissa = 0 then .zero sign
      else .finite sign last.1.mantissa last.2 (Nat.pos_of_ne_zero h) := by
    subst hfirst hlast
    rfl
  obtain ⟨hmantissa, hmoved⟩ := shiftToExponent_eq mantissa exponent accuracy
    (target mantissa exponent)
  have hshifted : UnpackedFloat.shiftToExponent mantissa exponent accuracy
    (target mantissa exponent) = first := hfirst
  rw [hshifted] at hmantissa hmoved
  -- rounding may need one more bit, which moves the exponent by one
  have hrounded : first.1.roundedMantissa.log2 ≤ 53 := by
    have hle := roundedMantissa_le first.1
    have hlt := shifted_lt mantissa exponent
    rw [← hmantissa] at hlt
    have hbound : first.1.roundedMantissa < 2 ^ 54 := by omega
    by_cases hzero : first.1.roundedMantissa = 0
    · rw [hzero]
      decide
    · exact Nat.le_of_lt_succ ((Nat.log2_lt hzero).2 hbound)
  have hend := (shiftToExponent_eq first.1.roundedMantissa first.2 .exact
    (target first.1.roundedMantissa first.2)).2
  have hshifted' : UnpackedFloat.shiftToExponent first.1.roundedMantissa first.2 .exact
    (target first.1.roundedMantissa first.2) = last := hlast
  rw [hshifted'] at hend
  have hfits : last.2 ≤ 971 := by
    rw [hend, hmoved]
    unfold target
    omega
  rw [hround]
  by_cases hzero : last.1.mantissa = 0
  · rw [dif_pos hzero]
    trivial
  · rw [dif_neg hzero]
    exact hfits

/-! ### Quotients -/

/-- The bits of a quotient of natural numbers. -/
theorem log2_quotient_le {m n k : Nat} (hn : 0 < n) (hpos : m <<< k / n ≠ 0) :
    (m <<< k / n).log2 + n.log2 ≤ m.log2 + k := by
  have hlt : 2 ^ ((m <<< k / n).log2 + n.log2) < 2 ^ (m.log2 + 1 + k) :=
    calc 2 ^ ((m <<< k / n).log2 + n.log2)
        = 2 ^ (m <<< k / n).log2 * 2 ^ n.log2 := Nat.pow_add ..
      _ ≤ m <<< k / n * n :=
          Nat.mul_le_mul (Nat.log2_self_le hpos) (Nat.log2_self_le (Nat.ne_of_gt hn))
      _ ≤ m <<< k := Nat.div_mul_le_self ..
      _ = m * 2 ^ k := Nat.shiftLeft_eq ..
      _ < 2 ^ (m.log2 + 1) * 2 ^ k :=
          Nat.mul_lt_mul_of_pos_right Nat.lt_log2_self (Nat.two_pow_pos k)
      _ = 2 ^ (m.log2 + 1 + k) := (Nat.pow_add ..).symm
  have hle := (Nat.pow_lt_pow_iff_right (by decide : 1 < 2)).1 hlt
  omega

/-- The quotient of a number by a number of at least two is a number. -/
theorem isFiniteFloat_div {x y : Float} (hx : isFiniteFloat x = true) {sign : Sign}
    {mantissa : Nat} {exponent : Int} {hpos : 0 < mantissa}
    (hy : y.toModel.unpack = .finite sign mantissa exponent hpos)
    (htwo : 2 ≤ mantissa.log2 + 1 + exponent) : isFiniteFloat (x / y) = true := by
  have hdiv : x / y =
      .ofModel (.pack (UnpackedFloat.div Format.binary64 x.toModel.unpack y.toModel.unpack)) := rfl
  rw [hdiv, hy]
  apply isFiniteFloat_pack
  rcases unpack_cases hx with ⟨s, hunpack⟩ | ⟨s, m, e, hm, hunpack, hlog, hle⟩
  · rw [hunpack]
    trivial
  · rw [hunpack]
    -- the divisor is at least two, so the quotient is below half of the bound before it is rounded
    generalize htotal : (m.log2 + 1 + e : Int) - (mantissa.log2 + 1 + exponent) = total
    generalize hlast : min (e - exponent) (max (total - 53) (-1074)) = last
    generalize hshift : (e - exponent - last).toNat = shift
    have hquotient : UnpackedFloat.div Format.binary64 (.finite s m e hm)
        (.finite sign mantissa exponent hpos) =
          UnpackedFloat.roundWithAccuracy Format.binary64 (s / sign) (m <<< shift / mantissa) last
            (UnpackedFloat.accuracyOfFraction (m <<< shift % mantissa) mantissa) := by
      subst htotal hlast hshift
      rfl
    rw [hquotient]
    apply fits_roundWithAccuracy
    · omega
    · by_cases hzero : m <<< shift / mantissa = 0
      · rw [hzero]
        have hnone : Nat.log2 0 = 0 := by decide
        omega
      · have hbits := log2_quotient_le hpos hzero
        omega

/-! ### Nearest doubles -/

/-- The exponent field of bits that are no infinity is kept. -/
theorem exponentField_ofBits {b : UInt64} (h : exponentField b.toBitVec < 2047) :
    exponentField (Float.ofBits b).toBits.toBitVec = exponentField b.toBitVec := by
  have hbits : (Float.ofBits b).toBits.toBitVec =
      UnpackedFloat.pack Format.binary64 (UnpackedFloat.unpack Format.binary64 b.toBitVec) := rfl
  rw [hbits]
  by_cases hzero : exponentField b.toBitVec = 0
  · rw [hzero]
    rcases unpack_subnormal hzero with ⟨sign, hunpack⟩ | ⟨sign, mantissa, hpos, hunpack, hlog⟩
    · rw [hunpack]
      exact exponentField_packComponents _ _ _
    · rw [hunpack, exponentField_pack (by decide), if_neg (Nat.ne_of_lt hlog)]
  · obtain ⟨sign, mantissa, hpos, hunpack, hlog⟩ := unpack_normal (Nat.pos_of_ne_zero hzero) h
    rw [hunpack, exponentField_pack (by omega), if_pos hlog]
    omega

/-- The number of the fractions that a double has room for. -/
theorem fractions_eq : twoTo 52 = 2 ^ 52 := rfl

/-- The sign of a nearest double does not touch its exponent field. -/
theorem exponentField_nearestFloat (negative : Bool) {num den : Nat}
    (h : nearestBits num den < 2047 * twoTo 52) :
    exponentField (nearestFloat negative num den).toBits.toBitVec =
      nearestBits num den / twoTo 52 := by
  have hsign : twoTo 63 = 2 ^ 63 := rfl
  rw [fractions_eq] at h ⊢
  have hfield : exponentField
      (UInt64.ofNat (nearestBits num den + if negative then twoTo 63 else 0)).toBitVec =
        nearestBits num den / 2 ^ 52 := by
    rw [exponentField_eq, fractions_eq]
    show (nearestBits num den + if negative then twoTo 63 else 0) % 2 ^ 64 / 2 ^ 52 % 2048 = _
    cases negative <;> simp only [Bool.false_eq_true, if_true, if_false] <;> omega
  rw [nearestFloat, exponentField_ofBits, hfield]
  rw [hfield]
  omega

/-- A nearest double is a number, if its bits stay below those of infinity. -/
theorem isFiniteFloat_nearestFloat (negative : Bool) {num den : Nat}
    (h : nearestBits num den < 2047 * twoTo 52) :
    isFiniteFloat (nearestFloat negative num den) = true := by
  rw [isFiniteFloat_iff, exponentField_nearestFloat negative h]
  exact Nat.ne_of_lt (Nat.div_lt_of_lt_mul (Nat.mul_comm .. ▸ h))

/-- The powers of ten up to the greatest one below infinity, as doubles: none is below two. -/
theorem nearestBits_tenTo : ∀ n < 309, 0 < n →
    1024 * twoTo 52 ≤ nearestBits (tenTo n) 1 ∧ nearestBits (tenTo n) 1 < 2047 * twoTo 52 := by
  decide +kernel

/-- A number divided by a power of ten is a number. -/
theorem isFiniteFloat_div_powerOfTen {x : Float} (hx : isFiniteFloat x = true) {n : Nat}
    (hpos : 0 < n) (hn : n ≤ 308) : isFiniteFloat (x / powerOfTen n) = true := by
  obtain ⟨hlow, hhigh⟩ := nearestBits_tenTo n (by omega) hpos
  have hfield : exponentField (powerOfTen n).toBits.toBitVec = nearestBits (tenTo n) 1 / twoTo 52 :=
    exponentField_nearestFloat false hhigh
  rw [fractions_eq] at hlow hhigh hfield
  obtain ⟨sign, mantissa, hm, hunpack, hlog⟩ :=
    unpack_normal (b := (powerOfTen n).toBits.toBitVec) (by omega) (by omega)
  exact isFiniteFloat_div hx hunpack (by omega)

/-! ### Nearest doubles of integers -/

theorem floorLog2_integer {n : Nat} :
    (n.log2 : Int) - 1 ≤ floorLog2 n 1 ∧ floorLog2 n 1 ≤ n.log2 := by
  have hone : Nat.log2 1 = 0 := by decide
  simp only [floorLog2, hone]
  split <;> omega

/-- A shift that leaves about 53 bits of an integer, rounded. -/
theorem roundShifted_integer_le {n : Nat} {shift : Int} (hlow : (n.log2 : Int) - 53 ≤ shift) :
    roundShifted n 1 shift ≤ 2 ^ 54 := by
  unfold roundShifted
  split
  · next hneg =>
    have hfew : n.log2 + 1 + (-shift).toNat ≤ 54 := by omega
    have hwhole : roundQuotient (n * twoTo (-shift).toNat) 1 = n * twoTo (-shift).toNat := by
      simpa using roundQuotient_mul (n * twoTo (-shift).toNat) Nat.one_pos
    rw [hwhole]
    calc n * 2 ^ (-shift).toNat
        ≤ 2 ^ (n.log2 + 1) * 2 ^ (-shift).toNat :=
          Nat.mul_le_mul_right _ (Nat.le_of_lt Nat.lt_log2_self)
      _ = 2 ^ (n.log2 + 1 + (-shift).toNat) := (Nat.pow_add ..).symm
      _ ≤ 2 ^ 54 := Nat.pow_le_pow_right (by decide) hfew
  · next hneg =>
    have hfew : n.log2 + 1 ≤ 54 + shift.toNat := by omega
    have hlt : n < 2 ^ 54 * twoTo shift.toNat :=
      calc n < 2 ^ (n.log2 + 1) := Nat.lt_log2_self
        _ ≤ 2 ^ (54 + shift.toNat) := Nat.pow_le_pow_right (by decide) hfew
        _ = 2 ^ 54 * twoTo shift.toNat := Nat.pow_add ..
    have hquotient : n / twoTo shift.toNat < 2 ^ 54 :=
      (Nat.div_lt_iff_lt_mul (twoTo_pos _)).2 hlt
    rw [Nat.one_mul, roundQuotient]
    split
    · omega
    · split
      · omega
      · split <;> omega

/-- The nearest double of an integer of at most 65 bits stays below infinity. -/
theorem nearestBits_integer_lt {n : Nat} (h : n.log2 ≤ 64) :
    nearestBits n 1 < 2047 * twoTo 52 := by
  by_cases hzero : n = 0
  · rw [hzero]
    decide
  · obtain ⟨hlow, hhigh⟩ := floorLog2_integer (n := n)
    have hleast : leastExponent = -1074 := rfl
    generalize hexponent : max (floorLog2 n 1 - 52) leastExponent = exponent
    have hbits : nearestBits n 1 =
        min ((exponent - leastExponent).toNat * twoTo 52 + roundShifted n 1 exponent)
          (2047 * twoTo 52) := by
      subst hexponent
      exact if_neg hzero
    have hmantissa : roundShifted n 1 exponent ≤ 2 ^ 54 := roundShifted_integer_le (by omega)
    have hfew : (exponent - leastExponent).toNat ≤ 1086 := by omega
    rw [hbits, fractions_eq]
    omega

/-- The nearest double of an integer of 64 bits is a number. -/
theorem isFiniteFloat_floatOfInt {n : Int} (h : n.natAbs ≤ twoTo 64) :
    isFiniteFloat (floatOfInt n) = true := by
  have hbound : n.natAbs < 2 ^ 65 := Nat.lt_of_le_of_lt h (by decide)
  have hbits : n.natAbs.log2 ≤ 64 := by
    by_cases hzero : n.natAbs = 0
    · rw [hzero]
      decide
    · exact Nat.le_of_lt_succ ((Nat.log2_lt hzero).2 hbound)
  exact isFiniteFloat_nearestFloat _ (nearestBits_integer_lt hbits)

end Gleaner.Number
