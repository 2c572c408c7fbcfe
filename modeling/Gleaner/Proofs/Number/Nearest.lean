/-
# Integers as doubles

The double nearest to an integer stands for the integer rounded to 53 binary digits, where a half
goes to the even neighbour. No double stands for an integer that lies nearer, rounding keeps the
order, and up to 2^53 it changes nothing. Counted in units of the least positive double, the bits of
doubles count up as the doubles do; so two integers, read as doubles, stand to each other as they
do when they are rounded.

Not covered: integers of more than 65 bits, and doubles with a part behind the point. That bits stay
as they are when a double is taken apart and packed again is `Float.Model.UnpackedFloat.pack_unpack`,
which no single module of Mathlib brings along.

Key definitions: `roundedNat`, `rounded`, `IsDouble`, `unitsOf`.
Key theorems: `isDouble_rounded`, `rounded_nearest`, `rounded_of_le`, `rounded_mono`, `rounded_ne`,
`unitsOf_strictMono`, `unitsOf_nearestBits`, `orderOfFloats?_floatOfInt`.
-/
import Gleaner.Proofs.Number.Finite
import Gleaner.Proofs.Number.Order
import Mathlib

namespace Gleaner.Number

open Float.Model (Format UnpackedFloat)
open Float.Model.UnpackedFloat (Sign unpackExponent)

/-! ### Rounding to 53 binary digits -/

theorem roundQuotient_mono {num num' : Nat} (den : Nat) (h : num ≤ num') :
    roundQuotient num den ≤ roundQuotient num' den := by
  have hdiv : num / den ≤ num' / den := Nat.div_le_div_right h
  rcases Nat.lt_or_eq_of_le hdiv with hlt | heq
  · have hup : roundQuotient num den ≤ num / den + 1 := by
      unfold roundQuotient
      dsimp only
      split_ifs <;> omega
    have hdown : num' / den ≤ roundQuotient num' den := by
      unfold roundQuotient
      dsimp only
      split_ifs <;> omega
    omega
  · have hrest : num % den ≤ num' % den := by
      have hnum := Nat.div_add_mod num den
      have hnum' := Nat.div_add_mod num' den
      rw [heq] at hnum
      omega
    unfold roundQuotient
    dsimp only
    rw [heq]
    split_ifs <;> omega

/-- No multiple of the denominator lies nearer than the rounded quotient. -/
theorem roundQuotient_nearest (num q : Nat) {den : Nat} (h : 0 < den) :
    |((roundQuotient num den * den : Nat) : Int) - num| ≤ |((q * den : Nat) : Int) - num| := by
  have hup := two_mul_roundQuotient_le num h
  have hdown := le_two_mul_roundQuotient num h
  generalize roundQuotient num den = r at *
  rcases Nat.lt_trichotomy q r with hlt | rfl | hgt
  · have hstep : (q + 1) * den ≤ r * den := Nat.mul_le_mul_right _ hlt
    rw [Nat.add_mul] at hstep
    rw [abs_le]
    have := neg_le_abs (((q * den : Nat) : Int) - num)
    omega
  · exact le_refl _
  · have hstep : (r + 1) * den ≤ q * den := Nat.mul_le_mul_right _ hgt
    rw [Nat.add_mul] at hstep
    rw [abs_le]
    have := le_abs_self (((q * den : Nat) : Int) - num)
    omega

/-- The weight of the last of 53 binary digits of a natural number, or one if it has fewer. -/
def lastWeight (n : Nat) : Nat :=
  twoTo (n.log2 - 52)

/-- A natural number rounded to 53 binary digits; a half goes to the even neighbour. -/
def roundedNat (n : Nat) : Nat :=
  roundQuotient n (lastWeight n) * lastWeight n

/-- An integer rounded to 53 binary digits. -/
def rounded (n : Int) : Int :=
  if n < 0 then -(roundedNat n.natAbs : Int) else roundedNat n.natAbs

theorem lastWeight_pos (n : Nat) : 0 < lastWeight n :=
  twoTo_pos _

theorem lastWeight_dvd {n k : Nat} (h : n.log2 ≤ k + 52) : lastWeight n ∣ twoTo k :=
  Nat.pow_dvd_pow 2 (by omega)

/-- What is a multiple of the last weight is not changed. -/
theorem roundedNat_eq_self {n : Nat} (h : lastWeight n ∣ n) : roundedNat n = n := by
  obtain ⟨q, hq⟩ := h
  have hn : n = q * lastWeight n := by rw [Nat.mul_comm]; exact hq
  have hround := roundQuotient_mul q (lastWeight_pos n)
  rw [← hn] at hround
  rw [roundedNat, hround, ← hn]

theorem roundedNat_of_le {n : Nat} (h : n ≤ twoTo 53) : roundedNat n = n := by
  apply roundedNat_eq_self
  by_cases hzero : n = 0
  · exact hzero ▸ Nat.dvd_zero _
  rcases Nat.lt_or_eq_of_le h with hlt | rfl
  · have hlog : n.log2 < 53 := (Nat.log2_lt hzero).2 hlt
    have hone : lastWeight n = 1 := by
      rw [lastWeight, show n.log2 - 52 = 0 by omega]
      rfl
    rw [hone]
    exact Nat.one_dvd n
  · exact lastWeight_dvd (by decide)

/-- Rounding does not come over a multiple of the last weight. -/
theorem roundedNat_mem {n low high : Nat} (hlow : lastWeight n ∣ low) (hhigh : lastWeight n ∣ high)
    (hle : low ≤ n) (hge : n ≤ high) : low ≤ roundedNat n ∧ roundedNat n ≤ high := by
  obtain ⟨l, rfl⟩ := hlow
  obtain ⟨h, rfl⟩ := hhigh
  have hl := roundQuotient_mono (lastWeight n) hle
  have hh := roundQuotient_mono (lastWeight n) hge
  rw [Nat.mul_comm, roundQuotient_mul l (lastWeight_pos n)] at hl
  rw [Nat.mul_comm (lastWeight n) h, roundQuotient_mul h (lastWeight_pos n)] at hh
  rw [roundedNat, Nat.mul_comm (lastWeight n) l, Nat.mul_comm (lastWeight n) h]
  exact ⟨Nat.mul_le_mul_right _ hl, Nat.mul_le_mul_right _ hh⟩

/-- A rounded number lies between the same powers of two. -/
theorem roundedNat_log2 {n : Nat} (hn : n ≠ 0) :
    twoTo n.log2 ≤ roundedNat n ∧ roundedNat n ≤ twoTo (n.log2 + 1) :=
  roundedNat_mem (lastWeight_dvd (by omega)) (lastWeight_dvd (by omega)) (Nat.log2_self_le hn)
    (Nat.le_of_lt Nat.lt_log2_self)

theorem roundedNat_pos {n : Nat} (h : n ≠ 0) : 0 < roundedNat n :=
  Nat.lt_of_lt_of_le (twoTo_pos _) (roundedNat_log2 h).1

theorem roundedNat_mono {m n : Nat} (h : m ≤ n) : roundedNat m ≤ roundedNat n := by
  by_cases hm : m = 0
  · have hzero : roundedNat m = 0 := by rw [hm]; exact roundedNat_of_le (Nat.zero_le _)
    rw [hzero]
    exact Nat.zero_le _
  have hn : n ≠ 0 := by omega
  have hlog : m.log2 ≤ n.log2 := by
    have hpow : 2 ^ m.log2 < 2 ^ (n.log2 + 1) :=
      Nat.lt_of_le_of_lt (Nat.le_trans (Nat.log2_self_le hm) h) Nat.lt_log2_self
    exact Nat.le_of_lt_succ ((Nat.pow_lt_pow_iff_right (by decide)).1 hpow)
  rcases Nat.lt_or_eq_of_le hlog with hlt | heq
  · calc roundedNat m ≤ twoTo (m.log2 + 1) := (roundedNat_log2 hm).2
      _ ≤ twoTo n.log2 := twoTo_le_twoTo hlt
      _ ≤ roundedNat n := (roundedNat_log2 hn).1
  · have hweight : lastWeight m = lastWeight n := by rw [lastWeight, lastWeight, heq]
    rw [roundedNat, roundedNat, hweight]
    exact Nat.mul_le_mul_right _ (roundQuotient_mono _ h)

/-! ### The nearest integer that a double stands for -/

/-- An integer that a double stands for: at most 53 binary digits, and a power of two. -/
def IsDouble (n : Int) : Prop :=
  ∃ mantissa exponent : Nat, mantissa ≤ twoTo 53 ∧ n.natAbs = mantissa * twoTo exponent

/-- No number of 53 binary digits and a power of two lies nearer than the rounded one. -/
theorem roundedNat_nearest (n : Nat) {mantissa : Nat} (h : mantissa ≤ twoTo 53) (exponent : Nat) :
    |(roundedNat n : Int) - n| ≤ |((mantissa * twoTo exponent : Nat) : Int) - n| := by
  have hmultiple {d : Nat} (hd : lastWeight n ∣ d) : |(roundedNat n : Int) - n| ≤ |(d : Int) - n| := by
    obtain ⟨q, rfl⟩ := hd
    rw [Nat.mul_comm]
    exact roundQuotient_nearest n q (lastWeight_pos n)
  by_cases hcoarse : n.log2 ≤ exponent + 52
  · exact hmultiple ((lastWeight_dvd hcoarse).mul_left mantissa)
  · -- a finer number has fewer digits than `n`, so it lies below the greatest power of two in `n`
    have hn : n ≠ 0 := by
      rintro rfl
      exact hcoarse (Nat.zero_le _)
    have hpower : twoTo n.log2 ≤ n := Nat.log2_self_le hn
    have hbelow : mantissa * twoTo exponent ≤ twoTo n.log2 :=
      calc mantissa * twoTo exponent ≤ twoTo 53 * twoTo exponent := Nat.mul_le_mul_right _ h
        _ = twoTo (53 + exponent) := (twoTo_add 53 exponent).symm
        _ ≤ twoTo n.log2 := twoTo_le_twoTo (by omega)
    refine (hmultiple (lastWeight_dvd (k := n.log2) (by omega))).trans ?_
    rw [abs_of_nonpos (by omega), abs_of_nonpos (by omega)]
    omega

theorem natAbs_rounded (n : Int) : (rounded n).natAbs = roundedNat n.natAbs := by
  unfold rounded
  split_ifs <;> simp

/-- A double stands for a rounded integer. -/
theorem isDouble_rounded (n : Int) : IsDouble (rounded n) := by
  refine ⟨roundQuotient n.natAbs (lastWeight n.natAbs), n.natAbs.log2 - 52, ?_, natAbs_rounded n⟩
  generalize n.natAbs = m
  have htop : m ≤ twoTo 53 * lastWeight m := by
    rw [lastWeight, ← twoTo_add]
    exact Nat.le_of_lt (Nat.lt_of_lt_of_le Nat.lt_log2_self (twoTo_le_twoTo (by omega)))
  have hround := roundQuotient_mono (lastWeight m) htop
  rwa [roundQuotient_mul _ (lastWeight_pos m)] at hround

/-- No integer that a double stands for lies nearer than the rounded one. -/
theorem rounded_nearest (n : Int) {d : Int} (h : IsDouble d) : |rounded n - n| ≤ |d - n| := by
  obtain ⟨mantissa, exponent, hmantissa, hd⟩ := h
  have hnearest := roundedNat_nearest n.natAbs hmantissa exponent
  rw [← hd] at hnearest
  have hsize : |rounded n - n| = |(roundedNat n.natAbs : Int) - n.natAbs| := by
    unfold rounded
    split_ifs with hneg
    · rw [← abs_neg]
      congr 1
      omega
    · congr 1
      omega
  have hback : |((d.natAbs : Nat) : Int) - n.natAbs| ≤ |d - n| := by
    rw [Int.natCast_natAbs, Int.natCast_natAbs]
    exact abs_abs_sub_abs_le d n
  rw [hsize]
  exact hnearest.trans hback

theorem rounded_of_le {n : Int} (h : n.natAbs ≤ twoTo 53) : rounded n = n := by
  unfold rounded
  rw [roundedNat_of_le h]
  split_ifs <;> omega

theorem rounded_mono {a b : Int} (h : a ≤ b) : rounded a ≤ rounded b := by
  unfold rounded
  split_ifs with ha hb hb
  · have := roundedNat_mono (m := b.natAbs) (n := a.natAbs) (by omega)
    omega
  · omega
  · omega
  · have := roundedNat_mono (m := a.natAbs) (n := b.natAbs) (by omega)
    omega

/-- What lies strictly between -2^53 and 2^53 is rounded to what no other integer is. -/
theorem rounded_ne {a b : Int} (hne : a ≠ b) (h : a.natAbs < twoTo 53) : rounded a ≠ rounded b := by
  have hself : rounded a = a := rounded_of_le (Nat.le_of_lt h)
  rcases Int.lt_or_gt_of_ne hne with hlt | hgt
  · have hnext : rounded (a + 1) = a + 1 := rounded_of_le (by omega)
    have hle := rounded_mono (show a + 1 ≤ b by omega)
    omega
  · have hprevious : rounded (a - 1) = a - 1 := rounded_of_le (by omega)
    have hle := rounded_mono (show b ≤ a - 1 by omega)
    omega

/-! ### Doubles in units of the least one -/

/-- A double without a sign, by its bits, in units of the least positive one. -/
def unitsOf (bits : Nat) : Nat :=
  if bits < twoTo 52 then bits else (twoTo 52 + bits % twoTo 52) * twoTo (bits / twoTo 52 - 1)

/-- The units of a mantissa of 53 binary digits above an exponent field. -/
theorem unitsOf_mantissa {mantissa field : Nat} (hlow : twoTo 52 ≤ mantissa)
    (hhigh : mantissa ≤ twoTo 53) :
    unitsOf (field * twoTo 52 + mantissa) = mantissa * twoTo field := by
  have hpos : 0 < twoTo 52 := twoTo_pos 52
  have hdouble : twoTo 53 = twoTo 52 * 2 := twoTo_succ 52
  have hnormal : ¬field * twoTo 52 + mantissa < twoTo 52 := by
    have := Nat.zero_le (field * twoTo 52)
    omega
  rw [unitsOf, if_neg hnormal]
  rcases Nat.lt_or_eq_of_le hhigh with hlt | rfl
  · obtain ⟨fraction, rfl⟩ := Nat.exists_eq_add_of_le hlow
    have hfraction : fraction < twoTo 52 := by omega
    have hbits : field * twoTo 52 + (twoTo 52 + fraction) = fraction + twoTo 52 * (field + 1) := by
      ring
    rw [hbits, Nat.add_mul_mod_self_left, Nat.mod_eq_of_lt hfraction,
      Nat.add_mul_div_left _ _ hpos, Nat.div_eq_of_lt hfraction]
    congr 2
    omega
  · have hbits : field * twoTo 52 + twoTo 53 = 0 + twoTo 52 * (field + 2) := by
      rw [hdouble]
      ring
    rw [hbits, Nat.add_mul_mod_self_left, Nat.add_mul_div_left _ _ hpos, Nat.zero_mod, Nat.zero_div,
      show 0 + (field + 2) - 1 = field + 1 by omega, twoTo_succ field, hdouble]
    ring

/-- The bits of doubles count up as the doubles do. -/
theorem unitsOf_strictMono : StrictMono unitsOf := by
  apply strictMono_nat_of_lt_succ
  intro bits
  have hpos : 0 < twoTo 52 := twoTo_pos 52
  have hdouble : twoTo 53 = twoTo 52 * 2 := twoTo_succ 52
  by_cases hsmall : bits + 1 ≤ twoTo 52
  · have hbits : unitsOf bits = bits := if_pos hsmall
    have hnext : unitsOf (bits + 1) = bits + 1 := by
      rcases Nat.lt_or_eq_of_le hsmall with hlt | heq
      · exact if_pos hlt
      · have hfirst := @unitsOf_mantissa _ 0 (Nat.le_refl (twoTo 52)) (by omega)
        rw [heq]
        simpa using hfirst
    omega
  · -- the mantissa grows by one, also where it then has 54 binary digits
    obtain ⟨field, hfield⟩ : ∃ field, bits / twoTo 52 = field + 1 :=
      Nat.exists_eq_add_one.2 (Nat.div_pos (by omega) hpos)
    have hparts : bits = field * twoTo 52 + (twoTo 52 + bits % twoTo 52) := by
      have hdiv := Nat.div_add_mod bits (twoTo 52)
      rw [hfield] at hdiv
      linarith
    have hrest : bits % twoTo 52 < twoTo 52 := Nat.mod_lt _ hpos
    generalize bits % twoTo 52 = fraction at hparts hrest
    have hnext : bits + 1 = field * twoTo 52 + (twoTo 52 + fraction + 1) := by omega
    rw [hnext, hparts, unitsOf_mantissa (by omega) (by omega),
      unitsOf_mantissa (by omega) (by omega)]
    exact Nat.mul_lt_mul_of_pos_right (Nat.lt_succ_self _) (twoTo_pos _)

/-! ### Nearest doubles of integers -/

theorem floorLog2_integer_eq {n : Nat} (hn : n ≠ 0) : floorLog2 n 1 = n.log2 := by
  have hone : Nat.log2 1 = 0 := by decide
  have hguess : ¬(n.log2 : Int) < 0 := by omega
  have hreached : 1 * twoTo n.log2 ≤ n := by
    rw [Nat.one_mul]
    exact Nat.log2_self_le hn
  simp only [floorLog2, hone, Nat.cast_zero, sub_zero, if_neg hguess, Int.toNat_natCast, hreached,
    decide_true, if_true]

/-- The mantissa of an integer, with its weight, is the rounded integer. -/
theorem roundShifted_integer (n : Nat) :
    roundShifted n 1 ((n.log2 : Int) - 52) * twoTo n.log2 = roundedNat n * twoTo 52 := by
  unfold roundShifted
  by_cases hshort : n.log2 < 52
  · have hshift : (-((n.log2 : Int) - 52)).toNat = 52 - n.log2 := by omega
    have hexact : roundQuotient (n * twoTo (52 - n.log2)) 1 = n * twoTo (52 - n.log2) := by
      simpa using roundQuotient_mul (n * twoTo (52 - n.log2)) Nat.one_pos
    have hround : roundedNat n = n := by
      have hlt : n < twoTo (n.log2 + 1) := Nat.lt_log2_self
      exact roundedNat_of_le (Nat.le_trans (Nat.le_of_lt hlt) (twoTo_le_twoTo (by omega)))
    rw [if_pos (by omega), hshift, hexact, hround, Nat.mul_assoc]
    congr 1
    rw [← twoTo_add, Nat.sub_add_cancel (by omega)]
  · have hshift : ((n.log2 : Int) - 52).toNat = n.log2 - 52 := by omega
    rw [if_neg (by omega), hshift, Nat.one_mul, roundedNat, lastWeight, Nat.mul_assoc]
    congr 1
    rw [← twoTo_add, Nat.sub_add_cancel (by omega)]

/-- The nearest double of an integer of at most 65 bits is the rounded integer. -/
theorem unitsOf_nearestBits {n : Nat} (h : n.log2 ≤ 64) :
    unitsOf (nearestBits n 1) = roundedNat n * twoTo 1074 := by
  by_cases hn : n = 0
  · rw [hn, roundedNat_of_le (Nat.zero_le _), Nat.zero_mul]
    rfl
  have hmantissa := roundShifted_integer n
  obtain ⟨hlow, hhigh⟩ := roundedNat_log2 hn
  have hpos : 0 < twoTo n.log2 := twoTo_pos _
  generalize hM : roundShifted n 1 ((n.log2 : Int) - 52) = mantissa at hmantissa
  have hleast : twoTo 52 ≤ mantissa := by
    refine Nat.le_of_mul_le_mul_right ?_ hpos
    rw [hmantissa, Nat.mul_comm (twoTo 52)]
    exact Nat.mul_le_mul_right _ hlow
  have hmost : mantissa ≤ twoTo 53 := by
    refine Nat.le_of_mul_le_mul_right ?_ hpos
    calc mantissa * twoTo n.log2 = roundedNat n * twoTo 52 := hmantissa
      _ ≤ twoTo (n.log2 + 1) * twoTo 52 := Nat.mul_le_mul_right _ hhigh
      _ = twoTo 53 * twoTo n.log2 := by
        rw [← twoTo_add, ← twoTo_add]
        congr 1
        omega
  have hexponent : max (floorLog2 n 1 - 52) leastExponent = (n.log2 : Int) - 52 := by
    rw [floorLog2_integer_eq hn, leastExponent]
    omega
  have hfield : ((n.log2 : Int) - 52 - leastExponent).toNat = n.log2 + 1022 := by
    rw [leastExponent]
    omega
  have hbits : nearestBits n 1 = (n.log2 + 1022) * twoTo 52 + mantissa := by
    have hfinite : (n.log2 + 1022) * twoTo 52 + mantissa ≤ 2047 * twoTo 52 := by
      have hdouble : twoTo 53 = twoTo 52 * 2 := twoTo_succ 52
      have hfew : (n.log2 + 1022) * twoTo 52 ≤ 1086 * twoTo 52 := Nat.mul_le_mul_right _ (by omega)
      omega
    unfold nearestBits
    dsimp only
    rw [if_neg hn, hexponent, hM, hfield, Nat.min_eq_left hfinite]
  calc unitsOf (nearestBits n 1) = mantissa * twoTo (n.log2 + 1022) := by
        rw [hbits, unitsOf_mantissa hleast hmost]
    _ = mantissa * twoTo n.log2 * twoTo 1022 := by rw [twoTo_add, Nat.mul_assoc]
    _ = roundedNat n * twoTo 1074 := by rw [hmantissa, Nat.mul_assoc, ← twoTo_add]

/-- The bits of the nearest double of a positive integer: the exponent field in them is neither
empty nor full. -/
theorem nearestBits_integer_mem {n : Nat} (hn : n ≠ 0) (h : n.log2 ≤ 64) :
    twoTo 52 ≤ nearestBits n 1 ∧ nearestBits n 1 < 2047 * twoTo 52 := by
  refine ⟨?_, nearestBits_integer_lt h⟩
  by_contra hsmall
  have hunits := unitsOf_nearestBits h
  rw [unitsOf, if_pos (by omega)] at hunits
  have hlarge : twoTo 52 ≤ roundedNat n * twoTo 1074 :=
    calc twoTo 52 ≤ twoTo 1074 := twoTo_le_twoTo (by decide)
      _ ≤ roundedNat n * twoTo 1074 := Nat.le_mul_of_pos_left _ (roundedNat_pos hn)
  omega

/-! ### Doubles by their bits -/

/-- Bits that stand for a number stay as they are when they become a double. -/
theorem unpack_ofBits {b : UInt64} (h : exponentField b.toBitVec < 2047) :
    (Float.ofBits b).toModel.unpack = UnpackedFloat.unpack Format.binary64 b.toBitVec := by
  have hnan : @UnpackedFloat.isNaNBits Format.binary64 b.toBitVec = false := by
    have hfull : @unpackExponent Format.binary64 b.toBitVec ≠ -1#11 := fun heq => by
      rw [exponentField, heq] at h
      exact absurd h (by decide)
    unfold UnpackedFloat.isNaNBits
    rw [decide_eq_false_iff_not]
    exact fun hboth => hfull hboth.1
  show UnpackedFloat.unpack Format.binary64
    (UnpackedFloat.pack Format.binary64 (UnpackedFloat.unpack Format.binary64 b.toBitVec)) = _
  rw [UnpackedFloat.pack_unpack, hnan]
  rfl

/-- A double that is neither too small nor too large, by its sign and its bits, taken apart. -/
theorem unpack_signedBits (negative : Bool) {bits : Nat} (hlow : twoTo 52 ≤ bits)
    (hhigh : bits < 2047 * twoTo 52) :
    ∃ hpos : 0 < twoTo 52 + bits % twoTo 52,
      (Float.ofBits (UInt64.ofNat (bits + if negative then twoTo 63 else 0))).toModel.unpack =
        .finite (if negative then .negative else .positive) (twoTo 52 + bits % twoTo 52)
          ((bits / twoTo 52 : Nat) - 1075 : Int) hpos := by
  generalize hb : UInt64.ofNat (bits + if negative then twoTo 63 else 0) = b
  have hbits : b.toBitVec.toNat = (bits + if negative then twoTo 63 else 0) % 2 ^ 64 := by
    subst hb
    rfl
  obtain ⟨hfield, hrest, hsign⟩ : b.toBitVec.toNat / twoTo 52 % 2048 = bits / twoTo 52 ∧
      b.toBitVec.toNat % twoTo 52 = bits % twoTo 52 ∧
        (b.toBitVec.toNat < twoTo 63 ↔ negative = false) := by
    have hfraction : twoTo 52 = 2 ^ 52 := rfl
    have htop : twoTo 63 = 2 ^ 63 := rfl
    rw [hfraction] at hlow hhigh ⊢
    rw [hbits, htop]
    cases negative with
    | false => simp only [Bool.false_eq_true, if_false, iff_true]; omega
    | true => simp only [if_true, reduceCtorEq, iff_false]; omega
  rw [← exponentField_eq] at hfield
  have hfinite : exponentField b.toBitVec < 2047 := by
    rw [hfield]
    exact Nat.div_lt_of_lt_mul (Nat.mul_comm .. ▸ hhigh)
  have hnormal : 0 < exponentField b.toBitVec := by
    rw [hfield]
    exact Nat.div_pos hlow (twoTo_pos 52)
  obtain ⟨hpos, hunpack⟩ := unpack_fields hnormal hfinite
  refine ⟨hrest ▸ hpos, ?_⟩
  have hnegative : (if b.toBitVec.toNat < twoTo 63 then Sign.positive else .negative) =
      if negative then .negative else .positive := by
    simp only [hsign]
    cases negative <;> rfl
  rw [unpack_ofBits hfinite, hunpack]
  simp only [hrest, hnegative, hfield]

/-- The nearest double of an integer, taken apart, and the rounded integer: both are zero, or both
have the sign of the integer. -/
theorem unpack_floatOfInt {n : Int} (h : n.natAbs.log2 ≤ 64) :
    ((floatOfInt n).toModel.unpack = .zero .positive ∧ rounded n = 0) ∨
      ∃ hpos : 0 < twoTo 52 + nearestBits n.natAbs 1 % twoTo 52, 0 < roundedNat n.natAbs ∧
        (((floatOfInt n).toModel.unpack =
            .finite .positive (twoTo 52 + nearestBits n.natAbs 1 % twoTo 52)
              ((nearestBits n.natAbs 1 / twoTo 52 : Nat) - 1075 : Int) hpos ∧
          rounded n = roundedNat n.natAbs) ∨
        ((floatOfInt n).toModel.unpack =
            .finite .negative (twoTo 52 + nearestBits n.natAbs 1 % twoTo 52)
              ((nearestBits n.natAbs 1 / twoTo 52 : Nat) - 1075 : Int) hpos ∧
          rounded n = -(roundedNat n.natAbs : Int))) := by
  by_cases hn : n = 0
  · subst hn
    exact .inl ⟨rfl, rfl⟩
  have habs : n.natAbs ≠ 0 := Int.natAbs_ne_zero.2 hn
  obtain ⟨hlow, hhigh⟩ := nearestBits_integer_mem habs h
  obtain ⟨hpos, hunpack⟩ := unpack_signedBits (decide (n < 0)) hlow hhigh
  refine .inr ⟨hpos, roundedNat_pos habs, ?_⟩
  rw [floatOfInt, nearestFloat]
  by_cases hneg : n < 0
  · rw [decide_eq_true hneg] at hunpack ⊢
    exact .inr ⟨hunpack, if_pos hneg⟩
  · rw [decide_eq_false hneg] at hunpack ⊢
    exact .inl ⟨hunpack, if_neg hneg⟩

/-! ### The order of nearest doubles -/

theorem compare_congr {α β : Type} [LinearOrder α] [LinearOrder β] {a b : α} {c d : β}
    (hlt : a < b ↔ c < d) (hgt : b < a ↔ d < c) : compare a b = compare c d := by
  rcases lt_trichotomy c d with h | h | h
  · rw [compare_lt_iff_lt.2 h, compare_lt_iff_lt.2 (hlt.2 h)]
  · have heq : a = b :=
      le_antisymm (not_lt.1 fun hba => (hgt.1 hba).ne' h) (not_lt.1 fun hab => (hlt.1 hab).ne h)
    rw [compare_eq_iff_eq.2 h, compare_eq_iff_eq.2 heq]
  · rw [compare_gt_iff_gt.2 h, compare_gt_iff_gt.2 (hgt.2 h)]

theorem compare_natCast (m n : Nat) : compare (m : Int) (n : Int) = compare m n :=
  compare_congr Int.ofNat_lt Int.ofNat_lt

theorem compare_neg_natCast (m n : Nat) :
    compare (-(m : Int)) (-(n : Int)) = (compare m n).swap := by
  rw [Nat.compare_swap]
  exact compare_congr (by omega) (by omega)

/-- Bits are in the order of their exponent fields, and of the rest where these agree. -/
theorem compare_fields (x y : Nat) :
    (compare ((x / twoTo 52 : Nat) - 1075 : Int) ((y / twoTo 52 : Nat) - 1075)).then
      (compare (twoTo 52 + x % twoTo 52) (twoTo 52 + y % twoTo 52)) = compare x y := by
  have hx := Nat.div_add_mod x (twoTo 52)
  have hy := Nat.div_add_mod y (twoTo 52)
  have hxlt := Nat.mod_lt x (twoTo_pos 52)
  have hylt := Nat.mod_lt y (twoTo_pos 52)
  generalize x / twoTo 52 = e at *
  generalize y / twoTo 52 = f at *
  generalize x % twoTo 52 = m at *
  generalize y % twoTo 52 = n at *
  rcases Nat.lt_trichotomy e f with hlt | rfl | hgt
  · have hfields : compare ((e : Int) - 1075) ((f : Int) - 1075) = .lt :=
      compare_lt_iff_lt.2 (by omega)
    have hweight : twoTo 52 * (e + 1) ≤ twoTo 52 * f := Nat.mul_le_mul_left _ hlt
    rw [Nat.mul_add] at hweight
    have hbits : compare x y = .lt := Nat.compare_eq_lt.2 (by omega)
    rw [hfields, hbits]
    rfl
  · have hfields : compare ((e : Int) - 1075) ((e : Int) - 1075) = .eq := compare_eq_iff_eq.2 rfl
    rw [hfields, Ordering.then]
    exact compare_congr (by omega) (by omega)
  · have hfields : compare ((e : Int) - 1075) ((f : Int) - 1075) = .gt :=
      compare_gt_iff_gt.2 (by omega)
    have hweight : twoTo 52 * (f + 1) ≤ twoTo 52 * e := Nat.mul_le_mul_left _ hgt
    rw [Nat.mul_add] at hweight
    have hbits : compare x y = .gt := Nat.compare_eq_gt.2 (by omega)
    rw [hfields, hbits]
    rfl

/-- The bits of nearest doubles are in the order of the rounded integers. -/
theorem compare_nearestBits {m n : Nat} (hm : m.log2 ≤ 64) (hn : n.log2 ≤ 64) :
    compare (nearestBits m 1) (nearestBits n 1) = compare (roundedNat m) (roundedNat n) := by
  have hlt : ∀ {m n : Nat}, m.log2 ≤ 64 → n.log2 ≤ 64 →
      (nearestBits m 1 < nearestBits n 1 ↔ roundedNat m < roundedNat n) := by
    intro m n hm hn
    rw [← unitsOf_strictMono.lt_iff_lt, unitsOf_nearestBits hm, unitsOf_nearestBits hn,
      Nat.mul_lt_mul_right (twoTo_pos 1074)]
  exact compare_congr (hlt hm hn) (hlt hn hm)

/-- **Integers read as doubles are in the order of the rounded integers.** The nearest doubles of
two integers of at most 65 bits stand to each other as the integers do when they are rounded to 53
binary digits. -/
theorem orderOfFloats?_floatOfInt {a b : Int} (ha : a.natAbs.log2 ≤ 64) (hb : b.natAbs.log2 ≤ 64) :
    orderOfFloats? (floatOfInt a) (floatOfInt b) = some (compare (rounded a) (rounded b)) := by
  have hsize := (compare_fields _ _).trans (compare_nearestBits ha hb)
  rw [orderOfFloats?_eq_compare]
  -- zero, positive or negative: where the signs agree, the sizes decide
  rcases unpack_floatOfInt ha with ⟨hx, hr⟩ | ⟨_, hm, ⟨hx, hr⟩ | ⟨hx, hr⟩⟩ <;>
    rcases unpack_floatOfInt hb with ⟨hy, hs⟩ | ⟨_, hn, ⟨hy, hs⟩ | ⟨hy, hs⟩⟩ <;>
    rw [hx, hy, hr, hs]
  · rfl
  · rw [compare_lt_iff_lt.2 (by omega)]; rfl
  · rw [compare_gt_iff_gt.2 (by omega)]; rfl
  · rw [compare_gt_iff_gt.2 (by omega)]; rfl
  · rw [compare_natCast]
    exact congrArg some hsize
  · rw [compare_gt_iff_gt.2 (by omega)]; rfl
  · rw [compare_lt_iff_lt.2 (by omega)]; rfl
  · rw [compare_lt_iff_lt.2 (by omega)]; rfl
  · rw [compare_neg_natCast]
    exact congrArg (fun order => some order.swap) hsize

end Gleaner.Number
