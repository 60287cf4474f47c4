import QubicLedger.FourQ.Digits
import QubicLedger.Lib.Montgomery
import Mathlib.Data.Nat.Prime.Basic

/-!
# Arithmetic modulo the group order (`ARM/fp_arm.c`, `crypto_util.c`)

Scalars are eight digits. `Montgomery_multiply_mod_order` reduces any product
below `order · 2²⁵⁶`, so one of its operands may be an arbitrary 256-bit number
as long as the other is reduced; this is how `modulo_order` reduces a hash
output and how `SchnorrQ_Sign` converts the secret scalar, which it never
reduces first.

`conversion_to_odd` adds the order to an even scalar. Below the order the sum
still fits.
-/

namespace QubicLedger

open Lib.Limbs (value chain)

/-! ## The constants (`FourQ_params.h`) -/

/-- `NWORDS_ORDER`. -/
abbrev nwordsOrder : Nat := 8

/-- A `uint64_t` array read through a `digit_t` pointer. -/
def digitsOf64 (xs : List (BitVec 64)) : List Digit :=
  xs.flatMap fun x : BitVec 64 => [x.setWidth 32, (x >>> 32).setWidth 32]

@[simp] theorem length_digitsOf64 (xs : List (BitVec 64)) :
    (digitsOf64 xs).length = 2 * xs.length := by
  induction xs with
  | nil => rfl
  | cons x xs ih =>
    rw [digitsOf64, List.flatMap_cons, List.length_append, ← digitsOf64, ih]
    simp
    omega

/-- Both readings spell the same number. -/
theorem value_digitsOf64 (xs : List (BitVec 64)) : value (digitsOf64 xs) = value xs := by
  induction xs with
  | nil => rfl
  | cons x xs ih =>
    have hx := x.isLt
    rw [digitsOf64, List.flatMap_cons, Lib.Limbs.value_append, ← digitsOf64, ih]
    simp only [Lib.Limbs.value_cons, Lib.Limbs.value_nil, BitVec.toNat_setWidth,
      BitVec.toNat_ushiftRight, Nat.shiftRight_eq_div_pow, List.length_cons, List.length_nil]
    omega

/-- `curve_order`. -/
def curveOrder : List Digit :=
  digitsOf64 [0x2FB2540EC7768CE7, 0xDFBD004DFE0F7999, 0xF05397829CBC14E5, 0x0029CBC14E5E0A72]

/-- `Montgomery_Rprime`: `2²⁵⁶ · 2²⁵⁶` modulo the order. -/
def montgomeryRPrime : List Digit :=
  digitsOf64 [0xC81DB8795FF3D621, 0x173EA5AAEA6B387D, 0x3D01B7C72136F61C, 0x0006A5F16AC8F9D3]

/-- `Montgomery_rprime`: `-1 / order` modulo `2²⁵⁶`. -/
def montgomeryrprime : List Digit :=
  digitsOf64 [0xE12FE5F079BC3929, 0xD75E78B8D1FCDCF3, 0xBCE409ED76B5DB21, 0xF32702FDAFC1C074]

/-- The order of the group, a number of 246 bits. -/
def order : Nat := 0x0029CBC14E5E0A72F05397829CBC14E5DFBD004DFE0F79992FB2540EC7768CE7

@[simp] theorem length_curveOrder : curveOrder.length = 8 := rfl
@[simp] theorem value_curveOrder : value curveOrder = order := by decide +kernel

theorem order_lt : order < 2 ^ 246 := by decide +kernel
theorem order_pos : 0 < order := by decide +kernel
theorem order_odd : order % 2 = 1 := by decide +kernel

theorem montgomeryRPrime_spec :
    value montgomeryRPrime < order ∧ value montgomeryRPrime = 2 ^ 256 * 2 ^ 256 % order := by
  decide +kernel

theorem montgomeryrprime_spec :
    order * value montgomeryrprime % 2 ^ 256 = 2 ^ 256 - 1 := by
  decide +kernel

/-- Powers of two can be cancelled modulo the order. -/
theorem coprime_order (k : Nat) : Nat.gcd order (2 ^ k) = 1 :=
  Nat.Coprime.pow_right k (Nat.coprime_two_left.mpr (Nat.odd_iff.mpr order_odd)).symm

/-! ## The functions -/

/-- `multiply`: `NWORDS_ORDER` digits of each operand. -/
def multiply (a b : List Digit) : List Digit := mpMul (a.take nwordsOrder) (b.take nwordsOrder)

/-- `subtract_mod_order`. -/
def subtractModOrder (a b : List Digit) : List Digit :=
  let c := subtract a b
  let mask := 0 - c.1
  (chain addc 0 c.2 (curveOrder.map (mask &&& ·))).2

/-- `Montgomery_multiply_mod_order`. -/
def montgomeryMultiplyModOrder (ma mb : List Digit) : List Digit :=
  let p := multiply ma mb
  let q := multiply p montgomeryrprime
  let temp := multiply q curveOrder
  let sum := mpAdd p temp
  let mc := sum.2.drop nwordsOrder
  let diff := subtract mc curveOrder
  let mask := sum.1 - diff.1
  let temp := curveOrder.map (· &&& mask)
  (mpAdd diff.2 temp).2

/-- The digits of one. -/
def digitsOne : List Digit := [1, 0, 0, 0, 0, 0, 0, 0]

/-- `modulo_order`. -/
def moduloOrder (a : List Digit) : List Digit :=
  montgomeryMultiplyModOrder (montgomeryMultiplyModOrder a montgomeryRPrime) digitsOne

/-- `to_Montgomery`. -/
def toMontgomery (ma : List Digit) : List Digit := montgomeryMultiplyModOrder ma montgomeryRPrime

/-- `from_Montgomery`. -/
def fromMontgomery (a : List Digit) : List Digit := montgomeryMultiplyModOrder a digitsOne

/-- `conversion_to_odd`. -/
def conversionToOdd (k : List Digit) : List Digit :=
  let mask := ~~~(0 - (k.headD 0 &&& 1))
  (chain addc 0 (curveOrder.map (· &&& mask)) k).2

/-! ## What they compute -/

/-- A full-length operand is read as a whole. -/
theorem multiply_spec {a b : List Digit} (ha : nwordsOrder ≤ a.length)
    (hb : b.length = nwordsOrder) :
    (multiply a b).length = 16 ∧ value (multiply a b) = value a % 2 ^ 256 * value b := by
  have hb' : b ≠ [] := by
    rintro rfl
    exact absurd hb (by decide)
  have hmul := mpMul_spec (a := a.take nwordsOrder) hb'
  unfold multiply
  rw [List.take_of_length_le (l := b) (Nat.le_of_eq hb)]
  rw [Lib.Limbs.value_take ha] at hmul
  have hlen := hmul.1
  rw [List.length_take, Nat.min_eq_left ha, hb] at hlen
  exact ⟨hlen, hmul.2⟩

/-- A borrow, negated, is the mask that selects the order. -/
theorem zero_sub_borrow {c : Digit} (hc : c.toNat ≤ 1) : 0 - c = maskOf (c.toNat = 1) := by
  rcases Nat.le_one_iff_eq_zero_or_eq_one.mp hc with h | h
  · rw [show c = 0#32 from BitVec.eq_of_toNat_eq h]
    rfl
  · rw [show c = 1#32 from BitVec.eq_of_toNat_eq h]
    rfl

/-- Adding the order, or nothing, to eight digits. -/
theorem value_add_masked {d : List Digit} (hd : d.length = 8) (b : Bool) :
    (mpAdd d (curveOrder.map (· &&& maskOf b))).2.length = 8 ∧
    value (mpAdd d (curveOrder.map (· &&& maskOf b))).2
      = (value d + if b then order else 0) % 2 ^ 256 := by
  have hlen : d.length = (curveOrder.map (· &&& maskOf b)).length := by
    rw [hd, List.length_map, length_curveOrder]
  refine ⟨(mpAdd_spec hlen).2.1.trans hd, ?_⟩
  rw [mpAdd_mod hlen, value_map_and_mask, value_curveOrder, hd]

/-- Subtraction modulo the order. -/
theorem subtractModOrder_spec {a b : List Digit} (ha : a.length = 8) (hb : b.length = 8)
    (haN : value a < order) (hbN : value b < order) :
    (subtractModOrder a b).length = 8 ∧
    value (subtractModOrder a b) = (value a + (order - value b)) % order := by
  obtain ⟨hborrow, hlen, hval⟩ := subtract_spec (ha.trans hb.symm)
  rw [ha] at hlen hval
  have hmask : (curveOrder.map ((0 - (subtract a b).1) &&& ·))
      = curveOrder.map (· &&& maskOf ((subtract a b).1.toNat = 1)) := by
    rw [zero_sub_borrow hborrow]
    exact List.map_congr_left fun x _ => BitVec.and_comm _ _
  obtain ⟨hlen', hval'⟩ := value_add_masked hlen ((subtract a b).1.toNat = 1)
  unfold subtractModOrder
  dsimp only
  rw [hmask]
  refine ⟨hlen', Eq.trans hval' ?_⟩
  have hlt := Lib.Limbs.value_lt (subtract a b).2
  rw [hlen] at hlt
  have hN := order_lt
  rcases Nat.le_one_iff_eq_zero_or_eq_one.mp hborrow with h | h
  · -- no borrow: the difference is already reduced
    rw [h] at hval ⊢
    rw [show value a + (order - value b) = (value a - value b) + order by omega,
      Nat.add_mod_right, Nat.mod_eq_of_lt (by omega : value a - value b < order)]
    simp
    omega
  · rw [h] at hval ⊢
    rw [Nat.mod_eq_of_lt (by omega : value a + (order - value b) < order)]
    simp
    omega

/-- Montgomery multiplication, for every pair of operands whose product is
below `order · 2²⁵⁶`. -/
theorem montgomeryMultiplyModOrder_spec {ma mb : List Digit} (ha : ma.length = 8)
    (hb : mb.length = 8) (hab : value ma * value mb < order * 2 ^ 256) :
    (montgomeryMultiplyModOrder ma mb).length = 8 ∧
    value (montgomeryMultiplyModOrder ma mb) < order ∧
    value (montgomeryMultiplyModOrder ma mb) * 2 ^ 256 ≡ value ma * value mb [MOD order] := by
  have hN := order_lt
  have hr : 0 < 2 ^ 256 := Nat.two_pow_pos _
  obtain ⟨hplen, hpval⟩ := multiply_spec (Nat.le_of_eq ha.symm) hb
  rw [Nat.mod_eq_of_lt (by have := Lib.Limbs.value_lt ma; rwa [ha] at this)] at hpval
  obtain ⟨hqlen, hqval⟩ := multiply_spec (a := multiply ma mb) (b := montgomeryrprime)
    (by rw [hplen]; decide) rfl
  obtain ⟨htlen, htval⟩ := multiply_spec
    (a := multiply (multiply ma mb) montgomeryrprime) (b := curveOrder) (by rw [hqlen]; decide) rfl
  rw [hqval, hpval, value_curveOrder] at htval
  change value _ = Lib.redcQuotient (2 ^ 256) (value montgomeryrprime) _ * order at htval
  have hlt : (_ + Lib.redcQuotient _ (value montgomeryrprime) _ * _) / _ < _ :=
    Lib.redc_lt hr order_pos hab
  have hmod := Lib.redc_modEq (t := value ma * value mb) hr montgomeryrprime_spec
  unfold montgomeryMultiplyModOrder
  dsimp only
  generalize multiply (multiply (multiply ma mb) montgomeryrprime) curveOrder = temp at *
  generalize multiply ma mb = p at *
  rw [← htval, ← hpval] at hlt hmod
  rw [← hpval]
  -- the sum of `P` and `Q · r` does not carry out of sixteen digits
  obtain ⟨hcarry, hslen, hsval⟩ := mpAdd_spec (hplen.trans htlen.symm)
  rw [hplen] at hslen hsval
  have hsum : value p + value temp < 2 * order * 2 ^ 256 := by
    have h := Nat.lt_mul_of_div_lt hlt hr
    rwa [Nat.mul_comm] at h
  have hcout : (mpAdd p temp).1 = 0#32 := by
    refine BitVec.eq_of_toNat_eq ?_
    simp only [BitVec.toNat_ofNat, Nat.zero_mod]
    omega
  rw [hcout] at hsval ⊢
  have hmc : value ((mpAdd p temp).2.drop nwordsOrder) = (value p + value temp) / 2 ^ 256 := by
    rw [Lib.Limbs.value_drop (by rw [hslen]; decide)]
    rw [show (0#32).toNat = 0 from rfl, Nat.mul_zero, Nat.add_zero] at hsval
    exact congrArg (· / 2 ^ 256) hsval
  have hmclen : ((mpAdd p temp).2.drop nwordsOrder).length = 8 := by
    exact List.length_drop.trans (congrArg (· - 8) hslen)
  generalize (mpAdd p temp).2.drop nwordsOrder = mc at *
  rw [← hmc] at hlt hmod
  -- the final subtraction, undone if it borrows
  obtain ⟨hborrow, hdlen, hdval⟩ := subtract_spec (hmclen.trans length_curveOrder.symm)
  rw [hmclen] at hdlen hdval
  rw [value_curveOrder] at hdval
  have hdlt := Lib.Limbs.value_lt (subtract mc curveOrder).2
  rw [hdlen] at hdlt
  rw [show (0#32 - (subtract mc curveOrder).1 : Digit) = maskOf _ from zero_sub_borrow hborrow]
  obtain ⟨hlen, hval⟩ := value_add_masked hdlen ((subtract mc curveOrder).1.toNat = 1)
  refine ⟨hlen, ?_⟩
  rw [hval]
  rcases Nat.le_one_iff_eq_zero_or_eq_one.mp hborrow with h | h
  · rw [h] at hdval ⊢
    have hres : value (subtract mc curveOrder).2 + order = value mc := by omega
    simp only [show decide ((0 : Nat) = 1) = false from rfl, Bool.false_eq_true, if_false,
      Nat.add_zero]
    rw [Nat.mod_eq_of_lt hdlt]
    refine ⟨by omega, Nat.ModEq.trans ?_ hmod⟩
    rw [← hres, Nat.add_mul]
    exact (Nat.add_mul_mod_self_left _ _ _).symm
  · rw [h] at hdval ⊢
    have hres : (value (subtract mc curveOrder).2 + order) % 2 ^ 256 = value mc := by omega
    simp only [decide_true, if_true]
    rw [hres]
    exact ⟨by omega, hmod⟩

/-- A number congruent to a multiple of `2²⁵⁶` determines it. -/
theorem modEq_of_mul {x y : Nat} (h : x * 2 ^ 256 ≡ y * 2 ^ 256 [MOD order]) :
    x ≡ y [MOD order] :=
  Nat.ModEq.cancel_right_of_coprime (coprime_order 256) h

/-- Every 256-bit number enters Montgomery representation. -/
theorem toMontgomery_spec {a : List Digit} (ha : a.length = 8) :
    (toMontgomery a).length = 8 ∧ value (toMontgomery a) < order ∧
    value (toMontgomery a) ≡ value a * 2 ^ 256 [MOD order] := by
  have hR := montgomeryRPrime_spec
  have halt := Lib.Limbs.value_lt a
  rw [ha] at halt
  obtain ⟨hlen, hlt, hmod⟩ := montgomeryMultiplyModOrder_spec ha
    (rfl : montgomeryRPrime.length = 8) (by
    rw [Nat.mul_comm order]
    exact Nat.mul_lt_mul'' halt hR.1)
  refine ⟨hlen, hlt, modEq_of_mul (hmod.trans ?_)⟩
  rw [hR.2, Nat.mul_assoc]
  exact (Nat.mod_modEq _ _).mul_left _

/-- A reduced number leaves it. -/
theorem fromMontgomery_spec {a : List Digit} (ha : a.length = 8) (hN : value a < order) :
    (fromMontgomery a).length = 8 ∧ value (fromMontgomery a) < order ∧
    value (fromMontgomery a) * 2 ^ 256 ≡ value a [MOD order] := by
  have hone : value digitsOne = 1 := by decide
  obtain ⟨hlen, hlt, hmod⟩ := montgomeryMultiplyModOrder_spec ha
    (rfl : digitsOne.length = 8) (by
    rw [hone, Nat.mul_one]
    exact Nat.lt_of_lt_of_le hN (Nat.le_mul_of_pos_right _ (Nat.two_pow_pos _)))
  rw [hone, Nat.mul_one] at hmod
  exact ⟨hlen, hlt, hmod⟩

/-- `modulo_order` reduces every 256-bit number. -/
theorem moduloOrder_spec {a : List Digit} (ha : a.length = 8) :
    (moduloOrder a).length = 8 ∧ value (moduloOrder a) = value a % order := by
  obtain ⟨hlen, hlt, hmod⟩ := toMontgomery_spec ha
  obtain ⟨hlen', hlt', hmod'⟩ := fromMontgomery_spec hlen hlt
  refine ⟨hlen', ?_⟩
  have h : value (moduloOrder a) ≡ value a [MOD order] := modEq_of_mul (hmod'.trans hmod)
  exact (Nat.mod_eq_of_lt hlt').symm.trans h

/-- A product taken in Montgomery representation. -/
theorem montgomeryProduct_spec {a b : List Digit} (ha : a.length = 8) (hb : b.length = 8) :
    let c := fromMontgomery (montgomeryMultiplyModOrder (toMontgomery a) (toMontgomery b))
    c.length = 8 ∧ value c < order ∧ value c ≡ value a * value b [MOD order] := by
  intro c
  have hord := order_lt
  obtain ⟨halen, halt, hamod⟩ := toMontgomery_spec ha
  obtain ⟨hblen, hblt, hbmod⟩ := toMontgomery_spec hb
  obtain ⟨hplen, hplt, hpmod⟩ := montgomeryMultiplyModOrder_spec halen hblen
    (Nat.mul_lt_mul'' halt (hblt.trans (hord.trans (by decide))))
  obtain ⟨hclen, hclt, hcmod⟩ := fromMontgomery_spec hplen hplt
  refine ⟨hclen, hclt, modEq_of_mul (modEq_of_mul ?_)⟩
  refine (hcmod.mul_right _).trans (hpmod.trans ((hamod.mul hbmod).trans ?_))
  rw [show value a * 2 ^ 256 * (value b * 2 ^ 256) = value a * value b * 2 ^ 256 * 2 ^ 256 by ring]

/-- `conversion_to_odd` adds the order to an even scalar. -/
theorem conversionToOdd_spec {k : List Digit} (hk : k.length = 8) (hN : value k < order) :
    (conversionToOdd k).length = 8 ∧
    value (conversionToOdd k) = if value k % 2 = 1 then value k else value k + order := by
  have hord := order_lt
  have hmask : ~~~(0 - (k.headD 0 &&& 1)) = maskOf (value k % 2 = 0) := by
    cases k with
    | nil => exact absurd hk (by decide)
    | cons x xs =>
      have hlow : (x &&& 1).toNat = x.toNat % 2 := by
        rw [BitVec.toNat_and]
        exact Nat.and_one_is_mod _
      rw [List.headD_cons, Lib.Limbs.value_cons,
        show (x.toNat + 2 ^ 32 * value xs) % 2 = x.toNat % 2 by omega]
      rcases Nat.mod_two_eq_zero_or_one x.toNat with h | h
      · rw [show x &&& 1 = 0#32 from BitVec.eq_of_toNat_eq (hlow.trans h), h]
        rfl
      · rw [show x &&& 1 = 1#32 from BitVec.eq_of_toNat_eq (hlow.trans h), h]
        rfl
  have hlen : (curveOrder.map (· &&& maskOf (value k % 2 = 0))).length = k.length := by
    rw [List.length_map, length_curveOrder, hk]
  unfold conversionToOdd
  dsimp only
  rw [hmask]
  change (mpAdd _ k).2.length = 8 ∧ value (mpAdd _ k).2 = _
  refine ⟨(mpAdd_spec hlen).2.1.trans (hlen.trans hk), ?_⟩
  rw [mpAdd_mod hlen, value_map_and_mask, value_curveOrder, hlen, hk]
  rcases Nat.mod_two_eq_zero_or_one (value k) with h | h
  · rw [h]
    simp
    omega
  · rw [h]
    simp
    omega

/-- The converted scalar is odd, below twice the order, and the same scalar
modulo the order. -/
theorem conversionToOdd_odd {k : List Digit} (hk : k.length = 8) (hN : value k < order) :
    value (conversionToOdd k) % 2 = 1 ∧ value (conversionToOdd k) < 2 * order ∧
    value (conversionToOdd k) ≡ value k [MOD order] := by
  have hodd := order_odd
  rw [(conversionToOdd_spec hk hN).2]
  split
  · exact ⟨‹_›, by omega, rfl⟩
  · exact ⟨by omega, by omega, Nat.add_mod_right _ _⟩

end QubicLedger
