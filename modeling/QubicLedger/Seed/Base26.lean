import QubicLedger.Types
import QubicLedger.Lib.Bytes
import QubicLedger.Lib.LongDivision

/-!
# The base-26 encoder (`utils.c`)

`encode_base26` turns a byte string into letters by repeated in-place long
division: each pass of the `do … while` divides the working buffer by 26 and
stores one letter, right to left, until the buffer is zero. The passes are
`convertStep`, the loop `convertLoop`; the loop takes fuel, and
`convertLoop_isSome` shows that two passes per input byte plus one always
suffice, so `convert` is the loop's result with no fuel left in it.

`convertLoop_spec` is the loop invariant: from a buffer of value `v` and a
write index `i`, the loop ends with the minimal base-26 numeral of `v`
right-aligned at `i`, everything else in `result` untouched, and
`result_index + 1` at the numeral's first letter. `result_index` is a `size_t`
that wraps below zero after a 55-letter numeral and is re-incremented before
use, which is why the invariant speaks of `addSizeT resultIndex 1`.

`encode_base26` and `pad_result_with_z` write through a pointer the caller
owns, an `OutMem`.
-/

namespace QubicLedger

open Lib (FixedBuf OutMem numeral divPass bytesBE bytesBE_lt)

/-! ## `utils.c` -/

/-- `ALPHABET_LENGTH`. -/
def alphabetLength : UInt32 := 26

/-- `PADDING_CHAR`. -/
def paddingChar : UInt8 := 122

/-- `WORKING_BUFFER_SIZE`. -/
abbrev workingBufferSize : Nat := 32

/-- `MAX_RESULT_LENGTH`. -/
abbrev maxResultLength : Nat := 55

/-- `BASE26_ALPHABET`. -/
def base26Alphabet : List UInt8 :=
  [97, 98, 99, 100, 101, 102, 103, 104, 105, 106, 107, 108, 109,
   110, 111, 112, 113, 114, 115, 116, 117, 118, 119, 120, 121, 122]

/-- The inner `for` of `encode_base26`: divide the buffer by 26 in place,
carrying the remainder to the right. -/
def divideInPlace : UInt32 → List UInt8 → List UInt8 × UInt32
  | remainder, [] => ([], remainder)
  | remainder, byte :: rest =>
    let dividend := (remainder <<< 8) ||| byte.toUInt32
    ((dividend / alphabetLength).toUInt8 :: (divideInPlace (dividend % alphabetLength) rest).1,
      (divideInPlace (dividend % alphabetLength) rest).2)

/-- The variables of the `do … while` loop. -/
structure Work where
  buffer : List UInt8
  result : FixedBuf UInt8 maxResultLength
  resultIndex : Nat
  startIndex : Nat

/-- One pass: divide, store one letter, step the write index. -/
def convertStep (w : Work) : Work :=
  { buffer := (divideInPlace 0 w.buffer).1
    result := w.result.set w.resultIndex
      (base26Alphabet.getD (divideInPlace 0 w.buffer).2.toNat 0)
    resultIndex := subSizeT w.resultIndex 1
    startIndex :=
      if w.startIndex = maxResultLength then addSizeT (subSizeT w.resultIndex 1) 1
      else w.startIndex }

/-- `is_zero` over the whole buffer. -/
def isZero (buffer : List UInt8) : Bool := buffer.all (· == 0)

/-- `do … while (!is_zero)`; `none` when the fuel runs out first. -/
def convertLoop : Nat → Work → Option Work
  | 0, _ => none
  | fuel + 1, w =>
    if isZero (convertStep w).buffer then some (convertStep w)
    else convertLoop fuel (convertStep w)

/-- The loop variables before the first pass. -/
def initWork (hexInput : List UInt8) : Work :=
  { buffer := hexInput
    result := .fill _ 0
    resultIndex := maxResultLength - 1
    startIndex := maxResultLength }

/-! ## One pass is long division -/

/-- With a remainder below 26 the 32-bit dividend does not overflow. -/
theorem dividend_toNat {r : UInt32} (hr : r.toNat < 26) (b : UInt8) :
    (r <<< 8 ||| b.toUInt32).toNat = r.toNat * 256 + b.toNat := by
  have hb : b.toNat < 2 ^ 8 := b.toNat_lt
  have hshift : (r <<< 8).toNat = r.toNat <<< 8 := by
    rw [UInt32.toNat_shiftLeft, show (8 : UInt32).toNat % 32 = 8 from rfl, Nat.shiftLeft_eq]
    exact Nat.mod_eq_of_lt (by omega)
  rw [UInt32.toNat_or, hshift, UInt8.toNat_toUInt32, ← Nat.shiftLeft_add_eq_or_of_lt hb,
    Nat.shiftLeft_eq]

/-- The machine pass computes the generic long division, quotient bytes
included: no quotient is truncated. -/
theorem divideInPlace_eq (bs : List UInt8) :
    ∀ r : UInt32, r.toNat < 26 →
      (divideInPlace r bs).1.map UInt8.toNat = (divPass 256 26 r.toNat (bs.map UInt8.toNat)).1 ∧
      (divideInPlace r bs).2.toNat = (divPass 256 26 r.toNat (bs.map UInt8.toNat)).2 := by
  induction bs with
  | nil => intro r _; exact ⟨rfl, rfl⟩
  | cons b bs ih =>
    intro r hr
    have hb : b.toNat < 256 := b.toNat_lt
    have hdividend := dividend_toNat hr b
    have hmod : ((r <<< 8 ||| b.toUInt32) % alphabetLength).toNat
        = (r.toNat * 256 + b.toNat) % 26 := by
      rw [UInt32.toNat_mod, hdividend]
      rfl
    have hquot : ((r <<< 8 ||| b.toUInt32) / alphabetLength).toUInt8.toNat
        = (r.toNat * 256 + b.toNat) / 26 := by
      rw [UInt32.toNat_toUInt8, UInt32.toNat_div, hdividend]
      show (r.toNat * 256 + b.toNat) / 26 % 256 = (r.toNat * 256 + b.toNat) / 26
      omega
    obtain ⟨ih₁, ih₂⟩ := ih ((r <<< 8 ||| b.toUInt32) % alphabetLength)
      (by rw [hmod]; exact Nat.mod_lt _ (by omega))
    rw [hmod] at ih₁ ih₂
    rw [List.map_cons, Lib.divPass_cons]
    refine ⟨?_, ih₂⟩
    show ((r <<< 8 ||| b.toUInt32) / alphabetLength).toUInt8.toNat :: _ = _
    rw [hquot]
    exact congrArg _ ih₁

theorem divideInPlace_value (bs : List UInt8) :
    bytesBE (divideInPlace 0 bs).1 = bytesBE bs / 26 := by
  unfold bytesBE
  rw [(divideInPlace_eq bs 0 (by decide)).1]
  exact Lib.divPass_value (by omega) _

theorem divideInPlace_remainder (bs : List UInt8) :
    (divideInPlace 0 bs).2.toNat = bytesBE bs % 26 := by
  rw [(divideInPlace_eq bs 0 (by decide)).2]
  exact Lib.divPass_remainder (by omega) _

/-- `is_zero` tests the value. -/
theorem isZero_iff (bs : List UInt8) : isZero bs = true ↔ bytesBE bs = 0 := by
  unfold isZero
  rw [Lib.bytesBE_eq_zero_iff, List.all_eq_true]
  simp only [beq_iff_eq]

/-! ## Letters -/

/-- The letter of a base-26 digit. -/
def letter (d : Nat) : UInt8 := UInt8.ofNat (97 + d)

theorem base26Alphabet_getD {d : Nat} (h : d < 26) : base26Alphabet.getD d 0 = letter d := by
  revert h
  revert d
  decide

theorem letter_ne_zero {d : Nat} (h : d < 26) : letter d ≠ 0 := by
  revert h
  revert d
  decide

theorem letter_inj {d e : Nat} (hd : d < 26) (he : e < 26) (h : letter d = letter e) :
    d = e := by
  have hn := congrArg UInt8.toNat h
  unfold letter at hn
  rw [UInt8.toNat_ofNat', UInt8.toNat_ofNat', Nat.mod_eq_of_lt (by omega),
    Nat.mod_eq_of_lt (by omega)] at hn
  omega

/-- The letters of the minimal base-26 numeral of `v`. -/
def numeralLetters (v : Nat) : List UInt8 := (numeral 26 v).map letter

@[simp] theorem length_numeralLetters (v : Nat) :
    (numeralLetters v).length = (numeral 26 v).length := List.length_map ..

theorem numeralLetters_ne_zero (v : Nat) : ∀ c ∈ numeralLetters v, c ≠ 0 := by
  intro c hc
  obtain ⟨d, hd, rfl⟩ := List.mem_map.mp hc
  exact letter_ne_zero (Lib.numeral_lt (by omega) d hd)

/-- Mapping digits to letters loses nothing. -/
theorem map_letter_inj {xs ys : List Nat} (hx : ∀ d ∈ xs, d < 26) (hy : ∀ d ∈ ys, d < 26)
    (h : xs.map letter = ys.map letter) : xs = ys :=
  Lib.map_digit_inj (fun _ _ => letter_inj) hx hy h

/-! ## The loop -/

theorem convertStep_value (w : Work) :
    bytesBE (convertStep w).buffer = bytesBE w.buffer / 26 :=
  divideInPlace_value w.buffer

/-- The letter a pass stores is the last digit of the buffer's value. -/
theorem convertStep_result (w : Work) :
    (convertStep w).result = w.result.set w.resultIndex (letter (bytesBE w.buffer % 26)) := by
  have hlt : bytesBE w.buffer % 26 < 26 := Nat.mod_lt _ (by omega)
  show w.result.set w.resultIndex (base26Alphabet.getD (divideInPlace 0 w.buffer).2.toNat 0) = _
  rw [divideInPlace_remainder, base26Alphabet_getD hlt]

/-- The loop ends within as many passes as the value has digits. -/
theorem convertLoop_isSome : ∀ (fuel : Nat) (w : Work), 0 < fuel →
    bytesBE w.buffer < 26 ^ fuel → (convertLoop fuel w).isSome = true := by
  intro fuel
  induction fuel with
  | zero => intro w h; exact absurd h (Nat.lt_irrefl 0)
  | succ fuel ih =>
    intro w _ hv
    unfold convertLoop
    split
    · rfl
    next hz =>
      have hstep : bytesBE (convertStep w).buffer = bytesBE w.buffer / 26 :=
        convertStep_value w
      have hlt : bytesBE w.buffer / 26 < 26 ^ fuel := by
        rw [pow_succ] at hv
        exact (Nat.div_lt_iff_lt_mul (by omega)).mpr hv
      have hne : bytesBE (convertStep w).buffer ≠ 0 := fun h => hz ((isZero_iff _).mpr h)
      refine ih _ ?_ (by rw [hstep]; exact hlt)
      rcases Nat.eq_zero_or_pos fuel with rfl | hpos
      · rw [hstep] at hne
        rw [pow_zero] at hlt
        omega
      · exact hpos

/-- The initial buffer has at most two base-26 digits per byte. -/
theorem initWork_value_lt (hexInput : List UInt8) :
    bytesBE (initWork hexInput).buffer < 26 ^ (2 * hexInput.length + 1) := by
  calc bytesBE hexInput < 256 ^ hexInput.length := bytesBE_lt hexInput
    _ ≤ 676 ^ hexInput.length := Nat.pow_le_pow_left (by omega) _
    _ = 26 ^ (2 * hexInput.length) := by rw [Nat.pow_mul]
    _ ≤ 26 ^ (2 * hexInput.length + 1) := Nat.pow_le_pow_right (by omega) (by omega)

/-- The `do … while` loop of `encode_base26`, run to its end. -/
def convert (hexInput : List UInt8) : Work :=
  (convertLoop (2 * hexInput.length + 1) (initWork hexInput)).get
    (convertLoop_isSome _ _ (Nat.succ_pos _) (initWork_value_lt hexInput))

/-- The loop invariant: the numeral of the buffer's value ends up
right-aligned at the write index, and the index one below its first letter. -/
theorem convertLoop_spec : ∀ (fuel : Nat) (w w' : Work) (i : Nat),
    w.resultIndex = i → i < maxResultLength → bytesBE w.buffer < 26 ^ (i + 1) →
    convertLoop fuel w = some w' →
      w'.result.cells
          = w.result.cells.take (i + 1 - (numeral 26 (bytesBE w.buffer)).length)
            ++ numeralLetters (bytesBE w.buffer) ++ w.result.cells.drop (i + 1) ∧
      addSizeT w'.resultIndex 1 = i + 1 - (numeral 26 (bytesBE w.buffer)).length := by
  intro fuel
  induction fuel with
  | zero => intro w w' i _ _ _ h; exact absurd h (by simp [convertLoop])
  | succ fuel ih =>
    intro w w' i hi hlt hv hrun
    have hsize : w.result.cells.length = 55 := w.result.size_eq
    have hi55 : i < 55 := hlt
    have hres := convertStep_result w
    have hval := convertStep_value w
    rw [hi] at hres
    unfold convertLoop at hrun
    by_cases hz : isZero (convertStep w).buffer = true
    · -- last pass: the value is a single digit
      have hdiv : bytesBE w.buffer / 26 = 0 := by
        rw [← hval]
        exact (isZero_iff _).mp hz
      rw [if_pos hz, Option.some.injEq] at hrun
      subst hrun
      have hnum := Lib.numeral_of_div_eq_zero (b := 26) (by omega) hdiv
      unfold numeralLetters
      rw [hnum]
      constructor
      · rw [hres, FixedBuf.cells_set, List.set_eq_take_append_cons_drop, if_pos (by omega)]
        simp
      · show addSizeT (subSizeT w.resultIndex 1) 1 = i + 1 - 1
        rw [hi]
        unfold addSizeT subSizeT sizeTModulus
        omega
    · -- the quotient is not zero, so its numeral is written below this letter
      have hdiv : bytesBE w.buffer / 26 ≠ 0 := by
        intro h0
        exact hz ((isZero_iff _).mpr (by rw [hval]; exact h0))
      rw [if_neg hz] at hrun
      have hi0 : 0 < i := by
        rcases Nat.eq_zero_or_pos i with rfl | hpos
        · rw [Nat.zero_add, pow_one] at hv
          exact absurd (Nat.div_eq_of_lt hv) hdiv
        · exact hpos
      have hindex : (convertStep w).resultIndex = i - 1 := by
        show subSizeT w.resultIndex 1 = i - 1
        rw [hi]
        exact subSizeT_eq hi0 (by unfold sizeTModulus; omega)
      have hv' : bytesBE (convertStep w).buffer < 26 ^ (i - 1 + 1) := by
        rw [hval, show i - 1 + 1 = i by omega]
        rw [pow_succ] at hv
        exact (Nat.div_lt_iff_lt_mul (by omega)).mpr hv
      obtain ⟨hcells, hfirst⟩ := ih (convertStep w) w' (i - 1) hindex (by omega) hv' hrun
      rw [hval, show i - 1 + 1 = i by omega] at hcells hfirst
      have hnum := Lib.numeral_of_div_ne_zero (b := 26) (by omega) hdiv
      have hlen : (numeral 26 (bytesBE w.buffer)).length
          = (numeral 26 (bytesBE w.buffer / 26)).length + 1 := by
        rw [hnum, List.length_append, List.length_singleton]
      have hletters : numeralLetters (bytesBE w.buffer)
          = numeralLetters (bytesBE w.buffer / 26) ++ [letter (bytesBE w.buffer % 26)] := by
        unfold numeralLetters
        rw [hnum, List.map_append]
        rfl
      rw [hlen]
      constructor
      · have hdrop : (w.result.cells.set i (letter (bytesBE w.buffer % 26))).drop i
            = letter (bytesBE w.buffer % 26) :: w.result.cells.drop (i + 1) := by
          rw [List.set_eq_take_append_cons_drop, if_pos (by omega),
            List.drop_left' (by rw [List.length_take]; omega)]
        rw [hcells, hres, FixedBuf.cells_set, hdrop, List.take_set_of_le (by omega), hletters,
          show i + 1 - ((numeral 26 (bytesBE w.buffer / 26)).length + 1)
            = i - (numeral 26 (bytesBE w.buffer / 26)).length by omega]
        simp
      · rw [hfirst]
        omega

end QubicLedger
