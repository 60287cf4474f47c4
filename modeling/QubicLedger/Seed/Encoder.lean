import QubicLedger.Seed.KeyToSeed

/-!
# The encoder as a whole (`encode_base26` in `utils.c`)

`encodeBase26_spec` says what the encoder stores for a numeral that fits. Here
is the rest of its contract: the four refusals, for inputs and sizes of any
length, and what happens inside the loop on the way.

The loop body is entered in the states `Entered`: the initial one, and after
every pass that leaves a non-zero buffer. In each of them the value still to
be written fits below the write index, `v < 26 ^ (result_index + 1)`
(`Entered.fits`); a pass that goes on has a non-zero quotient, so the index was
not zero and its successor is the index minus one. The wrap to the largest
`size_t` can only happen after the last pass, when nothing is stored any more.
-/

namespace QubicLedger

open Lib (FixedBuf OutMem numeral bytesBE)

/-! ## The quotients of a pass -/

/-- The quotients of one pass, before each is stored in its byte. -/
def quotients : UInt32 → List UInt8 → List UInt32
  | _, [] => []
  | remainder, byte :: rest =>
    let dividend := (remainder <<< 8) ||| byte.toUInt32
    dividend / alphabetLength :: quotients (dividend % alphabetLength) rest

/-- The pass stores its quotients. -/
theorem divideInPlace_quotients (bs : List UInt8) :
    ∀ r : UInt32, (divideInPlace r bs).1 = (quotients r bs).map UInt32.toUInt8 := by
  induction bs with
  | nil => intro r; rfl
  | cons b bs ih =>
    intro r
    rw [divideInPlace, quotients, List.map_cons, ih]

/-- Every quotient fits in a byte. -/
theorem quotients_lt (bs : List UInt8) :
    ∀ r : UInt32, r.toNat < 26 → ∀ q ∈ quotients r bs, q.toNat < 256 := by
  induction bs with
  | nil => intro r _ q hq; exact absurd hq (by simp [quotients])
  | cons b bs ih =>
    intro r hr q hq
    have hb : b.toNat < 256 := b.toNat_lt
    have hdividend := dividend_toNat hr b
    rcases List.mem_cons.mp hq with rfl | hq
    · rw [UInt32.toNat_div, hdividend]
      show (r.toNat * 256 + b.toNat) / 26 < 256
      omega
    · refine ih _ ?_ q hq
      rw [UInt32.toNat_mod]
      exact Nat.mod_lt _ (by decide)

/-! ## The states of the loop -/

/-- The states in which the body of the `do … while` is entered. -/
inductive Entered (hexInput : List UInt8) : Work → Prop
  | first : Entered hexInput (initWork hexInput)
  | again {w : Work} : Entered hexInput w → isZero (convertStep w).buffer = false →
      Entered hexInput (convertStep w)

/-- The write index is inside `result`, and what is left to write fits below it. -/
theorem Entered.fits {hexInput : List UInt8} (h32 : hexInput.length ≤ 32) {w : Work}
    (h : Entered hexInput w) :
    w.resultIndex < maxResultLength ∧ bytesBE w.buffer < 26 ^ (w.resultIndex + 1) := by
  induction h with
  | first =>
    refine ⟨by show 54 < 55; omega, ?_⟩
    exact (Lib.numeral_length_le_iff (by omega) (by omega)).mp (numeral_length_le_55 h32)
  | @again w _ hmore ih =>
    obtain ⟨hlt, hv⟩ := ih
    have hlt55 : w.resultIndex < 55 := hlt
    have hval := convertStep_value w
    have hdiv : bytesBE w.buffer / 26 ≠ 0 := by
      intro h0
      rw [(isZero_iff _).mpr (hval.trans h0)] at hmore
      exact absurd hmore (by simp)
    have hpos : 0 < w.resultIndex := by
      rcases Nat.eq_zero_or_pos w.resultIndex with h0 | hpos
      · rw [h0, Nat.zero_add, pow_one] at hv
        exact absurd (Nat.div_eq_of_lt hv) hdiv
      · exact hpos
    have hindex : (convertStep w).resultIndex = w.resultIndex - 1 :=
      subSizeT_eq hpos (by unfold sizeTModulus; omega)
    rw [hindex]
    refine ⟨by show _ < 55; omega, ?_⟩
    rw [hval, show w.resultIndex - 1 + 1 = w.resultIndex by omega]
    rw [pow_succ] at hv
    exact (Nat.div_lt_iff_lt_mul (by omega)).mpr hv

/-- The loop runs through entered states until a pass leaves a zero buffer. -/
theorem Entered.convertLoop {hexInput : List UInt8} : ∀ (fuel : Nat) {w w' : Work},
    Entered hexInput w → convertLoop fuel w = some w' →
    ∃ last, Entered hexInput last ∧ isZero (convertStep last).buffer = true ∧
      w' = convertStep last := by
  intro fuel
  induction fuel with
  | zero => intro w w' _ h; exact absurd h (by simp [QubicLedger.convertLoop])
  | succ fuel ih =>
    intro w w' hw hrun
    unfold QubicLedger.convertLoop at hrun
    split at hrun
    next hz =>
      injection hrun with hrun
      exact ⟨w, hw, hz, hrun.symm⟩
    next hz => exact ih (hw.again (Bool.eq_false_iff.mpr hz)) hrun

/-- `convert` is the state after the last pass. -/
theorem convert_last (hexInput : List UInt8) :
    ∃ last, Entered hexInput last ∧ isZero (convertStep last).buffer = true ∧
      convert hexInput = convertStep last :=
  Entered.convertLoop _ .first (Option.some_get _).symm

theorem length_divideInPlace (bs : List UInt8) :
    ∀ r : UInt32, (divideInPlace r bs).1.length = bs.length := by
  induction bs with
  | nil => intro r; rfl
  | cons b bs ih =>
    intro r
    rw [divideInPlace, List.length_cons, List.length_cons, ih]

theorem Entered.length_buffer {hexInput : List UInt8} {w : Work} (h : Entered hexInput w) :
    w.buffer.length = hexInput.length := by
  induction h with
  | first => rfl
  | again hw hmore ih => exact (length_divideInPlace _ 0).trans ih

/-- The working buffer ends up all zero. -/
theorem convert_buffer (hexInput : List UInt8) :
    (convert hexInput).buffer = List.replicate hexInput.length 0 := by
  obtain ⟨last, hlast, hzero, hconvert⟩ := convert_last hexInput
  rw [hconvert, ← hlast.length_buffer, List.eq_replicate_iff]
  refine ⟨length_divideInPlace _ 0, fun b hb => ?_⟩
  exact beq_iff_eq.mp (List.all_eq_true.mp hzero b hb)

/-! ## The contract -/

section Contract

variable {hexInput : List UInt8}

/-- A numeral that is too long is refused after the loop. -/
theorem encodeBase26_too_long {n : Nat} (output : OutMem n) {outputSize : Nat}
    (h1 : 1 ≤ hexInput.length) (h32 : hexInput.length ≤ 32) (hsize : outputSize ≤ 55)
    (hlong : outputSize < (numeral 26 (bytesBE hexInput)).length) :
    encodeBase26 hexInput output outputSize = (7, output) := by
  unfold encodeBase26
  rw [if_neg (show ¬outputSize > 55 by omega), if_neg (show ¬hexInput.length > 32 by omega),
    if_neg (show ¬hexInput.length < 1 by omega)]
  dsimp only
  rw [convertedLength_eq h32, if_pos hlong]

/-- Sizes out of range are refused before anything is done. -/
theorem encodeBase26_bad_size {n : Nat} (output : OutMem n) {outputSize : Nat}
    (h : hexInput.length = 0 ∨ 32 < hexInput.length ∨ 55 < outputSize) :
    encodeBase26 hexInput output outputSize = (1, output) := by
  unfold encodeBase26
  by_cases hsize : outputSize > maxResultLength
  · rw [if_pos hsize]
  · rw [if_neg hsize]
    by_cases hlong : hexInput.length > workingBufferSize
    · rw [if_pos hlong]
    · rw [if_neg hlong, if_pos]
      rcases h with h | h | h
      · omega
      · exact absurd h hlong
      · exact absurd h hsize

/-- `encode_base26`, whatever it is handed: `output` has at least `output_size`
bytes. -/
theorem encodeBase26_exact (hexInput : List UInt8) (outputSize : Nat) :
    (∀ (extra : Nat) (output : OutMem (outputSize + extra)),
      let v := bytesBE hexInput
      let k := (numeral 26 v).length
      let out := encodeBase26 hexInput output outputSize
      if hexInput.length = 0 ∨ 32 < hexInput.length ∨ 55 < outputSize ∨ outputSize < k then
        out.1 ≠ 0 ∧ out.2 = output
      else
        out.1 = 0 ∧ out.2.buf.cells = numeralLetters v ++ output.buf.cells.drop k ∧
          out.2.touched = output.touched ++ List.range' 0 k) ∧
    (convertLoop (2 * hexInput.length + 1) (initWork hexInput)).isSome = true ∧
    (∀ w, Entered hexInput w →
      (divideInPlace 0 w.buffer).1 = (quotients 0 w.buffer).map UInt32.toUInt8 ∧
      (∀ q ∈ quotients 0 w.buffer, q.toNat < 256) ∧
      (hexInput.length ≤ 32 → w.resultIndex ≤ 54)) ∧
    (hexInput.length ≤ 32 →
      addSizeT (convert hexInput).resultIndex 1
        + subSizeT maxResultLength (addSizeT (convert hexInput).resultIndex 1) = 55) := by
  refine ⟨?_, convertLoop_isSome _ _ (Nat.succ_pos _) (initWork_value_lt hexInput), ?_, ?_⟩
  · intro extra output v k out
    by_cases hbad : hexInput.length = 0 ∨ 32 < hexInput.length ∨ 55 < outputSize
    · have hout : out = (1, output) := encodeBase26_bad_size output hbad
      rw [if_pos (by tauto), hout]
      exact ⟨by simp, rfl⟩
    · rw [not_or, not_or] at hbad
      obtain ⟨h1, h32, hsize⟩ := hbad
      by_cases hlong : outputSize < k
      · have hout : out = (7, output) :=
          encodeBase26_too_long output (by omega) (by omega) (by omega) hlong
        rw [if_pos (by tauto), hout]
        exact ⟨by simp, rfl⟩
      · have hout : out = (0, output.write 0 (numeralLetters v)) :=
          encodeBase26_spec output (by omega) (by omega) (by omega) (Nat.le_of_not_lt hlong)
        have hletters : (numeralLetters v).length = k := length_numeralLetters v
        rw [if_neg (by tauto), hout]
        refine ⟨rfl, ?_, ?_⟩
        · show (output.buf.write 0 (numeralLetters v)).cells = _
          rw [FixedBuf.cells_write (by omega), List.take_zero, List.nil_append, Nat.zero_add,
            hletters]
        · show output.touched ++ List.range' 0 (numeralLetters v).length = _
          rw [hletters]
  · intro w hw
    exact ⟨divideInPlace_quotients _ _, quotients_lt _ 0 (by decide),
      fun h32 => Nat.le_of_lt_succ (hw.fits h32).1⟩
  · intro h32
    have h55 := numeral_length_le_55 h32
    rw [convertedLength_eq h32, (convert_spec h32).2]
    omega

end Contract

end QubicLedger
