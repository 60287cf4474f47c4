import QubicLedger.Seed.Base26

/-!
# From a private key to a 55-letter seed

`encode_base26` (its checks and final copy), `pad_result_with_z` and
`internal_key_to_seed`.

`derive_qubic_keypair` hands `internal_key_to_seed` a zeroed array of exactly
`SEED_LENGTH` = 55 bytes. The encoder stores the `k` letters of the key's
minimal numeral at its start (`encodeBase26_spec`); the padder then measures
it as a C string, moves the letters *and a terminator* to the right end and
fills the front with `z` (`internalKeyToSeed_spec`).

Two consequences are read off that equation. The seed is the numeral with
`z`s in front, and `z` is also the digit 25, so two keys share a seed exactly
when one numeral is the other with leading `z`s. And the terminator that
travels with the letters lands at index `55 - k + k = 55`, one past the
array, whenever there is anything to pad.
-/

namespace QubicLedger

open Lib (FixedBuf OutMem InBounds numeral bytesBE bytesBE_lt)

/-- `SEED_LENGTH`. -/
abbrev seedLength : Nat := 55

/-! ## The rest of `utils.c` and `internal_key_to_seed` -/

/-- `strncpy`: the bytes stored for source `src` and count `n`. -/
def strncpyBytes (src : List UInt8) (n : Nat) : List UInt8 :=
  let s := (src.take n).takeWhile (· ≠ 0)
  s ++ List.replicate (n - s.length) 0

/-- `strnlen`. -/
def strnlen (s : List UInt8) (maxlen : Nat) : Nat := ((s.take maxlen).takeWhile (· ≠ 0)).length

/-- `encode_base26(hex_input, hexInput.length, output, output_size)`: the
returned code and the output memory. -/
def encodeBase26 {n : Nat} (hexInput : List UInt8) (output : OutMem n) (outputSize : Nat) :
    UInt8 × OutMem n :=
  if outputSize > maxResultLength then (1, output)
  else if hexInput.length > workingBufferSize then (1, output)
  else if hexInput.length < 1 then (1, output)
  else
    let w := convert hexInput
    let first := addSizeT w.resultIndex 1
    let convertedLength := subSizeT maxResultLength first
    if convertedLength > outputSize then (7, output)
    else (0, output.write 0 (strncpyBytes (w.result.cells.drop first) convertedLength))

/-- `pad_result_with_z`. `strnlen` reads up to the first NUL or its limit, the
`memmove` reads and stores `current_length + 1` bytes. -/
def padResultWithZ {n : Nat} (target : OutMem n) (targetLength : Nat) : OutMem n :=
  let currentLength := strnlen target.buf.cells maxResultLength
  let target := target.read 0 (min (currentLength + 1) maxResultLength)
  if currentLength < targetLength then
    let paddingLength := targetLength - currentLength
    let moved := target.buf.cells.take (currentLength + 1)
    let target := (target.read 0 (currentLength + 1)).write paddingLength moved
    target.write 0 (List.replicate paddingLength paddingChar)
  else target

/-- `internal_key_to_seed`. -/
def internalKeyToSeed {n : Nat} (internalPrivateKey : List UInt8) (out : OutMem n) :
    UInt8 × OutMem n :=
  let r := encodeBase26 internalPrivateKey out seedLength
  if r.1 ≠ 0 then r else (0, padResultWithZ r.2 seedLength)

/-! ## The encoder's result -/

/-- A key of at most 32 bytes has at most 55 base-26 digits. -/
theorem numeral_length_le_55 {key : List UInt8} (h : key.length ≤ 32) :
    (numeral 26 (bytesBE key)).length ≤ 55 := by
  refine (Lib.numeral_length_le_iff (by omega) (by omega)).mpr ?_
  calc bytesBE key < 256 ^ key.length := bytesBE_lt key
    _ ≤ 256 ^ 32 := Nat.pow_le_pow_right (by omega) h
    _ ≤ 26 ^ 55 := by norm_num

private theorem takeWhile_of_all {s : List UInt8} (h : ∀ c ∈ s, c ≠ 0) (tail : List UInt8) :
    (s ++ tail).takeWhile (· ≠ 0) = s ++ tail.takeWhile (· ≠ 0) :=
  List.takeWhile_append_of_pos (by simpa using h)

/-- Copying a string without NUL copies it whole. -/
theorem strncpyBytes_eq {s : List UInt8} (h : ∀ c ∈ s, c ≠ 0) (tail : List UInt8) :
    strncpyBytes (s ++ tail) s.length = s := by
  have hs : s.takeWhile (· ≠ 0) = s := by simpa using takeWhile_of_all h []
  unfold strncpyBytes
  dsimp only
  rw [List.take_left' rfl, hs, Nat.sub_self, List.replicate_zero, List.append_nil]

/-- A string followed by NULs has its own length. -/
theorem strnlen_eq {s : List UInt8} (h : ∀ c ∈ s, c ≠ 0) {k m : Nat} (hm : s.length ≤ m) :
    strnlen (s ++ List.replicate k 0) m = s.length := by
  unfold strnlen
  rw [List.take_append, List.take_of_length_le hm, List.take_replicate, takeWhile_of_all h,
    List.takeWhile_replicate]
  simp

/-- The loop leaves the letters at the right end of `result`, and the index of
the first of them. -/
theorem convert_spec {hexInput : List UInt8} (h32 : hexInput.length ≤ 32) :
    (convert hexInput).result.cells
      = List.replicate (55 - (numeral 26 (bytesBE hexInput)).length) 0
        ++ numeralLetters (bytesBE hexInput) ∧
    addSizeT (convert hexInput).resultIndex 1
      = 55 - (numeral 26 (bytesBE hexInput)).length := by
  have h55 := numeral_length_le_55 h32
  have hv : bytesBE (initWork hexInput).buffer < 26 ^ (54 + 1) :=
    (Lib.numeral_length_le_iff (by omega) (by omega)).mp h55
  obtain ⟨hcells, hfirst⟩ := convertLoop_spec _ (initWork hexInput) (convert hexInput) 54 rfl
    (by decide) hv (Option.some_get _).symm
  have hfill : (initWork hexInput).result.cells = List.replicate 55 0 := rfl
  refine ⟨?_, hfirst⟩
  rw [hcells, hfill, List.take_replicate, List.drop_replicate, Nat.sub_self, List.replicate_zero,
    List.append_nil, Nat.min_eq_left (by omega)]
  rfl

/-- The number of letters the encoder computes. -/
theorem convertedLength_eq {hexInput : List UInt8} (h32 : hexInput.length ≤ 32) :
    subSizeT maxResultLength (addSizeT (convert hexInput).resultIndex 1)
      = (numeral 26 (bytesBE hexInput)).length := by
  have h55 := numeral_length_le_55 h32
  rw [(convert_spec h32).2, subSizeT_eq (by show _ ≤ 55; omega) (by decide)]
  show 55 - (55 - _) = _
  omega

/-- For an input of 1 to 32 bytes and an output size that holds its numeral,
`encode_base26` returns 0 and stores exactly the numeral's letters. -/
theorem encodeBase26_spec {n : Nat} {key : List UInt8} (output : OutMem n) {outputSize : Nat}
    (h1 : 1 ≤ key.length) (h32 : key.length ≤ 32) (hsize : outputSize ≤ 55)
    (hfit : (numeral 26 (bytesBE key)).length ≤ outputSize) :
    encodeBase26 key output outputSize
      = (0, output.write 0 (numeralLetters (bytesBE key))) := by
  obtain ⟨hcells, hfirst⟩ := convert_spec h32
  have hdrop : (convert key).result.cells.drop (addSizeT (convert key).resultIndex 1)
      = numeralLetters (bytesBE key) := by
    rw [hcells, hfirst]
    exact List.drop_left' List.length_replicate
  unfold encodeBase26
  rw [if_neg (show ¬outputSize > 55 by omega), if_neg (show ¬key.length > 32 by omega),
    if_neg (show ¬key.length < 1 by omega)]
  dsimp only
  rw [convertedLength_eq h32, if_neg (by omega), hdrop, ← length_numeralLetters]
  have hcopy := strncpyBytes_eq (numeralLetters_ne_zero (bytesBE key)) []
  rw [List.append_nil] at hcopy
  rw [hcopy]

/-- The encoder's output in a zeroed seed array. -/
private theorem encoded_cells {v : Nat} (h : (numeral 26 v).length ≤ 55) :
    ((OutMem.zeroed 55).write 0 (numeralLetters v)).buf.cells
      = numeralLetters v ++ List.replicate (55 - (numeral 26 v).length) 0 := by
  show ((FixedBuf.fill 55 (0 : UInt8)).write 0 (numeralLetters v)).cells = _
  rw [FixedBuf.cells_write (by rw [length_numeralLetters]; omega), FixedBuf.cells_fill,
    List.take_zero, List.nil_append, List.drop_replicate, length_numeralLetters, Nat.zero_add]

/-! ## The whole conversion -/

/-- For every key of 1 to 32 bytes the seed is the numeral with `z`s in front,
and the indices accessed through `out` are: the stored letters, the string
measured, and, when there is padding to do, the moved string with its
terminator (read and stored) and the fill. -/
theorem internalKeyToSeed_spec {key : List UInt8} (h1 : 1 ≤ key.length)
    (h32 : key.length ≤ 32) :
    (internalKeyToSeed key (OutMem.zeroed 55)).1 = 0 ∧
    (internalKeyToSeed key (OutMem.zeroed 55)).2.buf.cells
      = List.replicate (55 - (numeral 26 (bytesBE key)).length) paddingChar
          ++ numeralLetters (bytesBE key) ∧
    (internalKeyToSeed key (OutMem.zeroed 55)).2.touched
      = List.range' 0 (numeral 26 (bytesBE key)).length
        ++ List.range' 0 (min ((numeral 26 (bytesBE key)).length + 1) 55)
        ++ (if (numeral 26 (bytesBE key)).length < 55 then
              List.range' 0 ((numeral 26 (bytesBE key)).length + 1)
              ++ List.range' (55 - (numeral 26 (bytesBE key)).length)
                  ((numeral 26 (bytesBE key)).length + 1)
              ++ List.range' 0 (55 - (numeral 26 (bytesBE key)).length)
            else []) := by
  have h55 := numeral_length_le_55 h32
  have henc := encodeBase26_spec (OutMem.zeroed 55) h1 h32 (Nat.le_refl 55) h55
  have hcells := encoded_cells h55
  generalize hv : bytesBE key = v at *
  have hlen : strnlen ((OutMem.zeroed 55).write 0 (numeralLetters v)).buf.cells maxResultLength
      = (numeral 26 v).length := by
    rw [hcells, strnlen_eq (numeralLetters_ne_zero v) (by rw [length_numeralLetters]; exact h55),
      length_numeralLetters]
  have hseed : internalKeyToSeed key (OutMem.zeroed 55)
      = (0, padResultWithZ ((OutMem.zeroed 55).write 0 (numeralLetters v)) 55) := by
    unfold internalKeyToSeed seedLength
    dsimp only
    rw [henc, if_neg (by simp)]
  rw [hseed]
  unfold padResultWithZ
  dsimp only
  rw [hlen]
  refine ⟨rfl, ?_⟩
  by_cases hpad : (numeral 26 v).length < 55
  · rw [if_pos hpad, if_pos hpad]
    -- the letters travel together with one NUL
    have hmoved : (((OutMem.zeroed 55).write 0 (numeralLetters v)).read 0
          (min ((numeral 26 v).length + 1) maxResultLength)).buf.cells.take
            ((numeral 26 v).length + 1)
        = numeralLetters v ++ [0] := by
      show ((OutMem.zeroed 55).write 0 (numeralLetters v)).buf.cells.take _ = _
      rw [hcells, show 55 - (numeral 26 v).length = 1 + (54 - (numeral 26 v).length) by omega,
        List.replicate_add, ← List.append_assoc]
      refine List.take_left' ?_
      simp
    rw [hmoved]
    constructor
    · -- the terminator is cut off at the end of the block, the fill replaces the front
      show ((FixedBuf.write _ (55 - (numeral 26 v).length) (numeralLetters v ++ [0])).write 0
        (List.replicate (55 - (numeral 26 v).length) paddingChar)).cells = _
      rw [FixedBuf.cells_write (by rw [List.length_replicate]; omega)]
      simp only [List.take_zero, List.nil_append, List.length_replicate, Nat.zero_add]
      refine congrArg _ ?_
      unfold FixedBuf.write
      dsimp only
      rw [List.drop_take, List.append_assoc, List.drop_left', List.append_assoc,
        List.take_left']
      · rw [length_numeralLetters]
        omega
      · rw [List.length_take, FixedBuf.size_eq]
        omega
    · show (((_ ++ List.range' 0 (numeralLetters v).length) ++ List.range' 0 _)
        ++ List.range' 0 _) ++ List.range' _ (numeralLetters v ++ [0]).length
        ++ List.range' 0 (List.replicate (55 - (numeral 26 v).length) paddingChar).length = _
      simp [OutMem.zeroed]
  · rw [if_neg hpad, if_neg hpad]
    have hfull : 55 - (numeral 26 v).length = 0 := by omega
    constructor
    · show ((OutMem.zeroed 55).write 0 (numeralLetters v)).buf.cells = _
      rw [hcells, hfull]
      simp
    · show (_ ++ List.range' 0 (numeralLetters v).length) ++ List.range' 0 _ = _
      simp [OutMem.zeroed]

/-- The seed of a private key: what `internal_key_to_seed` leaves in the
zeroed 55-byte array of `derive_qubic_keypair`. -/
def seedOf (key : FixedBuf UInt8 32) : List UInt8 :=
  (internalKeyToSeed key.cells (OutMem.zeroed 55)).2.buf.cells

theorem seedOf_eq (key : FixedBuf UInt8 32) :
    seedOf key
      = List.replicate (55 - (numeral 26 (bytesBE key.cells)).length) paddingChar
          ++ numeralLetters (bytesBE key.cells) :=
  (internalKeyToSeed_spec (by rw [key.size_eq]; decide) (by rw [key.size_eq])).2.1

-- The key and seed of `unit-tests/test_internal_key_to_seed.c`.
example :
    seedOf ⟨[0x4F, 0xD5, 0x54, 0x70, 0x26, 0xD2, 0x4A, 0x12, 0x0A, 0x26, 0x8D, 0x24, 0x6E, 0x90,
      0xDD, 0x23, 0x56, 0x84, 0x59, 0xA1, 0x6B, 0xCF, 0xCB, 0x54, 0xFC, 0xEE, 0x86, 0xEB, 0xCD,
      0x18, 0x34, 0xFA], rfl⟩
      = "bkqvfpdxraasqnmqfqjpesghfszenwzgifkvzalsdxqpfebpewiqxtq".toList.map
          (fun c => UInt8.ofNat c.toNat) := by
  decide +kernel

/-! ## When two keys share a seed -/

/-- The key's minimal base-26 numeral. -/
def keyNumeral (key : FixedBuf UInt8 32) : List Nat := numeral 26 (bytesBE key.cells)

/-- `k`'s numeral is that of `k'` with one or more digits 25 (`z`) in front. -/
def ZExtends (k k' : FixedBuf UInt8 32) : Prop :=
  ∃ j, 0 < j ∧ keyNumeral k = List.replicate j 25 ++ keyNumeral k'

theorem keyNumeral_inj {k k' : FixedBuf UInt8 32} (h : keyNumeral k = keyNumeral k') :
    k = k' := by
  have hv : bytesBE k.cells = bytesBE k'.cells := Lib.numeral_injective 26 h
  exact FixedBuf.ext (Lib.bytesBE_inj (by rw [k.size_eq, k'.size_eq]) hv)

theorem keyNumeral_lt (k : FixedBuf UInt8 32) : ∀ d ∈ keyNumeral k, d < 26 :=
  Lib.numeral_lt (by omega)

/-- The digits of a seed, padding included. -/
def seedDigits (key : FixedBuf UInt8 32) : List Nat :=
  List.replicate (55 - (keyNumeral key).length) 25 ++ keyNumeral key

theorem seedDigits_lt (key : FixedBuf UInt8 32) : ∀ d ∈ seedDigits key, d < 26 := by
  intro d hd
  rcases List.mem_append.mp hd with hd | hd
  · rw [List.eq_of_mem_replicate hd]
    omega
  · exact keyNumeral_lt key d hd

/-- Padding letters are the letters of padding digits. -/
theorem seedOf_eq_map_letter (key : FixedBuf UInt8 32) :
    seedOf key = (seedDigits key).map letter := by
  rw [seedOf_eq, seedDigits, List.map_append, List.map_replicate]
  rfl

private theorem zExtends_of_eq {k k' : FixedBuf UInt8 32} (hne : k ≠ k')
    (h : keyNumeral k
      = List.replicate ((keyNumeral k).length - (keyNumeral k').length) 25 ++ keyNumeral k') :
    ZExtends k k' := by
  refine ⟨_, Nat.pos_of_ne_zero ?_, h⟩
  intro h0
  rw [h0] at h
  exact hne (keyNumeral_inj h)

/-- Two keys have the same seed exactly when they are equal or one numeral is
the other with leading `z`s. -/
theorem seedOf_eq_iff (k k' : FixedBuf UInt8 32) :
    seedOf k = seedOf k' ↔ k = k' ∨ ZExtends k k' ∨ ZExtends k' k := by
  have h55 : ∀ key : FixedBuf UInt8 32, (keyNumeral key).length ≤ 55 := fun key =>
    numeral_length_le_55 (by rw [key.size_eq])
  have hpad := Lib.padLeft_eq_iff 25 (h55 k) (h55 k')
  rw [seedOf_eq_map_letter, seedOf_eq_map_letter]
  constructor
  · intro h
    by_cases hk : k = k'
    · exact Or.inl hk
    · right
      rcases hpad.mp (map_letter_inj (seedDigits_lt k) (seedDigits_lt k') h) with he | he
      · exact Or.inl (zExtends_of_eq hk he)
      · exact Or.inr (zExtends_of_eq (fun e => hk e.symm) he)
  · have grow : ∀ a b : FixedBuf UInt8 32, ZExtends a b →
        keyNumeral a = List.replicate ((keyNumeral a).length - (keyNumeral b).length) 25
          ++ keyNumeral b := by
      rintro a b ⟨j, -, hj⟩
      have hlen := congrArg List.length hj
      rw [List.length_append, List.length_replicate] at hlen
      rw [show (keyNumeral a).length - (keyNumeral b).length = j by omega]
      exact hj
    rintro (rfl | h | h)
    · rfl
    · rw [seedDigits, hpad.mpr (Or.inl (grow k k' h))]
      rfl
    · rw [seedDigits, hpad.mpr (Or.inr (grow k' k h))]
      rfl

/-- The keys 1 (numeral `b`) and 651 (numeral `zb`) share the seed `zz…zb`. -/
theorem not_distinct_keys_distinct_seeds :
    ¬∀ k k' : FixedBuf UInt8 32, k ≠ k' → seedOf k ≠ seedOf k' := by
  intro h
  exact h ⟨List.replicate 31 0 ++ [1], rfl⟩ ⟨List.replicate 30 0 ++ [2, 139], rfl⟩
    (by decide) (by decide +kernel)

/-! ## Which keys stay in bounds -/

theorem mem_range'_lt {m s n : Nat} (h : s + n ≤ m) : ∀ i ∈ List.range' s n, i < m := by
  intro i hi
  rw [List.mem_range'_1] at hi
  omega

/-- Every access through `out` stays inside the 55 bytes exactly when the key
needs no padding, that is when it is at least `26 ^ 54`. -/
theorem internalKeyToSeed_inBounds_iff (key : List UInt8) (h1 : 1 ≤ key.length)
    (h32 : key.length ≤ 32) :
    InBounds (internalKeyToSeed key (OutMem.zeroed 55)).2 ↔ 26 ^ 54 ≤ bytesBE key := by
  have h55 := numeral_length_le_55 h32
  have hlen := Lib.numeral_length_le_iff (b := 26) (n := bytesBE key) (k := 54)
    (by omega) (by omega)
  unfold InBounds
  rw [(internalKeyToSeed_spec h1 h32).2.2]
  by_cases hpad : (numeral 26 (bytesBE key)).length < 55
  · -- the travelling terminator is stored at index 55
    rw [if_pos hpad]
    constructor
    · intro hall
      refine absurd (hall 55 ?_) (by omega)
      refine List.mem_append_right _ (List.mem_append_left _ (List.mem_append_right _ ?_))
      rw [List.mem_range'_1]
      omega
    · intro hv
      have := hlen.mp (by omega)
      omega
  · rw [if_neg hpad, List.append_nil]
    constructor
    · intro _
      by_contra hv
      have := hlen.mpr (by omega)
      omega
    · intro _ i hi
      rcases List.mem_append.mp hi with hi | hi
      · exact mem_range'_lt (by omega) i hi
      · exact mem_range'_lt (by omega) i hi

/-- The largest key needs no padding and stays in bounds. -/
theorem internalKeyToSeed_inBounds_maxKey :
    InBounds (internalKeyToSeed (List.replicate 32 0xFF) (OutMem.zeroed 55)).2 :=
  (internalKeyToSeed_inBounds_iff (List.replicate 32 0xFF) (by decide) (by decide)).mpr
    (by decide +kernel)

/-- The key `01 01 … 01` has a 54-letter numeral: its terminator is stored at
index 55 of the 55-byte array. -/
theorem internalKeyToSeed_not_always_inBounds :
    ¬∀ key : List UInt8, 1 ≤ key.length → key.length ≤ 32 →
      InBounds (internalKeyToSeed key (OutMem.zeroed 55)).2 := by
  intro h
  have h55 : 55 ∈ (internalKeyToSeed (List.replicate 32 1) (OutMem.zeroed 55)).2.touched := by
    decide +kernel
  exact absurd (h (List.replicate 32 1) (by decide) (by decide) 55 h55) (by decide)

end QubicLedger
