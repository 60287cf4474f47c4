import QubicLedger.K12
import QubicLedger.Types
import QubicLedger.Lib.Bytes
import Mathlib.Tactic.IntervalCases

/-!
# Public identities (`get_identity_from_public_key` in `address.c`)

An identity is 60 letters: each of the key's four little-endian 64-bit words
as 14 base-26 digits, least significant first, then four digits of an 18-bit
checksum taken from K12 of the key. The checksum variable is four bytes wide
but K12 stores only three of them; the fourth is whatever the stack held
(`stackByte`), and the mask removes it (`identityOver_stackByte`).

`getIdentityFromPublicKey_inj`: different keys have different identities. The
56 letters of the words already decide it, since `2 ^ 64 ≤ 26 ^ 14`; nothing
is assumed of the hash. `readLetters` is the decoder: it gives the words and
the checksum back (`identity_lossless`).
-/

namespace QubicLedger

open Lib (FixedBuf wordLE bytesLE)

/-! ## The encoder -/

/-- A digit as a letter of the chosen case. -/
def identityLetter (isLowerCase : Bool) (d : Nat) : UInt8 :=
  UInt8.ofNat (d + if isLowerCase then 97 else 65)

/-- `publicKeyFragment`: the `i`-th little-endian 64-bit word of the key. -/
def publicKeyFragment (publicKey : List UInt8) (i : Nat) : UInt64 :=
  UInt64.ofNat (bytesLE ((publicKey.drop (8 * i)).take 8))

/-- The inner `for`: one letter per pass, dividing by 26. -/
def fragmentLetters (isLowerCase : Bool) : Nat → UInt64 → List UInt8
  | 0, _ => []
  | j + 1, f =>
    identityLetter isLowerCase (f % 26).toNat :: fragmentLetters isLowerCase j (f / 26)

/-- `identityBytesChecksum` after the mask; K12 fills three of its bytes. -/
def identityChecksum (publicKey : List UInt8) (stackByte : UInt8) : UInt32 :=
  UInt32.ofNat (bytesLE (kangarooTwelve publicKey 3 ++ [stackByte])) &&& 0x3FFFF

/-- The checksum's letters. -/
def checksumLetters (isLowerCase : Bool) : Nat → UInt32 → List UInt8
  | 0, _ => []
  | j + 1, c =>
    identityLetter isLowerCase (c % 26).toNat :: checksumLetters isLowerCase j (c / 26)

/-- The 60 bytes stored at `dstIdentity`, over a given uninitialised byte. -/
def identityOver (stackByte : UInt8) (publicKey : List UInt8) (isLowerCase : Bool) :
    List UInt8 :=
  fragmentLetters isLowerCase 14 (publicKeyFragment publicKey 0)
    ++ fragmentLetters isLowerCase 14 (publicKeyFragment publicKey 1)
    ++ fragmentLetters isLowerCase 14 (publicKeyFragment publicKey 2)
    ++ fragmentLetters isLowerCase 14 (publicKeyFragment publicKey 3)
    ++ checksumLetters isLowerCase 4 (identityChecksum publicKey stackByte)

/-- `get_identity_from_public_key`: the letters do not depend on the
uninitialised byte (`identityOver_stackByte`). -/
def getIdentityFromPublicKey (publicKey : List UInt8) (isLowerCase : Bool) : List UInt8 :=
  identityOver 0 publicKey isLowerCase

/-! ## The checksum -/

theorem identityChecksum_toNat (publicKey : List UInt8) (stackByte : UInt8) :
    (identityChecksum publicKey stackByte).toNat
      = bytesLE (kangarooTwelve publicKey 3) % 2 ^ 18 := by
  have hlen : (kangarooTwelve publicKey 3).length = 3 := length_kangarooTwelve publicKey (by omega)
  have hval : bytesLE (kangarooTwelve publicKey 3 ++ [stackByte])
      = bytesLE (kangarooTwelve publicKey 3) + 2 ^ 18 * (64 * stackByte.toNat) := by
    unfold bytesLE
    rw [List.map_append, Nat.ofDigits_append, List.length_map, hlen, List.map_singleton,
      Nat.ofDigits_singleton]
    ring
  have hlow : bytesLE (kangarooTwelve publicKey 3) < 2 ^ 24 := by
    have h := Lib.bytesLE_lt (kangarooTwelve publicKey 3)
    rw [hlen] at h
    exact h
  have hbyte : stackByte.toNat < 2 ^ 8 := stackByte.toNat_lt
  have hword : bytesLE (kangarooTwelve publicKey 3 ++ [stackByte]) < 2 ^ 32 := by
    rw [hval]
    omega
  unfold identityChecksum
  rw [UInt32.toNat_and, UInt32.toNat_ofNat_of_lt' hword,
    show (0x3FFFF : UInt32).toNat = 2 ^ 18 - 1 from rfl, Nat.and_two_pow_sub_one_eq_mod, hval,
    Nat.add_mul_mod_self_left]

/-- The uninitialised byte has no effect. -/
theorem identityOver_stackByte (stackByte : UInt8) (publicKey : List UInt8)
    (isLowerCase : Bool) :
    identityOver stackByte publicKey isLowerCase
      = getIdentityFromPublicKey publicKey isLowerCase := by
  have h : identityChecksum publicKey stackByte = identityChecksum publicKey 0 := by
    refine UInt32.toNat_inj.mp ?_
    rw [identityChecksum_toNat, identityChecksum_toNat]
  unfold getIdentityFromPublicKey identityOver
  rw [h]

/-! ## Losslessness -/

theorem identityLetter_inj {isLowerCase : Bool} {d e : Nat} (hd : d < 26) (he : e < 26)
    (h : identityLetter isLowerCase d = identityLetter isLowerCase e) : d = e := by
  have hn := congrArg UInt8.toNat h
  unfold identityLetter at hn
  cases isLowerCase with
  | false =>
    rw [if_neg Bool.false_ne_true, UInt8.toNat_ofNat', UInt8.toNat_ofNat',
      Nat.mod_eq_of_lt (by omega), Nat.mod_eq_of_lt (by omega)] at hn
    omega
  | true =>
    rw [if_pos rfl, UInt8.toNat_ofNat', UInt8.toNat_ofNat', Nat.mod_eq_of_lt (by omega),
      Nat.mod_eq_of_lt (by omega)] at hn
    omega

/-- The division loop emits the word's base-26 digits. -/
theorem fragmentLetters_eq (isLowerCase : Bool) : ∀ (j : Nat) (f : UInt64),
    fragmentLetters isLowerCase j f
      = (wordLE 26 j f.toNat).map (identityLetter isLowerCase) := by
  intro j
  induction j with
  | zero => intro f; rfl
  | succ j ih =>
    intro f
    rw [fragmentLetters, ih, wordLE, List.map_cons, UInt64.toNat_mod, UInt64.toNat_div]
    rfl

/-- The checksum loop emits base-26 digits too. -/
theorem checksumLetters_eq (isLowerCase : Bool) : ∀ (j : Nat) (c : UInt32),
    checksumLetters isLowerCase j c
      = (wordLE 26 j c.toNat).map (identityLetter isLowerCase) := by
  intro j
  induction j with
  | zero => intro c; rfl
  | succ j ih =>
    intro c
    rw [checksumLetters, ih, wordLE, List.map_cons, UInt32.toNat_mod, UInt32.toNat_div]
    rfl

@[simp] theorem length_fragmentLetters (isLowerCase : Bool) (j : Nat) (f : UInt64) :
    (fragmentLetters isLowerCase j f).length = j := by
  rw [fragmentLetters_eq, List.length_map, Lib.length_wordLE]

@[simp] theorem length_checksumLetters (isLowerCase : Bool) (j : Nat) (c : UInt32) :
    (checksumLetters isLowerCase j c).length = j := by
  rw [checksumLetters_eq, List.length_map, Lib.length_wordLE]

theorem identityLetter_ne_zero (isLowerCase : Bool) {d : Nat} (h : d < 26) :
    identityLetter isLowerCase d ≠ 0 := by
  intro h0
  have hn := congrArg UInt8.toNat h0
  unfold identityLetter at hn
  rw [UInt8.toNat_ofNat', show (0 : UInt8).toNat = 0 from rfl] at hn
  split at hn <;> omega

/-- Every byte of an identity is a letter of the chosen case. -/
theorem identityOver_letters (stackByte : UInt8) (publicKey : List UInt8) (isLowerCase : Bool) :
    ∀ c ∈ identityOver stackByte publicKey isLowerCase,
      ∃ d < 26, c = identityLetter isLowerCase d := by
  have hword : ∀ (j v : Nat) (c : UInt8),
      c ∈ (wordLE 26 j v).map (identityLetter isLowerCase) →
      ∃ d < 26, c = identityLetter isLowerCase d := by
    intro j v c hc
    obtain ⟨d, hd, rfl⟩ := List.mem_map.mp hc
    exact ⟨d, Lib.wordLE_lt (by omega) _ _ d hd, rfl⟩
  intro c hc
  unfold identityOver at hc
  simp only [fragmentLetters_eq, checksumLetters_eq, List.mem_append] at hc
  rcases hc with (((hc | hc) | hc) | hc) | hc
  · exact hword _ _ c hc
  · exact hword _ _ c hc
  · exact hword _ _ c hc
  · exact hword _ _ c hc
  · exact hword _ _ c hc

/-- An identity is a C string without inner NUL. -/
theorem getIdentityFromPublicKey_ne_zero (publicKey : List UInt8) (isLowerCase : Bool) :
    ∀ c ∈ getIdentityFromPublicKey publicKey isLowerCase, c ≠ 0 := by
  intro c hc
  obtain ⟨d, hd, rfl⟩ := identityOver_letters 0 publicKey isLowerCase c hc
  exact identityLetter_ne_zero isLowerCase hd

theorem length_getIdentityFromPublicKey (publicKey : List UInt8) (isLowerCase : Bool) :
    (getIdentityFromPublicKey publicKey isLowerCase).length = 60 := by
  unfold getIdentityFromPublicKey identityOver
  simp

/-- Fourteen letters determine a 64-bit word. -/
theorem fragmentLetters_inj {isLowerCase : Bool} {f g : UInt64}
    (h : fragmentLetters isLowerCase 14 f = fragmentLetters isLowerCase 14 g) : f = g := by
  have hle : (2 : Nat) ^ 64 ≤ 26 ^ 14 := by norm_num
  rw [fragmentLetters_eq, fragmentLetters_eq] at h
  have hwords := Lib.map_digit_inj (fun _ _ => identityLetter_inj) (Lib.wordLE_lt (by omega) _ _)
    (Lib.wordLE_lt (by omega) _ _) h
  exact UInt64.toNat_inj.mp (Lib.wordLE_inj (Nat.lt_of_lt_of_le f.toNat_lt hle)
    (Nat.lt_of_lt_of_le g.toNat_lt hle) hwords)

/-- A word of a 32-byte key is the number its eight bytes spell. -/
theorem publicKeyFragment_toNat {k : List UInt8} {i : Nat} (hk : k.length = 32) (hi : i < 4) :
    (publicKeyFragment k i).toNat = bytesLE ((k.drop (8 * i)).take 8) := by
  have hlen : ((k.drop (8 * i)).take 8).length = 8 := by
    rw [List.length_take, List.length_drop]
    omega
  have hlt := Lib.bytesLE_lt ((k.drop (8 * i)).take 8)
  rw [hlen] at hlt
  exact UInt64.toNat_ofNat_of_lt' hlt

/-- A word of the key determines its eight bytes. -/
theorem publicKeyFragment_inj {k k' : List UInt8} {i : Nat} (hk : k.length = 32)
    (hk' : k'.length = 32) (hi : i < 4) (h : publicKeyFragment k i = publicKeyFragment k' i) :
    (k.drop (8 * i)).take 8 = (k'.drop (8 * i)).take 8 := by
  have hlen : ((k.drop (8 * i)).take 8).length = ((k'.drop (8 * i)).take 8).length := by
    rw [List.length_take, List.length_drop, List.length_take, List.length_drop, hk, hk']
  have hn := congrArg UInt64.toNat h
  rw [publicKeyFragment_toNat hk hi, publicKeyFragment_toNat hk' hi] at hn
  exact Lib.bytesLE_inj hlen hn

/-- A 32-byte string is its four eight-byte groups. -/
theorem eq_four_groups {k : List UInt8} (hk : k.length = 32) :
    k = (k.drop 0).take 8 ++ ((k.drop 8).take 8 ++ ((k.drop 16).take 8 ++ (k.drop 24).take 8)) := by
  have h3 : (k.drop 24).take 8 = k.drop 24 :=
    List.take_of_length_le (by rw [List.length_drop]; omega)
  have h2 : (k.drop 16).take 8 ++ k.drop 24 = k.drop 16 := by
    rw [show k.drop 24 = (k.drop 16).drop 8 by rw [List.drop_drop]]
    exact List.take_append_drop 8 (k.drop 16)
  have h1 : (k.drop 8).take 8 ++ k.drop 16 = k.drop 8 := by
    rw [show k.drop 16 = (k.drop 8).drop 8 by rw [List.drop_drop]]
    exact List.take_append_drop 8 (k.drop 8)
  rw [h3, h2, h1, List.drop_zero, List.take_append_drop]

/-! ## Reading an identity back -/

/-- Letters of one case as a little-endian base-26 number. -/
def readLetters (isLowerCase : Bool) (letters : List UInt8) : Nat :=
  Nat.ofDigits 26 (letters.map fun c => c.toNat - if isLowerCase then 97 else 65)

theorem identityLetter_toNat (isLowerCase : Bool) {d : Nat} (h : d < 26) :
    (identityLetter isLowerCase d).toNat = d + if isLowerCase then 97 else 65 := by
  unfold identityLetter
  rw [UInt8.toNat_ofNat']
  split
  · exact Nat.mod_eq_of_lt (by omega)
  · exact Nat.mod_eq_of_lt (by omega)

/-- Letters written for digits are read back as the digits. -/
theorem readLetters_map (isLowerCase : Bool) {digits : List Nat} (h : ∀ d ∈ digits, d < 26) :
    readLetters isLowerCase (digits.map (identityLetter isLowerCase))
      = Nat.ofDigits 26 digits := by
  unfold readLetters
  rw [List.map_map]
  refine congrArg _ ?_
  conv_rhs => rw [← List.map_id digits]
  refine List.map_congr_left fun d hd => ?_
  show (identityLetter isLowerCase d).toNat - _ = d
  rw [identityLetter_toNat isLowerCase (h d hd)]
  exact Nat.add_sub_cancel ..

theorem readLetters_wordLE (isLowerCase : Bool) (j v : Nat) :
    readLetters isLowerCase ((wordLE 26 j v).map (identityLetter isLowerCase)) = v % 26 ^ j := by
  rw [readLetters_map isLowerCase (Lib.wordLE_lt (by omega) _ _), Lib.ofDigits_wordLE]

/-- The `i`-th group of 14 letters is the `i`-th word. -/
theorem identityOver_group (stackByte : UInt8) (publicKey : List UInt8) (isLowerCase : Bool)
    {i : Nat} (hi : i < 4) :
    ((identityOver stackByte publicKey isLowerCase).drop (14 * i)).take 14
      = fragmentLetters isLowerCase 14 (publicKeyFragment publicKey i) := by
  have hlen : ∀ j, (fragmentLetters isLowerCase 14 (publicKeyFragment publicKey j)).length = 14 :=
    fun j => length_fragmentLetters ..
  unfold identityOver
  simp only [List.append_assoc]
  interval_cases i
  · exact List.take_left' (hlen 0)
  · rw [List.drop_left' (hlen 0)]
    exact List.take_left' (hlen 1)
  · rw [show 14 * 2 = 14 + 14 from rfl, ← List.drop_drop, List.drop_left' (hlen 0),
      List.drop_left' (hlen 1)]
    exact List.take_left' (hlen 2)
  · rw [show 14 * 3 = 14 + (14 + 14) from rfl, ← List.drop_drop, List.drop_left' (hlen 0),
      ← List.drop_drop, List.drop_left' (hlen 1), List.drop_left' (hlen 2)]
    exact List.take_left' (hlen 3)

/-- The last four letters are the checksum's. -/
theorem identityOver_drop (stackByte : UInt8) (publicKey : List UInt8) (isLowerCase : Bool) :
    (identityOver stackByte publicKey isLowerCase).drop 56
      = checksumLetters isLowerCase 4 (identityChecksum publicKey stackByte) := by
  unfold identityOver
  exact List.drop_left' (by simp)

/-- Different keys have different identities. -/
theorem getIdentityFromPublicKey_inj {isLowerCase : Bool} {k k' : List UInt8}
    (hk : k.length = 32) (hk' : k'.length = 32)
    (h : getIdentityFromPublicKey k isLowerCase = getIdentityFromPublicKey k' isLowerCase) :
    k = k' := by
  unfold getIdentityFromPublicKey identityOver at h
  simp only [List.append_assoc] at h
  obtain ⟨h0, h⟩ := List.append_inj h (by simp)
  obtain ⟨h1, h⟩ := List.append_inj h (by simp)
  obtain ⟨h2, h⟩ := List.append_inj h (by simp)
  obtain ⟨h3, -⟩ := List.append_inj h (by simp)
  have g0 := publicKeyFragment_inj hk hk' (by omega) (fragmentLetters_inj h0)
  have g1 := publicKeyFragment_inj hk hk' (by omega) (fragmentLetters_inj h1)
  have g2 := publicKeyFragment_inj hk hk' (by omega) (fragmentLetters_inj h2)
  have g3 := publicKeyFragment_inj hk hk' (by omega) (fragmentLetters_inj h3)
  rw [eq_four_groups hk, eq_four_groups hk', g0, g1, g2, g3]

/-- For every key, case and uninitialised byte: 60 letters of the case, the
groups read back as the key's words, the rest as 18 bits of its hash. -/
theorem identity_lossless (key : FixedBuf UInt8 32) (isLowerCase : Bool) (stackByte : UInt8) :
    let first : Nat := if isLowerCase then 97 else 65
    let letters := identityOver stackByte key.cells isLowerCase
    let checksum := bytesLE (kangarooTwelve key.cells 3) % 2 ^ 18
    letters.length = 60 ∧ (∀ c ∈ letters, first ≤ c.toNat ∧ c.toNat < first + 26) ∧
    (∀ i < 4, readLetters isLowerCase ((letters.drop (14 * i)).take 14)
      = bytesLE ((key.cells.drop (8 * i)).take 8)) ∧
    (∀ (key' : FixedBuf UInt8 32) (stackByte' : UInt8),
      identityOver stackByte' key'.cells isLowerCase = letters ↔ key' = key) ∧
    letters.drop 56 = (wordLE 26 4 checksum).map (identityLetter isLowerCase) ∧
    readLetters isLowerCase (letters.drop 56) = checksum := by
  intro first letters checksum
  have hchecksum : letters.drop 56 = (wordLE 26 4 checksum).map (identityLetter isLowerCase) := by
    show (identityOver stackByte key.cells isLowerCase).drop 56 = _
    rw [identityOver_drop, checksumLetters_eq, identityChecksum_toNat]
  refine ⟨?_, ?_, ?_, ?_, hchecksum, ?_⟩
  · show (identityOver stackByte key.cells isLowerCase).length = 60
    rw [identityOver_stackByte, length_getIdentityFromPublicKey]
  · intro c hc
    obtain ⟨d, hd, rfl⟩ := identityOver_letters stackByte key.cells isLowerCase c hc
    have hn := identityLetter_toNat isLowerCase hd
    rw [hn, Nat.add_comm]
    exact ⟨Nat.le_add_right _ _, Nat.add_lt_add_left hd _⟩
  · intro i hi
    have hle : (2 : Nat) ^ 64 ≤ 26 ^ 14 := by norm_num
    show readLetters isLowerCase
      (((identityOver stackByte key.cells isLowerCase).drop (14 * i)).take 14) = _
    rw [identityOver_group stackByte key.cells isLowerCase hi, fragmentLetters_eq,
      readLetters_wordLE,
      Nat.mod_eq_of_lt (Nat.lt_of_lt_of_le (publicKeyFragment key.cells i).toNat_lt hle),
      publicKeyFragment_toNat key.size_eq hi]
  · intro key' stackByte'
    show identityOver stackByte' key'.cells isLowerCase
      = identityOver stackByte key.cells isLowerCase ↔ _
    rw [identityOver_stackByte, identityOver_stackByte]
    constructor
    · intro h
      exact FixedBuf.ext (getIdentityFromPublicKey_inj key'.size_eq key.size_eq h)
    · intro h
      rw [h]
  · have hlt : checksum < 26 ^ 4 :=
      Nat.lt_of_lt_of_le (Nat.mod_lt _ (by omega)) (by norm_num)
    rw [hchecksum, readLetters_wordLE, Nat.mod_eq_of_lt hlt]

end QubicLedger
