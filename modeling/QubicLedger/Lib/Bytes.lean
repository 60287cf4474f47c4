import QubicLedger.Lib.Positional

/-!
# Byte strings as numbers

`bytesBE` and `bytesLE` read a byte string as a base-256 number in either
byte order; strings of one length are determined by their value
(`bytesBE_inj`, `bytesLE_inj`). `bytesOfLE` writes a number as a little-endian
word; the two undo each other at any one width (`bytesLE_bytesOfLE`,
`bytesOfLE_bytesLE`).
-/

namespace Lib

private theorem map_toNat_lt (bs : List UInt8) : ∀ d ∈ bs.map UInt8.toNat, d < 256 := by
  intro d hd
  obtain ⟨b, -, rfl⟩ := List.mem_map.mp hd
  exact b.toNat_lt

private theorem map_toNat_injective : Function.Injective (List.map UInt8.toNat) :=
  List.map_injective_iff.mpr (fun _ _ h => UInt8.toNat_inj.mp h)

/-- A byte string as a big-endian number. -/
def bytesBE (bs : List UInt8) : Nat := valueBE 256 (bs.map UInt8.toNat)

theorem bytesBE_lt (bs : List UInt8) : bytesBE bs < 256 ^ bs.length := by
  have h := valueBE_lt (by omega) (map_toNat_lt bs)
  rwa [List.length_map] at h

theorem bytesBE_inj {xs ys : List UInt8} (hlen : xs.length = ys.length)
    (h : bytesBE xs = bytesBE ys) : xs = ys :=
  map_toNat_injective (valueBE_inj (by omega) (by rw [List.length_map, List.length_map, hlen])
    (map_toNat_lt xs) (map_toNat_lt ys) h)

theorem bytesBE_eq_zero_iff (bs : List UInt8) : bytesBE bs = 0 ↔ ∀ b ∈ bs, b = 0 := by
  unfold bytesBE
  rw [valueBE_eq_zero_iff (by omega), List.forall_mem_map]
  refine forall_congr' fun b => imp_congr_right fun _ => ?_
  exact ⟨fun h => UInt8.toNat_inj.mp h, fun h => by rw [h]; rfl⟩

/-- A byte string as a little-endian number. -/
def bytesLE (bs : List UInt8) : Nat := Nat.ofDigits 256 (bs.map UInt8.toNat)

theorem bytesLE_lt (bs : List UInt8) : bytesLE bs < 256 ^ bs.length := by
  have h := Nat.ofDigits_lt_base_pow_length (b := 256) (by omega) (map_toNat_lt bs)
  rwa [List.length_map] at h

theorem bytesLE_inj {xs ys : List UInt8} (hlen : xs.length = ys.length)
    (h : bytesLE xs = bytesLE ys) : xs = ys :=
  map_toNat_injective (Nat.ofDigits_inj_of_len_eq (by omega)
    (by rw [List.length_map, List.length_map, hlen]) (map_toNat_lt xs) (map_toNat_lt ys) h)

/-- A byte of the string is a digit of the number. -/
theorem bytesLE_getD (bs : List UInt8) (i : Nat) :
    (bs.getD i 0).toNat = bytesLE bs / 256 ^ i % 256 := by
  induction bs generalizing i with
  | nil =>
    rw [List.getD_nil, show bytesLE [] = 0 from rfl, Nat.zero_div]
    rfl
  | cons b bs ih =>
    have hb := b.toNat_lt
    have hval : bytesLE (b :: bs) = b.toNat + 256 * bytesLE bs := rfl
    cases i with
    | zero =>
      rw [List.getD_cons_zero, hval, Nat.pow_zero, Nat.div_one]
      omega
    | succ i =>
      rw [List.getD_cons_succ, ih, hval, Nat.pow_succ', ← Nat.div_div_eq_div_mul]
      congr 2
      omega

/-- The number in a word of `k` bytes is below `256 ^ k`. -/
theorem bytesLE_mod {bs : List UInt8} {k size : Nat} (hsize : 256 ^ k = size)
    (h : bs.length = k) : bytesLE bs % size = bytesLE bs := by
  refine Nat.mod_eq_of_lt ?_
  rw [← hsize, ← h]
  exact bytesLE_lt bs

/-! ## Writing words -/

/-- The `k` low bytes of a number, least significant first. -/
def bytesOfLE (k n : Nat) : List UInt8 := (wordLE 256 k n).map UInt8.ofNat

@[simp] theorem length_bytesOfLE (k n : Nat) : (bytesOfLE k n).length = k := by
  rw [bytesOfLE, List.length_map, length_wordLE]

/-- A written word reads as the number modulo `256 ^ k`. -/
theorem bytesLE_bytesOfLE (k n : Nat) : bytesLE (bytesOfLE k n) = n % 256 ^ k := by
  have hdigits : (bytesOfLE k n).map UInt8.toNat = wordLE 256 k n := by
    unfold bytesOfLE
    rw [List.map_map, List.map_congr_left (g := id), List.map_id]
    intro d hd
    show (UInt8.ofNat d).toNat = d
    rw [UInt8.toNat_ofNat', Nat.mod_eq_of_lt (wordLE_lt (by omega) k n d hd)]
  rw [bytesLE, hdigits, ofDigits_wordLE]

/-- A word is written back as it was read. -/
theorem bytesOfLE_bytesLE {bs : List UInt8} {k : Nat} (h : bs.length = k) :
    bytesOfLE k (bytesLE bs) = bs := by
  refine bytesLE_inj (by rw [length_bytesOfLE, h]) ?_
  rw [bytesLE_bytesOfLE, bytesLE_mod rfl h]

end Lib
