import QubicLedger.Types

/-!
# The Ledger SDK, as the app relies on it

The app is linked against the device SDK, whose code is not part of the
repository. Its functions are parameters here (`Sdk`), each together with the
documented behaviour the app depends on and nothing more:

* `buffer_read_u8` stores the byte it reads and moves the offset by one;
* `buffer_read_bip32_path` succeeds on at most `MAX_BIP32_PATH` words with
  enough input, storing the big-endian words; it returns false otherwise, and
  then nothing is known about what it left in the output array;
* `buffer_move` of exactly the remaining bytes succeeds and copies them;
* `format_fpu64` succeeds on the 30-byte buffer of the review;
* `bip32_derive_with_seed_init_privkey_256` is some function of the path array
  and the length it is handed, or an error code.

The transport (`io_send_sw`, `io_send_response_pointer`) is taken to deliver.
`Sdk.reference` is an instance that does what the documentation says, for any
key derivation.
-/

namespace QubicLedger

open Lib (FixedBuf)

/-- `buffer_t`. -/
structure Buffer where
  ptr : List UInt8
  size : Nat
  offset : Nat
deriving DecidableEq

/-- The bytes between the offset and the end. -/
def Buffer.rest (b : Buffer) : List UInt8 := (b.ptr.drop b.offset).take (b.size - b.offset)

/-- A buffer over a whole byte string, as the dispatcher makes it. -/
def Buffer.ofData (data : List UInt8) : Buffer := ⟨data, data.length, 0⟩

@[simp] theorem Buffer.rest_ofData (data : List UInt8) : (Buffer.ofData data).rest = data := by
  simp [Buffer.rest, Buffer.ofData]

/-- Advancing inside the buffer drops that many bytes of the rest. -/
theorem Buffer.rest_advance (data : List UInt8) (k : Nat) :
    ({ ptr := data, size := data.length, offset := k } : Buffer).rest = data.drop k := by
  unfold Buffer.rest
  exact List.take_of_length_le (Nat.le_of_eq List.length_drop)

/-- `read_u32_be` on four bytes. -/
def readU32BE : List UInt8 → UInt32
  | [a, b, c, d] => a.toUInt32 <<< 24 ||| b.toUInt32 <<< 16 ||| c.toUInt32 <<< 8 ||| d.toUInt32
  | _ => 0

/-- The first `n` big-endian 32-bit words of a byte string. -/
def bip32Words : Nat → List UInt8 → List UInt32
  | 0, _ => []
  | n + 1, bs => readU32BE (bs.take 4) :: bip32Words n (bs.drop 4)

@[simp] theorem length_bip32Words (n : Nat) (bs : List UInt8) :
    (bip32Words n bs).length = n := by
  induction n generalizing bs with
  | zero => rfl
  | succ n ih => rw [bip32Words, List.length_cons, ih]

/-- The SDK functions the app calls, with their documented behaviour. -/
structure Sdk where
  /-- Returned flag, `*value`, buffer afterwards. -/
  bufferReadU8 : Buffer → Bool × UInt8 × Buffer
  /-- Returned flag, `out` afterwards, buffer afterwards. -/
  bufferReadBip32Path : Buffer → FixedBuf UInt32 maxBip32Path → Nat →
    Bool × FixedBuf UInt32 maxBip32Path × Buffer
  /-- Returned flag, bytes stored at `out`, buffer afterwards. -/
  bufferMove : Buffer → Nat → Bool × List UInt8 × Buffer
  /-- `format_fpu64(dst, dst_len, value, decimals)`: the returned flag. -/
  formatFpu64 : Nat → UInt64 → UInt8 → Bool
  /-- `bip32_derive_with_seed_init_privkey_256(.., path, path_len, ..)`. -/
  bip32Derive : FixedBuf UInt32 maxBip32Path → UInt8 → Except UInt32 (FixedBuf UInt8 32)
  readU8_some : ∀ (b : Buffer) (x : UInt8), b.rest.head? = some x →
    bufferReadU8 b = (true, x, { b with offset := b.offset + 1 })
  readU8_none : ∀ b : Buffer, b.rest = [] → (bufferReadU8 b).1 = false
  readPath_accept : ∀ (b : Buffer) (out : FixedBuf UInt32 maxBip32Path) (n : Nat),
    n ≤ maxBip32Path → 4 * n ≤ b.rest.length →
    bufferReadBip32Path b out n
      = (true, out.write 0 (bip32Words n b.rest), { b with offset := b.offset + 4 * n })
  readPath_refuse : ∀ (b : Buffer) (out : FixedBuf UInt32 maxBip32Path) (n : Nat),
    ¬(n ≤ maxBip32Path ∧ 4 * n ≤ b.rest.length) → (bufferReadBip32Path b out n).1 = false
  move_rest : ∀ b : Buffer, b.offset ≤ b.size →
    bufferMove b (b.size - b.offset) = (true, b.rest, { b with offset := b.size })
  formatFpu64_amount : ∀ v : UInt64, formatFpu64 30 v exponentSmallestUnit = true

namespace Sdk

/-- How many whole words a failing path read has already stored. -/
def storedWords (b : Buffer) (n : Nat) : Nat :=
  if n ≤ maxBip32Path then b.rest.length / 4 else 0

/-- An SDK that does what the documentation says, over any key derivation. -/
def reference (derive : FixedBuf UInt32 maxBip32Path → UInt8 → Except UInt32 (FixedBuf UInt8 32)) :
    Sdk where
  bufferReadU8 b :=
    match b.rest.head? with
    | some x => (true, x, { b with offset := b.offset + 1 })
    | none => (false, 0, b)
  bufferReadBip32Path b out n :=
    if n ≤ maxBip32Path ∧ 4 * n ≤ b.rest.length then
      (true, out.write 0 (bip32Words n b.rest), { b with offset := b.offset + 4 * n })
    else (false, out.write 0 (bip32Words (storedWords b n) b.rest), b)
  bufferMove b n :=
    if b.size - b.offset ≤ n then (true, b.rest, { b with offset := b.size })
    else (false, [], b)
  formatFpu64 dstLen _ decimals := 21 + decimals.toNat < dstLen
  bip32Derive := derive
  readU8_some b x h := by rw [h]
  readU8_none b h := by rw [h]; rfl
  readPath_accept b out n hn hlen := if_pos ⟨hn, hlen⟩
  readPath_refuse b out n h := by rw [if_neg h]
  move_rest b _ := if_pos (Nat.le_refl _)
  formatFpu64_amount _ := rfl

end Sdk

end QubicLedger
