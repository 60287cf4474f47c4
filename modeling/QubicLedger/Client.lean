import QubicLedger.Session.Steps

/-!
# The client's transaction format (`tests/application_client/boilerplate_transaction_qubic.py`)

The client packs its six fields with Python's `struct.pack` in native mode:
integers in the machine's byte order, each put at a multiple of its size with
pad bytes in front where needed (`structPack`). The device copies the bytes
over `transaction_qubic_t`. Both sides lay the fields out one after the other
with no pad byte (`serialize_eq`), so that serialising and parsing undo each
other (`decodeTransaction_serialize`, `serialize_decodeTransaction`).
-/

namespace QubicLedger

open Lib (FixedBuf bytesLE bytesLE_bytesOfLE bytesOfLE bytesOfLE_bytesLE length_bytesOfLE)

/-! ## `struct.pack` -/

/-- One item of a format string with its argument. -/
inductive StructItem
  /-- `<n>s`. -/
  | chars (n : Nat) (bs : List UInt8)
  /-- `Q`, `I` or `H`: an unsigned integer of `n` bytes. -/
  | uint (n : Nat) (value : Nat)

/-- `struct.calcsize` of one item. -/
@[simp] def StructItem.size : StructItem → Nat
  | .chars n _ => n
  | .uint n _ => n

@[simp] def StructItem.align : StructItem → Nat
  | .chars _ _ => 1
  | .uint n _ => n

/-- `s` cuts or zero-fills to its count; integers are little-endian. -/
def StructItem.encode : StructItem → List UInt8
  | .chars n bs => (bs ++ List.replicate n 0).take n
  | .uint n value => bytesOfLE n value

/-- The pad bytes between an offset and the next multiple of `align`. -/
def padding (offset align : Nat) : Nat := (align - offset % align) % align

/-- `struct.pack`, from an offset on. -/
def structPack : Nat → List StructItem → List UInt8
  | _, [] => []
  | offset, item :: items =>
    let pad := padding offset item.align
    List.replicate pad 0 ++ item.encode ++ structPack (offset + pad + item.size) items

/-- An item at a multiple of its alignment gets no pad bytes. -/
theorem structPack_aligned {offset : Nat} {item : StructItem} (items : List StructItem)
    (h : offset % item.align = 0) :
    structPack offset (item :: items) = item.encode ++ structPack (offset + item.size) items := by
  have hpad : padding offset item.align = 0 := by
    rw [padding, h, Nat.sub_zero, Nat.mod_self]
  rw [structPack, hpad]
  rfl

theorem encode_chars {n : Nat} (b : FixedBuf UInt8 n) :
    (StructItem.chars n b.cells).encode = b.cells :=
  List.take_left' b.size_eq

/-! ## `TransactionQubic` -/

namespace TransactionQubic

/-- `TransactionQubic.serialize`. -/
def serialize (tx : TransactionQubic) : List UInt8 :=
  structPack 0
    [.chars addressLen tx.sourcePublicKey.cells, .chars addressLen tx.destinationPublicKey.cells,
      .uint 8 tx.amount.toNat, .uint 4 tx.tick.toNat, .uint 2 tx.inputType.toNat,
      .uint 2 tx.inputSize.toNat]

/-- The six fields, one after the other. -/
theorem serialize_eq (tx : TransactionQubic) :
    tx.serialize
      = tx.sourcePublicKey.cells ++ (tx.destinationPublicKey.cells ++ (bytesOfLE 8 tx.amount.toNat
        ++ (bytesOfLE 4 tx.tick.toNat ++ (bytesOfLE 2 tx.inputType.toNat
        ++ (bytesOfLE 2 tx.inputSize.toNat ++ []))))) := by
  unfold serialize
  -- offsets 0, 32, 64, 72, 76 and 78
  rw [structPack_aligned _ (by simp), structPack_aligned _ (by simp [addressLen]),
    structPack_aligned _ (by simp [addressLen]), structPack_aligned _ (by simp [addressLen]),
    structPack_aligned _ (by simp [addressLen]), structPack_aligned _ (by simp [addressLen]),
    encode_chars, encode_chars]
  rfl

theorem length_serialize (tx : TransactionQubic) :
    tx.serialize.length = sizeofTransactionQubic := by
  rw [serialize_eq]
  simp only [List.length_append, FixedBuf.size_eq, length_bytesOfLE, List.length_nil]
  rfl

/-- The parser's three tests on a record. -/
structure Valid (tx : TransactionQubic) : Prop where
  source : tx.sourcePublicKey ≠ .fill _ 0
  destination : tx.destinationPublicKey ≠ .fill _ 0
  amount : tx.amount ≠ 0

end TransactionQubic

/-- `memcmp` with an array of zeros. -/
theorem cells_eq_replicate_iff {n : Nat} {b : FixedBuf UInt8 n} :
    b.cells = List.replicate n 0 ↔ b = .fill n 0 := by
  constructor
  · intro h
    exact FixedBuf.ext h
  · intro h
    rw [h]
    rfl

theorem checkTransaction_ok_iff (tx : TransactionQubic) :
    checkTransaction tx = .parsingOk ↔ tx.Valid := by
  unfold checkTransaction
  by_cases hdest : tx.destinationPublicKey = .fill _ 0
  · rw [if_pos (cells_eq_replicate_iff.mpr hdest)]
    exact iff_of_false (by simp) (fun h => h.destination hdest)
  rw [if_neg (mt cells_eq_replicate_iff.mp hdest)]
  by_cases hsource : tx.sourcePublicKey = .fill _ 0
  · rw [if_pos (cells_eq_replicate_iff.mpr hsource)]
    exact iff_of_false (by simp) (fun h => h.source hsource)
  rw [if_neg (mt cells_eq_replicate_iff.mp hsource)]
  by_cases hamount : tx.amount = 0
  · rw [if_pos hamount]
    exact iff_of_false (by simp) (fun h => h.amount hamount)
  · rw [if_neg hamount]
    exact iff_of_true rfl ⟨hsource, hdest, hamount⟩

/-! ## The two directions -/

section RoundTrip

open TransactionQubic

private theorem copyBytes_cells {n : Nat} (b : FixedBuf UInt8 n) : copyBytes n b.cells = b :=
  FixedBuf.ext (cells_copyBytes b.size_eq)

/-- The layout of `transaction_qubic_t`, cut at its field boundaries. -/
theorem decodeTransaction_append {source destination amount tick inputType inputSize : List UInt8}
    (hsource : source.length = 32) (hdestination : destination.length = 32)
    (hamount : amount.length = 8) (htick : tick.length = 4) (hinputType : inputType.length = 2)
    (hinputSize : inputSize.length = 2) :
    decodeTransaction
        (source ++ (destination ++ (amount ++ (tick ++ (inputType ++ (inputSize ++ []))))))
      = { sourcePublicKey := copyBytes _ source
          destinationPublicKey := copyBytes _ destination
          amount := UInt64.ofNat (bytesLE amount)
          tick := UInt32.ofNat (bytesLE tick)
          inputType := UInt16.ofNat (bytesLE inputType)
          inputSize := UInt16.ofNat (bytesLE inputSize) } := by
  generalize hbs : source ++ (destination ++ (amount ++ (tick ++ (inputType ++ (inputSize ++ [])))))
    = bs
  have hcut : ∀ {i n j : Nat} {xs ys : List UInt8}, bs.drop i = xs ++ ys → xs.length = n →
      i + n = j → (bs.drop i).take n = xs ∧ bs.drop j = ys := by
    intro i n j xs ys hdrop hn hj
    rw [← hj, ← List.drop_drop, hdrop]
    exact ⟨List.take_left' hn, List.drop_left' hn⟩
  obtain ⟨h0, hdrop⟩ := hcut (i := 0) (j := 32) hbs.symm hsource rfl
  obtain ⟨h32, hdrop⟩ := hcut (j := 64) hdrop hdestination rfl
  obtain ⟨h64, hdrop⟩ := hcut (j := 72) hdrop hamount rfl
  obtain ⟨h72, hdrop⟩ := hcut (j := 76) hdrop htick rfl
  obtain ⟨h76, hdrop⟩ := hcut (j := 78) hdrop hinputType rfl
  obtain ⟨h78, -⟩ := hcut (j := 80) hdrop hinputSize rfl
  rw [List.drop_zero] at h0
  unfold decodeTransaction
  rw [h0, h32, h64, h72, h76, h78]

/-- The device reads every field the client wrote. -/
theorem decodeTransaction_serialize (tx : TransactionQubic) :
    decodeTransaction tx.serialize = tx := by
  have hamount : tx.amount.toNat < 256 ^ 8 := tx.amount.toNat_lt
  have htick : tx.tick.toNat < 256 ^ 4 := tx.tick.toNat_lt
  have htype : tx.inputType.toNat < 256 ^ 2 := tx.inputType.toNat_lt
  have hsize : tx.inputSize.toNat < 256 ^ 2 := tx.inputSize.toNat_lt
  rw [serialize_eq, decodeTransaction_append tx.sourcePublicKey.size_eq
    tx.destinationPublicKey.size_eq (length_bytesOfLE ..) (length_bytesOfLE ..)
    (length_bytesOfLE ..) (length_bytesOfLE ..), copyBytes_cells, copyBytes_cells,
    bytesLE_bytesOfLE, bytesLE_bytesOfLE, bytesLE_bytesOfLE, bytesLE_bytesOfLE]
  rw [Nat.mod_eq_of_lt hamount, Nat.mod_eq_of_lt htick, Nat.mod_eq_of_lt htype,
    Nat.mod_eq_of_lt hsize, UInt64.ofNat_toNat, UInt32.ofNat_toNat, UInt16.ofNat_toNat,
    UInt16.ofNat_toNat]

/-- The client writes every byte the device read. -/
theorem serialize_decodeTransaction {buf : List UInt8}
    (h : buf.length = sizeofTransactionQubic) : (decodeTransaction buf).serialize = buf := by
  have hfields := decodeTransaction_laidOut h
  have h80 : buf.length = 80 := h
  -- each slice, and then what is behind it
  have hcut : ∀ {i n : Nat}, buf.drop i = (buf.drop i).take n ++ buf.drop (i + n) := by
    intro i n
    rw [← List.drop_drop, List.take_append_drop]
  have hwhole : buf = buf.take 32 ++ ((buf.drop 32).take 32 ++ ((buf.drop 64).take 8
      ++ ((buf.drop 72).take 4 ++ ((buf.drop 76).take 2 ++ ((buf.drop 78).take 2 ++ []))))) := by
    have hend : buf.drop 80 = [] := List.drop_of_length_le (Nat.le_of_eq h80)
    rw [← hend, ← hcut (i := 78), ← hcut (i := 76), ← hcut (i := 72), ← hcut (i := 64),
      ← hcut (i := 32), List.take_append_drop]
  rw [serialize_eq, hfields.source, hfields.destination, hfields.amount, hfields.tick,
    hfields.inputType, hfields.inputSize, bytesOfLE_bytesLE (length_field h (by decide)),
    bytesOfLE_bytesLE (length_field h (by decide)), bytesOfLE_bytesLE (length_field h (by decide)),
    bytesOfLE_bytesLE (length_field h (by decide))]
  exact hwhole.symm

end RoundTrip

/-! ## The format -/

/-- What the parser accepts, read off the bytes. -/
theorem parses_iff (buf : List UInt8) :
    Parses buf ↔ buf.length = sizeofTransactionQubic ∧
      buf.take 32 ≠ List.replicate 32 0 ∧ (buf.drop 32).take 32 ≠ List.replicate 32 0 ∧
      bytesLE ((buf.drop 64).take 8) ≠ 0 := by
  unfold Parses
  refine and_congr_right fun h => ?_
  have hfields := decodeTransaction_laidOut h
  have hsource : (decodeTransaction buf).sourcePublicKey = .fill _ 0
      ↔ buf.take 32 = List.replicate 32 0 := by
    rw [← cells_eq_replicate_iff, hfields.source]
  have hdest : (decodeTransaction buf).destinationPublicKey = .fill _ 0
      ↔ (buf.drop 32).take 32 = List.replicate 32 0 := by
    rw [← cells_eq_replicate_iff, hfields.destination]
  have hamount : (decodeTransaction buf).amount = 0 ↔ bytesLE ((buf.drop 64).take 8) = 0 := by
    rw [← UInt64.toNat_inj, hfields.amount]
    rfl
  rw [checkTransaction_ok_iff, Ne, Ne, Ne, ← hsource, ← hdest, ← hamount]
  refine ⟨fun hvalid => ⟨hvalid.source, hvalid.destination, hvalid.amount⟩, ?_⟩
  rintro ⟨hsrc, hdst, hpositive⟩
  exact ⟨hsrc, hdst, hpositive⟩

/-- A valid record, serialised, is accepted. -/
theorem parses_serialize {tx : TransactionQubic} (h : tx.Valid) : Parses tx.serialize := by
  refine ⟨tx.length_serialize, ?_⟩
  rw [decodeTransaction_serialize]
  exact (checkTransaction_ok_iff tx).mpr h

/-- Only the length check reports a length error, and it leaves the structure alone. -/
theorem deserializeTransaction_keeps {held : TransactionQubic} {buf : List UInt8}
    (h : (deserializeTransaction held buf).1 = .wrongLengthError) :
    (deserializeTransaction held buf).2 = held := by
  by_cases hlen : buf.length = sizeofTransactionQubic
  · have hcheck : checkTransaction (decodeTransaction buf) ≠ .wrongLengthError := by
      unfold checkTransaction
      split_ifs <;> simp
    rw [deserializeTransaction_of_length held hlen] at h
    exact absurd h hcheck
  · rw [deserializeTransaction_length_error held hlen]

/-- After the final chunk of an accepted body the context holds its record and
the digest of its serialisation. -/
theorem signTxFinish_record (dev : Device) {app : App} (h : Parses app.ctx.received) :
    (signTxFinish dev app).1.ctx.txInfo.transactionQubic = decodeTransaction app.ctx.received ∧
    (signTxFinish dev app).1.ctx.txInfo.mHash.cells
      = kangarooTwelve (decodeTransaction app.ctx.received).serialize transactionDigestLen := by
  rw [(signTxFinish_ctx dev app).1, serialize_decodeTransaction h.1]
  exact ⟨congrArg Prod.snd (h.deserialize _), digestOf_cells _⟩

/-- The parser accepts exactly the documented format: 80 bytes with non-zero
keys and amount. It undoes the client's serialisation, which gives back the
bytes that are hashed, and a length error leaves the structure alone. -/
theorem deserializeTransaction_exact (held : TransactionQubic) (buf : List UInt8) :
    ((deserializeTransaction held buf).1 = .parsingOk ↔
      buf.length = sizeofTransactionQubic ∧
        buf.take 32 ≠ List.replicate 32 0 ∧ (buf.drop 32).take 32 ≠ List.replicate 32 0 ∧
        bytesLE ((buf.drop 64).take 8) ≠ 0) ∧
    (∀ tx : TransactionQubic, tx.Valid →
      deserializeTransaction held tx.serialize = (.parsingOk, tx)) ∧
    ((deserializeTransaction held buf).1 = .parsingOk →
      (deserializeTransaction held buf).2.serialize = buf ∧
      ∀ dev app, app.ctx.received = buf →
        let after := (signTxFinish dev app).1.ctx.txInfo
        after.transactionQubic = (deserializeTransaction held buf).2 ∧
        after.mHash.cells
          = kangarooTwelve after.transactionQubic.serialize transactionDigestLen) ∧
    ((deserializeTransaction held buf).1 = .wrongLengthError →
      (deserializeTransaction held buf).2 = held) := by
  refine ⟨?_, ?_, ?_, deserializeTransaction_keeps⟩
  · rw [deserializeTransaction_ok_iff, parses_iff]
  · intro tx hvalid
    rw [(parses_serialize hvalid).deserialize, decodeTransaction_serialize]
  · intro hok
    have hparses := (deserializeTransaction_ok_iff held buf).mp hok
    rw [hparses.deserialize]
    refine ⟨serialize_decodeTransaction hparses.1, ?_⟩
    intro dev app hbuf after
    subst hbuf
    obtain ⟨htx, hhash⟩ := signTxFinish_record dev hparses
    refine ⟨htx, ?_⟩
    show _ = kangarooTwelve after.transactionQubic.serialize _
    rw [show after.transactionQubic = _ from htx]
    exact hhash

end QubicLedger
