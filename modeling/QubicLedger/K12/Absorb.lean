import QubicLedger.K12
import QubicLedger.Lib.Sponge
import QubicLedger.Lib.Bytes
import Mathlib.Data.List.GetD

/-!
# Absorbing, lane by lane (`kangaroo_twelve_f_absorb`)

The code never touches a single byte of the state: whole blocks go into the 25
lanes in registers, a partial block at the start of the rate goes in by an
unrolled loop over lanes, and one in the middle by lanes shifted into place.
Here the three ways are written as they are. `absorbLanes_eq` says that, at any
position and for any data, they do what the sponge does symbol by symbol, and
`kangarooTwelveFAbsorb_eq` that so does the byte-wise loop which the rest of
this development uses.
-/

namespace QubicLedger

open Lib (FixedBuf Sponge bytesLE bytesOfLE)

/-! ## The functions -/

/-- `((unsigned long long *) p)[j]`. -/
def laneAt (bytes : List UInt8) (j : Nat) : UInt64 := laneOfBytes ((bytes.drop (8 * j)).take 8)

/-- `((unsigned long long *) state)[j] ^= lane`. -/
def xorLane (state : FixedBuf UInt8 200) (j : Nat) (lane : UInt64) : FixedBuf UInt8 200 :=
  state.write (8 * j) (bytesOfLane (laneAt state.cells j ^^^ lane))

/-- The body of an unrolled loop: `width` lanes of the data. -/
def xorLanes (data : List UInt8) (state : FixedBuf UInt8 200) (j width : Nat) :
    FixedBuf UInt8 200 :=
  (List.range' j width).foldl (fun state i => xorLane state i (laneAt data i)) state

/-- `for (; (j + width) <= lanes; j += width)`. -/
def laneLoop (data : List UInt8) {width : Nat} (hw : 0 < width) (lanes : Nat)
    (st : FixedBuf UInt8 200 × Nat) : FixedBuf UInt8 200 × Nat :=
  if st.2 + width ≤ lanes then
    laneLoop data hw lanes (xorLanes data st.1 st.2 width, st.2 + width)
  else st
termination_by lanes - st.2

/-- A partial block at the start of the rate. -/
def xorAligned (data : List UInt8) (state : FixedBuf UInt8 200) (partialBlock : Nat) :
    FixedBuf UInt8 200 :=
  let lanes := partialBlock >>> 3
  let st := laneLoop data (show 0 < 8 by decide) lanes (state, 0)
  let st := laneLoop data (show 0 < 4 by decide) lanes st
  let st := laneLoop data (show 0 < 2 by decide) lanes st
  let state := if st.2 < lanes then xorLane st.1 st.2 (laneAt data st.2) else st.1
  if partialBlock &&& 7 ≠ 0 then
    xorLane state (partialBlock >>> 3)
      (laneOfBytes ((data.drop (partialBlock &&& 0xFFFFFFF8)).take (partialBlock &&& 7)))
  else state

/-- A partial block from a position on, with the loop over `_sizeLeft`. -/
def xorUnaligned (data : List UInt8) (state : FixedBuf UInt8 200) (sizeLeft lanePosition : Nat)
    (offsetInLane : Fin 8) : FixedBuf UInt8 200 :=
  if sizeLeft = 0 then state
  else
    let bytesInLane := if 8 - offsetInLane.val > sizeLeft then sizeLeft else 8 - offsetInLane.val
    let state :=
      if bytesInLane ≠ 0 then
        xorLane state lanePosition
          (laneOfBytes (data.take bytesInLane) <<< UInt64.ofNat (offsetInLane.val <<< 3))
      else state
    xorUnaligned (data.drop bytesInLane) state (sizeLeft - bytesInLane) (lanePosition + 1) 0
termination_by sizeLeft
decreasing_by
  have := offsetInLane.isLt
  split <;> omega

/-- `Aba ^= data[0]; ..; Asa ^= data[20];`. -/
def xorBlock (A : Lanes) (data : List UInt8) : Lanes :=
  { A with
    ba := A.ba ^^^ laneAt data 0
    be := A.be ^^^ laneAt data 1
    bi := A.bi ^^^ laneAt data 2
    bo := A.bo ^^^ laneAt data 3
    bu := A.bu ^^^ laneAt data 4
    ga := A.ga ^^^ laneAt data 5
    ge := A.ge ^^^ laneAt data 6
    gi := A.gi ^^^ laneAt data 7
    go := A.go ^^^ laneAt data 8
    gu := A.gu ^^^ laneAt data 9
    ka := A.ka ^^^ laneAt data 10
    ke := A.ke ^^^ laneAt data 11
    ki := A.ki ^^^ laneAt data 12
    ko := A.ko ^^^ laneAt data 13
    ku := A.ku ^^^ laneAt data 14
    ma := A.ma ^^^ laneAt data 15
    me := A.me ^^^ laneAt data 16
    mi := A.mi ^^^ laneAt data 17
    mo := A.mo ^^^ laneAt data 18
    mu := A.mu ^^^ laneAt data 19
    sa := A.sa ^^^ laneAt data 20 }

/-- `while (modifiedDataByteLen >= K12_rateInBytes)`: the lanes and what is left of the data. -/
def absorbBlocks (A : Lanes) (data : List UInt8) : Lanes × List UInt8 :=
  if k12RateInBytes ≤ data.length then
    absorbBlocks (rounds12 (xorBlock A data)) (data.drop k12RateInBytes)
  else (A, data)
termination_by data.length
decreasing_by
  rw [List.length_drop]
  have : 0 < k12RateInBytes := by decide
  omega

/-- `partialBlock`, an `uint8_t`. -/
def partialBlockOf (index dataByteLen : Nat) : Nat :=
  if dataByteLen + index > k12RateInBytes then k12RateInBytes - index else dataByteLen % 256

/-- Either way of putting a partial block in. -/
def xorPartial (inst : KangarooTwelveF) (data : List UInt8) (partialBlock : Nat) :
    FixedBuf UInt8 200 :=
  if inst.byteIOIndex = 0 then xorAligned data inst.state partialBlock
  else xorUnaligned data inst.state partialBlock (inst.byteIOIndex >>> 3)
    ⟨inst.byteIOIndex % 8, Nat.mod_lt _ (by decide)⟩

/-- `kangaroo_twelve_f_absorb`. Each pass of its loop consumes data. -/
def absorbLanes : Nat → KangarooTwelveF → List UInt8 → KangarooTwelveF
  | 0, inst, _ => inst
  | fuel + 1, inst, data =>
    if data = [] then inst
    else if inst.byteIOIndex = 0 ∧ k12RateInBytes ≤ data.length then
      let out := absorbBlocks (copyFromState inst.state.cells) data
      absorbLanes fuel ⟨⟨copyToState out.1, length_copyToState _⟩, inst.byteIOIndex⟩ out.2
    else
      let partialBlock := partialBlockOf inst.byteIOIndex data.length
      let state := xorPartial inst data partialBlock
      let index := inst.byteIOIndex + partialBlock
      if index = k12RateInBytes then
        absorbLanes fuel ⟨keccakP1600Permute12rounds state, 0⟩ (data.drop partialBlock)
      else absorbLanes fuel ⟨state, index⟩ (data.drop partialBlock)

/-! ## Lanes and bytes -/

/-- Byte `k` of a lane. -/
def laneByte (x : UInt64) (k : Nat) : UInt8 := UInt8.ofNat (x.toNat >>> (8 * k))

theorem bytesOfLane_eq (x : UInt64) : bytesOfLane x = (List.range 8).map (laneByte x) := by
  have hlow : x.toUInt8 = UInt8.ofNat (x.toNat >>> (8 * 0)) := by
    apply UInt8.toNat_inj.mp
    rw [UInt64.toNat_toUInt8, UInt8.toNat_ofNat']
    rfl
  have hbyte : ∀ k : UInt64, k.toNat < 64 →
      (x >>> k).toUInt8 = UInt8.ofNat (x.toNat >>> k.toNat) := by
    intro k hk
    apply UInt8.toNat_inj.mp
    rw [UInt64.toNat_toUInt8, UInt64.toNat_shiftRight, UInt8.toNat_ofNat', Nat.mod_eq_of_lt hk]
  show [_, _, _, _, _, _, _, _] = [_, _, _, _, _, _, _, _]
  unfold laneByte
  rw [hlow, hbyte 8 (by decide), hbyte 16 (by decide), hbyte 24 (by decide), hbyte 32 (by decide),
    hbyte 40 (by decide), hbyte 48 (by decide), hbyte 56 (by decide)]
  rfl

theorem bytesOfLane_getD (x : UInt64) {m : Nat} (hm : m < 8) :
    (bytesOfLane x).getD m 0 = laneByte x m := by
  rw [bytesOfLane_eq, List.getD_eq_getElem _ _ (by simpa using hm), List.getElem_map,
    List.getElem_range]

theorem laneByte_xor (x y : UInt64) (k : Nat) :
    laneByte (x ^^^ y) k = laneByte x k ^^^ laneByte y k := by
  apply UInt8.toNat_inj.mp
  unfold laneByte
  rw [UInt8.toNat_xor, UInt8.toNat_ofNat', UInt8.toNat_ofNat', UInt8.toNat_ofNat', UInt64.toNat_xor,
    Nat.shiftRight_xor_distrib, Nat.xor_mod_two_pow]

/-- A lane is the number of its bytes. -/
theorem laneOfBytes_toNat {bs : List UInt8} (h : bs.length ≤ 8) :
    (laneOfBytes bs).toNat = bytesLE bs := by
  induction bs with
  | nil => rfl
  | cons b bs ih =>
    rw [List.length_cons] at h
    have hlt := Lib.bytesLE_lt bs
    have hb := b.toNat_lt
    have hpow : 256 ^ bs.length ≤ 256 ^ 7 := Nat.pow_le_pow_right (by decide) (by omega)
    have hstep : laneOfBytes (b :: bs) = laneOfBytes bs <<< 8 ||| b.toUInt64 := rfl
    have hval : bytesLE (b :: bs) = b.toNat + 256 * bytesLE bs := rfl
    rw [hstep, UInt64.toNat_or, UInt64.toNat_shiftLeft, UInt8.toNat_toUInt64, ih (by omega), hval,
      show (8 : UInt64).toNat % 64 = 8 from rfl, Nat.shiftLeft_eq, Nat.mod_eq_of_lt (by omega),
      Nat.mul_comm _ (2 ^ 8), ← Nat.two_pow_add_eq_or_of_lt hb]
    omega

theorem laneByte_laneOfBytes {bs : List UInt8} (h : bs.length ≤ 8) (k : Nat) :
    laneByte (laneOfBytes bs) k = bs.getD k 0 := by
  apply UInt8.toNat_inj.mp
  unfold laneByte
  rw [Lib.bytesLE_getD, laneOfBytes_toNat h, UInt8.toNat_ofNat', Nat.shiftRight_eq_div_pow,
    Nat.pow_mul]

/-- A lane in memory, byte by byte. -/
theorem laneByte_laneAt (bytes : List UInt8) (j : Nat) {m : Nat} (hm : m < 8) :
    laneByte (laneAt bytes j) m = bytes.getD (8 * j + m) 0 := by
  unfold laneAt
  rw [laneByte_laneOfBytes (List.length_take_le _ _), List.getD_eq_getElem?_getD,
    List.getElem?_take, if_pos hm, List.getElem?_drop, ← List.getD_eq_getElem?_getD]

/-- The bytes of a lane are those of its number. -/
theorem map_laneByte_range (x : UInt64) (n : Nat) :
    (List.range n).map (laneByte x) = bytesOfLE n x.toNat := by
  unfold laneByte
  generalize x.toNat = v
  induction n generalizing v with
  | zero => rfl
  | succ n ih =>
    have hword : bytesOfLE (n + 1) v = UInt8.ofNat (v % 256) :: bytesOfLE n (v / 256) := rfl
    rw [List.range_succ_eq_map, List.map_cons, List.map_map, hword, ← ih]
    refine congrArg₂ _ ?_ (List.map_congr_left fun k _ => ?_)
    · apply UInt8.toNat_inj.mp
      rw [UInt8.toNat_ofNat', UInt8.toNat_ofNat', Nat.mul_zero, Nat.shiftRight_zero, Nat.mod_mod]
    · show UInt8.ofNat (v >>> (8 * (k + 1))) = _
      rw [Nat.mul_succ, Nat.add_comm (8 * k), Nat.shiftRight_add, Nat.shiftRight_eq_div_pow v 8]

theorem laneOfBytes_bytesOfLane (x : UInt64) : laneOfBytes (bytesOfLane x) = x := by
  have hx : x.toNat < 256 ^ 8 := x.toNat_lt
  apply UInt64.toNat_inj.mp
  rw [laneOfBytes_toNat (Nat.le_of_eq rfl), bytesOfLane_eq, map_laneByte_range,
    Lib.bytesLE_bytesOfLE, Nat.mod_eq_of_lt hx]

/-! ## The sponge -/

/-- KangarooTwelve's sponge, byte by byte. -/
def keccakSponge : Sponge (FixedBuf UInt8 200) UInt8 where
  rate := k12RateInBytes
  rate_pos := by decide
  put state i b := state.set i (state.cells.getD i 0 ^^^ b)
  mix := keccakP1600Permute12rounds

abbrev SpongeNode := keccakSponge.Node

/-- The structure of the code for a node. -/
def KangarooTwelveF.of (node : SpongeNode) : KangarooTwelveF := ⟨node.state, node.index⟩

/-- What bytes put in from `i` on add to byte `k`. -/
def shifted (i : Nat) (bs : List UInt8) (k : Nat) : UInt8 := if i ≤ k then bs.getD (k - i) 0 else 0

theorem shifted_cons (i : Nat) (b : UInt8) (bs : List UInt8) {k : Nat} (h : k ≠ i) :
    shifted i (b :: bs) k = shifted (i + 1) bs k := by
  unfold shifted
  by_cases hik : i ≤ k
  · rw [if_pos hik, if_pos (by omega), show k - i = (k - (i + 1)) + 1 by omega,
      List.getD_cons_succ]
  · rw [if_neg hik, if_neg (by omega)]

/-- Bytes that are put in are added to those already there. -/
theorem putAll_getD {s : FixedBuf UInt8 200} {i : Nat} {bs : List UInt8} (h : i + bs.length ≤ 200)
    (k : Nat) :
    (keccakSponge.putAll s i bs).cells.getD k 0 = s.cells.getD k 0 ^^^ shifted i bs k := by
  induction bs generalizing s i with
  | nil =>
    have hnone : shifted i [] k = 0 := by
      unfold shifted
      split <;> rfl
    rw [hnone, UInt8.xor_zero]
    rfl
  | cons b bs ih =>
    rw [List.length_cons] at h
    have hsize := s.size_eq
    have hset : ∀ x, (s.set i x).cells.getD k 0 = if k = i then x else s.cells.getD k 0 := by
      intro x
      rw [FixedBuf.cells_set, List.getD_eq_getElem?_getD, List.getElem?_set]
      by_cases hk : i = k
      · rw [if_pos hk, if_pos (by omega), if_pos hk.symm]
        rfl
      · rw [if_neg hk, if_neg (Ne.symm hk), List.getD_eq_getElem?_getD]
    rw [Sponge.putAll, ih (by omega)]
    show (s.set i _).cells.getD k 0 ^^^ _ = _
    rw [hset]
    by_cases hk : k = i
    · subst hk
      have hbefore : shifted (k + 1) bs k = 0 := if_neg (by omega)
      have hat : shifted k (b :: bs) k = b := by
        rw [shifted, if_pos (le_refl k), Nat.sub_self, List.getD_cons_zero]
      rw [if_pos rfl, hbefore, hat, UInt8.xor_zero]
    · rw [if_neg hk, shifted_cons i b bs hk]

/-- Two states with the same bytes. -/
theorem state_ext {s t : FixedBuf UInt8 200}
    (h : ∀ k < 200, s.cells.getD k 0 = t.cells.getD k 0) : s = t := by
  have hs := s.size_eq
  have ht := t.size_eq
  refine FixedBuf.ext (List.ext_getElem (by omega) fun k hk hk' => ?_)
  have hbyte := h k (by omega)
  rwa [List.getD_eq_getElem _ _ hk, List.getD_eq_getElem _ _ hk'] at hbyte

/-! ## One lane -/

theorem xorLane_getD (s : FixedBuf UInt8 200) {j : Nat} (hj : j < 25) (lane : UInt64) {k : Nat}
    (hk : k < 200) :
    (xorLane s j lane).cells.getD k 0
      = s.cells.getD k 0 ^^^ (if k / 8 = j then laneByte lane (k % 8) else 0) := by
  have hsize := s.size_eq
  have hlen : (bytesOfLane (laneAt s.cells j ^^^ lane)).length = 8 := rfl
  unfold xorLane
  rw [FixedBuf.cells_write (by omega), hlen]
  by_cases hin : k / 8 = j
  · rw [if_pos hin, List.append_assoc, List.getD_append_right _ _ _ _ (by
        rw [List.length_take]; omega), List.length_take,
      List.getD_append _ _ _ _ (by rw [hlen]; omega),
      show k - min (8 * j) s.cells.length = k % 8 by omega,
      bytesOfLane_getD _ (by omega), laneByte_xor, laneByte_laneAt _ _ (by omega),
      show 8 * j + k % 8 = k by omega]
  · rw [if_neg hin, UInt8.xor_zero]
    rcases Nat.lt_or_ge k (8 * j) with hlow | hhigh
    · rw [List.append_assoc, List.getD_append _ _ _ _ (by rw [List.length_take]; omega),
        List.getD_eq_getElem?_getD, List.getElem?_take, if_pos hlow, ← List.getD_eq_getElem?_getD]
    · rw [List.getD_append_right _ _ _ _ (by
          rw [List.length_append, List.length_take, hlen]; omega),
        List.length_append, List.length_take, hlen, List.getD_eq_getElem?_getD, List.getElem?_drop,
        ← List.getD_eq_getElem?_getD, show 8 * j + 8 + (k - (min (8 * j) s.cells.length + 8)) = k by
          omega]

/-- A lane made of bytes puts these bytes in. -/
theorem xorLane_laneOfBytes (s : FixedBuf UInt8 200) {j : Nat} (hj : j < 25) {bs : List UInt8}
    (h : bs.length ≤ 8) : xorLane s j (laneOfBytes bs) = keccakSponge.putAll s (8 * j) bs := by
  refine state_ext fun k hk => ?_
  rw [xorLane_getD s hj _ hk, putAll_getD (by omega), laneByte_laneOfBytes h]
  congr 1
  unfold shifted
  by_cases hin : k / 8 = j
  · rw [if_pos hin, if_pos (by omega), show k - 8 * j = k % 8 by omega]
  · rw [if_neg hin]
    split
    · rw [List.getD_eq_default _ _ (by omega)]
    · rfl

/-- A zero byte put in changes nothing. -/
theorem put_zero (s : FixedBuf UInt8 200) (i : Nat) : keccakSponge.put s i 0 = s := by
  refine FixedBuf.ext ?_
  show s.cells.set i (s.cells.getD i 0 ^^^ 0) = s.cells
  rw [UInt8.xor_zero]
  rcases Nat.lt_or_ge i s.cells.length with hi | hi
  · rw [List.getD_eq_getElem _ _ hi, List.set_getElem_self]
  · exact List.set_eq_of_length_le hi

theorem putAll_zeros (s : FixedBuf UInt8 200) (i n : Nat) :
    keccakSponge.putAll s i (List.replicate n 0) = s := by
  induction n generalizing i with
  | zero => rfl
  | succ n ih => rw [List.replicate_succ, Sponge.putAll, put_zero, ih]

/-- A lane shifted by whole bytes puts them in further up. -/
theorem xorLane_shifted (s : FixedBuf UInt8 200) {j off : Nat} (hj : j < 25) {bs : List UInt8}
    (h : off + bs.length ≤ 8) (hoff : off < 8) :
    xorLane s j (laneOfBytes bs <<< UInt64.ofNat (off <<< 3))
      = keccakSponge.putAll s (8 * j + off) bs := by
  have hlane : laneOfBytes bs <<< UInt64.ofNat (off <<< 3)
      = laneOfBytes (List.replicate off 0 ++ bs) := by
    apply UInt64.toNat_inj.mp
    have hlt := Lib.bytesLE_lt bs
    have hpow : 256 ^ bs.length ≤ 256 ^ (8 - off) := Nat.pow_le_pow_right (by decide) (by omega)
    have hzeros : bytesLE (List.replicate off 0 ++ bs) = 256 ^ off * bytesLE bs := by
      clear h hoff hlt hpow
      induction off with
      | zero => simp
      | succ off ih =>
        have hval : bytesLE (List.replicate (off + 1) 0 ++ bs)
            = 256 * bytesLE (List.replicate off 0 ++ bs) := Nat.zero_add _
        rw [hval, ih, pow_succ', Nat.mul_assoc]
    have hfit : bytesLE bs * 2 ^ (8 * off) < 2 ^ 64 := by
      have hsplit : (2 : Nat) ^ 64 = 256 ^ (8 - off) * 2 ^ (8 * off) := by
        rw [show (256 : Nat) = 2 ^ 8 from rfl, ← pow_mul, ← pow_add]
        congr 1
        omega
      rw [hsplit]
      exact Nat.mul_lt_mul_of_pos_right (hlt.trans_le hpow) (by positivity)
    rw [UInt64.toNat_shiftLeft, laneOfBytes_toNat (by omega),
      laneOfBytes_toNat (by rw [List.length_append, List.length_replicate]; omega), hzeros,
      UInt64.toNat_ofNat', Nat.shiftLeft_eq off, Nat.mod_eq_of_lt (by omega : off * 2 ^ 3 < 2 ^ 64),
      Nat.mod_eq_of_lt (by omega : off * 2 ^ 3 < 64), Nat.shiftLeft_eq,
      show off * 2 ^ 3 = 8 * off by omega, Nat.mod_eq_of_lt hfit, pow_mul, Nat.mul_comm]
    rfl
  rw [hlane, xorLane_laneOfBytes s hj (by rw [List.length_append, List.length_replicate]; omega),
    Sponge.putAll_append, putAll_zeros, List.length_replicate]

/-! ## A partial block at the start -/

/-- The first lanes of the data are in. -/
def LanesIn (s : FixedBuf UInt8 200) (data : List UInt8) (st : FixedBuf UInt8 200 × Nat) : Prop :=
  st.1 = keccakSponge.putAll s 0 (data.take (8 * st.2))

section Aligned

variable {s : FixedBuf UInt8 200} {data : List UInt8}

theorem LanesIn.one {st : FixedBuf UInt8 200 × Nat} (h : LanesIn s data st) (hj : st.2 < 25)
    (hdata : 8 * st.2 ≤ data.length) :
    LanesIn s data (xorLane st.1 st.2 (laneAt data st.2), st.2 + 1) := by
  unfold LanesIn at h ⊢
  dsimp only
  rw [laneAt, xorLane_laneOfBytes _ hj (List.length_take_le _ _), h, Nat.mul_succ, List.take_add,
    Sponge.putAll_append, List.length_take, Nat.min_eq_left hdata, Nat.zero_add]

theorem LanesIn.more {st : FixedBuf UInt8 200 × Nat} (h : LanesIn s data st) {width : Nat}
    (hj : st.2 + width ≤ 25) (hdata : 8 * (st.2 + width) ≤ data.length) :
    LanesIn s data (xorLanes data st.1 st.2 width, st.2 + width) := by
  induction width with
  | zero => exact h
  | succ width ih =>
    have hone := (ih (by omega) (by omega)).one (by dsimp only; omega) (by dsimp only; omega)
    rw [xorLanes, List.range'_concat, List.foldl_append, Nat.one_mul]
    exact hone

/-- A loop stops less than its width below the number of lanes. -/
theorem LanesIn.loop {st : FixedBuf UInt8 200 × Nat} (h : LanesIn s data st) {width lanes : Nat}
    (hw : 0 < width) (hst : st.2 ≤ lanes) (hlanes : lanes ≤ 25) (hdata : 8 * lanes ≤ data.length) :
    LanesIn s data (laneLoop data hw lanes st) ∧ (laneLoop data hw lanes st).2 ≤ lanes ∧
      lanes < (laneLoop data hw lanes st).2 + width := by
  fun_induction laneLoop data hw lanes st with
  | case1 st hfit ih => exact ih (h.more (by omega) (by omega)) hfit
  | case2 st hfit => exact ⟨h, hst, by omega⟩

/-- The unrolled loops and the rest put in the partial block. -/
theorem xorAligned_eq {p : Nat} (hp : p ≤ 200) (hdata : p ≤ data.length) :
    xorAligned data s p = keccakSponge.putAll s 0 (data.take p) := by
  have hand : p &&& 7 = p % 8 := Nat.and_two_pow_sub_one_eq_mod p 3
  have hshift : p >>> 3 = p / 8 := Nat.shiftRight_eq_div_pow p 3
  have hmask : p &&& 0xFFFFFFF8 = 8 * (p / 8) := by
    have hall : ∀ p < 201, p &&& 0xFFFFFFF8 = 8 * (p / 8) := by decide +kernel
    exact hall p (by omega)
  have hstart : LanesIn s data (s, 0) := rfl
  unfold xorAligned
  rw [hshift, hand, hmask]
  generalize hlanes : p / 8 = lanes
  obtain ⟨h8, hle8, -⟩ := hstart.loop (show 0 < 8 by decide) (Nat.zero_le lanes) (by omega)
    (by omega)
  obtain ⟨h4, hle4, -⟩ := h8.loop (show 0 < 4 by decide) hle8 (by omega) (by omega)
  obtain ⟨h2, hle2, hlt2⟩ := h4.loop (show 0 < 2 by decide) hle4 (by omega) (by omega)
  dsimp only
  generalize laneLoop data _ lanes (laneLoop data _ lanes (laneLoop data _ lanes (s, 0))) = st at *
  -- at most one lane is left after the loops
  have hall : LanesIn s data
      (if st.2 < lanes then xorLane st.1 st.2 (laneAt data st.2) else st.1, lanes) := by
    by_cases hlast : st.2 < lanes
    · have hone := h2.one (by omega) (by omega)
      rw [if_pos hlast]
      rwa [show st.2 + 1 = lanes by omega] at hone
    · rw [if_neg hlast]
      rwa [show st = (st.1, lanes) from Prod.ext rfl (by dsimp only; omega)] at h2
  unfold LanesIn at hall
  dsimp only at hall
  rw [hall]
  by_cases hrest : p % 8 = 0
  · rw [if_neg (not_not_intro hrest), show 8 * lanes = p by omega]
  · rw [if_pos hrest, xorLane_laneOfBytes _ (by omega) (by rw [List.length_take]; omega)]
    conv_rhs => rw [show p = 8 * lanes + p % 8 by omega, List.take_add, Sponge.putAll_append,
      List.length_take, Nat.min_eq_left (by omega : 8 * lanes ≤ data.length), Nat.zero_add]

end Aligned

/-! ## A partial block further up -/

/-- The lanes that are put in shifted. -/
theorem xorUnaligned_eq (data : List UInt8) (s : FixedBuf UInt8 200) (sizeLeft j : Nat)
    (off : Fin 8) (hdata : sizeLeft ≤ data.length) (hfit : 8 * j + off + sizeLeft ≤ 200) :
    xorUnaligned data s sizeLeft j off
      = keccakSponge.putAll s (8 * j + off) (data.take sizeLeft) := by
  fun_induction xorUnaligned data s sizeLeft j off with
  | case1 => rfl
  | case2 data s sizeLeft j off hne bytesInLane state ih =>
    have hoff := off.isLt
    have hbytes : bytesInLane = min (8 - off.val) sizeLeft := by
      show (if _ then _ else _) = _
      split <;> omega
    have hpos : bytesInLane ≠ 0 := by omega
    have hstate : state = keccakSponge.putAll s (8 * j + off) (data.take bytesInLane) := by
      show (if _ then _ else _) = _
      rw [if_pos hpos, xorLane_shifted s (by omega) (by rw [List.length_take]; omega) hoff]
    rw [ih (by rw [List.length_drop]; omega) (by show 8 * (j + 1) + 0 + _ ≤ 200; omega), hstate]
    have hsplit : data.take sizeLeft
        = data.take bytesInLane ++ (data.drop bytesInLane).take (sizeLeft - bytesInLane) := by
      rw [← List.take_add]
      congr 1
      omega
    rw [hsplit, Sponge.putAll_append, List.length_take,
      Nat.min_eq_left (by omega : bytesInLane ≤ data.length)]
    -- unless everything fits, the next lane starts where this one ends
    by_cases hlast : sizeLeft - bytesInLane = 0
    · rw [hlast]
      rfl
    · congr 1
      show 8 * (j + 1) + 0 = _
      omega

/-! ## Whole blocks -/

/-- The lanes in the order of memory. -/
def Lanes.toList (A : Lanes) : List UInt64 :=
  [A.ba, A.be, A.bi, A.bo, A.bu, A.ga, A.ge, A.gi, A.go, A.gu, A.ka, A.ke, A.ki, A.ko, A.ku,
    A.ma, A.me, A.mi, A.mo, A.mu, A.sa, A.se, A.si, A.so, A.su]

theorem getD_flatten {ls : List (List UInt8)} (h : ∀ l ∈ ls, l.length = 8) (k : Nat) :
    ls.flatten.getD k 0 = (ls.getD (k / 8) []).getD (k % 8) 0 := by
  induction ls generalizing k with
  | nil => rfl
  | cons l ls ih =>
    obtain ⟨hl, hls⟩ := List.forall_mem_cons.mp h
    rw [List.flatten_cons]
    rcases Nat.lt_or_ge k 8 with hk | hk
    · rw [List.getD_append _ _ _ _ (by omega), Nat.div_eq_of_lt hk, Nat.mod_eq_of_lt hk,
        List.getD_cons_zero]
    · rw [List.getD_append_right _ _ _ _ (by omega), ih hls, hl,
        show k / 8 = (k - 8) / 8 + 1 by omega, List.getD_cons_succ,
        show k % 8 = (k - 8) % 8 by omega]

theorem copyToState_getD (A : Lanes) {k : Nat} (hk : k < 200) :
    (copyToState A).getD k 0 = laneByte (A.toList.getD (k / 8) 0) (k % 8) := by
  have hlen : A.toList.length = 25 := rfl
  have hcopy : copyToState A = (A.toList.map bytesOfLane).flatten := rfl
  rw [hcopy, getD_flatten (fun l hl => by
      obtain ⟨x, -, rfl⟩ := List.mem_map.mp hl
      rfl),
    List.getD_eq_getElem (A.toList.map bytesOfLane) [] (by rw [List.length_map]; omega),
    List.getElem_map, bytesOfLane_getD _ (by omega), List.getD_eq_getElem _ _ (by omega)]

theorem copyFromState_toList (bytes : List UInt8) :
    (copyFromState bytes).toList = (List.range 25).map (laneAt bytes) := rfl

/-- Only the lanes of the rate take data. -/
theorem xorBlock_toList (bytes data : List UInt8) :
    (xorBlock (copyFromState bytes) data).toList
      = (List.range 25).map fun j =>
          if j < 21 then laneAt bytes j ^^^ laneAt data j else laneAt bytes j := rfl

theorem copyToState_copyFromState (s : FixedBuf UInt8 200) :
    copyToState (copyFromState s.cells) = s.cells := by
  refine congrArg FixedBuf.cells (state_ext (s := ⟨_, length_copyToState _⟩) fun k hk => ?_)
  dsimp only
  rw [copyToState_getD _ hk, copyFromState_toList,
    List.getD_eq_getElem _ _ (by rw [List.length_map, List.length_range]; omega), List.getElem_map,
    List.getElem_range, laneByte_laneAt _ _ (by omega), Nat.div_add_mod]

theorem copyFromState_copyToState (A : Lanes) : copyFromState (copyToState A) = A := by
  obtain ⟨ba, be, bi, bo, bu, ga, ge, gi, go, gu, ka, ke, ki, ko, ku, ma, me, mi, mo, mu, sa, se,
    si, so, su⟩ := A
  show Lanes.mk (laneOfBytes (bytesOfLane ba)) (laneOfBytes (bytesOfLane be))
    (laneOfBytes (bytesOfLane bi)) (laneOfBytes (bytesOfLane bo)) (laneOfBytes (bytesOfLane bu))
    (laneOfBytes (bytesOfLane ga)) (laneOfBytes (bytesOfLane ge)) (laneOfBytes (bytesOfLane gi))
    (laneOfBytes (bytesOfLane go)) (laneOfBytes (bytesOfLane gu)) (laneOfBytes (bytesOfLane ka))
    (laneOfBytes (bytesOfLane ke)) (laneOfBytes (bytesOfLane ki)) (laneOfBytes (bytesOfLane ko))
    (laneOfBytes (bytesOfLane ku)) (laneOfBytes (bytesOfLane ma)) (laneOfBytes (bytesOfLane me))
    (laneOfBytes (bytesOfLane mi)) (laneOfBytes (bytesOfLane mo)) (laneOfBytes (bytesOfLane mu))
    (laneOfBytes (bytesOfLane sa)) (laneOfBytes (bytesOfLane se)) (laneOfBytes (bytesOfLane si))
    (laneOfBytes (bytesOfLane so)) (laneOfBytes (bytesOfLane su)) = _
  simp only [laneOfBytes_bytesOfLane]

/-- A block put into the lanes is one put into the bytes. -/
theorem xorBlock_eq (s : FixedBuf UInt8 200) {data : List UInt8}
    (hdata : k12RateInBytes ≤ data.length) :
    xorBlock (copyFromState s.cells) data
      = copyFromState (keccakSponge.putAll s 0 (data.take k12RateInBytes)).cells := by
  have hlen : 168 ≤ data.length := hdata
  have hbytes : copyToState (xorBlock (copyFromState s.cells) data)
      = (keccakSponge.putAll s 0 (data.take k12RateInBytes)).cells := by
    refine congrArg FixedBuf.cells (state_ext (s := ⟨_, length_copyToState _⟩) fun k hk => ?_)
    have hblock : (data.take k12RateInBytes).getD k 0 = if k < 168 then data.getD k 0 else 0 := by
      rw [List.getD_eq_getElem?_getD, List.getElem?_take]
      split
      · rw [← List.getD_eq_getElem?_getD]
      · rfl
    dsimp only
    rw [copyToState_getD _ hk, xorBlock_toList,
      List.getD_eq_getElem _ _ (by rw [List.length_map, List.length_range]; omega),
      List.getElem_map, List.getElem_range,
      putAll_getD (by rw [List.length_take]; show 0 + min 168 _ ≤ 200; omega), shifted,
      if_pos (Nat.zero_le k), Nat.sub_zero, hblock]
    by_cases hrate : k / 8 < 21
    · rw [if_pos hrate, if_pos (by omega), laneByte_xor, laneByte_laneAt _ _ (by omega),
        laneByte_laneAt _ _ (by omega), Nat.div_add_mod]
    · rw [if_neg hrate, if_neg (by omega), laneByte_laneAt _ _ (by omega), Nat.div_add_mod,
        UInt8.xor_zero]
  rw [← hbytes, copyFromState_copyToState]

/-- The loop over whole blocks: what it absorbs, and what it leaves. -/
theorem absorbBlocks_spec (A : Lanes) (data : List UInt8) {node : SpongeNode}
    (hindex : node.index = 0) (hA : A = copyFromState node.state.cells) :
    ∃ front, data = front ++ (absorbBlocks A data).2 ∧
      (absorbBlocks A data).2.length < k12RateInBytes ∧
      (node.absorb front).index = 0 ∧
      copyToState (absorbBlocks A data).1 = (node.absorb front).state.cells := by
  fun_induction absorbBlocks A data generalizing node with
  | case1 A data hfull ih =>
    have hblock : (data.take k12RateInBytes).length = k12RateInBytes :=
      List.length_take_of_le hfull
    have hne : data.take k12RateInBytes ≠ [] := by
      intro h
      rw [h] at hblock
      exact absurd hblock (by decide)
    have hfills : node.index + (data.take k12RateInBytes).length = keccakSponge.rate := by
      rw [hindex, hblock]
      rfl
    have habsorb := Sponge.Node.absorb_fills hne hfills
    have hnext : rounds12 (xorBlock A data)
        = copyFromState (node.absorb (data.take k12RateInBytes)).state.cells := by
      rw [habsorb, hA, xorBlock_eq _ hfull, hindex]
      exact (copyFromState_copyToState _).symm
    obtain ⟨front, hfront, hrest, hzero, hstate⟩ := ih (by rw [habsorb]) hnext
    refine ⟨data.take k12RateInBytes ++ front, ?_, hrest, ?_, ?_⟩
    · rw [List.append_assoc, ← hfront, List.take_append_drop]
    · rw [Sponge.Node.absorb_append]
      exact hzero
    · rw [Sponge.Node.absorb_append]
      exact hstate
  | case2 A data hshort =>
    refine ⟨[], rfl, Nat.lt_of_not_le hshort, hindex, ?_⟩
    rw [hA, copyToState_copyFromState]
    rfl

/-! ## The loop -/

/-- The cast to `uint8_t` loses nothing. -/
theorem partialBlockOf_eq {index n : Nat} (hindex : index < k12RateInBytes) :
    partialBlockOf index n = min (k12RateInBytes - index) n := by
  have hindex' : index < 168 := hindex
  unfold partialBlockOf
  show (if n + index > 168 then 168 - index else n % 256) = min (168 - index) n
  split
  · omega
  · rw [Nat.mod_eq_of_lt (by omega)]
    omega

theorem xorPartial_eq {node : SpongeNode} {data : List UInt8} {p : Nat} (hp : p ≤ data.length)
    (hfit : node.index + p ≤ k12RateInBytes) :
    xorPartial (.of node) data p
      = keccakSponge.putAll node.state node.index (data.take p) := by
  have hfit' : node.index + p ≤ 168 := hfit
  have hcase : xorPartial (.of node) data p
      = if node.index = 0 then xorAligned data node.state p
        else xorUnaligned data node.state p (node.index >>> 3)
          ⟨node.index % 8, Nat.mod_lt _ (by decide)⟩ := rfl
  rw [hcase]
  by_cases hindex : node.index = 0
  · rw [if_pos hindex, xorAligned_eq (by omega) hp, hindex]
  · have hshift : node.index >>> 3 = node.index / 8 := Nat.shiftRight_eq_div_pow _ 3
    rw [if_neg hindex, hshift, xorUnaligned_eq _ _ _ _ _ hp (by dsimp only; omega)]
    congr 1
    dsimp only
    omega

/-- A partial block, absorbed. -/
theorem absorb_partial {node : SpongeNode} {data : List UInt8} (hne : data ≠ []) {p : Nat}
    (hp : p = min (k12RateInBytes - node.index) data.length) :
    KangarooTwelveF.of (node.absorb (data.take p))
      = if node.index + p = k12RateInBytes then
          ⟨keccakP1600Permute12rounds (xorPartial (.of node) data p), 0⟩
        else ⟨xorPartial (.of node) data p, node.index + p⟩ := by
  have hlt : node.index < k12RateInBytes := node.index_lt
  have hpos := List.length_pos_iff.mpr hne
  have hlen : (data.take p).length = p := List.length_take_of_le (by omega)
  rw [xorPartial_eq (by omega) (by omega)]
  by_cases hfull : node.index + p = k12RateInBytes
  · have hpiece : data.take p ≠ [] := by
      intro h
      rw [h, List.length_nil] at hlen
      omega
    rw [if_pos hfull, Sponge.Node.absorb_fills hpiece (by rw [hlen]; exact hfull)]
    rfl
  · have hroom : node.index + (data.take p).length < k12RateInBytes := by
      rw [hlen]
      omega
    rw [if_neg hfull, Sponge.Node.absorb_fits hroom]
    exact congrArg (KangarooTwelveF.mk _) (congrArg (node.index + ·) hlen)

/-- The code's loop is the sponge, for every position and all data. -/
theorem absorbLanes_eq (fuel : Nat) (node : SpongeNode) (data : List UInt8)
    (hfuel : data.length ≤ fuel) :
    absorbLanes fuel (.of node) data = .of (node.absorb data) := by
  induction fuel generalizing node data with
  | zero =>
    rw [List.length_eq_zero_iff.mp (Nat.le_zero.mp hfuel)]
    rfl
  | succ fuel ih =>
    have hlt : node.index < 168 := node.index_lt
    rw [absorbLanes]
    by_cases hne : data = []
    · rw [if_pos hne, hne]
      rfl
    rw [if_neg hne]
    have hpos := List.length_pos_iff.mpr hne
    by_cases hblocks : (KangarooTwelveF.of node).byteIOIndex = 0 ∧ k12RateInBytes ≤ data.length
    · -- whole blocks, and the loop goes on with what is left
      obtain ⟨hindex, hfull⟩ := hblocks
      have hfull' : 168 ≤ data.length := hfull
      obtain ⟨front, hfront, hrest, hzero, hstate⟩ :=
        absorbBlocks_spec (copyFromState node.state.cells) data hindex rfl
      have hrest' : (absorbBlocks (copyFromState node.state.cells) data).2.length < 168 := hrest
      rw [if_pos ⟨hindex, hfull⟩]
      have hnext : KangarooTwelveF.mk
          ⟨copyToState (absorbBlocks (copyFromState node.state.cells) data).1,
            length_copyToState _⟩ node.index = .of (node.absorb front) := by
        have hbuf : (⟨copyToState (absorbBlocks (copyFromState node.state.cells) data).1,
            length_copyToState _⟩ : FixedBuf UInt8 200) = (node.absorb front).state :=
          FixedBuf.ext hstate
        rw [hbuf, KangarooTwelveF.of, hzero, show node.index = 0 from hindex]
      change absorbLanes fuel ⟨⟨copyToState (absorbBlocks (copyFromState node.state.cells) data).1,
        length_copyToState _⟩, node.index⟩ (absorbBlocks (copyFromState node.state.cells) data).2 = _
      rw [hnext, ih _ _ (by omega), ← Sponge.Node.absorb_append, ← hfront]
    · -- a partial block
      rw [if_neg hblocks]
      change (if node.index + partialBlockOf node.index data.length = k12RateInBytes then _ else _)
        = _
      have hp := partialBlockOf_eq (n := data.length) node.index_lt
      have hp' : partialBlockOf node.index data.length = min (168 - node.index) data.length := hp
      have habsorb := absorb_partial hne hp
      have hdrop := ih (node.absorb (data.take (partialBlockOf node.index data.length)))
        (data.drop (partialBlockOf node.index data.length)) (by rw [List.length_drop]; omega)
      rw [← Sponge.Node.absorb_append, List.take_append_drop, habsorb] at hdrop
      rw [← hdrop]
      split
      · rfl
      · rfl

/-- `xorState` puts bytes in. -/
theorem xorState_eq {s : FixedBuf UInt8 200} {i : Nat} {bs : List UInt8}
    (h : i + bs.length ≤ 200) : xorState s i bs = keccakSponge.putAll s i bs := by
  induction bs generalizing s i with
  | nil =>
    rw [xorState, List.zipWith_nil_right]
    exact FixedBuf.write_nil (by simpa using h)
  | cons b bs ih =>
    rw [List.length_cons] at h
    have hsize := s.size_eq
    have hi : i < s.cells.length := by omega
    rw [Sponge.putAll, ← ih (by omega)]
    show s.write i (List.zipWith (· ^^^ ·) (s.cells.drop i) (b :: bs))
      = (s.set i (s.cells.getD i 0 ^^^ b)).write (i + 1)
        (List.zipWith (· ^^^ ·) ((s.cells.set i (s.cells.getD i 0 ^^^ b)).drop (i + 1)) bs)
    rw [List.drop_eq_getElem_cons hi, List.zipWith_cons_cons, List.drop_set_of_lt (by omega),
      FixedBuf.write_set_succ (by rw [List.length_zipWith, List.length_drop]; omega),
      List.getD_eq_getElem _ _ hi]

/-- The byte-wise loop is the same sponge. -/
theorem kangarooTwelveFAbsorb_eq (fuel : Nat) (node : SpongeNode) (data : List UInt8)
    (hfuel : data.length ≤ fuel) :
    kangarooTwelveFAbsorb fuel (.of node) data = .of (node.absorb data) := by
  induction fuel generalizing node data with
  | zero =>
    rw [List.length_eq_zero_iff.mp (Nat.le_zero.mp hfuel)]
    rfl
  | succ fuel ih =>
    have hlt : node.index < 168 := node.index_lt
    rw [kangarooTwelveFAbsorb]
    by_cases hne : data = []
    · rw [if_pos hne, hne]
      rfl
    rw [if_neg hne]
    have hpos := List.length_pos_iff.mpr hne
    obtain ⟨p, hp⟩ : ∃ p, min (k12RateInBytes - node.index) data.length = p := ⟨_, rfl⟩
    have hp' : p = min (168 - node.index) data.length := hp.symm
    have hxor : xorState node.state node.index (data.take p) = xorPartial (.of node) data p := by
      rw [xorPartial_eq (by omega) (by show _ ≤ 168; omega),
        xorState_eq (by rw [List.length_take]; omega)]
    have habsorb := absorb_partial hne hp.symm
    have hdrop := ih (node.absorb (data.take p)) (data.drop p) (by rw [List.length_drop]; omega)
    rw [← Sponge.Node.absorb_append, List.take_append_drop, habsorb] at hdrop
    rw [← hdrop]
    change (if node.index + min (k12RateInBytes - node.index) data.length = k12RateInBytes then
        kangarooTwelveFAbsorb fuel ⟨keccakP1600Permute12rounds (xorState node.state node.index
          (data.take (min (k12RateInBytes - node.index) data.length))), 0⟩
          (data.drop (min (k12RateInBytes - node.index) data.length))
      else kangarooTwelveFAbsorb fuel ⟨xorState node.state node.index
          (data.take (min (k12RateInBytes - node.index) data.length)),
          node.index + min (k12RateInBytes - node.index) data.length⟩
          (data.drop (min (k12RateInBytes - node.index) data.length))) = _
    rw [hp, hxor]
    split
    · rfl
    · rfl

end QubicLedger
