import QubicLedger.Lib.FixedBuf

/-!
# KangarooTwelve (`deps/K12`)

The hash behind transaction digests, subseeds and identity checksums.

The Keccak-p[1600] state is 25 little-endian 64-bit lanes named as in `k12.h`;
`thetaRhoPiChiIota` is one round of the macro of that name (the macro's
`PrepareTheta` half, which computes the column parities of the *next* round
from the lanes just written, is the parity computation at the head of the next
round here). The macros alternate between the lane sets `A` and `E` to avoid a
copy; the rounds are otherwise the same.

`kangaroo_twelve` hashes inputs shorter than `K12_chunkSize` (8192 bytes) in
one node and longer ones as a tree. Every call of this app stays below 1.1 kB
(`raw_tx` is the longest input), so the model here is the single-node branch;
`K12.Tree` has the others, and that they agree with it. The absorbing loop
exclusive-ors the input into the state bytes: on the little-endian target the
code's lane-wise stores do exactly that.
-/

namespace QubicLedger

open Lib (FixedBuf)

/-- `K12_rateInBytes`. -/
abbrev k12RateInBytes : Nat := 168

/-- The 25 lanes, in the order `copyFromState` reads them. -/
structure Lanes where
  ba : UInt64
  be : UInt64
  bi : UInt64
  bo : UInt64
  bu : UInt64
  ga : UInt64
  ge : UInt64
  gi : UInt64
  go : UInt64
  gu : UInt64
  ka : UInt64
  ke : UInt64
  ki : UInt64
  ko : UInt64
  ku : UInt64
  ma : UInt64
  me : UInt64
  mi : UInt64
  mo : UInt64
  mu : UInt64
  sa : UInt64
  se : UInt64
  si : UInt64
  so : UInt64
  su : UInt64

/-- `ROL64`. -/
def rol64 (a offset : UInt64) : UInt64 := (a <<< offset) ^^^ (a >>> (64 - offset))

/-- The chi step on three neighbouring lanes of a row. -/
def chiLane (b₀ b₁ b₂ : UInt64) : UInt64 := b₀ ^^^ (~~~b₁ &&& b₂)

/-- One round: `thetaRhoPiChiIota` with round constant `rc`. -/
def thetaRhoPiChiIota (rc : UInt64) (A : Lanes) : Lanes :=
  let Ca := A.ba ^^^ A.ga ^^^ A.ka ^^^ A.ma ^^^ A.sa
  let Ce := A.be ^^^ A.ge ^^^ A.ke ^^^ A.me ^^^ A.se
  let Ci := A.bi ^^^ A.gi ^^^ A.ki ^^^ A.mi ^^^ A.si
  let Co := A.bo ^^^ A.go ^^^ A.ko ^^^ A.mo ^^^ A.so
  let Cu := A.bu ^^^ A.gu ^^^ A.ku ^^^ A.mu ^^^ A.su
  let Da := Cu ^^^ rol64 Ce 1
  let De := Ca ^^^ rol64 Ci 1
  let Di := Ce ^^^ rol64 Co 1
  let Do := Ci ^^^ rol64 Cu 1
  let Du := Co ^^^ rol64 Ca 1
  let Bba := A.ba ^^^ Da
  let Bbe := rol64 (A.ge ^^^ De) 44
  let Bbi := rol64 (A.ki ^^^ Di) 43
  let Bbo := rol64 (A.mo ^^^ Do) 21
  let Bbu := rol64 (A.su ^^^ Du) 14
  let Bga := rol64 (A.bo ^^^ Do) 28
  let Bge := rol64 (A.gu ^^^ Du) 20
  let Bgi := rol64 (A.ka ^^^ Da) 3
  let Bgo := rol64 (A.me ^^^ De) 45
  let Bgu := rol64 (A.si ^^^ Di) 61
  let Bka := rol64 (A.be ^^^ De) 1
  let Bke := rol64 (A.gi ^^^ Di) 6
  let Bki := rol64 (A.ko ^^^ Do) 25
  let Bko := rol64 (A.mu ^^^ Du) 8
  let Bku := rol64 (A.sa ^^^ Da) 18
  let Bma := rol64 (A.bu ^^^ Du) 27
  let Bme := rol64 (A.ga ^^^ Da) 36
  let Bmi := rol64 (A.ke ^^^ De) 10
  let Bmo := rol64 (A.mi ^^^ Di) 15
  let Bmu := rol64 (A.so ^^^ Do) 56
  let Bsa := rol64 (A.bi ^^^ Di) 62
  let Bse := rol64 (A.go ^^^ Do) 55
  let Bsi := rol64 (A.ku ^^^ Du) 39
  let Bso := rol64 (A.ma ^^^ Da) 41
  let Bsu := rol64 (A.se ^^^ De) 2
  { ba := chiLane Bba Bbe Bbi ^^^ rc
    be := chiLane Bbe Bbi Bbo
    bi := chiLane Bbi Bbo Bbu
    bo := chiLane Bbo Bbu Bba
    bu := chiLane Bbu Bba Bbe
    ga := chiLane Bga Bge Bgi
    ge := chiLane Bge Bgi Bgo
    gi := chiLane Bgi Bgo Bgu
    go := chiLane Bgo Bgu Bga
    gu := chiLane Bgu Bga Bge
    ka := chiLane Bka Bke Bki
    ke := chiLane Bke Bki Bko
    ki := chiLane Bki Bko Bku
    ko := chiLane Bko Bku Bka
    ku := chiLane Bku Bka Bke
    ma := chiLane Bma Bme Bmi
    me := chiLane Bme Bmi Bmo
    mi := chiLane Bmi Bmo Bmu
    mo := chiLane Bmo Bmu Bma
    mu := chiLane Bmu Bma Bme
    sa := chiLane Bsa Bse Bsi
    se := chiLane Bse Bsi Bso
    si := chiLane Bsi Bso Bsu
    so := chiLane Bso Bsu Bsa
    su := chiLane Bsu Bsa Bse }

/-- `KeccakF1600RoundConstant0..10` and the literal of the last round. -/
def keccakRoundConstants : List UInt64 :=
  [0x000000008000808b, 0x800000000000008b, 0x8000000000008089, 0x8000000000008003,
   0x8000000000008002, 0x8000000000000080, 0x000000000000800a, 0x800000008000000a,
   0x8000000080008081, 0x8000000000008080, 0x0000000080000001, 0x8000000080008008]

/-- `rounds12`. -/
def rounds12 (A : Lanes) : Lanes :=
  keccakRoundConstants.foldl (fun A rc => thetaRhoPiChiIota rc A) A

/-- Eight bytes read as a little-endian lane. -/
def laneOfBytes (bs : List UInt8) : UInt64 :=
  bs.foldr (fun b acc => acc <<< 8 ||| b.toUInt64) 0

/-- A lane stored as eight little-endian bytes. -/
def bytesOfLane (x : UInt64) : List UInt8 :=
  [x.toUInt8, (x >>> 8).toUInt8, (x >>> 16).toUInt8, (x >>> 24).toUInt8,
   (x >>> 32).toUInt8, (x >>> 40).toUInt8, (x >>> 48).toUInt8, (x >>> 56).toUInt8]

/-- `copyFromState`. -/
def copyFromState (state : List UInt8) : Lanes :=
  let lane (i : Nat) := laneOfBytes ((state.drop (8 * i)).take 8)
  { ba := lane 0, be := lane 1, bi := lane 2, bo := lane 3, bu := lane 4
    ga := lane 5, ge := lane 6, gi := lane 7, go := lane 8, gu := lane 9
    ka := lane 10, ke := lane 11, ki := lane 12, ko := lane 13, ku := lane 14
    ma := lane 15, me := lane 16, mi := lane 17, mo := lane 18, mu := lane 19
    sa := lane 20, se := lane 21, si := lane 22, so := lane 23, su := lane 24 }

/-- `copyToState`. -/
def copyToState (A : Lanes) : List UInt8 :=
  ([A.ba, A.be, A.bi, A.bo, A.bu, A.ga, A.ge, A.gi, A.go, A.gu, A.ka, A.ke, A.ki, A.ko, A.ku,
    A.ma, A.me, A.mi, A.mo, A.mu, A.sa, A.se, A.si, A.so, A.su].map bytesOfLane).flatten

theorem length_bytesOfLane (x : UInt64) : (bytesOfLane x).length = 8 := rfl

theorem length_copyToState (A : Lanes) : (copyToState A).length = 200 := by
  unfold copyToState
  simp only [List.map_cons, List.map_nil, List.flatten_cons, List.flatten_nil,
    List.length_append, List.length_nil, length_bytesOfLane]

/-- `KangarooTwelve_F`. -/
structure KangarooTwelveF where
  state : FixedBuf UInt8 200
  byteIOIndex : Nat

/-- `keccak_p1600_permute_12rounds`. -/
def keccakP1600Permute12rounds (state : FixedBuf UInt8 200) : FixedBuf UInt8 200 :=
  ⟨copyToState (rounds12 (copyFromState state.cells)), length_copyToState _⟩

/-- Exclusive-or `bs` into the state from byte `i` on. -/
def xorState (state : FixedBuf UInt8 200) (i : Nat) (bs : List UInt8) : FixedBuf UInt8 200 :=
  state.write i (List.zipWith (· ^^^ ·) (state.cells.drop i) bs)

/-- `kangaroo_twelve_f_absorb`: fill the rate, permute when it is full. Each
pass consumes at least one byte, so the input length is fuel enough. -/
def kangarooTwelveFAbsorb : Nat → KangarooTwelveF → List UInt8 → KangarooTwelveF
  | 0, inst, _ => inst
  | fuel + 1, inst, data =>
    if data = [] then inst
    else
      let partialBlock := min (k12RateInBytes - inst.byteIOIndex) data.length
      let state := xorState inst.state inst.byteIOIndex (data.take partialBlock)
      let index := inst.byteIOIndex + partialBlock
      if index = k12RateInBytes then
        kangarooTwelveFAbsorb fuel ⟨keccakP1600Permute12rounds state, 0⟩ (data.drop partialBlock)
      else kangarooTwelveFAbsorb fuel ⟨state, index⟩ (data.drop partialBlock)

/-- `kangaroo_twelve(input, inputByteLen, output, outputByteLen)` for inputs
shorter than `K12_chunkSize`: the bytes stored at `output`. -/
@[irreducible]
def kangarooTwelve (input : List UInt8) (outputByteLen : Nat) : List UInt8 :=
  let finalNode := kangarooTwelveFAbsorb input.length ⟨.fill _ 0, 0⟩ input
  let index := finalNode.byteIOIndex + 1
  let state :=
    if index = k12RateInBytes then
      xorState (keccakP1600Permute12rounds finalNode.state) 0 [0x07]
    else xorState finalNode.state index [0x07]
  let state := xorState state (k12RateInBytes - 1) [0x80]
  (keccakP1600Permute12rounds state).cells.take outputByteLen

/-- Every output the app asks for is as long as it asked. -/
theorem length_kangarooTwelve (input : List UInt8) {n : Nat} (h : n ≤ 200) :
    (kangarooTwelve input n).length = n := by
  unfold kangarooTwelve
  rw [List.length_take, FixedBuf.size_eq, Nat.min_eq_left h]

-- The published digest of the empty message.
example : kangarooTwelve [] 8 = [0x1A, 0xC2, 0xD4, 0x50, 0xFC, 0x3B, 0x42, 0x05] := by
  decide +kernel

end QubicLedger
