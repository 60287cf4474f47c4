import QubicLedger.K12.Absorb
import Mathlib.Data.Nat.Digits.Defs
import Mathlib.Data.Nat.Digits.Lemmas

/-!
# The whole of `kangaroo_twelve`

The app only hashes messages that fit one node, and the rest of this
development uses that branch (`kangarooTwelve`). The code has the others too:
it cuts a longer message into chunks of 8192 bytes, keeps the first one open in
`finalNode`, hashes the rest into leaves of 32 bytes and absorbs these, with a
queue for the last chunk that is padded, sealed or replaced by an empty one
after the loop.

`kangarooTwelveTree` is that code. `k12Hash` says what it is for: the tree hash
with an empty customisation string, as a function of the message. The run lemma
is `chunkLoop_leaves`: whatever is left of the message, loop, padding and flush
together absorb the leaves of the rest.
-/

namespace QubicLedger

open Lib (FixedBuf Sponge)

/-! ## The function -/

/-- `K12_chunkSize`. -/
abbrev k12ChunkSize : UInt32 := 8192

/-- `K12_suffixLeaf`. -/
abbrev k12SuffixLeaf : UInt8 := 0x0B

/-- `K12_capacityInBytes`. -/
abbrev k12CapacityInBytes : Nat := 32

namespace KangarooTwelveF

/-- `memset(&node, 0, sizeof(KangarooTwelve_F))`. -/
def zeroed : KangarooTwelveF := ⟨.fill _ 0, 0⟩

/-- `node.state[i] ^= b`. -/
def xorByte (inst : KangarooTwelveF) (i : Nat) (b : UInt8) : KangarooTwelveF :=
  { inst with state := inst.state.set i (inst.state.cells.getD i 0 ^^^ b) }

/-- `keccak_p1600_permute_12rounds(node.state)`. -/
def permute (inst : KangarooTwelveF) : KangarooTwelveF :=
  { inst with state := keccakP1600Permute12rounds inst.state }

/-- `kangaroo_twelve_f_absorb(&node, data, dataByteLen)`. -/
def absorb (inst : KangarooTwelveF) (data : List UInt8) : KangarooTwelveF :=
  absorbLanes data.length inst data

/-- The end of the first chunk: `0x03`, and on to the next lane. -/
def openTree (inst : KangarooTwelveF) : KangarooTwelveF :=
  let inst := inst.xorByte inst.byteIOIndex 0x03
  let index := inst.byteIOIndex + 1
  if index = k12RateInBytes then ⟨keccakP1600Permute12rounds inst.state, 0⟩
  else ⟨inst.state, (index + 7) &&& 0xFFFFFFF8⟩

/-- The end of a message of one node. -/
def closeSingle (inst : KangarooTwelveF) : KangarooTwelveF :=
  let index := inst.byteIOIndex + 1
  if index = k12RateInBytes then
    (KangarooTwelveF.mk (keccakP1600Permute12rounds inst.state) index).xorByte 0 0x07
  else (KangarooTwelveF.mk inst.state index).xorByte index 0x07

/-- `if (++node.byteIOIndex == K12_rateInBytes)`. -/
def skipByte (inst : KangarooTwelveF) : KangarooTwelveF :=
  let index := inst.byteIOIndex + 1
  if index = k12RateInBytes then ⟨keccakP1600Permute12rounds inst.state, 0⟩
  else ⟨inst.state, index⟩

/-- A leaf: its suffix, the last byte of the rate, and the permutation. -/
def sealLeaf (inst : KangarooTwelveF) : KangarooTwelveF :=
  ((inst.xorByte inst.byteIOIndex k12SuffixLeaf).xorByte (k12RateInBytes - 1) 0x80).permute

end KangarooTwelveF

/-- The local variables of `kangaroo_twelve`. -/
structure K12Locals where
  finalNode : KangarooTwelveF
  queueNode : KangarooTwelveF
  blockNumber : Nat
  queueAbsorbedLen : Nat

/-- `kangaroo_twelve_f_absorb(&finalNode, queueNode.state, K12_capacityInBytes)`. -/
def K12Locals.absorbQueue (l : K12Locals) : K12Locals :=
  { l with finalNode := l.finalNode.absorb (l.queueNode.state.cells.take k12CapacityInBytes) }

/-- A sealed leaf that goes into the final node. -/
def K12Locals.closeQueue (l : K12Locals) : K12Locals :=
  { l with
    queueNode := { l.queueNode.sealLeaf with byteIOIndex := k12CapacityInBytes }
    blockNumber := l.blockNumber + 1 }.absorbQueue

/-- `inputByteLen ^ ((K12_chunkSize ^ inputByteLen) & -(K12_chunkSize < inputByteLen))`. -/
def cappedLen (inputByteLen : UInt32) : UInt32 :=
  inputByteLen ^^^ ((k12ChunkSize ^^^ inputByteLen)
    &&& (0 - if k12ChunkSize < inputByteLen then 1 else 0))

/-- `K12_chunkSize ^ ((inputByteLen ^ K12_chunkSize) & -(inputByteLen < K12_chunkSize))`. -/
def chunkLen (inputByteLen : UInt32) : UInt32 :=
  k12ChunkSize ^^^ ((inputByteLen ^^^ k12ChunkSize)
    &&& (0 - if inputByteLen < k12ChunkSize then 1 else 0))

/-- `a ^ ((b ^ a) & -c)` takes `b` where `c` is true. -/
theorem selectMask (a b : UInt32) (c : Prop) [Decidable c] :
    a ^^^ ((b ^^^ a) &&& (0 - if c then 1 else 0)) = if c then b else a := by
  split
  · rw [show (0 - 1 : UInt32) = -1 from rfl, UInt32.and_neg_one, UInt32.xor_comm b a,
      ← UInt32.xor_assoc, UInt32.xor_self, UInt32.zero_xor]
  · rw [show (0 - 0 : UInt32) = 0 from rfl, UInt32.and_zero, UInt32.xor_zero]

theorem toNat_cappedLen (n : UInt32) : (cappedLen n).toNat = min n.toNat 8192 := by
  have hselect : cappedLen n = if k12ChunkSize < n then k12ChunkSize else n := selectMask _ _ _
  have hlt : k12ChunkSize < n ↔ 8192 < n.toNat := UInt32.lt_iff_toNat_lt
  have hsize : k12ChunkSize.toNat = 8192 := rfl
  rw [hselect]
  simp only [hlt]
  split <;> omega

theorem toNat_chunkLen (n : UInt32) : (chunkLen n).toNat = min n.toNat 8192 := by
  have hselect : chunkLen n = if n < k12ChunkSize then n else k12ChunkSize := selectMask _ _ _
  have hlt : n < k12ChunkSize ↔ n.toNat < 8192 := UInt32.lt_iff_toNat_lt
  have hsize : k12ChunkSize.toNat = 8192 := rfl
  rw [hselect]
  simp only [hlt]
  split <;> omega

/-- What a chunk leaves. -/
theorem toNat_sub_chunkLen (n : UInt32) : (n - chunkLen n).toNat = n.toNat - min n.toNat 8192 := by
  have hlen := toNat_chunkLen n
  rw [UInt32.toNat_sub_of_le _ _ (UInt32.le_iff_toNat_le.mpr (by omega)), hlen]

/-- `while (inputByteLen > 0)`. -/
def chunkLoop (input : List UInt8) (inputByteLen : UInt32) (l : K12Locals) : K12Locals :=
  if 0 < inputByteLen then
    let len := chunkLen inputByteLen
    let l := { l with queueNode := KangarooTwelveF.zeroed.absorb (input.take len.toNat) }
    chunkLoop (input.drop len.toNat) (inputByteLen - len)
      (if len = k12ChunkSize then l.closeQueue else { l with queueAbsorbedLen := len.toNat })
  else l
termination_by inputByteLen.toNat
decreasing_by
  rename_i hpos
  have hpos' : 0 < inputByteLen.toNat := UInt32.lt_iff_toNat_lt.mp hpos
  rw [toNat_sub_chunkLen]
  omega

/-- The queue of a message that ends on a chunk: only the encoding of the empty string. -/
def emptyQueue : KangarooTwelveF := ⟨.fill _ 0, 1⟩

/-- What follows the loop: the empty customisation string. -/
def padQueue (l : K12Locals) : K12Locals :=
  if l.queueAbsorbedLen ≠ 0 then
    let l := { l with
      queueNode := l.queueNode.skipByte, queueAbsorbedLen := l.queueAbsorbedLen + 1 }
    if l.queueAbsorbedLen = k12ChunkSize.toNat then { l with queueAbsorbedLen := 0 }.closeQueue
    else l
  else { l with queueNode := emptyQueue, queueAbsorbedLen := 1 }

/-- The last leaf, if there is one. -/
def flushQueue (l : K12Locals) : K12Locals :=
  if l.queueAbsorbedLen ≠ 0 then
    { l with queueNode := l.queueNode.sealLeaf, blockNumber := l.blockNumber + 1 }.absorbQueue
  else l

/-- `for (v = --blockNumber; v && (n < sizeof(unsigned long long)); ++n, v >>= 8)`: the `n`. -/
def byteCount : Nat → Nat → Nat
  | 0, _ => 0
  | room + 1, v => if v ≠ 0 then byteCount room (v >>> 8) + 1 else 0

/-- `encbuf`. -/
def encbuf (blockNumber : Nat) : List UInt8 :=
  let n := byteCount 8 blockNumber
  (List.range' 1 n).map (fun i => UInt8.ofNat (blockNumber >>> (8 * (n - i))))
    ++ [UInt8.ofNat n, 0xFF, 0xFF]

/-- `if (blockNumber)`: the last leaf, the number of leaves, and the suffix. -/
def finishTree (l : K12Locals) : KangarooTwelveF :=
  if l.blockNumber ≠ 0 then
    let l := flushQueue l
    let finalNode := l.finalNode.absorb (encbuf (l.blockNumber - 1))
    finalNode.xorByte finalNode.byteIOIndex 0x06
  else l.finalNode

/-- `kangaroo_twelve`. `uninit` is what the local variables hold before they
are written. -/
def kangarooTwelveTree (uninit : K12Locals) (input : List UInt8) (outputByteLen : Nat) :
    List UInt8 :=
  let inputByteLen := UInt32.ofNat input.length
  let l := { uninit with finalNode := .zeroed }
  let len := cappedLen inputByteLen
  let l := { l with finalNode := l.finalNode.absorb (input.take len.toNat) }
  let input := input.drop len.toNat
  let inputByteLen := inputByteLen - len
  let l :=
    if len = k12ChunkSize ∧ inputByteLen ≠ 0 then
      padQueue (chunkLoop input inputByteLen
        { l with finalNode := l.finalNode.openTree, blockNumber := 1, queueAbsorbedLen := 0 })
    else if len = k12ChunkSize then
      { finalNode := l.finalNode.openTree, queueNode := emptyQueue
        blockNumber := 1, queueAbsorbedLen := 1 }
    else { l with finalNode := l.finalNode.closeSingle, blockNumber := 0 }
  ((finishTree l).xorByte (k12RateInBytes - 1) 0x80).permute.state.cells.take outputByteLen

/-! ## What it is for -/

/-- The empty node. -/
def emptyNode : SpongeNode := ⟨.fill _ 0, 0, by decide⟩

/-- The end of a node: a suffix, the last byte of the rate, and the permutation. -/
def closeNode (node : SpongeNode) (suffix : UInt8) : FixedBuf UInt8 200 :=
  keccakSponge.mix (keccakSponge.put (keccakSponge.put node.state node.index suffix)
    (k12RateInBytes - 1) 0x80)

/-- One node over a message. -/
def hashNode (message : List UInt8) (suffix : UInt8) : FixedBuf UInt8 200 :=
  closeNode (emptyNode.absorb message) suffix

/-- The chunks of a message. -/
def chunks (message : List UInt8) : List (List UInt8) :=
  if message = [] then [] else message.take 8192 :: chunks (message.drop 8192)
termination_by message.length
decreasing_by
  rename_i hne
  have := List.length_pos_iff.mpr hne
  rw [List.length_drop]
  omega

/-- The chaining value of a chunk. -/
def leaf (chunk : List UInt8) : List UInt8 :=
  (hashNode chunk k12SuffixLeaf).cells.take k12CapacityInBytes

/-- A number, its digits to base 256 with the highest first, and how many they are. -/
def rightEncode (n : Nat) : List UInt8 :=
  (Nat.digits 256 n).reverse.map UInt8.ofNat ++ [UInt8.ofNat (Nat.digits 256 n).length]

/-- The tree over a message. -/
def treeHash (message : List UInt8) : FixedBuf UInt8 200 :=
  if message.length ≤ 8192 then hashNode message 0x07
  else
    let leaves := (chunks (message.drop 8192)).map leaf
    hashNode (message.take 8192 ++ (0x03 :: List.replicate 7 0) ++ leaves.flatten
      ++ rightEncode leaves.length ++ [0xFF, 0xFF]) 0x06

/-- KangarooTwelve with an empty customisation string: its encoding is one zero byte. -/
def k12Hash (input : List UInt8) : FixedBuf UInt8 200 := treeHash (input ++ [0])

/-! ## Nodes -/

/-- `memset` leaves the empty node. -/
theorem zeroed_eq : KangarooTwelveF.zeroed = .of emptyNode := rfl

theorem absorb_of (node : SpongeNode) (data : List UInt8) :
    (KangarooTwelveF.of node).absorb data = .of (node.absorb data) :=
  absorbLanes_eq _ _ _ (Nat.le_refl _)

/-- Skipping a byte absorbs a zero. -/
theorem skipByte_of (node : SpongeNode) :
    (KangarooTwelveF.of node).skipByte = .of (node.absorb [0]) := by
  have hlt : node.index < k12RateInBytes := node.index_lt
  show (if node.index + 1 = k12RateInBytes then _ else _) = _
  by_cases hfull : node.index + 1 = k12RateInBytes
  · rw [if_pos hfull, Sponge.Node.absorb_fills (List.cons_ne_nil _ _) hfull]
    show _ = KangarooTwelveF.mk (keccakSponge.mix (keccakSponge.put node.state node.index 0)) 0
    rw [put_zero]
    rfl
  · have hroom : node.index + [(0 : UInt8)].length < k12RateInBytes := by
      rw [List.length_singleton]
      omega
    rw [if_neg hfull, Sponge.Node.absorb_fits hroom]
    show _ = KangarooTwelveF.mk (keccakSponge.put node.state node.index 0) (node.index + 1)
    rw [put_zero]
    rfl

/-- The end of a message of one node absorbs the zero too. -/
theorem closeSingle_of (node : SpongeNode) :
    (((KangarooTwelveF.of node).closeSingle).xorByte (k12RateInBytes - 1) 0x80).permute.state
      = closeNode (node.absorb [0]) 0x07 := by
  have hskip : (KangarooTwelveF.of node).closeSingle.state
      = keccakSponge.put (KangarooTwelveF.of node).skipByte.state
          (KangarooTwelveF.of node).skipByte.byteIOIndex 0x07 := by
    unfold KangarooTwelveF.closeSingle KangarooTwelveF.skipByte
    dsimp only
    split
    · rfl
    · rfl
  show keccakSponge.mix (keccakSponge.put (KangarooTwelveF.of node).closeSingle.state _ 0x80) = _
  rw [hskip, skipByte_of]
  rfl

/-- At a lane boundary, `0x03` and seven zeros. -/
theorem openTree_of {node : SpongeNode} (hindex : node.index = 128) :
    (KangarooTwelveF.of node).openTree = .of (node.absorb (0x03 :: List.replicate 7 0)) := by
  have hroom : node.index + (0x03 :: List.replicate 7 (0 : UInt8)).length < keccakSponge.rate := by
    rw [hindex]
    decide
  rw [Sponge.Node.absorb_fits hroom, KangarooTwelveF.of, Sponge.putAll, putAll_zeros]
  show (if node.index + 1 = k12RateInBytes then _ else _) = _
  rw [if_neg (by rw [hindex]; decide)]
  have hlane : (node.index + 1 + 7) &&& 0xFFFFFFF8 = node.index + 8 := by
    rw [hindex]
    rfl
  exact congrArg (KangarooTwelveF.mk _) hlane

/-- A sealed queue that is absorbed is a leaf. -/
theorem absorb_leaf (node : SpongeNode) (chunk : List UInt8) :
    (KangarooTwelveF.of node).absorb
        ((KangarooTwelveF.of (emptyNode.absorb chunk)).sealLeaf.state.cells.take k12CapacityInBytes)
      = .of (node.absorb (leaf chunk)) :=
  absorb_of _ _

/-! ## The chunks -/

theorem chunks_short {message : List UInt8} (hne : message ≠ []) (h : message.length ≤ 8192) :
    chunks message = [message] := by
  rw [chunks, if_neg hne, List.take_of_length_le h, List.drop_of_length_le h, chunks, if_pos rfl]

/-- A chunk that is full whatever follows. -/
theorem chunks_append {message : List UInt8} (h : 8192 ≤ message.length) (more : List UInt8) :
    chunks (message ++ more) = message.take 8192 :: chunks (message.drop 8192 ++ more) := by
  have hne : message ++ more ≠ [] := by
    intro hnil
    rw [(List.append_eq_nil_iff.mp hnil).1, List.length_nil] at h
    omega
  rw [chunks, if_neg hne, List.take_append_of_le_length h, List.drop_append_of_le_length h]

/-! ## The queue -/

/-- A leaf that is closed goes into the final node. -/
theorem closeQueue_finalNode {l : K12Locals} {node : SpongeNode} {chunk : List UInt8}
    (hfinal : l.finalNode = .of node) (hqueue : l.queueNode = .of (emptyNode.absorb chunk)) :
    l.closeQueue.finalNode = .of (node.absorb (leaf chunk)) := by
  show l.finalNode.absorb (l.queueNode.sealLeaf.state.cells.take k12CapacityInBytes) = _
  rw [hfinal, hqueue, absorb_leaf]

theorem flushQueue_open {l : K12Locals} {node : SpongeNode} {chunk : List UInt8}
    (hfinal : l.finalNode = .of node) (hqueue : l.queueNode = .of (emptyNode.absorb chunk))
    (hopen : l.queueAbsorbedLen ≠ 0) :
    (flushQueue l).finalNode = .of (node.absorb (leaf chunk)) ∧
      (flushQueue l).blockNumber = l.blockNumber + 1 := by
  unfold flushQueue
  rw [if_pos hopen]
  refine ⟨?_, rfl⟩
  show l.finalNode.absorb (l.queueNode.sealLeaf.state.cells.take k12CapacityInBytes) = _
  rw [hfinal, hqueue, absorb_leaf]

/-- After the loop: what is left in the queue becomes the last leaf, with the
zero byte of the empty string at its end. -/
theorem flushQueue_padQueue {l : K12Locals} {node : SpongeNode} {rest : List UInt8}
    (hrest : rest.length < 8192) (hfinal : l.finalNode = .of node)
    (hqueue : rest ≠ [] → l.queueNode = .of (emptyNode.absorb rest))
    (hlen : l.queueAbsorbedLen = rest.length) :
    (flushQueue (padQueue l)).finalNode = .of (node.absorb (leaf (rest ++ [0]))) ∧
      (flushQueue (padQueue l)).blockNumber = l.blockNumber + 1 := by
  unfold padQueue
  by_cases hnil : rest = []
  · -- no chunk was left: the queue is only the zero byte
    rw [if_neg (by rw [hlen, hnil]; exact not_not_intro rfl), hnil]
    have hempty : emptyQueue = .of (emptyNode.absorb ([] ++ [0])) := skipByte_of emptyNode
    exact flushQueue_open hfinal hempty Nat.one_ne_zero
  · have hpos := List.length_pos_iff.mpr hnil
    have hskip : l.queueNode.skipByte = .of (emptyNode.absorb (rest ++ [0])) := by
      rw [hqueue hnil, skipByte_of, ← Sponge.Node.absorb_append]
    rw [if_pos (by omega)]
    dsimp only
    by_cases hfull : l.queueAbsorbedLen + 1 = k12ChunkSize.toNat
    · -- the zero byte fills the chunk, which is closed at once
      rw [if_pos hfull]
      exact ⟨closeQueue_finalNode hfinal hskip, rfl⟩
    · rw [if_neg hfull]
      exact flushQueue_open hfinal hskip (Nat.succ_ne_zero _)

/-- The loop, the padding and the flush: the leaves of what is left. -/
theorem chunkLoop_leaves (input : List UInt8) (n : UInt32) (l : K12Locals) {node : SpongeNode}
    (hn : n.toNat = input.length) (hfinal : l.finalNode = .of node)
    (hlen : l.queueAbsorbedLen = 0) :
    (flushQueue (padQueue (chunkLoop input n l))).finalNode
        = .of (node.absorb ((chunks (input ++ [0])).map leaf).flatten) ∧
      (flushQueue (padQueue (chunkLoop input n l))).blockNumber
        = l.blockNumber + (chunks (input ++ [0])).length := by
  fun_induction chunkLoop input n l generalizing node with
  | case1 input n l hpos len l' =>
    rename_i ih
    have hlen' : len.toNat = min input.length 8192 := by rw [toNat_chunkLen, hn]
    have hrest : (n - len).toNat = (input.drop len.toNat).length := by
      rw [toNat_sub_chunkLen, List.length_drop, hlen', hn]
    have hqueue : l'.queueNode = .of (emptyNode.absorb (input.take len.toNat)) :=
      absorb_of emptyNode _
    by_cases hfull : len = k12ChunkSize
    · -- a whole chunk, whatever comes behind it
      have hcut : len.toNat = 8192 := by rw [hfull]; rfl
      have hlong : 8192 ≤ input.length := by omega
      rw [dif_pos hfull] at ih
      rw [if_pos hfull]
      obtain ⟨hnode, hnumber⟩ := ih hrest (closeQueue_finalNode hfinal hqueue) hlen
      rw [chunks_append hlong, List.map_cons, List.flatten_cons, Sponge.Node.absorb_append,
        List.length_cons, ← hcut]
      refine ⟨hnode, hnumber.trans ?_⟩
      show l.blockNumber + 1 + _ = _
      omega
    · -- the last chunk
      have hshort : input.length < 8192 := by
        by_contra hlong
        exact hfull (UInt32.toNat_inj.mp (hlen'.trans (Nat.min_eq_right (Nat.le_of_not_lt hlong))))
      have hcut : len.toNat = input.length := by omega
      have hdone : ¬ 0 < n - len := by
        intro h
        have h' : 0 < (n - len).toNat := UInt32.lt_iff_toNat_lt.mp h
        rw [hrest, List.length_drop] at h'
        omega
      have hchunks : chunks (input ++ [0]) = [input ++ [0]] :=
        chunks_short (List.append_ne_nil_of_right_ne_nil _ (List.cons_ne_nil _ _)) (by
          rw [List.length_append, List.length_singleton]
          omega)
      rw [hcut, List.take_length] at hqueue
      rw [if_neg hfull, chunkLoop, if_neg hdone, hchunks]
      simp only [List.map_cons, List.map_nil, List.flatten_cons, List.flatten_nil, List.append_nil,
        List.length_singleton]
      exact flushQueue_padQueue (l := { l' with queueAbsorbedLen := len.toNat }) hshort hfinal
        (fun _ => hqueue) hcut
  | case2 input n l hzero =>
    have hnil : input = [] := by
      apply List.length_eq_zero_iff.mp
      have h : ¬ 0 < n.toNat := fun h => hzero (UInt32.lt_iff_toNat_lt.mpr h)
      omega
    have hchunks : chunks ([] ++ [0]) = [[] ++ [0]] :=
      chunks_short (List.cons_ne_nil _ _) (by decide)
    rw [hnil, hchunks]
    simp only [List.map_cons, List.map_nil, List.flatten_cons, List.flatten_nil, List.append_nil,
      List.length_singleton]
    have hrest : ([] : List UInt8).length < 8192 := by decide
    exact flushQueue_padQueue hrest hfinal (fun h => absurd rfl h) hlen

/-! ## The number of leaves -/

theorem byteCount_eq {room v : Nat} (h : v < 256 ^ room) :
    byteCount room v = (Nat.digits 256 v).length := by
  induction room generalizing v with
  | zero =>
    rw [Nat.lt_one_iff.mp h]
    rfl
  | succ room ih =>
    rw [byteCount]
    by_cases hv : v = 0
    · rw [if_neg (not_not_intro hv), hv, Nat.digits_zero, List.length_nil]
    · have hnext : v / 256 < 256 ^ room := by
        apply (Nat.div_lt_iff_lt_mul (by decide)).mpr
        rwa [← Nat.pow_succ]
      rw [if_pos hv, Nat.shiftRight_eq_div_pow, ih hnext,
        Nat.digits_def' (by decide) (Nat.pos_of_ne_zero hv), List.length_cons]

theorem encbuf_eq {n : Nat} (h : n < 256 ^ 8) : encbuf n = rightEncode n ++ [0xFF, 0xFF] := by
  have hdigits : (List.range' 1 (Nat.digits 256 n).length).map
        (fun i => UInt8.ofNat (n >>> (8 * ((Nat.digits 256 n).length - i))))
      = (Nat.digits 256 n).reverse.map UInt8.ofNat := by
    refine List.ext_getElem (by simp) fun k hk hk' => ?_
    rw [List.length_map, List.length_range'] at hk
    have hlt : (Nat.digits 256 n).length - 1 - k < (Nat.digits 256 n).length := by omega
    have hdigit := Nat.getD_digits n ((Nat.digits 256 n).length - 1 - k) (by decide : 2 ≤ 256)
    rw [List.getD_eq_getElem _ _ hlt] at hdigit
    rw [List.getElem_map, List.getElem_map, List.getElem_range', List.getElem_reverse, hdigit,
      Nat.shiftRight_eq_div_pow, Nat.pow_mul, Nat.one_mul, Nat.sub_sub]
    apply UInt8.toNat_inj.mp
    rw [UInt8.toNat_ofNat', UInt8.toNat_ofNat', Nat.mod_mod]
  unfold encbuf rightEncode
  dsimp only
  rw [byteCount_eq h, hdigits, List.append_assoc]
  rfl

theorem length_chunks_le (message : List UInt8) : (chunks message).length ≤ message.length := by
  fun_induction chunks message with
  | case1 => exact Nat.zero_le _
  | case2 message hne ih =>
    have hpos := List.length_pos_iff.mpr hne
    rw [List.length_drop] at ih
    rw [List.length_cons]
    omega

theorem flushQueue_blockNumber_le (l : K12Locals) :
    (flushQueue l).blockNumber ≤ l.blockNumber + 1 := by
  unfold flushQueue
  split
  · exact Nat.le_refl _
  · exact Nat.le_succ _

/-! ## The hash -/

/-- The code after the first chunk. -/
theorem finishTree_leaves {l : K12Locals} {node : SpongeNode} {rest : List UInt8} {n : UInt32}
    (hn : n.toNat = rest.length) (hfinal : l.finalNode = .of node) (hnumber : l.blockNumber = 1)
    (hlen : l.queueAbsorbedLen = 0) :
    ((finishTree (padQueue (chunkLoop rest n l))).xorByte (k12RateInBytes - 1) 0x80).permute.state
      = closeNode (node.absorb (((chunks (rest ++ [0])).map leaf).flatten
          ++ rightEncode (chunks (rest ++ [0])).length ++ [0xFF, 0xFF])) 0x06 := by
  obtain ⟨hnode, hblocks⟩ := chunkLoop_leaves rest n l hn hfinal hlen
  have hle := flushQueue_blockNumber_le (padQueue (chunkLoop rest n l))
  have hone := length_chunks_le (rest ++ [0])
  have hlt := n.toNat_lt
  have hpos : (chunks (rest ++ [0])).length ≠ 0 := by
    rw [chunks, if_neg (List.append_ne_nil_of_right_ne_nil _ (List.cons_ne_nil _ _))]
    exact Nat.succ_ne_zero _
  rw [List.length_append, List.length_singleton] at hone
  have hcount : (flushQueue (padQueue (chunkLoop rest n l))).blockNumber - 1
      = (chunks (rest ++ [0])).length := by omega
  unfold finishTree
  rw [if_pos (by omega)]
  dsimp only
  rw [hnode, hcount, encbuf_eq (by omega), absorb_of, ← Sponge.Node.absorb_append,
    ← List.append_assoc]
  rfl

/-- The first chunk, from the length as an `unsigned int`. -/
theorem toNat_cappedLen_length {input : List UInt8} (hinput : input.length < 2 ^ 32) :
    (cappedLen (UInt32.ofNat input.length)).toNat = min input.length 8192 := by
  rw [toNat_cappedLen, UInt32.toNat_ofNat_of_lt' hinput]

/-- A message below the chunk size: one node. -/
theorem kangarooTwelveTree_short (uninit : K12Locals) {input : List UInt8} (outputByteLen : Nat)
    (hshort : input.length < 8192) :
    kangarooTwelveTree uninit input outputByteLen
      = (k12Hash input).cells.take outputByteLen := by
  have hcut := toNat_cappedLen_length (by omega : input.length < 2 ^ 32)
  have hzero : (input ++ [0]).length = input.length + 1 := List.length_append
  have hne : cappedLen (UInt32.ofNat input.length) ≠ k12ChunkSize := by
    intro h
    rw [h] at hcut
    have hsize : k12ChunkSize.toNat = 8192 := rfl
    omega
  have hhash : k12Hash input = hashNode (input ++ [0]) 0x07 := if_pos (by omega)
  unfold kangarooTwelveTree
  dsimp only
  rw [hcut, if_neg (fun h => hne h.1), if_neg hne, hhash, Nat.min_eq_left (by omega),
    List.take_length]
  show ((KangarooTwelveF.zeroed.absorb input).closeSingle.xorByte
    (k12RateInBytes - 1) 0x80).permute.state.cells.take outputByteLen = _
  rw [zeroed_eq, absorb_of, closeSingle_of, ← Sponge.Node.absorb_append]
  rfl

/-- A message of a chunk or more: the tree. -/
theorem kangarooTwelveTree_long (uninit : K12Locals) {input : List UInt8} (outputByteLen : Nat)
    (hlong : 8192 ≤ input.length) (hinput : input.length < 2 ^ 32) :
    kangarooTwelveTree uninit input outputByteLen
      = (k12Hash input).cells.take outputByteLen := by
  have hlength : (UInt32.ofNat input.length).toNat = input.length :=
    UInt32.toNat_ofNat_of_lt' hinput
  have hcut := toNat_cappedLen_length hinput
  have hzero : (input ++ [0]).length = input.length + 1 := List.length_append
  have hcap : cappedLen (UInt32.ofNat input.length) = k12ChunkSize :=
    UInt32.toNat_inj.mp (hcut.trans (Nat.min_eq_right hlong))
  have hrest : (UInt32.ofNat input.length - cappedLen (UInt32.ofNat input.length)).toNat
      = (input.drop 8192).length := by
    rw [UInt32.toNat_sub_of_le _ _ (UInt32.le_iff_toNat_le.mpr (by omega)), hlength, hcut,
      List.length_drop]
    omega
  have hopen : (KangarooTwelveF.zeroed.absorb (input.take 8192)).openTree
      = .of ((emptyNode.absorb (input.take 8192)).absorb (0x03 :: List.replicate 7 0)) := by
    rw [zeroed_eq, absorb_of]
    apply openTree_of
    rw [Sponge.Node.absorb_index, List.length_take_of_le hlong]
    rfl
  have hhash : k12Hash input = hashNode (input.take 8192 ++ (0x03 :: List.replicate 7 0)
      ++ ((chunks (input.drop 8192 ++ [0])).map leaf).flatten
      ++ rightEncode (chunks (input.drop 8192 ++ [0])).length ++ [0xFF, 0xFF]) 0x06 := by
    unfold k12Hash treeHash
    rw [if_neg (by omega), List.take_append_of_le_length hlong,
      List.drop_append_of_le_length hlong]
    dsimp only
    rw [List.length_map]
  unfold kangarooTwelveTree
  dsimp only
  rw [hcut, Nat.min_eq_right hlong, hhash]
  generalize UInt32.ofNat input.length - cappedLen (UInt32.ofNat input.length) = n at hrest ⊢
  -- the branch for a message of one chunk is the other one with an empty loop
  have hbranch : (if cappedLen (UInt32.ofNat input.length) = k12ChunkSize ∧ n ≠ 0 then
        padQueue (chunkLoop (input.drop 8192) n
          ⟨(KangarooTwelveF.zeroed.absorb (input.take 8192)).openTree, uninit.queueNode, 1, 0⟩)
      else if cappedLen (UInt32.ofNat input.length) = k12ChunkSize then
        ⟨(KangarooTwelveF.zeroed.absorb (input.take 8192)).openTree, emptyQueue, 1, 1⟩
      else ⟨(KangarooTwelveF.zeroed.absorb (input.take 8192)).closeSingle,
        uninit.queueNode, 0, uninit.queueAbsorbedLen⟩)
      = padQueue (chunkLoop (input.drop 8192) n
          ⟨(KangarooTwelveF.zeroed.absorb (input.take 8192)).openTree,
            uninit.queueNode, 1, 0⟩) := by
    by_cases hn : n = 0
    · rw [if_neg (fun h => h.2 hn), if_pos hcap, chunkLoop, if_neg (by rw [hn]; decide)]
      rfl
    · rw [if_pos ⟨hcap, hn⟩]
  rw [hbranch, finishTree_leaves hrest hopen rfl rfl, ← Sponge.Node.absorb_append,
    ← Sponge.Node.absorb_append, hashNode, ← List.append_assoc, ← List.append_assoc,
    ← List.append_assoc]

/-- `kangaroo_twelve` is KangarooTwelve: every branch, whatever the local
variables held. -/
theorem kangarooTwelveTree_eq (uninit : K12Locals) (input : List UInt8) (outputByteLen : Nat)
    (hinput : input.length < 2 ^ 32) :
    kangarooTwelveTree uninit input outputByteLen
      = (k12Hash input).cells.take outputByteLen := by
  rcases Nat.lt_or_ge input.length 8192 with hshort | hlong
  · exact kangarooTwelveTree_short uninit outputByteLen hshort
  · exact kangarooTwelveTree_long uninit outputByteLen hlong hinput

/-- Two chunks and a byte: two leaves, the last one of that byte and the zero. -/
theorem kangarooTwelveTree_eq_chunks :
    kangarooTwelveTree ⟨.zeroed, .zeroed, 0, 0⟩ (List.replicate 16385 0x2A) 32
      = (k12Hash (List.replicate 16385 0x2A)).cells.take 32 :=
  kangarooTwelveTree_eq _ _ _ (by rw [List.length_replicate]; decide)

/-- The one-node hash of the rest of this development is what the code computes
for a message below the chunk size. -/
theorem kangarooTwelve_agrees (uninit : K12Locals) (input : List UInt8) (outputByteLen : Nat)
    (hshort : input.length < 8192) :
    kangarooTwelve input outputByteLen = kangarooTwelveTree uninit input outputByteLen := by
  have hzero : (input ++ [0]).length = input.length + 1 := List.length_append
  have hhash : k12Hash input = hashNode (input ++ [0]) 0x07 := if_pos (by omega)
  have hnode : kangarooTwelveFAbsorb input.length ⟨.fill _ 0, 0⟩ input
      = .of (emptyNode.absorb input) :=
    kangarooTwelveFAbsorb_eq _ emptyNode _ (Nat.le_refl _)
  have hput : ∀ (s : FixedBuf UInt8 200) {i : Nat} (b : UInt8), i < 200 →
      xorState s i [b] = keccakSponge.put s i b :=
    fun s i b hi => xorState_eq (by rw [List.length_singleton]; omega)
  have hlt : (emptyNode.absorb input).index < 168 := (emptyNode.absorb input).index_lt
  rw [kangarooTwelveTree_short uninit outputByteLen hshort, hhash, hashNode,
    Sponge.Node.absorb_append, ← closeSingle_of]
  unfold kangarooTwelve KangarooTwelveF.closeSingle
  rw [hnode]
  dsimp only [KangarooTwelveF.of]
  split
  · -- the suffix starts a new block
    rw [hput _ _ (by decide), hput _ _ (by decide)]
    rfl
  · rw [hput _ 0x07 (by omega), hput _ 0x80 (by decide)]
    rfl

/-- The longest message of one node: the zero byte fills the chunk. -/
theorem kangarooTwelve_agrees_longest :
    kangarooTwelve (List.replicate 8191 0x2A) 32
      = kangarooTwelveTree ⟨.zeroed, .zeroed, 0, 0⟩ (List.replicate 8191 0x2A) 32 :=
  kangarooTwelve_agrees _ _ _ (by rw [List.length_replicate]; decide)

end QubicLedger
