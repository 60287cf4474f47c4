/-!
# Fixed-size memory blocks

A C array `T a[n]` as a list of cells that carries its own size, and the one
way such an array is filled here: `write b off src`, the `memmove` of `src` to
`b + off`. A write past the end is cut off at the end of the block, so every
block value is well formed; the callers prove that their writes fit
(`off + src.length ≤ n`), and under that bound the lemmas below say what the
block holds afterwards.

`take_write` is the frame half (cells below `off` are untouched) and
`take_write_append` the progress half: writing at the fill mark appends to the
filled prefix. Together they are all that an accumulator over a block needs.
-/

namespace Lib

/-- A memory block of exactly `n` cells. -/
@[ext]
structure FixedBuf (α : Type) (n : Nat) where
  cells : List α
  size_eq : cells.length = n
deriving DecidableEq

namespace FixedBuf

variable {α : Type} {n : Nat}

attribute [simp] FixedBuf.size_eq

/-- A block with every cell set to `x` (`memset`, `explicit_bzero`). -/
def fill (n : Nat) (x : α) : FixedBuf α n :=
  ⟨List.replicate n x, List.length_replicate⟩

@[simp] theorem cells_fill (x : α) : (fill n x).cells = List.replicate n x := rfl

/-- `memmove(b + off, src, src.length)`, cut off at the end of the block. -/
def write (b : FixedBuf α n) (off : Nat) (src : List α) : FixedBuf α n :=
  ⟨(b.cells.take off ++ src ++ b.cells.drop (off + src.length)).take n, by
    have hb := b.size_eq
    simp only [List.length_take, List.length_append, List.length_drop]
    omega⟩

/-- A write that fits replaces exactly the cells it covers. -/
theorem cells_write {b : FixedBuf α n} {off : Nat} {src : List α}
    (h : off + src.length ≤ n) :
    (b.write off src).cells
      = b.cells.take off ++ src ++ b.cells.drop (off + src.length) := by
  have hb := b.size_eq
  refine List.take_of_length_le ?_
  simp only [List.length_append, List.length_take, List.length_drop]
  omega

/-- Writing at the fill mark appends to the filled prefix. -/
theorem take_write_append {b : FixedBuf α n} {off : Nat} {src : List α}
    (h : off + src.length ≤ n) :
    (b.write off src).cells.take (off + src.length) = b.cells.take off ++ src := by
  have hb := b.size_eq
  rw [cells_write h]
  refine List.take_left' ?_
  rw [List.length_append, List.length_take]
  omega

/-- A write seen through the first `k` cells is that write to these cells. -/
theorem cells_write_take {k : Nat} {b : FixedBuf α n} {c : FixedBuf α k}
    (hc : c.cells = b.cells.take k) {off : Nat} {src : List α} (h : off + src.length ≤ n) :
    (c.write off src).cells = (b.write off src).cells.take k := by
  have hb := b.size_eq
  have hlen := c.size_eq
  rw [hc, List.length_take] at hlen
  rw [cells_write h]
  unfold write
  dsimp only
  rw [hc]
  -- cell by cell: before, inside and behind the written range
  refine List.ext_getElem? fun i => ?_
  rw [List.getElem?_take, List.getElem?_take]
  split
  · rw [List.getElem?_append, List.getElem?_append, List.getElem?_append, List.getElem?_append]
    simp only [List.length_append, List.length_take, List.getElem?_take, List.getElem?_drop]
    grind
  · rfl

/-- Overwriting the whole block from its start leaves exactly the source. -/
theorem cells_write_full {b : FixedBuf α n} {src : List α} (h : src.length = n) :
    (b.write 0 src).cells = src := by
  have hb := b.size_eq
  rw [cells_write (by omega)]
  simp [h, hb]

/-- Overwriting a whole block forgets what it held. -/
theorem write_full_eq {b c : FixedBuf α n} {src : List α} (h : src.length = n) :
    b.write 0 src = c.write 0 src :=
  FixedBuf.ext ((cells_write_full h).trans (cells_write_full h).symm)

/-- A store to one cell; a store past the end is lost. -/
def set (b : FixedBuf α n) (i : Nat) (x : α) : FixedBuf α n :=
  ⟨b.cells.set i x, by rw [List.length_set, b.size_eq]⟩

@[simp] theorem cells_set (b : FixedBuf α n) (i : Nat) (x : α) :
    (b.set i x).cells = b.cells.set i x := rfl

/-- A one-cell write is a store. -/
theorem write_singleton {b : FixedBuf α n} {i : Nat} {x : α} (h : i < n) :
    b.write i [x] = b.set i x := by
  have hb := b.size_eq
  refine FixedBuf.ext ?_
  rw [cells_write (by rw [List.length_singleton]; omega), cells_set,
    List.set_eq_take_append_cons_drop, if_pos (by omega)]
  simp

/-- A store just below a write extends the write. -/
theorem write_set_succ {b : FixedBuf α n} {i : Nat} {x : α} {src : List α}
    (h : i + 1 + src.length ≤ n) : (b.set i x).write (i + 1) src = b.write i (x :: src) := by
  have hb := b.size_eq
  have hset : b.cells.set i x = b.cells.take i ++ [x] ++ b.cells.drop (i + 1) := by
    rw [List.set_eq_take_append_cons_drop, if_pos (by omega)]
    simp
  have hfront : (b.cells.take i ++ [x]).length = i + 1 := by
    rw [List.length_append, List.length_take, List.length_singleton]
    omega
  refine FixedBuf.ext ?_
  rw [cells_write h, cells_write (by rw [List.length_cons]; omega), cells_set, hset,
    List.take_left' hfront, ← List.drop_drop, List.drop_left' hfront, List.drop_drop,
    List.length_cons]
  simp [Nat.add_comm, Nat.add_left_comm]

/-- A store just above a write extends the write. -/
theorem set_write {b : FixedBuf α n} {i : Nat} {x : α} {src : List α}
    (h : i + src.length + 1 ≤ n) :
    (b.write i src).set (i + src.length) x = b.write i (src ++ [x]) := by
  have hb := b.size_eq
  refine FixedBuf.ext ?_
  have hfront : (b.cells.take i ++ src).length = i + src.length := by
    rw [List.length_append, List.length_take]
    omega
  rw [cells_set, cells_write (by omega), cells_write (by rw [List.length_append]; simp; omega),
    List.set_append_right _ _ (by omega), hfront, Nat.sub_self, List.length_append,
    List.length_singleton, List.drop_eq_getElem_cons (by omega), List.set_cons_zero]
  simp [Nat.add_assoc]

/-- Two writes, one behind the other, are one write. -/
theorem write_append {b : FixedBuf α n} {off : Nat} {src src' : List α}
    (h : off + src.length + src'.length ≤ n) :
    (b.write off src).write (off + src.length) src' = b.write off (src ++ src') := by
  have hb := b.size_eq
  have hfront : (b.cells.take off ++ src).length = off + src.length := by
    rw [List.length_append, List.length_take]
    omega
  refine FixedBuf.ext ?_
  rw [cells_write h, take_write_append (by omega), cells_write (by omega),
    cells_write (b := b) (by rw [List.length_append]; omega), ← List.drop_drop,
    List.drop_left' hfront, List.drop_drop, List.length_append]
  simp [Nat.add_assoc]

theorem write_nil {b : FixedBuf α n} {off : Nat} (h : off ≤ n) : b.write off [] = b := by
  refine FixedBuf.ext ?_
  rw [cells_write (by rw [List.length_nil]; omega)]
  simp

end FixedBuf

/-! ## A caller's buffer

Functions that write through a pointer get the caller's array as an `OutMem`:
the array together with a log of every index read or written through the
pointer, so that staying in bounds is a statement about the log. Stores past
the end of the array are logged and lost. -/

/-- A caller-owned `char` array and the indices accessed through it so far. -/
structure OutMem (n : Nat) where
  buf : FixedBuf UInt8 n
  touched : List Nat

namespace OutMem

variable {n : Nat}

/-- A zero-initialised array (`char seed[n] = {0}`). -/
def zeroed (n : Nat) : OutMem n := ⟨.fill n 0, []⟩

/-- Reading `len` bytes from `off`. -/
def read (m : OutMem n) (off len : Nat) : OutMem n :=
  { m with touched := m.touched ++ List.range' off len }

/-- Storing `src` at `off`. -/
def write (m : OutMem n) (off : Nat) (src : List UInt8) : OutMem n :=
  { buf := m.buf.write off src, touched := m.touched ++ List.range' off src.length }

end OutMem

/-- Every access through the pointer stayed inside the block. -/
def InBounds {n : Nat} (m : OutMem n) : Prop := ∀ i ∈ m.touched, i < n

end Lib

