import QubicLedger.Lib.FixedBuf

/-!
# Local arrays that have held a secret

A function's local byte array, together with a mark that the first store of a
secret sets and nothing takes back. `Clean` is what a function owes for each of
its arrays when it returns: an array that has held a secret is all zero.

Wiping makes any array clean (`clean_bzero`), and so does overwriting it with
zeros; one cell that is not zero is enough against it (`not_clean_of_mem`). A
loop that stores a string cell by cell is one store (`store_append`).
-/

namespace Lib

/-- A local array: what it holds, and whether a secret was ever stored in it. -/
structure Local (n : Nat) where
  buf : FixedBuf UInt8 n
  held : Bool

namespace Local

variable {n : Nat} {b : Local n}

/-- Storing part of a secret at `off`. -/
def store (b : Local n) (off : Nat) (src : List UInt8) : Local n :=
  { buf := b.buf.write off src, held := true }

/-- `explicit_bzero`, or a zero initialiser. -/
def bzero (b : Local n) : Local n := { b with buf := .fill n 0 }

@[simp] theorem buf_store (off : Nat) (src : List UInt8) :
    (b.store off src).buf = b.buf.write off src := rfl

/-- An array that has held a secret is all zero. -/
def Clean (b : Local n) : Prop := b.held = true → b.buf = .fill n 0

theorem clean_of_not_held (h : b.held = false) : b.Clean := by
  intro hheld
  rw [h] at hheld
  exact absurd hheld Bool.false_ne_true

theorem clean_of_zero (h : b.buf = .fill n 0) : b.Clean := fun _ => h

theorem clean_bzero (b : Local n) : b.bzero.Clean := clean_of_zero rfl

/-- Storing a whole array forgets what was there, the mark apart. -/
theorem store_full (b : Local n) (c : FixedBuf UInt8 n) :
    b.store 0 c.cells = { buf := c, held := true } := by
  have hwhole : b.buf.write 0 c.cells = c := FixedBuf.ext (FixedBuf.cells_write_full c.size_eq)
  rw [store, hwhole]

/-- Storing zeros over the whole array wipes it. -/
theorem store_zeros (b : Local n) :
    b.store 0 (List.replicate n 0) = { buf := .fill n 0, held := true } :=
  store_full b (.fill n 0)

theorem not_clean_of_mem (hheld : b.held = true) {x : UInt8} (hx : x ∈ b.buf.cells)
    (hne : x ≠ 0) : ¬b.Clean := by
  intro hclean
  rw [hclean hheld] at hx
  exact hne (List.eq_of_mem_replicate hx)

/-- Two stores, one behind the other, are one store. -/
theorem store_append {off : Nat} {src src' : List UInt8}
    (h : off + src.length + src'.length ≤ n) :
    (b.store off src).store (off + src.length) src' = b.store off (src ++ src') := by
  unfold store
  rw [FixedBuf.write_append h]

end Local

end Lib
