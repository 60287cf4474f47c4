import Mathlib.Data.List.Basic

/-!
# Sponges

A sponge takes symbols into a state, one position after the other, and mixes the
state whenever `rate` symbols are in. `Node.absorb` does that symbol by symbol;
an implementation puts in whole pieces, and the rules say what comes of one.

* `Node.absorb_append`: absorbing in pieces is absorbing at once.
* `Node.absorb_fits`: a piece that leaves room only goes into the state.
* `Node.absorb_fills`: a piece that leaves none is followed by one mixing.
* `Node.absorb_index`: the position, whatever was absorbed.
-/

namespace Lib

/-- A state that takes symbols at positions below `rate`, and its mixing. -/
structure Sponge (σ β : Type) where
  rate : Nat
  rate_pos : 0 < rate
  put : σ → Nat → β → σ
  mix : σ → σ

namespace Sponge

variable {σ β : Type} {S : Sponge σ β}

/-- Symbols put in one after the other, from a position on. -/
def putAll (S : Sponge σ β) (s : σ) (i : Nat) : List β → σ
  | [] => s
  | b :: bs => S.putAll (S.put s i b) (i + 1) bs

theorem putAll_append (s : σ) (i : Nat) (xs ys : List β) :
    S.putAll s i (xs ++ ys) = S.putAll (S.putAll s i xs) (i + xs.length) ys := by
  induction xs generalizing s i with
  | nil => rfl
  | cons b xs ih =>
    rw [List.cons_append, putAll, ih, putAll, List.length_cons, Nat.add_right_comm, Nat.add_assoc]

/-- A state that is being filled, and where the next symbol goes. -/
@[ext]
structure Node (S : Sponge σ β) where
  state : σ
  index : Nat
  index_lt : index < S.rate

namespace Node

/-- One symbol. -/
def absorbOne (node : S.Node) (b : β) : S.Node :=
  if h : node.index + 1 < S.rate then ⟨S.put node.state node.index b, node.index + 1, h⟩
  else ⟨S.mix (S.put node.state node.index b), 0, S.rate_pos⟩

/-- One symbol after the other. -/
def absorb (node : S.Node) (bs : List β) : S.Node := bs.foldl absorbOne node

@[simp] theorem absorb_nil (node : S.Node) : node.absorb [] = node := rfl

theorem absorb_cons (node : S.Node) (b : β) (bs : List β) :
    node.absorb (b :: bs) = (node.absorbOne b).absorb bs := rfl

theorem absorb_append (node : S.Node) (xs ys : List β) :
    node.absorb (xs ++ ys) = (node.absorb xs).absorb ys :=
  List.foldl_append

/-- A piece that leaves room. -/
theorem absorb_fits {node : S.Node} {bs : List β} (h : node.index + bs.length < S.rate) :
    node.absorb bs = ⟨S.putAll node.state node.index bs, node.index + bs.length, h⟩ := by
  induction bs generalizing node with
  | nil => rfl
  | cons b bs ih =>
    rw [List.length_cons] at h
    have hone : node.absorbOne b = ⟨S.put node.state node.index b, node.index + 1, by omega⟩ :=
      dif_pos (by omega)
    rw [absorb_cons, hone, ih (by dsimp only; omega)]
    exact Node.ext rfl (by dsimp only; rw [List.length_cons]; omega)

/-- A piece that leaves no room. -/
theorem absorb_fills {node : S.Node} {bs : List β} (hne : bs ≠ [])
    (h : node.index + bs.length = S.rate) :
    node.absorb bs = ⟨S.mix (S.putAll node.state node.index bs), 0, S.rate_pos⟩ := by
  induction bs generalizing node with
  | nil => exact absurd rfl hne
  | cons b bs ih =>
    rw [List.length_cons] at h
    cases bs with
    | nil => exact dif_neg (by rw [List.length_nil] at h; omega)
    | cons c cs =>
      rw [List.length_cons] at h
      have hone : node.absorbOne b = ⟨S.put node.state node.index b, node.index + 1, by omega⟩ :=
        dif_pos (by omega)
      rw [absorb_cons, hone, ih (List.cons_ne_nil _ _) (by dsimp only; rw [List.length_cons]; omega)]
      rfl

/-- The position counts the symbols modulo the rate. -/
theorem absorb_index (node : S.Node) (bs : List β) :
    (node.absorb bs).index = (node.index + bs.length) % S.rate := by
  induction bs generalizing node with
  | nil => exact (Nat.mod_eq_of_lt node.index_lt).symm
  | cons b bs ih =>
    rw [absorb_cons, ih, List.length_cons, absorbOne]
    have hlt := node.index_lt
    split
    · dsimp only
      rw [Nat.add_right_comm, Nat.add_assoc]
    · -- the position went back to the start
      dsimp only
      rw [show node.index + (bs.length + 1) = S.rate + bs.length by omega, Nat.add_mod_left,
        Nat.zero_add]

end Node

end Sponge

end Lib
