import Mathlib.Data.Nat.Digits.Lemmas
import Mathlib.Tactic.Ring

/-!
# Positional numerals, most significant digit first

Mathlib's `Nat.digits` and `Nat.ofDigits` are little-endian and write zero as
the empty list. Programs that print numbers or divide byte arrays work the
other way round, and print zero as one digit. This file is the thin layer
between the two:

* `valueBE b ds`: the number a most-significant-first digit list denotes;
* `numeral b n`: the minimal numeral of `n`, `[0]` for zero, with its value,
  its digit bound, its length (`numeral_length_le_iff`) and the recursion that
  repeated division follows (`numeral_of_div_eq_zero`, `numeral_of_div_ne_zero`);
* `wordLE b k n`: the `k` low digits of `n`, least significant first, which
  lose nothing below `b ^ k` (`wordLE_inj`);
* `map_digit_inj`: digits written as symbols can be read back;
* `padLeft_eq_iff`: when two numerals padded on the left to one width agree.
-/

namespace Lib

/-! ## Values -/

/-- The value of a digit list read most significant digit first. -/
def valueBE (b : Nat) (ds : List Nat) : Nat := ds.foldl (fun acc d => acc * b + d) 0

private theorem foldl_valueBE (b : Nat) (ds : List Nat) :
    ∀ acc : Nat, ds.foldl (fun acc d => acc * b + d) acc = acc * b ^ ds.length + valueBE b ds := by
  induction ds with
  | nil => intro acc; simp [valueBE]
  | cons d ds ih =>
    intro acc
    have hd : valueBE b (d :: ds) = d * b ^ ds.length + valueBE b ds := by
      unfold valueBE
      rw [List.foldl_cons, ih (0 * b + d)]
      simp [valueBE]
    rw [List.foldl_cons, ih (acc * b + d), hd, List.length_cons, pow_succ]
    ring

@[simp] theorem valueBE_nil (b : Nat) : valueBE b [] = 0 := rfl

theorem valueBE_cons (b d : Nat) (ds : List Nat) :
    valueBE b (d :: ds) = d * b ^ ds.length + valueBE b ds := by
  unfold valueBE
  rw [List.foldl_cons, foldl_valueBE]
  simp [valueBE]

/-- The most-significant-first value is Mathlib's value of the reversal. -/
theorem valueBE_eq_ofDigits (b : Nat) (ds : List Nat) :
    valueBE b ds = Nat.ofDigits b ds.reverse := by
  induction ds with
  | nil => simp
  | cons d ds ih =>
    rw [valueBE_cons, ih, List.reverse_cons, Nat.ofDigits_append, Nat.ofDigits_singleton,
      List.length_reverse]
    ring

theorem valueBE_lt {b : Nat} (hb : 1 < b) {ds : List Nat} (h : ∀ d ∈ ds, d < b) :
    valueBE b ds < b ^ ds.length := by
  rw [valueBE_eq_ofDigits, ← List.length_reverse]
  exact Nat.ofDigits_lt_base_pow_length hb (fun d hd => h d (List.mem_reverse.mp hd))

/-- Digit lists of one length with one value are equal. -/
theorem valueBE_inj {b : Nat} (hb : 1 < b) {xs ys : List Nat} (hlen : xs.length = ys.length)
    (hx : ∀ d ∈ xs, d < b) (hy : ∀ d ∈ ys, d < b) (h : valueBE b xs = valueBE b ys) :
    xs = ys := by
  rw [valueBE_eq_ofDigits, valueBE_eq_ofDigits] at h
  have hrev : xs.reverse = ys.reverse :=
    Nat.ofDigits_inj_of_len_eq hb (by rw [List.length_reverse, List.length_reverse, hlen])
      (fun d hd => hx d (List.mem_reverse.mp hd)) (fun d hd => hy d (List.mem_reverse.mp hd)) h
  exact List.reverse_injective hrev

/-- A list has value zero exactly when all its digits are zero. -/
theorem valueBE_eq_zero_iff {b : Nat} (hb : 0 < b) (ds : List Nat) :
    valueBE b ds = 0 ↔ ∀ d ∈ ds, d = 0 := by
  induction ds with
  | nil => simp
  | cons d ds ih =>
    have hpow : b ^ ds.length ≠ 0 := (Nat.pow_pos hb).ne'
    rw [valueBE_cons, Nat.add_eq_zero_iff, Nat.mul_eq_zero, ih, List.forall_mem_cons,
      or_iff_left hpow]

/-! ## Minimal numerals -/

/-- The minimal base-`b` numeral of `n`, most significant digit first; zero is
one digit long. -/
def numeral (b n : Nat) : List Nat := if n = 0 then [0] else (Nat.digits b n).reverse

theorem numeral_ne_nil (b n : Nat) : numeral b n ≠ [] := by
  unfold numeral
  split
  · simp
  next hn => simpa [Nat.digits_eq_nil_iff_eq_zero] using hn

@[simp] theorem valueBE_numeral (b n : Nat) : valueBE b (numeral b n) = n := by
  unfold numeral
  split
  next hn => simp [hn, valueBE_cons]
  next => rw [valueBE_eq_ofDigits, List.reverse_reverse, Nat.ofDigits_digits]

theorem numeral_injective (b : Nat) : Function.Injective (numeral b) := by
  intro n m h
  rw [← valueBE_numeral b n, h, valueBE_numeral]

theorem numeral_lt {b n : Nat} (hb : 1 < b) : ∀ d ∈ numeral b n, d < b := by
  intro d hd
  unfold numeral at hd
  split at hd
  · rw [List.mem_singleton.mp hd]; omega
  · exact Nat.digits_lt_base hb (List.mem_reverse.mp hd)

/-- The last pass of repeated division: a value below the base is one digit. -/
theorem numeral_of_div_eq_zero {b n : Nat} (hb : 1 < b) (h : n / b = 0) :
    numeral b n = [n % b] := by
  have hlt : n < b := (Nat.div_eq_zero_iff_lt (by omega)).mp h
  unfold numeral
  split
  next hn => rw [hn, Nat.zero_mod]
  next hn => rw [Nat.digits_of_lt b n hn hlt, Nat.mod_eq_of_lt hlt]; rfl

/-- Any other pass: the remainder is the last digit, the quotient the rest. -/
theorem numeral_of_div_ne_zero {b n : Nat} (hb : 1 < b) (h : n / b ≠ 0) :
    numeral b n = numeral b (n / b) ++ [n % b] := by
  have hn : n ≠ 0 := by
    rintro rfl
    exact h (Nat.zero_div b)
  unfold numeral
  rw [if_neg hn, if_neg h, Nat.digits_def' hb (Nat.pos_of_ne_zero hn), List.reverse_cons]

/-- A numeral fits in `k` digits exactly when its value is below `b ^ k`. -/
theorem numeral_length_le_iff {b n k : Nat} (hb : 1 < b) (hk : 0 < k) :
    (numeral b n).length ≤ k ↔ n < b ^ k := by
  unfold numeral
  split
  next hn =>
    rw [hn]
    exact ⟨fun _ => Nat.pow_pos (by omega), fun _ => hk⟩
  next => rw [List.length_reverse, Nat.digits_length_le_iff hb]

theorem numeral_length_pos (b n : Nat) : 0 < (numeral b n).length :=
  List.length_pos_of_ne_nil (numeral_ne_nil b n)

/-! ## Fixed-width little-endian words -/

/-- The `k` low base-`b` digits of `n`, least significant first. -/
def wordLE (b : Nat) : Nat → Nat → List Nat
  | 0, _ => []
  | k + 1, n => n % b :: wordLE b k (n / b)

@[simp] theorem length_wordLE (b k n : Nat) : (wordLE b k n).length = k := by
  induction k generalizing n with
  | zero => rfl
  | succ k ih => rw [wordLE, List.length_cons, ih]

theorem wordLE_lt {b : Nat} (hb : 0 < b) (k n : Nat) : ∀ d ∈ wordLE b k n, d < b := by
  induction k generalizing n with
  | zero => intro d hd; exact absurd hd (by simp [wordLE])
  | succ k ih =>
    intro d hd
    rcases List.mem_cons.mp hd with rfl | hd
    · exact Nat.mod_lt _ hb
    · exact ih _ d hd

/-- Reading a word back gives the number modulo `b ^ k`. -/
theorem ofDigits_wordLE (b k n : Nat) : Nat.ofDigits b (wordLE b k n) = n % b ^ k := by
  induction k generalizing n with
  | zero => simp [wordLE, Nat.mod_one]
  | succ k ih => rw [wordLE, Nat.ofDigits_cons, ih, pow_succ', Nat.mod_mul]

/-- Below `b ^ k` the word determines the number. -/
theorem wordLE_inj {b k n m : Nat} (hn : n < b ^ k) (hm : m < b ^ k)
    (h : wordLE b k n = wordLE b k m) : n = m := by
  have hv := congrArg (Nat.ofDigits b) h
  rwa [ofDigits_wordLE, ofDigits_wordLE, Nat.mod_eq_of_lt hn, Nat.mod_eq_of_lt hm] at hv

/-! ## Digits as symbols -/

/-- Writing digits as symbols loses nothing if no two digits share a symbol. -/
theorem map_digit_inj {α : Type} {b : Nat} {f : Nat → α}
    (hf : ∀ d e, d < b → e < b → f d = f e → d = e) : ∀ {xs ys : List Nat},
    (∀ d ∈ xs, d < b) → (∀ d ∈ ys, d < b) → xs.map f = ys.map f → xs = ys
  | [], [], _, _, _ => rfl
  | [], _ :: _, _, _, h => by simp at h
  | _ :: _, [], _, _, h => by simp at h
  | x :: xs, y :: ys, hx, hy, h => by
    rw [List.map_cons, List.map_cons, List.cons.injEq] at h
    have hhead : x = y := hf x y (hx x (List.mem_cons_self ..)) (hy y (List.mem_cons_self ..)) h.1
    have htail : xs = ys :=
      map_digit_inj hf (fun d hd => hx d (List.mem_cons_of_mem _ hd))
        (fun d hd => hy d (List.mem_cons_of_mem _ hd)) h.2
    rw [hhead, htail]

/-! ## Left padding -/

/-- Two lists padded on the left with `p` to one width agree exactly when the
longer one is the shorter one with pads in front. -/
theorem padLeft_eq_iff {α : Type} (p : α) {w : Nat} {xs ys : List α}
    (hx : xs.length ≤ w) (hy : ys.length ≤ w) :
    List.replicate (w - xs.length) p ++ xs = List.replicate (w - ys.length) p ++ ys ↔
      xs = List.replicate (xs.length - ys.length) p ++ ys ∨
      ys = List.replicate (ys.length - xs.length) p ++ xs := by
  constructor
  · intro h
    rcases Nat.le_total ys.length xs.length with hle | hle
    · left
      have hsplit : w - ys.length = (w - xs.length) + (xs.length - ys.length) := by omega
      rw [hsplit, List.replicate_add, List.append_assoc] at h
      exact List.append_cancel_left h
    · right
      have hsplit : w - xs.length = (w - ys.length) + (ys.length - xs.length) := by omega
      rw [hsplit, List.replicate_add, List.append_assoc] at h
      exact (List.append_cancel_left h).symm
  · have grow : ∀ {us vs : List α}, us.length ≤ w →
        us = List.replicate (us.length - vs.length) p ++ vs →
        List.replicate (w - us.length) p ++ us = List.replicate (w - vs.length) p ++ vs := by
      intro us vs hu he
      have hlen := congrArg List.length he
      rw [List.length_append, List.length_replicate] at hlen
      have hsplit : w - vs.length = (w - us.length) + (us.length - vs.length) := by omega
      rw [hsplit, List.replicate_add, List.append_assoc, ← he]
    rintro (h | h)
    · exact grow hx h
    · exact (grow hy h).symm

end Lib
