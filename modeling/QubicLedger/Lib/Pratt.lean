import Mathlib.NumberTheory.LucasPrimality

/-!
# Certified primes

Lucas's criterion as data that the kernel can check: a base whose order modulo
`p` is `p - 1`, with the prime factors of `p - 1`. The powers are taken by
squaring, so a prime of a few hundred bits costs a few hundred products.
-/

namespace Lib

/-- `aⁿ` modulo `p`, by squaring, for `n` of at most `bits` bits. -/
def powMod (p : Nat) : Nat → Nat → Nat → Nat
  | 0, _, _ => 1 % p
  | bits + 1, a, n =>
    let root := powMod p bits (a * a % p) (n / 2)
    if n % 2 = 1 then a * root % p else root

theorem powMod_eq {p bits n : Nat} (hn : n < 2 ^ bits) (a : Nat) :
    powMod p bits a n = a ^ n % p := by
  induction bits generalizing a n with
  | zero =>
    obtain rfl : n = 0 := Nat.lt_one_iff.mp hn
    rfl
  | succ bits ih =>
    have hroot := ih (n := n / 2) (by rw [pow_succ] at hn; omega) (a * a % p)
    rw [← Nat.pow_mod, ← pow_two a, ← pow_mul, pow_two] at hroot
    have hsplit := Nat.div_add_mod n 2
    unfold powMod
    rw [hroot]
    rcases Nat.mod_two_eq_zero_or_one n with h | h
    · rw [h, Nat.add_zero] at hsplit
      rw [if_neg (by omega), hsplit]
    · rw [h] at hsplit
      rw [if_pos h, Nat.mul_mod_mod, ← pow_succ', hsplit]

/-- A number with what proves it prime: a base, and the factors of its predecessor. -/
structure Entry where
  number : Nat
  base : Nat
  factors : List Nat

/-- The conditions on an entry that can be computed, for numbers of at most `bits` bits. -/
def Entry.Passes (bits : Nat) (e : Entry) : Prop :=
  e.number - 1 < 2 ^ bits ∧ e.factors.prod = e.number - 1 ∧
  powMod e.number bits e.base (e.number - 1) = 1 % e.number ∧
  ∀ q ∈ e.factors, powMod e.number bits e.base ((e.number - 1) / q) ≠ 1 % e.number

instance (bits : Nat) (e : Entry) : Decidable (e.Passes bits) :=
  inferInstanceAs (Decidable (_ ∧ _ ∧ _ ∧ _))

/-- Every entry passes, with factors that are known or come before it. -/
def Certifies (bits : Nat) : List Nat → List Entry → Prop
  | _, [] => True
  | known, e :: es =>
    e.Passes bits ∧ (∀ q ∈ e.factors, q ∈ known) ∧ Certifies bits (e.number :: known) es

instance Certifies.decidable (bits : Nat) : (known : List Nat) → (es : List Entry) →
    Decidable (Certifies bits known es)
  | _, [] => isTrue trivial
  | known, e :: es =>
    have := Certifies.decidable bits (e.number :: known) es
    inferInstanceAs (Decidable (_ ∧ _ ∧ _))

/-- Lucas's criterion. -/
theorem Entry.Passes.prime {bits : Nat} {e : Entry} (h : e.Passes bits)
    (hprime : ∀ q ∈ e.factors, q.Prime) : e.number.Prime := by
  obtain ⟨hfits, hprod, hone, hne⟩ := h
  have hpow {n : Nat} (hn : n ≤ e.number - 1) :
      (e.base : ZMod e.number) ^ n = 1 ↔ powMod e.number bits e.base n = 1 % e.number := by
    rw [powMod_eq (hn.trans_lt hfits), ← Nat.cast_pow, ← Nat.cast_one (R := ZMod e.number),
      ZMod.natCast_eq_natCast_iff]
    rfl
  refine lucas_primality e.number (e.base : ZMod e.number) ((hpow (le_refl _)).mpr hone) ?_
  intro q hq hdvd heq
  rw [← hprod, hq.prime.dvd_prod_iff] at hdvd
  obtain ⟨r, hr, hqr⟩ := hdvd
  rw [(Nat.prime_dvd_prime_iff_eq hq (hprime r hr)).mp hqr] at heq
  exact hne r hr ((hpow (Nat.div_le_self _ _)).mp heq)

/-- Certified numbers are primes. -/
theorem Certifies.prime {bits : Nat} {known : List Nat} {es : List Entry}
    (h : Certifies bits known es) (hknown : ∀ q ∈ known, q.Prime) :
    ∀ e ∈ es, e.number.Prime := by
  induction es generalizing known with
  | nil => exact fun _ he => absurd he List.not_mem_nil
  | cons e es ih =>
    obtain ⟨hpasses, hfactors, hrest⟩ := h
    have he : e.number.Prime := hpasses.prime fun q hq => hknown q (hfactors q hq)
    exact List.forall_mem_cons.mpr ⟨he, ih hrest (List.forall_mem_cons.mpr ⟨he, hknown⟩)⟩

end Lib
