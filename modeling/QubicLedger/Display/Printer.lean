import QubicLedger.Lib.FixedBuf
import QubicLedger.Lib.Positional

/-!
# Decimal printing (`print_u64` in `ui/printer.c`)

The digits are stored least significant first by a `do … while` (`printDigits`),
then a NUL, and a two-index swap loop turns them round (`printReverse`). Both
loops take as much fuel as the array has cells: each digit pass raises `i`,
which stops it at `outlen`, and each swap brings the two indices closer.

`printU64_exact_iff`: otherwise it returns an error, except on a one-byte array.
There the guard before the loop skips the digits, `i` is still zero, and the
test behind the loop lets it pass: an empty string, and 0.
-/

namespace QubicLedger

open Lib (FixedBuf OutMem InBounds numeral)

/-- `INT_MAX`. -/
def intMax : Nat := 2 ^ 31 - 1

/-- `(d) + '0'`. -/
def decimalDigit (d : Nat) : UInt8 := UInt8.ofNat (48 + d)

/-- The `do … while`: the memory and `i` afterwards. -/
def printDigits {n : Nat} : Nat → OutMem n → UInt64 → Nat → OutMem n × Nat
  | 0, out, _, i => (out, i)
  | fuel + 1, out, dVal, i =>
    let digit := if dVal > 0 then decimalDigit (dVal % 10).toNat else 48
    let rest := if dVal > 0 then dVal / 10 else dVal
    if rest > 0 ∧ i + 1 < n then printDigits fuel (out.write i [digit]) rest (i + 1)
    else (out.write i [digit], i + 1)

/-- `for (; j < i; j++, i--)`: swap `out[j]` and `out[i]`. -/
def printReverse {n : Nat} : Nat → OutMem n → Nat → Nat → OutMem n
  | 0, out, _, _ => out
  | fuel + 1, out, j, i =>
    if j < i then
      let tmp := out.buf.cells.getD j 0
      let last := out.buf.cells.getD i 0
      printReverse fuel ((((out.read j 1).read i 1).write j [last]).write i [tmp]) (j + 1) (i - 1)
    else out

/-- `print_u64(u64, out, out_length)` into an array of `out_length` bytes. -/
def printU64 {n : Nat} (u64 : UInt64) (out : OutMem n) : Nat × OutMem n :=
  if n > intMax then (1, out)
  else
    let r := if 0 + 1 < n then printDigits n out u64 0 else (out, 0)
    if r.2 ≥ n then (1, r.1)
    else (0, printReverse n (r.1.write r.2 [0]) 0 (r.2 - 1))

/-! ## The digit loop -/

/-- The canonical decimal numeral, as ASCII. -/
def decimal (v : Nat) : List UInt8 := (numeral 10 v).map decimalDigit

@[simp] theorem length_decimal (v : Nat) : (decimal v).length = (numeral 10 v).length :=
  List.length_map ..

theorem decimalDigit_ne_zero {d : Nat} (h : d < 10) : decimalDigit d ≠ 0 := by
  revert h
  revert d
  decide

theorem decimalDigit_inj {d e : Nat} (hd : d < 10) (he : e < 10)
    (h : decimalDigit d = decimalDigit e) : d = e := by
  have hn := congrArg UInt8.toNat h
  unfold decimalDigit at hn
  rw [UInt8.toNat_ofNat', UInt8.toNat_ofNat', Nat.mod_eq_of_lt (by omega),
    Nat.mod_eq_of_lt (by omega)] at hn
  omega

theorem decimal_ne_zero (v : Nat) : ∀ c ∈ decimal v, c ≠ 0 := by
  intro c hc
  obtain ⟨d, hd, rfl⟩ := List.mem_map.mp hc
  exact decimalDigit_ne_zero (Lib.numeral_lt (by omega) d hd)

/-- Different numbers print differently. -/
theorem decimal_injective : Function.Injective decimal := by
  intro v w h
  refine Lib.numeral_injective 10 ?_
  have hlt : ∀ u, ∀ d ∈ numeral 10 u, d < 10 := fun u => Lib.numeral_lt (by omega)
  exact Lib.map_digit_inj (fun _ _ => decimalDigit_inj) (hlt v) (hlt w) h

/-- One pass stores the last digit of a non-zero value. -/
theorem decimal_of_div_eq_zero {v : Nat} (h : v / 10 = 0) :
    decimal v = [decimalDigit (v % 10)] := by
  unfold decimal
  rw [Lib.numeral_of_div_eq_zero (by omega) h, List.map_singleton]

theorem decimal_of_div_ne_zero {v : Nat} (h : v / 10 ≠ 0) :
    decimal v = decimal (v / 10) ++ [decimalDigit (v % 10)] := by
  unfold decimal
  rw [Lib.numeral_of_div_ne_zero (by omega) h, List.map_append, List.map_singleton]

/-- One pass: store the last digit, go on with the quotient if there is one and
there is room. -/
theorem printDigits_succ {n : Nat} (fuel : Nat) (out : OutMem n) (v : UInt64) (i : Nat) :
    printDigits (fuel + 1) out v i
      = if v.toNat / 10 ≠ 0 ∧ i + 1 < n then
          printDigits fuel (out.write i [decimalDigit (v.toNat % 10)]) (v / 10) (i + 1)
        else (out.write i [decimalDigit (v.toNat % 10)], i + 1) := by
  have hdigit : (if v > 0 then decimalDigit (v % 10).toNat else 48)
      = decimalDigit (v.toNat % 10) := by
    split
    · rw [UInt64.toNat_mod]
      rfl
    next hv =>
      have h0 : v = 0 := UInt64.le_zero_iff.mp (UInt64.not_lt.mp hv)
      rw [h0]
      rfl
  have hrest : (if v > 0 then v / 10 else v) = v / 10 := by
    split
    · rfl
    next hv =>
      have h0 : v = 0 := UInt64.le_zero_iff.mp (UInt64.not_lt.mp hv)
      rw [h0]
      rfl
  have hmore : v / 10 > 0 ↔ v.toNat / 10 ≠ 0 := by
    rw [gt_iff_lt, UInt64.lt_iff_toNat_lt, UInt64.toNat_div]
    exact Nat.pos_iff_ne_zero
  conv_lhs => unfold printDigits
  dsimp only
  simp only [hdigit, hrest, hmore]

/-- Loop invariant: from a value whose numeral fits below the end of the
array, the digits end up at `i`, last digit first, and `i` past them. -/
theorem printDigits_spec {n : Nat} : ∀ (fuel : Nat) (out : OutMem n) (v : UInt64) (i : Nat),
    (decimal v.toNat).length ≤ fuel → i + (decimal v.toNat).length < n →
    (printDigits fuel out v i).1.buf = out.buf.write i (decimal v.toNat).reverse ∧
    (printDigits fuel out v i).2 = i + (decimal v.toNat).length := by
  intro fuel
  induction fuel with
  | zero =>
    intro out v i hfuel
    have hpos := Lib.numeral_length_pos 10 v.toNat
    rw [length_decimal] at hfuel
    omega
  | succ fuel ih =>
    intro out v i hfuel hfit
    rw [printDigits_succ]
    by_cases hdiv : v.toNat / 10 = 0
    · -- last pass
      rw [if_neg (fun h => h.1 hdiv), decimal_of_div_eq_zero hdiv]
      exact ⟨rfl, rfl⟩
    · -- the quotient's digits follow this one
      have hdec := decimal_of_div_ne_zero hdiv
      have hlen : (decimal v.toNat).length = (decimal (v.toNat / 10)).length + 1 := by
        rw [hdec, List.length_append, List.length_singleton]
      have hrest : (v / 10).toNat = v.toNat / 10 := UInt64.toNat_div v 10
      have hpos := Lib.numeral_length_pos 10 (v.toNat / 10)
      rw [← length_decimal] at hpos
      rw [if_pos ⟨hdiv, by omega⟩]
      obtain ⟨hbuf, hi⟩ := ih (out.write i [decimalDigit (v.toNat % 10)]) (v / 10) (i + 1)
        (by rw [hrest]; omega) (by rw [hrest]; omega)
      rw [hrest] at hbuf hi
      constructor
      · rw [hbuf, hdec, List.reverse_append]
        show (out.buf.write i [_]).write (i + 1) _ = out.buf.write i (_ :: _)
        rw [FixedBuf.write_singleton (by omega),
          FixedBuf.write_set_succ (by rw [List.length_reverse]; omega)]
        rfl
      · rw [hi, hlen]
        omega

/-! ## The swap loop -/

private theorem getD_append_cons {xs : List UInt8} {i : Nat} (h : xs.length = i) (y : UInt8)
    (ys : List UInt8) : (xs ++ y :: ys).getD i 0 = y := by
  subst h
  simp

private theorem set_append_cons {xs : List UInt8} {i : Nat} (h : xs.length = i) {y z : UInt8}
    {ys : List UInt8} : (xs ++ y :: ys).set i z = xs ++ z :: ys := by
  subst h
  simp

/-- Loop invariant: the cells from `j` to `i` are turned round, the others stay. -/
theorem printReverse_spec {n : Nat} : ∀ (fuel : Nat) (mid : List UInt8) (out : OutMem n)
    (front back : List UInt8) (i : Nat), mid.length ≤ fuel → front.length + mid.length = i + 1 →
    out.buf.cells = front ++ mid ++ back →
    (printReverse fuel out front.length i).buf.cells = front ++ mid.reverse ++ back := by
  intro fuel
  induction fuel with
  | zero =>
    intro mid out front back i hfuel _ hcells
    rw [List.eq_nil_of_length_eq_zero (Nat.le_zero.mp hfuel)] at hcells ⊢
    exact hcells
  | succ fuel ih =>
    intro mid out front back i hfuel hi hcells
    have hn := out.buf.size_eq
    rw [hcells] at hn
    unfold printReverse
    -- the middle is empty, one cell, or two end cells around a shorter middle
    rcases mid with _ | ⟨x, mid⟩
    · rw [List.length_nil] at hi
      rw [if_neg (by omega)]
      exact hcells
    · rcases List.eq_nil_or_concat mid with rfl | ⟨mid, y, rfl⟩
      · rw [List.length_singleton] at hi
        rw [if_neg (by omega)]
        exact hcells
      · simp only [List.concat_eq_append, List.length_append, List.length_cons, List.length_nil]
          at hfuel hi hn hcells
        rw [if_pos (by omega)]
        have hend : (front ++ x :: mid).length = i := by
          rw [List.length_append, List.length_cons]
          omega
        have hcells' : out.buf.cells = (front ++ x :: mid) ++ y :: back := by
          rw [hcells]
          simp
        have hx : out.buf.cells.getD front.length 0 = x := by
          rw [hcells]
          simp
        have hy : out.buf.cells.getD i 0 = y := by
          rw [hcells']
          exact getD_append_cons hend y back
        have hswapped : ((((out.read front.length 1).read i 1).write front.length [y]).write i
            [x]).buf.cells = (front ++ [y]) ++ mid ++ (x :: back) := by
          show ((out.buf.write front.length [y]).write i [x]).cells = _
          rw [FixedBuf.write_singleton (by omega), FixedBuf.write_singleton (by omega),
            FixedBuf.cells_set, FixedBuf.cells_set, hcells', List.append_assoc, List.cons_append,
            set_append_cons rfl, ← List.cons_append, ← List.append_assoc,
            set_append_cons (by rw [← hend]; simp)]
          simp
        dsimp only
        rw [hx, hy]
        have hrec := ih mid _ (front ++ [y]) (x :: back) (i - 1) (by omega)
          (by rw [List.length_append, List.length_singleton]; omega) hswapped
        rw [List.length_append, List.length_singleton] at hrec
        rw [hrec]
        simp

/-! ## The whole function -/

/-- A numeral that fits with its terminator is printed exactly. -/
theorem printU64_spec {n : Nat} (v : UInt64) (out : OutMem n) (hn : n ≤ intMax)
    (hfit : (decimal v.toNat).length < n) :
    (printU64 v out).1 = 0 ∧
    (printU64 v out).2.buf = out.buf.write 0 (decimal v.toNat ++ [0]) := by
  have hpos := Lib.numeral_length_pos 10 v.toNat
  rw [← length_decimal] at hpos
  obtain ⟨hbuf, hi⟩ := printDigits_spec n out v 0 (by omega) (by omega)
  unfold printU64
  rw [if_neg (by omega)]
  dsimp only
  rw [if_pos (show 0 + 1 < n by omega)]
  rw [hi, Nat.zero_add, if_neg (by omega)]
  refine ⟨rfl, ?_⟩
  generalize hds : decimal v.toNat = ds at *
  have hlen : ds.reverse.length = ds.length := List.length_reverse
  -- the digits, last one first, and the terminator behind them
  have hstored : ((printDigits n out v 0).1.write ds.length [0]).buf.cells
      = [] ++ ds.reverse ++ ([0] ++ out.buf.cells.drop (ds.length + 1)) := by
    show ((printDigits n out v 0).1.buf.write ds.length [0]).cells = _
    rw [hbuf, FixedBuf.write_singleton (by omega), ← hlen, ← Nat.zero_add ds.reverse.length,
      FixedBuf.set_write (by omega), FixedBuf.cells_write (by simp; omega)]
    simp
  have hturned := printReverse_spec n ds.reverse _ [] _ (ds.length - 1) (by omega)
    (by rw [List.length_nil]; omega) hstored
  refine FixedBuf.ext ?_
  rw [List.length_nil] at hturned
  rw [hturned, FixedBuf.cells_write (by simp; omega)]
  simp

/-! ## Bounds and refusals -/

private theorem inBounds_write {n : Nat} {out : OutMem n} {i : Nat} (h : InBounds out)
    (hi : i < n) (x : UInt8) : InBounds (out.write i [x]) := by
  intro k hk
  rcases List.mem_append.mp hk with hk | hk
  · exact h k hk
  · rw [List.mem_range'_1, List.length_singleton] at hk
    omega

private theorem inBounds_read {n : Nat} {out : OutMem n} {i : Nat} (h : InBounds out)
    (hi : i < n) : InBounds (out.read i 1) := by
  intro k hk
  rcases List.mem_append.mp hk with hk | hk
  · exact h k hk
  · rw [List.mem_range'_1] at hk
    omega

/-- The digit loop stores below the end and stops there. -/
theorem printDigits_inBounds {n : Nat} : ∀ (fuel : Nat) (out : OutMem n) (v : UInt64) (i : Nat),
    i < n → InBounds out → InBounds (printDigits fuel out v i).1 := by
  intro fuel
  induction fuel with
  | zero => intro out v i _ h; exact h
  | succ fuel ih =>
    intro out v i hi h
    have hstored := inBounds_write h hi (decimalDigit (v.toNat % 10))
    rw [printDigits_succ]
    split
    next hmore => exact ih _ _ _ hmore.2 hstored
    next => exact hstored

/-- The swap loop stays between its two indices. -/
theorem printReverse_inBounds {n : Nat} : ∀ (fuel : Nat) (out : OutMem n) (j i : Nat),
    i < n → InBounds out → InBounds (printReverse fuel out j i) := by
  intro fuel
  induction fuel with
  | zero => intro out j i _ h; exact h
  | succ fuel ih =>
    intro out j i hi h
    unfold printReverse
    split
    next hji =>
      have hj : j < n := Nat.lt_trans hji hi
      have hread := inBounds_read (inBounds_read h hj) hi
      exact ih _ _ _ (by omega) (inBounds_write (inBounds_write hread hj _) hi _)
    next => exact h

/-- No store or load leaves the array, whatever the value and the size. -/
theorem printU64_inBounds {n : Nat} (v : UInt64) (buf : FixedBuf UInt8 n) :
    InBounds (printU64 v ⟨buf, []⟩).2 := by
  have hfresh : InBounds (⟨buf, []⟩ : OutMem n) := by
    intro k hk
    exact absurd hk List.not_mem_nil
  have hdigits : InBounds (if 0 + 1 < n then printDigits n ⟨buf, []⟩ v 0
      else (⟨buf, []⟩, 0)).1 := by
    split
    next h => exact printDigits_inBounds n _ v 0 (by omega) hfresh
    next => exact hfresh
  unfold printU64
  by_cases hmax : n > intMax
  · rw [if_pos hmax]
    exact hfresh
  · rw [if_neg hmax]
    dsimp only
    generalize (if 0 + 1 < n then printDigits n ⟨buf, []⟩ v 0 else (⟨buf, []⟩, 0)) = r at *
    by_cases hfull : r.2 ≥ n
    · rw [if_pos hfull]
      exact hdigits
    · rw [if_neg hfull]
      exact printReverse_inBounds _ _ _ _ (by omega) (inBounds_write hdigits (by omega) 0)

/-- A numeral that does not fit below the end fills the array. -/
theorem printDigits_full {n : Nat} : ∀ (fuel : Nat) (out : OutMem n) (v : UInt64) (i : Nat),
    n - i ≤ fuel → i < n → n ≤ i + (decimal v.toNat).length →
    (printDigits fuel out v i).2 = n := by
  intro fuel
  induction fuel with
  | zero => intro out v i hfuel hi; omega
  | succ fuel ih =>
    intro out v i hfuel hi hlong
    rw [printDigits_succ]
    split
    next hmore =>
      rw [decimal_of_div_ne_zero hmore.1, List.length_append, List.length_singleton] at hlong
      refine ih _ _ _ (by omega) hmore.2 ?_
      rw [UInt64.toNat_div]
      show n ≤ i + 1 + (decimal (v.toNat / 10)).length
      omega
    next hlast =>
      -- no digit is left, or this one went into the last cell
      show i + 1 = n
      by_cases hdiv : v.toNat / 10 = 0
      · rw [decimal_of_div_eq_zero hdiv, List.length_singleton] at hlong
        omega
      · have hend : ¬i + 1 < n := fun hroom => hlast ⟨hdiv, hroom⟩
        omega

/-- A numeral that does not fit with its terminator is refused, unless the
array is a single byte. -/
theorem printU64_refused {n : Nat} (v : UInt64) (out : OutMem n) (hn : n ≠ 1)
    (hlong : n ≤ (decimal v.toNat).length) : (printU64 v out).1 = 1 := by
  unfold printU64
  split
  · rfl
  · by_cases hroom : 0 + 1 < n
    · have hfull := printDigits_full n out v 0 (by omega) (by omega) (by omega)
      rw [if_pos hroom]
      dsimp only
      rw [hfull, if_pos (Nat.le_refl n)]
    · rw [if_neg hroom]
      dsimp only
      rw [if_pos (by omega)]

/-- A single byte takes the terminator alone, and 0 is returned. -/
theorem printU64_singleton (v : UInt64) (out : OutMem 1) : (printU64 v out).1 = 0 := rfl

/-- `print_u64` is exact on an array: nothing outside it is touched, 0 is
returned exactly when the numeral and a terminator fit, and then they are what
the array holds. -/
structure PrintsExactly {n : Nat} (v : UInt64) (buf : FixedBuf UInt8 n) : Prop where
  inBounds : InBounds (printU64 v ⟨buf, []⟩).2
  accepts : (printU64 v ⟨buf, []⟩).1 = 0 ↔ (decimal v.toNat).length + 1 ≤ n
  prints : (printU64 v ⟨buf, []⟩).1 = 0 →
    (printU64 v ⟨buf, []⟩).2.buf.cells.take ((decimal v.toNat).length + 1)
      = decimal v.toNat ++ [0]

/-- It is so for every value and every size but one. -/
theorem printU64_exact_iff {n : Nat} (hn : n ≤ intMax) (v : UInt64) (buf : FixedBuf UInt8 n) :
    PrintsExactly v buf ↔ n ≠ 1 := by
  have hpos := Lib.numeral_length_pos 10 v.toNat
  rw [← length_decimal] at hpos
  constructor
  · intro h hone
    subst hone
    have hfit := h.accepts.mp (printU64_singleton v _)
    omega
  · intro hone
    have haccepts : (printU64 v ⟨buf, []⟩).1 = 0 ↔ (decimal v.toNat).length + 1 ≤ n := by
      constructor
      · intro h0
        by_contra hlong
        rw [printU64_refused v _ hone (by omega)] at h0
        exact absurd h0 (by omega)
      · intro hfit
        exact (printU64_spec v _ hn hfit).1
    refine ⟨printU64_inBounds v buf, haccepts, ?_⟩
    intro h0
    have hfit := haccepts.mp h0
    have hroom : 0 + (decimal v.toNat ++ [0]).length ≤ n := by
      rw [List.length_append, List.length_singleton]
      omega
    have hread := FixedBuf.take_write_append (b := buf) hroom
    rw [(printU64_spec v _ hn hfit).2]
    rw [List.take_zero, List.nil_append, Nat.zero_add, List.length_append,
      List.length_singleton] at hread
    exact hread

/-- Thirty bytes, the size every caller passes. -/
theorem printU64_exact_thirty : PrintsExactly 0 (FixedBuf.fill 30 0) :=
  (printU64_exact_iff (by decide) 0 _).mpr (by decide)

/-- Into one byte the value 7 is printed as the empty string, successfully. -/
theorem not_prints_exactly :
    ¬∀ (n : Nat) (v : UInt64) (buf : FixedBuf UInt8 n), n ≤ intMax → PrintsExactly v buf := by
  intro h
  have hfit := (h 1 7 (.fill 1 0) (by decide)).accepts.mp (by decide)
  exact absurd hfit (by decide)

end QubicLedger
