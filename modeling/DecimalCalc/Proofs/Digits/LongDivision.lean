/-
# Long division finds the quotient

Between two steps the remainder is a run without a zero in front that is smaller than the divisor
(`IsRemainder`).  A step keeps that, and with the digit it brings down the remainder is the quotient
digit times the divisor plus the next remainder (`divisionStep_spec`).  By induction over the digits
brought down, the quotient digits times the divisor plus the remainder are what was brought down
(`Divided`); so the quotient is the integer quotient of that.

The two phases of a division are two inductions on the same invariant.  In front of the point,
digits are brought down until there are none; behind it, the pending digits come first and zeros
after them, until nothing is left or the cap is reached.  What the second phase brings down is
therefore not known beforehand: it is some number of digits, no more than the cap, and if it is less
than the cap the division has come out.  The main result says what the quotient digits are, read as
one number, in terms of that number of digits.

* `takeOut_spec`, `divisionStep_spec`: one step;
* `divideWhole_divided`, `divideFraction_divided`: a whole division, in its two phases;
* `quotient_divideFraction`: the quotient digits read as one number, cut off at the cap or exact.
-/
import DecimalCalc.Digits.LongDivision
import DecimalCalc.Proofs.Digits.Arithmetic
import Mathlib.Data.List.TakeDrop

namespace DecimalCalc
namespace Digits

/-! ## 1. One step

A step counts how often the divisor goes into the remainder with a digit behind it.  The remainder
is smaller than the divisor, so with that digit it is smaller than ten times the divisor, and the
count is a digit. -/

/-- A run that can divide: digits without a zero in front, and not none.  Divisors come in this
form, since they are integer parts of canonical numbers that are not zero. -/
structure IsDivisor (divisor : Digits) : Prop where
  valid : divisor.Valid
  trimmed : divisor.head? ≠ some 0
  pos : 0 < divisor.toNat

/-- What long division keeps between two steps: a run without a zero in front, smaller than the
divisor.  The remainder zero is the empty run. -/
structure IsRemainder (divisor remainder : Digits) : Prop where
  valid : remainder.Valid
  trimmed : remainder.head? ≠ some 0
  lt : remainder.toNat < divisor.toNat

/-- A run without a zero in front that is no larger is no longer either, so that it can be
subtracted digit by digit. -/
theorem length_le_of_toNat_le {x y : Digits} (hx : x.Valid) (hy : y.head? ≠ some 0)
    (h : y.toNat ≤ x.toNat) : y.length ≤ x.length := by
  by_contra hlt
  exact absurd h (Nat.not_le.2 (toNat_lt_of_length_lt hx hy (Nat.lt_of_not_le hlt)))

/-- **Taking out.**  With a bound that the divisor cannot reach, the divisor is taken out until
less than itself is left.  The induction is on the bound, and each round takes the divisor away
once. -/
theorem takeOut_spec {divisor : Digits} (hdivisor : IsDivisor divisor) (bound : Nat)
    {remainder : Digits} (hvalid : remainder.Valid) (htrim : remainder.head? ≠ some 0)
    (hbound : remainder.toNat < bound * divisor.toNat) :
    (takeOut divisor bound remainder).1 * divisor.toNat +
        (takeOut divisor bound remainder).2.toNat = remainder.toNat ∧
      IsRemainder divisor (takeOut divisor bound remainder).2 := by
  induction bound generalizing remainder with
  | zero => simp at hbound
  | succ bound ih =>
    rw [takeOut, compare_eq hvalid hdivisor.valid]
    split
    · next hlt =>
      refine ⟨by simp, hvalid, htrim, ?_⟩
      exact Nat.compare_eq_lt.1 hlt
    · next hge =>
      have hle : divisor.toNat ≤ remainder.toNat := Nat.compare_ne_lt.1 hge
      have hsub := toNat_subtract hvalid hdivisor.valid
        (length_le_of_toNat_le hvalid hdivisor.trimmed hle) hle
      have hnext : (trimLeading (subtract remainder divisor)).toNat < bound * divisor.toNat := by
        rw [toNat_trimLeading]
        rw [Nat.succ_mul] at hbound
        omega
      obtain ⟨heq, hrem⟩ := ih (subtract_valid hvalid hdivisor.valid).trimLeading
        (head?_trimLeading _) hnext
      refine ⟨?_, hrem⟩
      rw [toNat_trimLeading] at heq
      simp only [Nat.add_mul, Nat.one_mul]
      omega

/-- **One step of long division.**  The quotient digit is a digit, and it accounts for what the
remainder and the digit brought down amount to. -/
theorem divisionStep_spec {divisor remainder : Digits} {d : Nat} (hdivisor : IsDivisor divisor)
    (hremainder : IsRemainder divisor remainder) (hd : d < 10) :
    (divisionStep divisor remainder d).1 < 10 ∧
      (divisionStep divisor remainder d).1 * divisor.toNat +
          (divisionStep divisor remainder d).2.toNat = 10 * remainder.toNat + d ∧
      IsRemainder divisor (divisionStep divisor remainder d).2 := by
  have hvalid : Valid (remainder ++ [d]) :=
    hremainder.valid.append fun e he => by rwa [List.mem_singleton.1 he]
  have hvalue : (trimLeading (remainder ++ [d])).toNat = 10 * remainder.toNat + d := by
    rw [toNat_trimLeading, toNat_concat]
  have hlt := hremainder.lt
  have hbound : (trimLeading (remainder ++ [d])).toNat < 10 * divisor.toNat := by omega
  obtain ⟨heq, hrem⟩ := takeOut_spec hdivisor 10 hvalid.trimLeading (head?_trimLeading _) hbound
  rw [hvalue] at heq
  refine ⟨?_, heq, hrem⟩
  by_contra hge
  have hmul : 10 * divisor.toNat ≤ (takeOut divisor 10 (trimLeading (remainder ++ [d]))).1 *
      divisor.toNat := Nat.mul_le_mul_right _ (Nat.le_of_not_lt hge)
  omega

namespace LongDivision

/-! ## 2. A whole division

`Divided` relates the state of a division to the digits that were brought down so far.  It holds at
the start, with no digits, and every digit brought down keeps it. -/

/-- The state after bringing down the digits `ds`: the quotient digits so far times the divisor
plus the remainder are the number brought down.  There is one quotient digit for each of them, the
last one first. -/
structure Divided (divisor ds : Digits) (s : LongDivision) : Prop where
  remainder : IsRemainder divisor s.remainder
  quotient_valid : Valid s.quotient
  length_quotient : s.quotient.length = ds.length
  toNat_eq : toNat s.quotient.reverse * divisor.toNat + s.remainder.toNat = ds.toNat

/-- At the start nothing was brought down, and nothing is there. -/
theorem start_divided {divisor : Digits} (hdivisor : IsDivisor divisor) :
    Divided divisor [] start where
  remainder := ⟨by simp [start, Valid], by simp [start], by simpa [start] using hdivisor.pos⟩
  quotient_valid := by simp [start, Valid]
  length_quotient := rfl
  toNat_eq := by simp [start]

/-- A digit brought down makes the number ten times as large and adds itself, and a step accounts
for exactly that. -/
theorem bringDown_divided {divisor ds : Digits} {s : LongDivision} {d : Nat}
    (hdivisor : IsDivisor divisor) (h : Divided divisor ds s) (hd : d < 10) :
    Divided divisor (ds ++ [d]) (s.bringDown divisor d) := by
  obtain ⟨hdigit, heq, hrem⟩ := divisionStep_spec hdivisor h.remainder hd
  refine ⟨hrem, ?_, ?_, ?_⟩
  · intro e he
    rcases List.mem_cons.1 he with rfl | he
    · exact hdigit
    · exact h.quotient_valid e he
  · rw [length_bringDown, h.length_quotient, List.length_append, List.length_singleton]
  · have hprev := h.toNat_eq
    simp only [bringDown, List.reverse_cons, toNat_concat]
    calc (10 * toNat s.quotient.reverse + (divisionStep divisor s.remainder d).1) *
            divisor.toNat + (divisionStep divisor s.remainder d).2.toNat
        = 10 * (toNat s.quotient.reverse * divisor.toNat) +
            ((divisionStep divisor s.remainder d).1 * divisor.toNat +
              (divisionStep divisor s.remainder d).2.toNat) := by ring
      _ = 10 * (toNat s.quotient.reverse * divisor.toNat) + (10 * s.remainder.toNat + d) := by
          rw [heq]
      _ = 10 * ds.toNat + d := by omega

/-- The digits in front of the point, all of which are brought down whatever the cap is. -/
theorem divideWhole_divided {divisor ds : Digits} (hdivisor : IsDivisor divisor)
    (hds : ds.Valid) : Divided divisor ds (divideWhole divisor ds) := by
  have h : ∀ (ds before : Digits) (s : LongDivision), Valid ds → Divided divisor before s →
      Divided divisor (before ++ ds) (ds.foldl (bringDown divisor) s) := by
    intro ds
    induction ds with
    | nil => exact fun before s _ hs => by simpa using hs
    | cons d ds ih =>
      intro before s hds hs
      have := ih (before ++ [d]) _ hds.tail (bringDown_divided hdivisor hs (hds d (by simp)))
      simpa using this
  exact h ds [] start hds (start_divided hdivisor)

/-- The digits behind the point: `k` of them are brought down, the pending ones and then zeros.  If
`k` stays under the cap, nothing is pending any more and nothing remains. -/
theorem divideFraction_divided {divisor before pending : Digits} {s : LongDivision} (cap : Nat)
    (hdivisor : IsDivisor divisor) (hpending : pending.Valid) (h : Divided divisor before s) :
    ∃ k ≤ cap, Divided divisor (before ++ pending.takeD k 0) (divideFraction divisor cap pending s) ∧
      (k < cap → pending.length ≤ k ∧ (divideFraction divisor cap pending s).remainder = []) := by
  induction cap generalizing before pending s with
  | zero => exact ⟨0, le_rfl, by simpa using h, by simp⟩
  | succ cap ih =>
    cases pending with
    | nil =>
      rw [divideFraction]
      split
      · next hempty =>
        exact ⟨0, by omega, by simpa using h, fun _ => ⟨by simp, List.isEmpty_iff.1 hempty⟩⟩
      · obtain ⟨k, hk, hdiv, hstop⟩ :=
          ih hpending (bringDown_divided hdivisor h (by decide : 0 < 10))
        refine ⟨k + 1, by omega, ?_, fun hlt => ⟨by simp, (hstop (by omega)).2⟩⟩
        simpa [List.append_assoc, List.replicate_succ] using hdiv
    | cons d pending =>
      rw [divideFraction]
      obtain ⟨k, hk, hdiv, hstop⟩ :=
        ih hpending.tail (bringDown_divided hdivisor h (hpending d (by simp)))
      refine ⟨k + 1, by omega, by simpa [List.append_assoc] using hdiv, fun hlt => ?_⟩
      obtain ⟨hlen, hrem⟩ := hstop (by omega)
      exact ⟨by simpa using hlen, hrem⟩

/-! ## 3. The quotient as a number

The digits brought down are the first ones of the dividend, followed by zeros, so as a number they
are the dividend moved by some places and cut off.  Dividing that by the divisor gives the quotient
at the scale reached. -/

/-- The first `k` digits behind the point, zeros once they run out, cut the number off there. -/
theorem toNat_append_takeD {whole fraction : Digits} (hfraction : fraction.Valid) (k : Nat) :
    toNat (whole ++ fraction.takeD k 0) =
      toNat (whole ++ fraction) * 10 ^ k / 10 ^ fraction.length := by
  induction fraction generalizing whole k with
  | nil => simp [toNat_append_zeros]
  | cons d fraction ih =>
    cases k with
    | zero =>
      rw [List.takeD_zero, List.append_nil, pow_zero, Nat.mul_one, toNat_append,
        Nat.add_comm, Nat.add_mul_div_right _ _ (Nat.pow_pos (by decide)),
        Nat.div_eq_of_lt (toNat_lt hfraction), Nat.zero_add]
    | succ k =>
      have := @ih (whole ++ [d]) hfraction.tail k
      rw [List.append_assoc, List.append_assoc] at this
      rw [List.takeD_succ]
      simp only [List.head?_cons, Option.getD_some, List.tail_cons, List.length_cons]
      rw [show d :: List.takeD k fraction 0 = [d] ++ List.takeD k fraction 0 from rfl, this,
        pow_succ, pow_succ, ← Nat.mul_assoc, Nat.mul_div_mul_right _ _ (by decide : 0 < 10)]
      rfl

/-- **The quotient.**  Of `k` fraction digits, it is the integer quotient at that scale.  Below the
cap it is exact. -/
theorem quotient_divideFraction {divisor whole fraction : Digits} (cap : Nat)
    (hdivisor : IsDivisor divisor) (hwhole : whole.Valid) (hfraction : fraction.Valid) :
    ∃ k ≤ cap,
      (divideFraction divisor cap fraction (divideWhole divisor whole)).quotient.length =
        whole.length + k ∧
      Valid (divideFraction divisor cap fraction (divideWhole divisor whole)).quotient ∧
      toNat (divideFraction divisor cap fraction (divideWhole divisor whole)).quotient.reverse =
        toNat (whole ++ fraction) * 10 ^ k / (10 ^ fraction.length * divisor.toNat) ∧
      (k < cap → 10 ^ fraction.length * divisor.toNat ∣ toNat (whole ++ fraction) * 10 ^ k) := by
  obtain ⟨k, hk, hdiv, hstop⟩ :=
    divideFraction_divided cap hdivisor hfraction (divideWhole_divided hdivisor hwhole)
  have hvalue := hdiv.toNat_eq
  have hlt := hdiv.remainder.lt
  rw [toNat_append_takeD hfraction] at hvalue
  refine ⟨k, hk, ?_, hdiv.quotient_valid, ?_, ?_⟩
  · rw [hdiv.length_quotient, List.length_append, List.takeD_length]
  · rw [← Nat.div_div_eq_div_mul, ← hvalue, Nat.mul_comm, Nat.mul_add_div hdivisor.pos,
      Nat.div_eq_of_lt hlt, Nat.add_zero]
  · intro hkc
    obtain ⟨hlen, hrem⟩ := hstop hkc
    have hpow : 10 ^ fraction.length ∣ toNat (whole ++ fraction) * 10 ^ k :=
      Dvd.dvd.mul_left (pow_dvd_pow 10 hlen) _
    rw [hrem, toNat_nil, Nat.add_zero] at hvalue
    refine ⟨toNat (divideFraction divisor cap fraction (divideWhole divisor whole)).quotient.reverse,
      ?_⟩
    rw [Nat.mul_assoc, Nat.mul_comm divisor.toNat, hvalue, Nat.mul_div_cancel' hpow]

end LongDivision
end Digits
end DecimalCalc
