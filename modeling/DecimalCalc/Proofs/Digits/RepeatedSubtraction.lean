/-
# One step of long division, subtraction by subtraction

A step brings a digit down behind the remainder and then takes the divisor away, counting, for as
long as it goes.  Nothing in that loop bounds it but its own test, so here it is run without the
bound that `takeOut` carries.  What each subtraction keeps is that the divisor, as often as it was
counted, and the remainder make up what was brought down (`Counted`).  Since the remainder was
smaller than the divisor before the digit came down, ten times the divisor is out of reach, and the
loop is over after nine subtractions at most.

The loop is a relation between the states before and after a number of subtractions.  It can be
defined without knowing that it ends, and that it ends is a statement about it: there is a run after
which the test fails.  Every run counts its subtractions, keeps the total, and never finds a test
passed that the subtraction behind it could not live up to.  `takeOut` is then compared with the
runs, and is found to stop where they do, so the bound that it carries is never what stops it.

* `Run.counted`, `Run.le_nine`: what a run of the loop keeps, and how long it can be;
* `exists_run_not_goes`: the loop stops;
* `takeOut_of_run`: where it stops, it has counted what `takeOut` counts;
* `division_step_terminates`: the whole step.
-/
import DecimalCalc.Proofs.Digits.Checked
import DecimalCalc.Proofs.Digits.LongDivision

namespace DecimalCalc
namespace Digits

/-! ## 1. The loop

The state of the loop, its test and its body, each as it stands in the step.  A run is a number of
rounds, so that how many there can be is a statement about a number. -/

/-- The loop between two subtractions: what remains, and how often the divisor was taken away.  The
divisor itself does not change. -/
structure TakingOut where
  remainder : Digits
  count : Nat
deriving DecidableEq, Repr

namespace TakingOut

/-- The digit stands behind the remainder, and nothing is taken away yet.  Zeros in front are
dropped at once, for a remainder of zero. -/
def start (remainder : Digits) (d : Nat) : TakingOut := ⟨trimLeading (remainder ++ [d]), 0⟩

/-- The divisor goes once more, as comparing the two runs finds out: by their lengths first and
then by their digits. -/
def Goes (divisor : Digits) (s : TakingOut) : Prop := Digits.compare s.remainder divisor ≠ .lt

instance (divisor : Digits) (s : TakingOut) : Decidable (s.Goes divisor) :=
  inferInstanceAs (Decidable (Digits.compare s.remainder divisor ≠ .lt))

/-- The divisor is taken away once more. -/
def subtractOnce (divisor : Digits) (s : TakingOut) : TakingOut :=
  ⟨trimLeading (subtract s.remainder divisor), s.count + 1⟩

/-- A run of the loop through `n` subtractions, each made behind the test.  It need not be a whole
one: the test may pass again behind it. -/
inductive Run (divisor : Digits) : Nat → TakingOut → TakingOut → Prop
  | refl (s : TakingOut) : Run divisor 0 s s
  | tail {n : Nat} {s t : TakingOut} :
      Run divisor n s t → t.Goes divisor → Run divisor (n + 1) s (t.subtractOnce divisor)

/-! ## 2. What a subtraction keeps

The loop invariant and its proof obligations: it holds at the start, the test means what it says
because of it, and a subtraction behind the test keeps it. -/

/-- Digits without a zero in front remain, and with the divisor, as often as it was counted, they
make up the total.  The total does not change from round to round. -/
structure Counted (divisor : Digits) (total : Nat) (s : TakingOut) : Prop where
  valid : s.remainder.Valid
  trimmed : s.remainder.head? ≠ some 0
  total_eq : s.count * divisor.toNat + s.remainder.toNat = total

/-- With the digit behind it the remainder counts ten times, and nothing has been taken away. -/
theorem start_counted {divisor remainder : Digits} {d : Nat} (hremainder : remainder.Valid) (hd : d < 10) :
    Counted divisor (10 * remainder.toNat + d) (start remainder d) where
  valid := by
    refine Valid.trimLeading (hremainder.append ?_)
    intro e he
    rwa [List.mem_singleton.1 he]
  trimmed := head?_trimLeading _
  total_eq := by
    rw [start, toNat_trimLeading, toNat_concat, Nat.zero_mul, Nat.zero_add]

variable {divisor : Digits} {total n : Nat} {s t : TakingOut}

/-- The test says that the divisor is no larger than what remains: it compares digits, and that is
comparing the numbers they denote. -/
theorem Counted.goes_iff (h : Counted divisor total s) (hdivisor : divisor.Valid) :
    s.Goes divisor ↔ divisor.toNat ≤ s.remainder.toNat := by
  rw [Goes, compare_eq h.valid hdivisor]
  exact Nat.compare_ne_lt

/-- Where the divisor goes, it has no more digits than what remains. -/
theorem Counted.length_le (h : Counted divisor total s) (hdivisor : IsDivisor divisor)
    (hgoes : s.Goes divisor) : divisor.length ≤ s.remainder.length :=
  length_le_of_toNat_le h.valid hdivisor.trimmed ((h.goes_iff hdivisor.valid).1 hgoes)

/-- **A subtraction keeps the total**: what remains less is counted more. -/
theorem Counted.subtractOnce (h : Counted divisor total s) (hdivisor : IsDivisor divisor)
    (hgoes : s.Goes divisor) : Counted divisor total (s.subtractOnce divisor) where
  valid := (subtract_valid h.valid hdivisor.valid).trimLeading
  trimmed := head?_trimLeading _
  total_eq := by
    have hsub := toNat_subtract h.valid hdivisor.valid (h.length_le hdivisor hgoes)
      ((h.goes_iff hdivisor.valid).1 hgoes)
    have htotal := h.total_eq
    simp only [TakingOut.subtractOnce, toNat_trimLeading, Nat.add_mul, Nat.one_mul]
    omega

/-! ## 3. Runs of the loop

What holds of one subtraction holds of a run, by induction along it.  A run of ten would have taken
away ten times the divisor, which is more than there was to begin with. -/

/-- The invariant passes along a run, whose every subtraction stands behind a test that passed. -/
theorem Run.counted (hrun : Run divisor n s t) (hdivisor : IsDivisor divisor)
    (h : Counted divisor total s) : Counted divisor total t := by
  induction hrun with
  | refl => exact h
  | tail _ hgoes ih => exact (ih h).subtractOnce hdivisor hgoes

theorem Run.count_eq (hrun : Run divisor n s t) : t.count = s.count + n := by
  induction hrun with
  | refl => rfl
  | tail _ _ ih => rw [TakingOut.subtractOnce, ih, Nat.add_assoc]

/-- **Nine subtractions at most**, if ten times the divisor is out of reach. -/
theorem Run.le_nine (hrun : Run divisor n s t) (hdivisor : IsDivisor divisor)
    (h : Counted divisor total s) (htotal : total < 10 * divisor.toNat) (hs : s.count = 0) : n ≤ 9 := by
  have hcount := hrun.count_eq
  have htotal_eq := (hrun.counted hdivisor h).total_eq
  rw [hs, Nat.zero_add] at hcount
  rw [hcount] at htotal_eq
  by_contra hlong
  have hmul : 10 * divisor.toNat ≤ n * divisor.toNat := Nat.mul_le_mul_right _ (Nat.not_le.1 hlong)
  omega

/-- **The loop stops.**  A loop that always went on would have a run of ten subtractions. -/
theorem exists_run_not_goes (hdivisor : IsDivisor divisor) (h : Counted divisor total s)
    (htotal : total < 10 * divisor.toNat) (hs : s.count = 0) :
    ∃ n t, Run divisor n s t ∧ ¬ t.Goes divisor := by
  by_contra hnever
  have hruns : ∀ n, ∃ t, Run divisor n s t := by
    intro n
    induction n with
    | zero => exact ⟨s, .refl s⟩
    | succ n ih =>
      obtain ⟨t, hrun⟩ := ih
      have hgoes : t.Goes divisor := by
        by_contra hstop
        exact hnever ⟨n, t, hrun, hstop⟩
      exact ⟨t.subtractOnce divisor, hrun.tail hgoes⟩
  obtain ⟨t, hrun⟩ := hruns 10
  have := hrun.le_nine hdivisor h htotal hs
  omega

/-- With enough left of its bound, `takeOut` follows a run of the loop, and its count is ahead by
the length of that run. -/
theorem takeOut_of_run (hrun : Run divisor n s t) (bound : Nat) :
    takeOut divisor (n + bound) s.remainder =
      ((takeOut divisor bound t.remainder).1 + n, (takeOut divisor bound t.remainder).2) := by
  induction hrun generalizing bound with
  | refl => rw [Nat.zero_add, Nat.add_zero]
  | @tail n s t _ hgoes ih =>
    have hstep : takeOut divisor (bound + 1) t.remainder =
        ((takeOut divisor bound (t.subtractOnce divisor).remainder).1 + 1,
          (takeOut divisor bound (t.subtractOnce divisor).remainder).2) := by
      rw [takeOut, if_neg hgoes]
      rfl
    rw [Nat.add_assoc, Nat.add_comm 1 bound, ih, hstep, Nat.add_assoc, Nat.add_comm 1 n]

/-- Where the divisor does not go, `takeOut` takes nothing out. -/
theorem takeOut_of_not_goes (h : ¬ t.Goes divisor) (bound : Nat) :
    takeOut divisor bound t.remainder = (0, t.remainder) := by
  cases bound with
  | zero => rfl
  | succ bound => rw [takeOut, if_pos (not_not.1 h)]

end TakingOut

/-! ## 4. The step

The theorem puts together what was said of the runs, of the arithmetic within bytes and of
`takeOut`.  Remainders and digits are arbitrary, so it covers every step that a division can come
to. -/

open TakingOut in
/-- **A step of long division terminates and keeps its invariant.**  From any remainder below the divisor and
any digit, every run of the loop has made nine subtractions at most and counted them.  It is never stuck:
where the test lets it go on, the divisor is no larger than what it is taken from, and the subtraction is done
within bytes and leaves nothing to borrow.  It stops; and where it stops, the count is the digit, and what
remains the remainder, of `divisionStep`: a digit, and a run without a zero in front, empty for zero, that is
smaller than the divisor and accounts for what was brought down. -/
theorem division_step_terminates {divisor remainder : Digits} {d : Nat} (hdivisor : IsDivisor divisor)
    (hremainder : IsRemainder divisor remainder) (hd : d < 10) :
    (∀ n s, Run divisor n (start remainder d) s →
      n ≤ 9 ∧ s.count = n ∧
      (s.Goes divisor → divisor.toNat ≤ s.remainder.toNat ∧
        subtract? s.remainder divisor = some (subtract s.remainder divisor)) ∧
      (¬ s.Goes divisor → divisionStep divisor remainder d = (s.count, s.remainder))) ∧
    (∃ n s, Run divisor n (start remainder d) s ∧ ¬ s.Goes divisor) ∧
    ∃ c rest, divisionStep divisor remainder d = (c, rest) ∧ c ≤ 9 ∧ IsRemainder divisor rest ∧
      (rest.toNat = 0 → rest = []) ∧ c * divisor.toNat + rest.toNat = 10 * remainder.toNat + d := by
  have hstart : Counted divisor (10 * remainder.toNat + d) (start remainder d) :=
    start_counted hremainder.valid hd
  have htotal : 10 * remainder.toNat + d < 10 * divisor.toNat := by
    have := hremainder.lt
    omega
  refine ⟨fun n s hrun => ?_, exists_run_not_goes hdivisor hstart htotal rfl, ?_⟩
  · have hs := hrun.counted hdivisor hstart
    have hn := hrun.le_nine hdivisor hstart htotal rfl
    have hcount : s.count = n := hrun.count_eq.trans (Nat.zero_add n)
    refine ⟨hn, hcount, fun hgoes => ?_, fun hstop => ?_⟩
    · have hle := (hs.goes_iff hdivisor.valid).1 hgoes
      exact ⟨hle, subtract?_eq hs.valid hdivisor.valid (hs.length_le hdivisor hgoes) hle⟩
    · have htake := takeOut_of_run hrun (10 - n)
      rw [takeOut_of_not_goes hstop, Nat.add_sub_cancel' (by omega), Nat.zero_add] at htake
      rw [hcount]
      exact htake
  · obtain ⟨hdigit, heq, hrest⟩ := divisionStep_spec hdivisor hremainder hd
    exact ⟨_, _, rfl, Nat.le_of_lt_succ hdigit, hrest, eq_nil_of_toNat_eq_zero hrest.trimmed, heq⟩

/-- A remainder of eleven and a nine behind it make 119, which takes all nine subtractions of twelve and leaves
eleven again. -/
theorem division_step_terminates_nine_times :
    IsDivisor [1, 2] ∧ IsRemainder [1, 2] [1, 1] ∧ 9 < 10 ∧ divisionStep [1, 2] [1, 1] 9 = (9, [1, 1]) ∧
    (∃ n s, TakingOut.Run [1, 2] n (.start [1, 1] 9) s ∧ n ≤ 9 ∧ s = ⟨[1, 1], 9⟩) := by
  have hdivisor : IsDivisor [1, 2] := ⟨by decide, by decide, by decide⟩
  have hremainder : IsRemainder [1, 2] [1, 1] := ⟨by decide, by decide, by decide⟩
  obtain ⟨hruns, ⟨n, s, hrun, hstop⟩, -⟩ := division_step_terminates hdivisor hremainder (by decide : 9 < 10)
  obtain ⟨hn, -, -, hresult⟩ := hruns n s hrun
  have hstep : divisionStep [1, 2] [1, 1] 9 = (9, [1, 1]) := by decide +kernel
  refine ⟨hdivisor, hremainder, by decide, hstep, n, s, hrun, hn, ?_⟩
  have hs := (hresult hstop).symm.trans hstep
  cases s
  simpa [and_comm] using hs

end Digits
end DecimalCalc
