import TextArt.Session
import Mathlib.Algebra.GroupWithZero.Nat
import Mathlib.Algebra.Ring.Int.Defs
import Mathlib.Data.List.Monad

namespace TextArt.Machine

/-!
# Machine numbers — arithmetic that can fail

The library counts with numbers of any size.  A machine has words of sixty-four bits, and a
program that asks it for more does not go on.  Here a computation that does not go on has no
result; one that has a result has gone through without an overflow, without a division by zero,
and without a place of a list that the list does not have.

* `unsigned`, `long` — a number, if it is one of the machine; `word`, `quad` and `byte` are the
  unsigned numbers of eight, four and one bytes;
* `minus`, `quotient`, `ceilQuotient`, `shiftRight`, `shiftLeft` — what fails for other reasons
  than size;
* `saturated`, `saturatedWord` — the nearest number that the machine has;
* `clamp`, `clamp_one` — the nearest number of a range, which must not be inverted;
* `loop`, `loop_eq` — a computation for each of some numbers in turn, and what it comes to if it
  is known what each of them does; `loop_preserves` says what it keeps.
-/

/-! ### Numbers without a sign -/

/-- A number as one of the `limit` unsigned numbers of a machine. -/
def unsigned (limit n : Nat) : Option Nat :=
  if n < limit then some n else none

/-- A number in eight bytes, smaller than `UInt64.size`. -/
def word (n : Nat) : Option Nat := unsigned UInt64.size n

/-- A number in four bytes, smaller than `UInt32.size`. -/
def quad (n : Nat) : Option Nat := unsigned UInt32.size n

/-- A number in one byte, smaller than `UInt8.size`. -/
def byte (n : Nat) : Option Nat := unsigned UInt8.size n

variable {n : Nat}

theorem unsigned_eq {limit : Nat} (h : n < limit) : unsigned limit n = some n :=
  if_pos h

theorem word_eq (h : n < UInt64.size) : word n = some n :=
  unsigned_eq h

/-- A `word` is the number it was. -/
theorem word_eq_some_iff {m : Nat} : word n = some m ↔ n < UInt64.size ∧ n = m := by
  rw [word, unsigned, Option.ite_none_right_eq_some, Option.some_inj]

theorem quad_eq (h : n < UInt32.size) : quad n = some n :=
  unsigned_eq h

theorem byte_eq (h : n < UInt8.size) : byte n = some n :=
  unsigned_eq h

/-- A difference, which must not be negative; otherwise `none`. -/
def minus (a b : Nat) : Option Nat :=
  if b ≤ a then some (a - b) else none

theorem minus_eq {a b : Nat} (h : b ≤ a) : minus a b = some (a - b) :=
  if_pos h

/-- A quotient, whose divisor must not be zero; otherwise `none`. -/
def quotient (a b : Nat) : Option Nat :=
  if b = 0 then none else some (a / b)

theorem quotient_eq {a b : Nat} (h : b ≠ 0) : quotient a b = some (a / b) :=
  if_neg h

/-- A `quotient`, to the next integer. -/
def ceilQuotient (a b : Nat) : Option Nat := do
  let q ← quotient a b
  if a % b = 0 then pure q else word (q + 1)

/-- The next integer is found by adding all but one of the divisor first, so `ceilQuotient` does not
    overflow where that sum would. -/
theorem ceilQuotient_eq {a b : Nat} (hb : b ≠ 0) (ha : a < UInt64.size) :
    ceilQuotient a b = some ((a + b - 1) / b) := by
  have hpos : 0 < b := Nat.pos_of_ne_zero hb
  have hdivided : b * (a / b) + a % b = a := Nat.div_add_mod a b
  have hless : a / b ≤ b * (a / b) := Nat.le_mul_of_pos_left _ hpos
  have hrest : a % b < b := Nat.mod_lt a hpos
  rw [ceilQuotient, quotient_eq hb, Option.bind_eq_bind, Option.bind_some]
  split
  · next hzero =>
    -- without a remainder the sum that is divided stops just short of the next multiple
    have hsum : a + b - 1 = b * (a / b) + (b - 1) := by omega
    rw [hsum, Nat.mul_add_div hpos, Nat.div_eq_of_lt (show b - 1 < b by omega), Nat.add_zero]
    rfl
  · next hzero =>
    -- with a remainder it goes past the next multiple by less than a divisor
    have hsum : a + b - 1 = b * (a / b + 1) + (a % b - 1) := by
      rw [Nat.mul_add]
      omega
    rw [hsum, Nat.mul_add_div hpos, Nat.div_eq_of_lt (show a % b - 1 < b by omega), Nat.add_zero]
    exact word_eq (by omega)

/-- A number of `bits` bits moved to the right, by less than its width. -/
def shiftRight (bits n places : Nat) : Option Nat :=
  if places < bits then some (n >>> places) else none

theorem shiftRight_eq {bits places : Nat} (h : places < bits) :
    shiftRight bits n places = some (n >>> places) :=
  if_pos h

/-- A number of `bits` bits moved to the left, by less than its width. -/
def shiftLeft (bits n places : Nat) : Option Nat :=
  if places < bits then unsigned (2 ^ bits) (n <<< places) else none

/-- The nearest number of eight bytes, which a `word` can hold. -/
def saturatedWord (n : Nat) : Nat :=
  min n (UInt64.size - 1)

/-! ### Numbers with a sign -/

/-- A number with a sign in eight bytes; otherwise `none`. -/
def long (v : Int) : Option Int :=
  if -2 ^ 63 ≤ v ∧ v < 2 ^ 63 then some v else none

theorem long_eq {v : Int} (h : -2 ^ 63 ≤ v ∧ v < 2 ^ 63) : long v = some v :=
  if_pos h

/-- The nearest number with a sign in eight bytes, which `long` can hold. -/
def saturated (v : Int) : Int :=
  max (-2 ^ 63) (min v (2 ^ 63 - 1))

/-- A number with a sign as an unsigned one, smaller than `limit`. -/
def ofLong (limit : Nat) (v : Int) : Option Nat :=
  if 0 ≤ v then unsigned limit v.toNat else none

theorem ofLong_eq {limit : Nat} {v : Int} (h : 0 ≤ v) (hlt : v.toNat < limit) :
    ofLong limit v = some v.toNat := by
  rw [ofLong, if_pos h, unsigned_eq hlt]

/-- The nearest number from `low` to `high`, or `low` if `high` is less than that.  To look for it
    in an inverted range is a failure. -/
def clamp (value : Int) (low high : Nat) : Option Nat := do
  let high := max high low
  let low ← long low
  let high ← long high
  if low ≤ high then ofLong UInt64.size (max low (min value high)) else none

/-- A range that begins with one is never inverted for `clamp`, and its numbers are not too large
    for a machine if its last one is not. -/
theorem clamp_one (value : Int) {high : Nat} (h : high < 2 ^ 63) :
    clamp value 1 high = some (nearest value high) := by
  -- the upper end of the range is no less than the lower end, even for `high = 0`
  have hhigh : (max high 1 : Nat) < (2 ^ 63 : Int) := by omega
  have hlow : ((1 : Nat) : Int) ≤ (max high 1 : Nat) := by omega
  have hlong : long ((max high 1 : Nat) : Int) = some ((max high 1 : Nat) : Int) :=
    long_eq ⟨by omega, hhigh⟩
  have hone : long ((1 : Nat) : Int) = some ((1 : Nat) : Int) := long_eq ⟨by decide, by decide⟩
  have hpositive : 0 ≤ max ((1 : Nat) : Int) (min value ((max high 1 : Nat) : Int)) := by omega
  have hsmall : (max ((1 : Nat) : Int) (min value ((max high 1 : Nat) : Int))).toNat
      < UInt64.size := by
    unfold UInt64.size
    omega
  rw [clamp, hone, hlong]
  simp only [Option.bind_eq_bind, Option.bind_some]
  rw [if_pos hlow, ofLong_eq hpositive hsmall, nearest]
  refine congrArg some ?_
  omega

/-- To go to the nearest number that there is by `saturated`, and then to the `nearest` one in a
    range, is to go to the latter. -/
theorem nearest_saturated (value : Int) {high : Nat} (h : high < 2 ^ 63) :
    nearest (saturated value) high = nearest value high := by
  unfold nearest saturated
  omega

/-! ### Loops -/

/-- Compute with `n` numbers from `i` on, one after the other. -/
def loop {α : Type} (body : Nat → α → Option α) : Nat → Nat → α → Option α
  | _, 0, a => some a
  | i, n + 1, a => do
    let a ← body i a
    loop body (i + 1) n a

/-- A loop whose `k`-th turn goes from the `k`-th of some values to the next one goes from the
    first to the last. -/
theorem loop_eq {α : Type} {body : Nat → α → Option α} (value : Nat → α) (i : Nat)
    (h : ∀ k < n, body (i + k) (value k) = some (value (k + 1))) :
    loop body i n (value 0) = some (value n) := by
  induction n generalizing i value with
  | zero => rfl
  | succ n ih =>
    have hfirst : body i (value 0) = some (value 1) := h 0 (Nat.succ_pos n)
    rw [loop, hfirst, Option.bind_eq_bind, Option.bind_some]
    refine ih (fun k => value (k + 1)) (i + 1) fun k hk => ?_
    rw [Nat.add_assoc, Nat.add_comm 1 k]
    exact h (k + 1) (Nat.succ_lt_succ hk)

/-- What every turn of a `loop` preserves, the loop preserves. -/
theorem loop_preserves {α : Type} {body : Nat → α → Option α} {P : α → Prop}
    (h : ∀ i a b, P a → body i a = some b → P b) {i : Nat} {a b : α} (ha : P a)
    (hloop : loop body i n a = some b) : P b := by
  induction n generalizing i a with
  | zero => exact Option.some.inj hloop ▸ ha
  | succ n ih =>
    obtain ⟨a', hbody, hrest⟩ := Option.bind_eq_some_iff.mp hloop
    exact ih (h i a a' ha hbody) hrest

/-- If a computation `f` has a result for everything on a list, `mapM` has the list of the
    results. -/
theorem mapM_eq {α β : Type} {f : α → Option β} {g : α → β} {as : List α}
    (h : ∀ a ∈ as, f a = some (g a)) : as.mapM f = some (as.map g) := by
  induction as with
  | nil => rfl
  | cons a as ih =>
    obtain ⟨ha, has⟩ := List.forall_mem_cons.mp h
    rw [List.mapM_cons, ha, ih has]
    rfl

end TextArt.Machine
