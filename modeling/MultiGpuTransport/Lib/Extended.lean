import Mathlib.Algebra.BigOperators.Group.Finset.Basic
import Mathlib.Analysis.SpecialFunctions.Log.Base
import Mathlib.Analysis.SpecialFunctions.Pow.Real

/-!
# Real numbers with infinities and NaN

The values of a floating-point computation that rounds nothing. What has no value, such as the
difference of two infinities, is nan.
-/
namespace MultiGpuTransport

/-- The base of exponentials and logarithms is 2 : ℝ, everywhere by this instance. -/
scoped instance (priority := 2000) instAtLeastTwo : Nat.AtLeastTwo 2 := ⟨le_rfl⟩

inductive Extended
  | real (x : ℝ)
  | posInf
  | negInf
  | nan

namespace Extended

protected def add : Extended → Extended → Extended
  | nan, _ => nan
  | _, nan => nan
  | posInf, negInf => nan
  | negInf, posInf => nan
  | posInf, _ => posInf
  | _, posInf => posInf
  | negInf, _ => negInf
  | _, negInf => negInf
  | real x, real y => real (x + y)

protected def neg : Extended → Extended
  | real x => real (-x)
  | posInf => negInf
  | negInf => posInf
  | nan => nan

/-- The infinity of a product with a real number, which has the sign of the number. -/
noncomputable def scaleInf (x : ℝ) (inf : Extended) : Extended :=
  if x = 0 then nan else if 0 < x then inf else inf.neg

protected noncomputable def mul : Extended → Extended → Extended
  | nan, _ => nan
  | _, nan => nan
  | real x, real y => real (x * y)
  | real x, inf => scaleInf x inf
  | inf, real x => scaleInf x inf
  | posInf, inf => inf
  | negInf, inf => inf.neg

/-- Division by zero gives an infinity, or nan for 0 / 0. -/
protected noncomputable def div : Extended → Extended → Extended
  | nan, _ => nan
  | _, nan => nan
  | real x, real y => if y = 0 then scaleInf x posInf else real (x / y)
  | real _, _ => real 0
  | inf, real y => if y < 0 then inf.neg else inf
  | _, _ => nan

noncomputable instance : Zero Extended := ⟨real 0⟩
instance : Add Extended := ⟨Extended.add⟩
instance : Sub Extended := ⟨fun x y => x.add y.neg⟩
noncomputable instance : Mul Extended := ⟨Extended.mul⟩
noncomputable instance : Div Extended := ⟨Extended.div⟩

/-- The larger number; nan counts as missing. -/
protected noncomputable def max : Extended → Extended → Extended
  | nan, y => y
  | x, nan => x
  | posInf, _ => posInf
  | _, posInf => posInf
  | negInf, y => y
  | x, negInf => x
  | real x, real y => real (Max.max x y)

/-- The largest of n numbers. -/
noncomputable def maxOver (n : ℕ) (f : ℕ → Extended) : Extended :=
  (List.range n).foldl (fun m j => m.max (f j)) nan

noncomputable def exp2 : Extended → Extended
  | real x => real (2 ^ x)
  | posInf => posInf
  | negInf => real 0
  | nan => nan

noncomputable def log2 : Extended → Extended
  | real x => if 0 < x then real (Real.logb 2 x) else if x = 0 then negInf else nan
  | posInf => posInf
  | _ => nan

/-- Comparisons with nan are false. -/
def IsPos : Extended → Prop
  | real x => 0 < x
  | posInf => True
  | _ => False

noncomputable instance (x : Extended) : Decidable x.IsPos := Classical.dec _

/-! ### Real values -/

@[simp] theorem real_add_real (x y : ℝ) : real x + real y = real (x + y) := rfl
@[simp] theorem real_mul_real (x y : ℝ) : real x * real y = real (x * y) := rfl
@[simp] theorem negInf_sub_real (x : ℝ) : negInf - real x = negInf := rfl
@[simp] theorem exp2_real (x : ℝ) : exp2 (real x) = real (2 ^ x) := rfl
@[simp] theorem exp2_negInf : exp2 negInf = real 0 := rfl
@[simp] theorem isPos_real {x : ℝ} : (real x).IsPos ↔ 0 < x := Iff.rfl

@[simp] theorem real_sub_real (x y : ℝ) : real x - real y = real (x - y) := by
  rw [sub_eq_add_neg]
  rfl

theorem real_div_real (x : ℝ) {y : ℝ} (h : y ≠ 0) : real x / real y = real (x / y) := if_neg h

theorem log2_real {x : ℝ} (h : 0 < x) : log2 (real x) = real (Real.logb 2 x) := if_pos h

noncomputable instance : AddCommMonoid Extended where
  add_assoc x y z := by
    cases x <;> cases y <;> cases z <;> first | rfl | exact congrArg real (add_assoc _ _ _)
  zero_add x := by
    cases x <;> first | rfl | exact congrArg real (zero_add _)
  add_zero x := by
    cases x <;> first | rfl | exact congrArg real (add_zero _)
  add_comm x y := by
    cases x <;> cases y <;> first | rfl | exact congrArg real (add_comm _ _)
  nsmul := nsmulRec

/-- A sum of real numbers is their real sum. -/
theorem sum_real {ι : Type*} (s : Finset ι) (f : ι → ℝ) :
    ∑ i ∈ s, real (f i) = real (∑ i ∈ s, f i) := by
  classical
  induction s using Finset.induction_on with
  | empty => rfl
  | insert i s hi ih => rw [Finset.sum_insert hi, Finset.sum_insert hi, ih, real_add_real]

/-! ### NaN -/

@[simp] theorem negInf_sub_negInf : negInf - negInf = nan := rfl
@[simp] theorem exp2_nan : exp2 nan = nan := rfl
@[simp] theorem nan_add (x : Extended) : nan + x = nan := by cases x <;> rfl
@[simp] theorem add_nan (x : Extended) : x + nan = nan := by cases x <;> rfl
@[simp] theorem nan_mul (x : Extended) : nan * x = nan := by cases x <;> rfl
@[simp] theorem mul_nan (x : Extended) : x * nan = nan := by cases x <;> rfl
@[simp] theorem nan_div (x : Extended) : nan / x = nan := by cases x <;> rfl
theorem not_isPos_nan : ¬ nan.IsPos := id

/-- A sum with a term is nan where the terms are. -/
theorem sum_nan {ι : Type*} {s : Finset ι} (h : s.Nonempty) : ∑ _i ∈ s, nan = nan := by
  classical
  obtain ⟨i, hi⟩ := h
  rw [← Finset.insert_erase hi, Finset.sum_insert (Finset.notMem_erase i s), nan_add]

/-! ### Maxima -/

@[simp] theorem negInf_max_real (x : ℝ) : negInf.max (real x) = real x := rfl
@[simp] theorem negInf_max_negInf : negInf.max negInf = negInf := rfl
@[simp] theorem real_max_negInf (x : ℝ) : (real x).max negInf = real x := rfl
@[simp] theorem real_max_real (x y : ℝ) : (real x).max (real y) = real (Max.max x y) := rfl
@[simp] theorem nan_max (x : Extended) : nan.max x = x := rfl

theorem maxOver_succ (n : ℕ) (f : ℕ → Extended) : maxOver (n + 1) f = (maxOver n f).max (f n) := by
  simp [maxOver, List.range_succ]

theorem maxOver_negInf (n : ℕ) : maxOver (n + 1) (fun _ => negInf) = negInf := by
  induction n with
  | zero => rfl
  | succ n ih => rw [maxOver_succ, ih, negInf_max_negInf]

/-- Of numbers that are real where a condition holds and -inf elsewhere, the largest is real where the
condition holds of one. -/
theorem maxOver_masked (n : ℕ) (p : ℕ → Prop) [DecidablePred p] (f : ℕ → ℝ) :
    (∃ j ≤ n, p j) ∧ (∃ m, maxOver (n + 1) (fun j => if p j then real (f j) else negInf) = real m) ∨
      (∀ j ≤ n, ¬ p j) ∧
        maxOver (n + 1) (fun j => if p j then real (f j) else negInf) = negInf := by
  induction n with
  | zero =>
    by_cases h : p 0
    · exact .inl ⟨⟨0, le_rfl, h⟩, f 0, by simp [maxOver, h]⟩
    · refine .inr ⟨fun j hj => ?_, by simp [maxOver, h]⟩
      rwa [Nat.le_zero.mp hj]
  | succ n ih =>
    rw [maxOver_succ]
    rcases ih with ⟨⟨j, hj, hp⟩, m, hm⟩ | ⟨hnone, hm⟩
    · refine .inl ⟨⟨j, by omega, hp⟩, ?_⟩
      rw [hm]
      split_ifs <;> exact ⟨_, rfl⟩
    · rw [hm]
      by_cases h : p (n + 1)
      · exact .inl ⟨⟨n + 1, le_rfl, h⟩, f (n + 1), by simp [h]⟩
      · refine .inr ⟨fun j hj => ?_, by simp [h]⟩
        rcases Nat.le_succ_iff.mp hj with hj | rfl
        · exact hnone j hj
        · exact h

end Extended
end MultiGpuTransport
