import MultiGpuTransport.Lib.Extended

/-!
# Softmax

The softmax of scores over a finite set of keys, the average of values it weighs, and the logarithm of
the sum of exponentials. Scores may be shifted by any amount and exponentials taken in base 2: a shift
scales all sums alike, so sums with one shift are turned into sums with another, and the shift cancels
from an average.
-/
namespace MultiGpuTransport

section
variable {ι : Type*} (keys : Finset ι) (score value : ι → ℝ)

noncomputable def softmax (j : ι) : ℝ := Real.exp (score j) / ∑ i ∈ keys, Real.exp (score i)

noncomputable def softmaxAverage : ℝ := ∑ j ∈ keys, softmax keys score j * value j

/-- Over no keys the sum is zero and its logarithm -inf. -/
noncomputable def logSumExp : Extended :=
  if keys.Nonempty then .real (Real.log (∑ j ∈ keys, Real.exp (score j))) else .negInf

noncomputable def log2e : ℝ := Real.logb 2 (Real.exp 1)

noncomputable def ln2 : ℝ := Real.log 2

/-- The values, weighed by base-2 exponentials of scores that are shifted by m. -/
noncomputable def shiftedSum (m : ℝ) : ℝ :=
  ∑ j ∈ keys, (2 : ℝ) ^ (score j * log2e - m) * value j

variable {keys score value}

theorem softmaxAverage_eq :
    softmaxAverage keys score value =
      (∑ j ∈ keys, Real.exp (score j) * value j) / ∑ j ∈ keys, Real.exp (score j) := by
  simp only [softmaxAverage, softmax, Finset.sum_div, div_mul_eq_mul_div]

theorem softmaxAverage_congr {score' value' : ι → ℝ} (hscore : ∀ j ∈ keys, score j = score' j)
    (hvalue : ∀ j ∈ keys, value j = value' j) :
    softmaxAverage keys score value = softmaxAverage keys score' value' := by
  have hsum : ∑ i ∈ keys, Real.exp (score i) = ∑ i ∈ keys, Real.exp (score' i) :=
    Finset.sum_congr rfl fun i hi => by rw [hscore i hi]
  refine Finset.sum_congr rfl fun j hj => ?_
  rw [softmax, softmax, hsum, hscore j hj, hvalue j hj]

theorem logSumExp_congr {score' : ι → ℝ} (h : ∀ j ∈ keys, score j = score' j) :
    logSumExp keys score = logSumExp keys score' := by
  rw [logSumExp, logSumExp, Finset.sum_congr rfl fun j hj => by rw [h j hj]]

theorem softmaxAverage_empty : softmaxAverage ∅ score value = 0 := Finset.sum_empty

theorem logSumExp_empty : logSumExp ∅ score = .negInf := if_neg Finset.not_nonempty_empty

theorem log2e_mul_ln2 : log2e * ln2 = 1 := by
  rw [log2e, ln2, Real.logb, Real.log_exp, div_mul_cancel₀ _ (ne_of_gt (Real.log_pos one_lt_two))]

/-- Base-2 units are base-e units. -/
theorem two_rpow_mul_log2e (x : ℝ) : (2 : ℝ) ^ (x * log2e) = Real.exp x := by
  rw [Real.rpow_def_of_pos two_pos, mul_comm, mul_assoc]
  change Real.exp (x * (log2e * ln2)) = Real.exp x
  rw [log2e_mul_ln2, mul_one]

theorem shiftedSum_eq (m : ℝ) :
    shiftedSum keys score value m = (∑ j ∈ keys, Real.exp (score j) * value j) * 2 ^ (-m) := by
  rw [shiftedSum, Finset.sum_mul]
  refine Finset.sum_congr rfl fun j _ => ?_
  rw [sub_eq_add_neg, Real.rpow_add two_pos, two_rpow_mul_log2e]
  ring

/-- A factor changes the shift. -/
theorem shiftedSum_mul (m m' : ℝ) :
    shiftedSum keys score value m * 2 ^ (m - m') = shiftedSum keys score value m' := by
  rw [shiftedSum_eq, shiftedSum_eq, mul_assoc, ← Real.rpow_add two_pos]
  ring_nf

theorem shiftedSum_empty (m : ℝ) : shiftedSum ∅ score value m = 0 := Finset.sum_empty

theorem shiftedSum_one_pos (h : keys.Nonempty) (m : ℝ) : 0 < shiftedSum keys score 1 m := by
  refine Finset.sum_pos (fun j _ => ?_) h
  rw [Pi.one_apply, mul_one]
  exact Real.rpow_pos_of_pos two_pos _

/-- The shift cancels from the average. -/
theorem shiftedSum_div (m : ℝ) :
    shiftedSum keys score value m / shiftedSum keys score 1 m = softmaxAverage keys score value := by
  have hpos : (0 : ℝ) < 2 ^ (-m) := Real.rpow_pos_of_pos two_pos _
  simp only [shiftedSum_eq, Pi.one_apply, mul_one]
  rw [mul_div_mul_right _ _ hpos.ne', softmaxAverage_eq]

/-- The shift is added to the logarithm again. -/
theorem shiftedSum_log (h : keys.Nonempty) (m : ℝ) :
    (m + Real.logb 2 (shiftedSum keys score 1 m)) * ln2 =
      Real.log (∑ j ∈ keys, Real.exp (score j)) := by
  have hsum : 0 < ∑ j ∈ keys, Real.exp (score j) := Finset.sum_pos (fun j _ => Real.exp_pos _) h
  have hpos : (0 : ℝ) < 2 ^ (-m) := Real.rpow_pos_of_pos two_pos _
  simp only [shiftedSum_eq, Pi.one_apply, mul_one]
  rw [Real.logb_mul hsum.ne' hpos.ne', Real.logb_rpow two_pos (by norm_num), Real.logb, ln2]
  field_simp
  ring

end

/-! ### Keys that are seen one block after the other -/

/-- The first n keys that are visible. -/
def seen (visible : ℕ → Prop) [DecidablePred visible] (n : ℕ) : Finset ℕ :=
  (Finset.range n).filter visible

section
variable {visible : ℕ → Prop} [DecidablePred visible] {score value : ℕ → ℝ}

@[simp] theorem mem_seen {n j : ℕ} : j ∈ seen visible n ↔ j < n ∧ visible j := by
  simp [seen]

theorem shiftedSum_seen_add (n N : ℕ) (m : ℝ) :
    shiftedSum (seen visible (n + N)) score value m = shiftedSum (seen visible n) score value m +
      ∑ j ∈ Finset.range N,
        if visible (n + j) then 2 ^ (score (n + j) * log2e - m) * value (n + j) else 0 := by
  simp only [shiftedSum, seen, Finset.sum_filter]
  exact Finset.sum_range_add _ _ _

/-- Enough blocks have seen all keys. -/
theorem seen_eq_of_le {n n' : ℕ} (h : n ≤ n') (hvisible : ∀ j, visible j → j < n) :
    seen visible n' = seen visible n := by
  ext j
  simp only [mem_seen]
  constructor
  · exact fun ⟨_, hj⟩ => ⟨hvisible j hj, hj⟩
  · exact fun ⟨hn, hj⟩ => ⟨hn.trans_le h, hj⟩

end
end MultiGpuTransport
