import MultiGpuTransport.Triton.Prefill

/-!
# The loop over the keys

After so many keys a row has the sums over those that it sees, shifted by some amount, or it is as it
was before the loop and has seen none. An iteration that leaves a row with a visible key keeps this.
-/
namespace MultiGpuTransport.Triton
open Backends Strided

namespace Kernel
variable (kernel : Kernel) (seqIdx qHeadIdx m : ℕ)

/-- The scaled score of a key. -/
def score (n : ℕ) : ℝ := kernel.dot seqIdx qHeadIdx m n * kernel.scale

/-- The keys among the first n that row m sees. -/
def visible (n : ℕ) : Finset ℕ := seen (kernel.Mask seqIdx m) n

/-- A row that has the sums over these keys, shifted by x. -/
noncomputable def sums (keys : Finset ℕ) (x : ℝ) : Row where
  m := .real x
  l := .real (shiftedSum keys (kernel.score seqIdx qHeadIdx m) 1 x)
  acc d := .real (shiftedSum keys (kernel.score seqIdx qHeadIdx m)
    (fun n => kernel.loadV seqIdx qHeadIdx n d) x)

/-- What a row carries after the first n keys. -/
def Carries (n : ℕ) (row : Row) : Prop :=
  kernel.visible seqIdx m n = ∅ ∧ row = ⟨.negInf, .real 0, fun _ => .real 0⟩ ∨
    (kernel.visible seqIdx m n).Nonempty ∧
      ∃ x, row = kernel.sums seqIdx qHeadIdx m (kernel.visible seqIdx m n) x

variable {kernel seqIdx qHeadIdx m}

/-- The exponential of a shifted score, with nothing from a key that is not seen. -/
theorem exp2_qk_sub (n : ℕ) (x : ℝ) :
    (kernel.qk seqIdx qHeadIdx m n - .real x).exp2 =
      .real (if kernel.Mask seqIdx m n then
        2 ^ (kernel.score seqIdx qHeadIdx m n * log2e - x) else 0) := by
  unfold qk
  split_ifs
  · simp [score]
  · simp

/-- What an iteration with a real maximum adds to the rescaled sums. -/
theorem step_of_max {startN : ℕ} {row : Row} {x : ℝ}
    (h : row.m.max (Extended.maxOver kernel.blockN fun j =>
      kernel.qk seqIdx qHeadIdx m (startN + j)) = .real x) :
    kernel.step seqIdx qHeadIdx m startN row =
      { m := .real x
        l := row.l * (row.m - .real x).exp2 + .real (∑ j ∈ Finset.range kernel.blockN,
          if kernel.Mask seqIdx m (startN + j) then
            2 ^ (kernel.score seqIdx qHeadIdx m (startN + j) * log2e - x) else 0)
        acc d := row.acc d * (row.m - .real x).exp2 + .real (∑ j ∈ Finset.range kernel.blockN,
          if kernel.Mask seqIdx m (startN + j) then
            2 ^ (kernel.score seqIdx qHeadIdx m (startN + j) * log2e - x) *
              kernel.loadV seqIdx qHeadIdx (startN + j) d else 0) } := by
  simp only [step, h, exp2_qk_sub, Extended.real_mul_real, Extended.sum_real, ite_mul, zero_mul]

/-- Where a row has seen a key by the end of an iteration, the largest score is real. -/
theorem exists_max {n : ℕ} {row : Row} (hN : 0 < kernel.blockN)
    (h : kernel.Carries seqIdx qHeadIdx m n row)
    (hsees : ∃ j < n + kernel.blockN, kernel.Mask seqIdx m j) :
    ∃ x, row.m.max (Extended.maxOver kernel.blockN fun j =>
      kernel.qk seqIdx qHeadIdx m (n + j)) = .real x := by
  obtain ⟨N, hblock⟩ : ∃ N, kernel.blockN = N + 1 := ⟨kernel.blockN - 1, by omega⟩
  rw [hblock]
  have hmax := Extended.maxOver_masked N (fun j => kernel.Mask seqIdx m (n + j))
    (fun j => kernel.dot seqIdx qHeadIdx m (n + j) * kernel.scale * log2e)
  rcases hmax with ⟨-, y, hy⟩ | ⟨hnone, hinf⟩
  · refine (congrArg (fun z => ∃ x, row.m.max z = Extended.real x) hy).mpr ?_
    rcases h with ⟨-, rfl⟩ | ⟨-, x, rfl⟩ <;> exact ⟨_, rfl⟩
  · refine (congrArg (fun z => ∃ x, row.m.max z = Extended.real x) hinf).mpr ?_
    rcases h with ⟨hempty, -⟩ | ⟨-, x, rfl⟩
    · -- the key that is seen is neither among the first n nor in the block
      obtain ⟨j, hj, hmask⟩ := hsees
      by_cases hlt : j < n
      · have hmem : j ∈ kernel.visible seqIdx m n := mem_seen.mpr ⟨hlt, hmask⟩
        simp [hempty] at hmem
      · have hno := hnone (j - n) (by omega)
        rw [show n + (j - n) = j by omega] at hno
        exact absurd hmask hno
    · exact ⟨x, rfl⟩

/-- An iteration goes on from the first n keys to the next block. -/
theorem Carries.step {n : ℕ} {row : Row} (hN : 0 < kernel.blockN)
    (h : kernel.Carries seqIdx qHeadIdx m n row)
    (hsees : ∃ j < n + kernel.blockN, kernel.Mask seqIdx m j) :
    kernel.Carries seqIdx qHeadIdx m (n + kernel.blockN)
      (kernel.step seqIdx qHeadIdx m n row) := by
  obtain ⟨x, hx⟩ := exists_max hN h hsees
  obtain ⟨j, hj, hmask⟩ := hsees
  refine .inr ⟨⟨j, mem_seen.mpr ⟨hj, hmask⟩⟩, x, ?_⟩
  rw [step_of_max hx, sums, visible]
  simp only [shiftedSum_seen_add, Pi.one_apply, mul_one]
  rcases h with ⟨hempty, rfl⟩ | ⟨-, y, rfl⟩
  · have hseen : seen (kernel.Mask seqIdx m) n = ∅ := hempty
    simp [hseen, shiftedSum_empty]
  · simp only [sums, Extended.real_sub_real, Extended.exp2_real, Extended.real_mul_real,
      Extended.real_add_real, shiftedSum_mul]
    rfl

variable (qHeadIdx) in
theorem rowAfter_carries (hN : 0 < kernel.blockN) (hsees : kernel.Mask seqIdx m 0) (n : ℕ) :
    kernel.Carries seqIdx qHeadIdx m (n * kernel.blockN)
      (kernel.rowAfter seqIdx qHeadIdx m n) := by
  induction n with
  | zero =>
    refine .inl ⟨?_, rfl⟩
    ext j
    simp [visible]
  | succ n ih =>
    rw [Nat.succ_mul]
    exact ih.step hN ⟨0, by omega, hsees⟩

/-- The sum of exponentials of a row that goes through an iteration without a visible key is nan. -/
theorem step_of_blind {startN : ℕ} {row : Row} (hN : 0 < kernel.blockN) (hm : row.m = .negInf)
    (hblind : ∀ n, ¬ kernel.Mask seqIdx m n) :
    kernel.step seqIdx qHeadIdx m startN row = ⟨.negInf, .nan, fun _ => .nan⟩ := by
  obtain ⟨N, hblock⟩ : ∃ N, kernel.blockN = N + 1 := ⟨kernel.blockN - 1, by omega⟩
  have hqk : ∀ j, kernel.qk seqIdx qHeadIdx m (startN + j) = .negInf :=
    fun j => if_neg (hblind _)
  have hsum : ∑ _j ∈ Finset.range (N + 1), Extended.nan = .nan :=
    Extended.sum_nan Finset.nonempty_range_add_one
  simp only [step, hqk, hm, hblock, Extended.maxOver_negInf, Extended.negInf_max_negInf,
    Extended.negInf_sub_negInf, Extended.exp2_nan, Extended.nan_mul, hsum, Extended.add_nan]

variable (qHeadIdx) in
theorem rowAfter_of_blind (hN : 0 < kernel.blockN) (hblind : ∀ n, ¬ kernel.Mask seqIdx m n)
    (n : ℕ) :
    kernel.rowAfter seqIdx qHeadIdx m (n + 1) = ⟨.negInf, .nan, fun _ => .nan⟩ := by
  refine step_of_blind hN ?_ hblind
  induction n with
  | zero => rfl
  | succ n ih => exact congrArg Row.m (step_of_blind hN ih hblind)

theorem le_cdiv_mul (n : ℕ) {b : ℕ} (hb : 0 < b) : n ≤ cdiv n b * b := by
  have hdiv := Nat.div_add_mod (n + b - 1) b
  have hmod := Nat.mod_lt (n + b - 1) hb
  rw [cdiv, Nat.mul_comm]
  omega

/-! ### What the rows of a block end with -/

variable {qBlockIdx i : ℕ}

variable (qHeadIdx) in
/-- A row that sees a key ends with the sums over all keys that it sees. -/
theorem exists_row_eq_sums (hN : 0 < kernel.blockN)
    (hsees : kernel.Mask seqIdx (kernel.offsM qBlockIdx i) 0)
    (hend : ∀ j, kernel.Mask seqIdx (kernel.offsM qBlockIdx i) j →
      j < kernel.endN seqIdx qBlockIdx) :
    ∃ x, kernel.row seqIdx qHeadIdx qBlockIdx i = kernel.sums seqIdx qHeadIdx
      (kernel.offsM qBlockIdx i)
      (kernel.visible seqIdx (kernel.offsM qBlockIdx i) (kernel.endN seqIdx qBlockIdx)) x := by
  have hcarries := rowAfter_carries qHeadIdx hN hsees
    (cdiv (kernel.endN seqIdx qBlockIdx) kernel.blockN)
  have hall : kernel.visible seqIdx (kernel.offsM qBlockIdx i)
      (cdiv (kernel.endN seqIdx qBlockIdx) kernel.blockN * kernel.blockN) =
      kernel.visible seqIdx (kernel.offsM qBlockIdx i) (kernel.endN seqIdx qBlockIdx) :=
    seen_eq_of_le (le_cdiv_mul _ hN) hend
  rw [Carries, hall] at hcarries
  rcases hcarries with ⟨hempty, -⟩ | ⟨-, hsums⟩
  · have hmem : 0 ∈ kernel.visible seqIdx (kernel.offsM qBlockIdx i)
        (kernel.endN seqIdx qBlockIdx) := mem_seen.mpr ⟨hend 0 hsees, hsees⟩
    simp [hempty] at hmem
  · exact hsums

theorem values_of_sums {keys : Finset ℕ} (hkeys : keys.Nonempty) {x : ℝ}
    (h : kernel.row seqIdx qHeadIdx qBlockIdx i =
      kernel.sums seqIdx qHeadIdx (kernel.offsM qBlockIdx i) keys x) (d : ℕ) :
    kernel.outValue seqIdx qHeadIdx qBlockIdx i d = .real (softmaxAverage keys
        (kernel.score seqIdx qHeadIdx (kernel.offsM qBlockIdx i))
        (fun n => kernel.loadV seqIdx qHeadIdx n d)) ∧
      kernel.lseValue seqIdx qHeadIdx qBlockIdx i =
        logSumExp keys (kernel.score seqIdx qHeadIdx (kernel.offsM qBlockIdx i)) := by
  have hpos : 0 < shiftedSum keys
      (kernel.score seqIdx qHeadIdx (kernel.offsM qBlockIdx i)) 1 x := shiftedSum_one_pos hkeys x
  have hkeep : (Extended.real (shiftedSum keys
      (kernel.score seqIdx qHeadIdx (kernel.offsM qBlockIdx i)) 1 x)).IsPos := hpos
  constructor
  · simp only [outValue, h, sums, if_pos hkeep]
    rw [Extended.real_div_real _ hpos.ne', shiftedSum_div]
  · simp only [lseValue, h, sums, if_pos hkeep, logSumExp, if_pos hkeys]
    rw [Extended.log2_real hpos, Extended.real_add_real, Extended.real_mul_real,
      shiftedSum_log hkeys]

/-- A row that looks at no key ends with zero and -inf. -/
theorem values_of_endN (h : kernel.endN seqIdx qBlockIdx = 0) (hN : 0 < kernel.blockN) (d : ℕ) :
    kernel.outValue seqIdx qHeadIdx qBlockIdx i d = .real 0 ∧
      kernel.lseValue seqIdx qHeadIdx qBlockIdx i = .negInf := by
  have hzero : cdiv 0 kernel.blockN = 0 := Nat.div_eq_of_lt (by omega)
  have hrow : kernel.row seqIdx qHeadIdx qBlockIdx i = ⟨.negInf, .real 0, fun _ => .real 0⟩ := by
    rw [row, h, hzero]
    rfl
  have hnot : ¬ (Extended.real 0).IsPos := lt_irrefl 0
  constructor
  · simp only [outValue, hrow, if_neg hnot]
    rw [Extended.real_div_real _ one_ne_zero, zero_div]
  · simp only [lseValue, hrow, if_neg hnot]

/-- A row that looks at keys and sees none ends with nan and -inf. -/
theorem values_of_blind (h : kernel.endN seqIdx qBlockIdx ≠ 0) (hN : 0 < kernel.blockN)
    (hblind : ∀ n, ¬ kernel.Mask seqIdx (kernel.offsM qBlockIdx i) n) (d : ℕ) :
    kernel.outValue seqIdx qHeadIdx qBlockIdx i d = .nan ∧
      kernel.lseValue seqIdx qHeadIdx qBlockIdx i = .negInf := by
  have hle := le_cdiv_mul (kernel.endN seqIdx qBlockIdx) hN
  obtain ⟨n, hn⟩ : ∃ n, cdiv (kernel.endN seqIdx qBlockIdx) kernel.blockN = n + 1 := by
    refine Nat.exists_eq_succ_of_ne_zero fun hzero => h ?_
    rw [hzero] at hle
    omega
  have hrow : kernel.row seqIdx qHeadIdx qBlockIdx i = ⟨.negInf, .nan, fun _ => .nan⟩ := by
    rw [row, hn, rowAfter_of_blind qHeadIdx hN hblind]
  constructor
  · simp only [outValue, hrow, Extended.nan_div]
  · simp only [lseValue, hrow, if_neg Extended.not_isPos_nan]

end Kernel
end MultiGpuTransport.Triton
