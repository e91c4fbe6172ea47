import Mathlib.Data.List.Basic
import Mathlib.Data.List.Range
import Mathlib.Tactic.Common

/-! Shared counters that one side sets and another waits on. A counter is kept as the list of all
values ever stored in it, oldest first, so that what was stored and in which order can be said. -/
namespace MultiGpuTransport

structure Timeline where
  stored : List ℕ
  deriving DecidableEq

namespace Timeline

/-- A counter nobody has set yet. -/
def zero : Timeline := ⟨[]⟩

/-- The current value: the last one stored, zero at first. -/
def value (t : Timeline) : ℕ := t.stored.getLastD 0

def set (t : Timeline) (v : ℕ) : Timeline := ⟨t.stored ++ [v]⟩

@[simp] theorem value_zero : zero.value = 0 := rfl

@[simp] theorem value_set (t : Timeline) (v : ℕ) : (t.set v).value = v := by
  simp [value, set]

theorem value_mem (t : Timeline) (h : t.value ≠ 0) : t.value ∈ t.stored := by
  obtain ⟨l⟩ := t
  rcases List.eq_nil_or_concat l with rfl | ⟨l, v, rfl⟩
  · exact absurd rfl h
  · simp [value]

/-- No store ever lowered the value. -/
def Nondecreasing (t : Timeline) : Prop := t.stored.Pairwise (· ≤ ·)

theorem nondecreasing_zero : zero.Nondecreasing := List.Pairwise.nil

theorem Nondecreasing.set {t : Timeline} (h : t.Nondecreasing) {v : ℕ}
    (hv : ∀ w ∈ t.stored, w ≤ v) : (t.set v).Nondecreasing := by
  simpa [Nondecreasing, Timeline.set, List.pairwise_append] using ⟨h, hv⟩

theorem mem_set {t : Timeline} {v w : ℕ} : w ∈ (t.set v).stored ↔ w ∈ t.stored ∨ w = v := by
  simp [set]

theorem Nondecreasing.le_value {t : Timeline} (h : t.Nondecreasing) {v : ℕ} (hv : v ∈ t.stored) :
    v ≤ t.value := by
  obtain ⟨l⟩ := t
  rcases List.eq_nil_or_concat l with rfl | ⟨l, w, rfl⟩
  · simp at hv
  · simp only [Nondecreasing, List.concat_eq_append, List.pairwise_append, List.mem_singleton,
      forall_eq] at h
    simp only [List.concat_eq_append, List.mem_append, List.mem_singleton] at hv
    simp only [value, List.concat_eq_append, List.getLastD_concat]
    rcases hv with hv | rfl
    · exact h.2.2 v hv
    · exact Nat.le_refl _

/-- A store below an earlier one lowers the value. -/
theorem not_nondecreasing_set {t : Timeline} {v w : ℕ} (hv : v ∈ t.stored) (hlt : w < v) :
    ¬ (t.set w).Nondecreasing := by
  intro h
  have := h.le_value (mem_set.mpr (.inl hv))
  rw [value_set] at this
  omega

/-- The values stored so far are exactly 1, 2, ..., n, in this order. -/
def Counts (t : Timeline) (n : ℕ) : Prop := t.stored = List.range' 1 n

theorem counts_zero : zero.Counts 0 := rfl

theorem Counts.value {t : Timeline} {n : ℕ} (h : t.Counts n) : t.value = n := by
  cases n with
  | zero => simp [Timeline.value, show t.stored = [] from h]
  | succ n =>
    have hs : t.stored = List.range' 1 n ++ [1 + n] := by
      rw [show t.stored = _ from h, List.range'_concat]
      simp
    simp [Timeline.value, hs]
    omega

theorem Counts.set {t : Timeline} {n : ℕ} (h : t.Counts n) : (t.set (n + 1)).Counts (n + 1) := by
  simp [Counts, Timeline.set, show t.stored = _ from h, List.range'_concat, Nat.add_comm]

theorem Counts.nondecreasing {t : Timeline} {n : ℕ} (h : t.Counts n) : t.Nondecreasing := by
  rw [Nondecreasing, show t.stored = _ from h]
  exact (List.pairwise_lt_range' (s := 1) (n := n)).imp Nat.le_of_lt

end Timeline
end MultiGpuTransport
