import MultiGpuTransport.Drafter.Safetensors

/-!
# Copies and packed lengths

However short its reads come out, a copy ends: with all bytes, where the source has them, and with an
error otherwise.
-/
namespace MultiGpuTransport.Drafter

/-- What raises nothing has gone through all of its parts. -/
theorem bind_eq_ok {ε α β : Type} {x : Except ε α} {f : α → Except ε β} {b : β} :
    (x >>= f) = .ok b ↔ ∃ a, x = .ok a ∧ f a = .ok b := by
  cases x with
  | error e => simp [bind, Except.bind]
  | ok a => simp [bind, Except.bind]

theorem packUInt64_ok {n : ℕ} {bytes : Bytes} :
    packUInt64 n = .ok bytes ↔ n < 2 ^ 64 ∧ bytes = toLittleEndian 8 n := by
  rw [packUInt64]
  split_ifs with h
  · rw [Except.ok.injEq, and_iff_right h, eq_comm]
  · constructor
    · intro heq
      cases heq
    · exact fun hlt => absurd hlt.1 h

namespace ReadPattern
variable {pattern : ReadPattern}

theorem read_eq_take (i : ℕ) (source : Bytes) (n : ℤ) :
    pattern.read i source n = source.take (pattern.read i source n).length := by
  rw [read, List.length_take, List.take_eq_take_iff]
  omega

theorem read_length_le_of_nonneg (i : ℕ) (source : Bytes) {n : ℤ} (hn : 0 ≤ n) :
    (pattern.read i source n).length ≤ n.toNat := by
  have hle := pattern.size_le i (min n.toNat source.length)
  rw [read, if_neg (by omega), List.length_take]
  omega

/-- A read of something returns nothing only at the end of the source. -/
theorem read_eq_nil {i : ℕ} {source : Bytes} {n : ℤ} (hn : n ≠ 0) :
    pattern.read i source n = [] ↔ source = [] := by
  constructor
  · intro h
    by_contra hne
    have hlen := List.length_pos_iff.mpr hne
    have hpos := pattern.size_pos i (if n < 0 then source.length else min n.toNat source.length)
      (by split_ifs <;> omega)
    rw [read, List.take_eq_nil_iff] at h
    exact h.elim (by omega) hne
  · rintro rfl
    exact List.take_nil

end ReadPattern

theorem min_chunkSize_ne_zero {n : ℤ} (hn : n ≠ 0) : min chunkSize n ≠ 0 := by
  have hchunk : 0 < chunkSize := by decide
  omega

theorem min_chunkSize_lt {n : ℤ} : min chunkSize n < -1 ↔ n < -1 := by
  have hchunk : 0 < chunkSize := by decide
  omega

/-- What a copy of a length that the source does not have raises: a read below -1 is refused, and -1,
with which the first read takes all there is, is followed by one unless there is nothing. -/
def copyError (source : Bytes) (length : ℤ) : BuildError :=
  if 0 ≤ length ∨ length = -1 ∧ source = [] then .eofError "Unexpected end of safetensors data"
  else .valueError "read length must be non-negative or -1"

/-- A copy of a length that the source has is exact. -/
theorem copyExact_of_le (pattern : ReadPattern) (i : ℕ) (source destination : Bytes) {n : ℤ}
    (hn : 0 ≤ n) (hle : n ≤ source.length) :
    copyExact pattern i source destination n = .ok (destination ++ source.take n.toNat) := by
  induction i, source, destination, n using copyExact.induct pattern with
  | case1 i source destination =>
    rw [copyExact, if_pos rfl, Int.toNat_zero, List.take_zero, List.append_nil]
  | case2 i source destination n hn0 hlt =>
    rw [min_chunkSize_lt] at hlt
    omega
  | case3 i source destination n hn0 hlt chunk hchunk =>
    have hnil := (ReadPattern.read_eq_nil (min_chunkSize_ne_zero hn0)).mp hchunk
    rw [hnil] at hle
    simp only [List.length_nil] at hle
    omega
  | case4 i source destination n hn0 hlt chunk hchunk ih =>
    have htake : chunk = source.take chunk.length := ReadPattern.read_eq_take i source _
    have hlen : chunk.length ≤ source.length := ReadPattern.read_length_le _ i source _
    have hmin : chunk.length ≤ (min chunkSize n).toNat :=
      ReadPattern.read_length_le_of_nonneg i source (le_min (by decide) hn)
    have hsum : n.toNat = chunk.length + (n - chunk.length).toNat := by omega
    rw [copyExact, if_neg hn0, if_neg hlt]
    refine (dif_neg hchunk).trans ((ih (by omega) ?_).trans ?_)
    · rw [List.length_drop]
      omega
    · rw [hsum, List.take_add, ← htake, List.append_assoc]

/-- A copy of any other length ends as well. -/
theorem copyExact_of_not_le (pattern : ReadPattern) (i : ℕ) (source destination : Bytes) {n : ℤ}
    (h : ¬ (0 ≤ n ∧ n ≤ source.length)) :
    copyExact pattern i source destination n = .error (copyError source n) := by
  induction i, source, destination, n using copyExact.induct pattern with
  | case1 i source destination => exact absurd ⟨le_rfl, Int.natCast_nonneg _⟩ h
  | case2 i source destination n hn0 hlt =>
    rw [copyExact, if_neg hn0, if_pos hlt]
    rw [min_chunkSize_lt] at hlt
    rw [copyError, if_neg (by omega)]
  | case3 i source destination n hn0 hlt chunk hchunk =>
    have hnil := (ReadPattern.read_eq_nil (min_chunkSize_ne_zero hn0)).mp hchunk
    rw [min_chunkSize_lt] at hlt
    rw [copyExact, if_neg hn0, if_neg (mt min_chunkSize_lt.mp hlt)]
    refine (dif_pos hchunk).trans ?_
    rw [copyError, if_pos]
    by_cases hneg : n = -1
    · exact .inr ⟨hneg, hnil⟩
    · exact .inl (by omega)
  | case4 i source destination n hn0 hlt chunk hchunk ih =>
    have hlen : chunk.length ≤ source.length := ReadPattern.read_length_le _ i source _
    have hpos := List.length_pos_iff.mpr hchunk
    have hsource : source ≠ [] := List.length_pos_iff.mp (hpos.trans_le hlen)
    rw [copyExact, if_neg hn0, if_neg hlt]
    refine (dif_neg hchunk).trans ((ih fun hfits => h ?_).trans ?_)
    · rw [List.length_drop] at hfits
      omega
    · -- a read of a positive length takes no more than that
      have hmin : 0 < n → chunk.length ≤ (min chunkSize n).toNat := fun hn =>
        ReadPattern.read_length_le_of_nonneg i source (le_min (by decide) hn.le)
      rw [min_chunkSize_lt] at hlt
      simp only [copyError, hsource, and_false, or_false]
      congr 1
      by_cases hn : 0 ≤ n
      · rw [if_pos hn, if_pos (.inl (by omega))]
      · rw [if_neg hn, if_neg (by omega)]

end MultiGpuTransport.Drafter
