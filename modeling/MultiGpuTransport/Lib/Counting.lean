import MultiGpuTransport.Lib.Progress

/-! Counting the operations of a kind that the jobs of a party have run, to compare two parties
whose jobs have the same operations of that kind. -/
namespace MultiGpuTransport.Streams

variable {ρ σ Op Mem : Type*}

/-- How many operations with the property have run after pos k operations of each job k. -/
def ran (X : Op → Bool) : List (Job σ Op) → (ℕ → ℕ) → ℕ
  | [], _ => 0
  | j :: js, pos => (j.ops.take (pos 0)).countP X + ran X js (fun k => pos (k + 1))

/-- How many operations with the property there are. -/
def total (X : Op → Bool) (js : List (Job σ Op)) : ℕ := (js.flatMap Job.ops).countP X

@[simp] theorem total_cons (X : Op → Bool) (j : Job σ Op) (js : List (Job σ Op)) :
    total X (j :: js) = j.ops.countP X + total X js := by
  simp [total]

theorem countP_take_succ {X : Op → Bool} {l : List Op} {n : ℕ} {op : Op} (h : l[n]? = some op) :
    (l.take (n + 1)).countP X = (l.take n).countP X + if X op then 1 else 0 := by
  simp [List.take_add_one, h]

@[simp] theorem ran_start (X : Op → Bool) (js : List (Job σ Op)) : ran X js (fun _ => 0) = 0 := by
  induction js with
  | nil => rfl
  | cons j js ih => simpa [ran] using ih

/-- Running an operation counts it if it has the property. -/
theorem ran_update {X : Op → Bool} {js : List (Job σ Op)} {pos : ℕ → ℕ} {k : ℕ} {op : Op}
    (h : (opsAt js k)[pos k]? = some op) : ran X js (Function.update pos k (pos k + 1)) =
      ran X js pos + if X op then 1 else 0 := by
  induction js generalizing pos k with
  | nil => simp [opsAt] at h
  | cons j js ih =>
    cases k with
    | zero =>
      have hsame : (fun i => Function.update pos 0 (pos 0 + 1) (i + 1)) = fun i => pos (i + 1) := by
        funext i
        simp
      simp only [ran, Function.update_self, hsame, countP_take_succ (by simpa using h)]
      omega
    | succ k =>
      simp only [ran, update_succ_comp]
      rw [@ih (fun i => pos (i + 1)) k (by simpa using h)]
      simp [Nat.add_assoc]

theorem ran_zero_of_forall {X : Op → Bool} {js : List (Job σ Op)} {pos : ℕ → ℕ}
    (h : ∀ j, pos j = 0) : ran X js pos = 0 := by
  rw [show pos = fun _ => 0 from funext h, ran_start]

/-- A party that has begun nothing after job k has run no more than the jobs before it, and the
part of job k that it has come to. -/
theorem ran_le {X : Op → Bool} {js : List (Job σ Op)} {pos : ℕ → ℕ} {k : ℕ}
    (hlater : ∀ j, k < j → pos j = 0) :
    ran X js pos ≤ total X (js.take k) + ((opsAt js k).take (pos k)).countP X := by
  induction js generalizing pos k with
  | nil => simp [ran]
  | cons j js ih =>
    cases k with
    | zero =>
      have hrest : ran X js (fun i => pos (i + 1)) = 0 :=
        ran_zero_of_forall fun i => hlater (i + 1) (Nat.succ_pos i)
      simp [ran, hrest, total]
    | succ k =>
      have htail := @ih (fun i => pos (i + 1)) k fun i hi => hlater (i + 1) (by omega)
      have hhead : (j.ops.take (pos 0)).countP X ≤ j.ops.countP X :=
        (List.take_sublist _ _).countP_le
      simp only [ran, List.take_succ_cons, total_cons, opsAt_succ]
      omega

/-- A party that is through with all jobs before job k has run at least those. -/
theorem le_ran {X : Op → Bool} {js : List (Job σ Op)} {pos : ℕ → ℕ} {k : ℕ}
    (hearlier : ∀ j, j < k → (opsAt js j).length ≤ pos j) :
    total X (js.take k) + ((opsAt js k).take (pos k)).countP X ≤ ran X js pos := by
  induction js generalizing pos k with
  | nil => simp [ran, total, opsAt]
  | cons j js ih =>
    cases k with
    | zero => simp [ran, total]
    | succ k =>
      have htail := @ih (fun i => pos (i + 1)) k fun i hi => by
        simpa using hearlier (i + 1) (by omega)
      have hhead : j.ops.take (pos 0) = j.ops :=
        List.take_of_length_le (by simpa using hearlier 0 (Nat.succ_pos k))
      simp only [ran, List.take_succ_cons, total_cons, opsAt_succ, hhead]
      omega

/-- Equally many of a kind in every job, equally many in the first k jobs. -/
theorem total_take_congr {X Y : Op → Bool} {js js' : List (Job σ Op)}
    (h : ∀ k, (opsAt js k).countP X = (opsAt js' k).countP Y) (k : ℕ) :
    total X (js.take k) = total Y (js'.take k) := by
  induction k generalizing js js' with
  | zero => simp [total]
  | succ k ih =>
    have hsucc := fun i => h (i + 1)
    have hzero := h 0
    cases js with
    | nil =>
      cases js' with
      | nil => simp [total]
      | cons j' js' =>
        have htail := @ih [] js' (by simpa [opsAt] using hsucc)
        simp only [List.take_nil] at htail
        simp only [List.take_nil, List.take_succ_cons, total_cons, ← htail]
        simpa [opsAt, total] using hzero
    | cons j js =>
      cases js' with
      | nil =>
        have htail := @ih js [] (by simpa [opsAt] using hsucc)
        simp only [List.take_nil] at htail
        simp only [List.take_nil, List.take_succ_cons, total_cons, htail]
        simpa [opsAt, total] using hzero
      | cons j' js' =>
        simp only [List.take_succ_cons, total_cons, @ih js js' (by simpa using hsucc)]
        simpa using hzero

section
variable [DecidableEq ρ]

/-- The count of one party after a step. -/
theorem ran_advance {D : Device Op Mem} {jobs : ρ → List (Job σ Op)} {p : Progress ρ Mem} {r : ρ}
    {k : ℕ} {op : Op} (h : (opsAt (jobs r) k)[p.pos r k]? = some op) (X : Op → Bool) (q : ρ) :
    ran X (jobs q) ((p.advance D r k op).pos q) =
      ran X (jobs q) (p.pos q) + if q = r ∧ X op then 1 else 0 := by
  by_cases hq : q = r
  · subst hq
    simp [Progress.advance, ran_update h]
  · simp [Progress.advance, hq]

end
end MultiGpuTransport.Streams
