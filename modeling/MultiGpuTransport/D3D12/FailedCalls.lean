import MultiGpuTransport.D3D12.StreamChange

/-!
# Calls that fail part-way

A native step that fails ends its call, but not what was enqueued before it, and the epoch stays
taken. The ranks then disagree on which signals an epoch has. The waits compare with ≥, so a
later call's signal can stand in for a missing one. What follows is safe only as long as the
rank that enqueued less enqueues nothing later that the other rank could mistake.
-/
namespace MultiGpuTransport.D3D12
open Streams Transition

/-- What failed calls must not do to others: a call that returned never yields another sum than
its own, no fence goes back. -/
structure FaultSafe {pair : Pair} {η : Type} [DecidableEq η] (addValues : AddValues)
    (cs : List (Collective pair)) (returned : Returns)
    (S : System (HostConfig η (Rank × StreamId) Op Mem)) : Prop where
  sums : ∀ c, S.Reachable c → ∀ r i col ref bytes, cs[i]? = some col → returned r i ref →
    ref.read c.mem r = some bytes → bytes = col.sum addValues r
  fences : ∀ c, S.Reachable c → ∀ r, (c.mem.fence r).Nondecreasing

section
variable {pair : Pair} {cs : List (Collective pair)} {addValues : AddValues}

/-- How many of its six operations rank r enqueues in call k. -/
def steps (cs : List (Collective pair)) (r : Rank) (k : ℕ) : ℕ :=
  ((moving cs)[k]?.map fun col => enqueuedBy (col.call r).fault).getD 0

/-- Whenever one rank enqueues its consumed signal of a call in which the other fails, the other
fails in all later calls before their ready signal; and before their copy, if the first rank's
call returned and the other's had come past its own ready signal. -/
structure FailuresContained (cs : List (Collective pair)) : Prop where
  signalled : ∀ r k j, k < j → 5 ≤ steps cs r k → steps cs r.peer k ≤ 5 → steps cs r.peer j ≤ 1
  returned : ∀ r k j, k < j → steps cs r k = 6 → 2 ≤ steps cs r.peer k → steps cs r.peer k ≤ 5 →
    steps cs r.peer j = 0

theorem enqueuedBy_le (fault : Option (Fault NativeStep)) : enqueuedBy fault ≤ 6 := by
  rcases fault with _ | ⟨step, _⟩
  · rfl
  · cases step <;> simp [enqueuedBy, NativeStep.enqueuedBefore]

theorem steps_le (r : Rank) (k : ℕ) : steps cs r k ≤ 6 := by
  rw [steps]
  cases (moving cs)[k]? with
  | none => exact Nat.zero_le _
  | some col => exact enqueuedBy_le _

theorem steps_of_moving {r : Rank} {k : ℕ} {col : Collective pair}
    (h : (moving cs)[k]? = some col) : steps cs r k = enqueuedBy (col.call r).fault := by
  simp [steps, h]

theorem length_opsAt (r : Rank) (k : ℕ) : (opsAt (jobs cs r) k).length = steps cs r k := by
  cases h : (moving cs)[k]? with
  | none => simp [opsAt, jobs_getElem?, steps, h]
  | some col =>
    rw [opsAt_jobs h, steps_of_moving h, job, List.length_take]
    exact Nat.min_eq_left (enqueuedBy_le _)

theorem steps_of_length_le {r : Rank} {k : ℕ} (h : (moving cs).length ≤ k) : steps cs r k = 0 := by
  simp [steps, List.getElem?_eq_none h]

/-- Failures in the last call of a run do no harm. -/
theorem failuresContained_of_last (h : ∀ r k, k + 1 < (moving cs).length → steps cs r k = 6) :
    FailuresContained cs := by
  have hlast : ∀ r k, steps cs r k ≤ 5 → (moving cs).length ≤ k + 1 := fun r k hle => by
    by_contra hlt
    have := h r k (by omega)
    omega
  constructor
  · intro r k j hkj _ hfew
    rw [steps_of_length_le (Nat.le_trans (hlast _ k hfew) hkj)]
    exact Nat.zero_le 1
  · intro r k j hkj _ _ hfew
    exact steps_of_length_le (Nat.le_trans (hlast _ k hfew) hkj)

variable {p : Progress Rank Mem} {r : Rank} {s : StreamId} {k : ℕ} {op : Op} {m : Mem}

/-- The next operation is one of the six of its call. -/
theorem next_sixSteps (hn : Next s (jobs cs r) (p.pos r) k op) :
    ∃ col, (moving cs)[k]? = some col ∧ p.pos r k < steps cs r k ∧
      (sixSteps r (k + 1) (col.call r).tensor)[p.pos r k]? = some op := by
  obtain ⟨col, hcol⟩ := moving_of_opsAt hn.op_eq
  have hlt := (List.getElem?_eq_some_iff.mp hn.op_eq).1
  have hop := hn.op_eq
  rw [length_opsAt] at hlt
  rw [opsAt_jobs hcol, job, List.getElem?_take, if_pos (steps_of_moving hcol ▸ hlt)] at hop
  exact ⟨col, hcol, hlt, hop⟩

/-- A call that has begun has all earlier calls of its rank behind it. -/
theorem pos_eq_steps (hss : SingleStream cs)
    (hp : (progress (device addValues) (jobs cs) m).Reachable p) {j : ℕ} (hjk : j < k)
    (hk : 0 < p.pos r k) : p.pos r j = steps cs r j := by
  rw [← length_opsAt]
  exact begun_after (hss.oneStream r) hp hjk hk

variable (addValues) in
/-- The invariant of all runs with failing calls. A value in a fence was stored by its owner's
ready signal or by the peer's consumed signal, and a wait that was passed had such a signal. -/
structure FaultInv (cs : List (Collective pair)) (p : Progress Rank Mem) : Prop where
  stored : ∀ r, ∀ v ∈ (p.mem.fence r).stored,
    (∃ j, v = j * 2 + 1 ∧ 2 ≤ p.pos r j) ∨ ∃ i, v = i * 2 + 2 ∧ 5 ≤ p.pos r.peer i
  ready : ∀ r i, 3 ≤ p.pos r i → ∃ j, i ≤ j ∧ 2 ≤ p.pos r.peer j
  consumed : ∀ r i, 6 ≤ p.pos r i → ∃ j, i ≤ j ∧ 5 ≤ p.pos r.peer j
  sorted : ∀ r, (p.mem.fence r).Nondecreasing
  heap : ∀ r i col, (moving cs)[i]? = some col → 0 < p.pos r i → (∀ j, i < j → p.pos r j = 0) →
    (col.call r).tensor.data <+: p.mem.heap r
  output : ∀ r i col bytes, (moving cs)[i]? = some col → (col.call r).fault = none →
    p.mem.output r (i + 1) = some bytes → bytes = col.sum addValues r

theorem FaultInv.start (heap : Rank → Bytes) :
    FaultInv addValues cs ⟨fun _ _ => 0, Mem.start heap⟩ where
  stored r v hv := absurd hv (by simp [Mem.start, Timeline.zero])
  ready r i h := absurd h (by simp)
  consumed r i h := absurd h (by simp)
  sorted r := Timeline.nondecreasing_zero
  heap r i col _ h := absurd h (by simp)
  output r i col bytes _ _ h := by simp [Mem.start] at h

theorem advance_pos_self (D : Device Op Mem) : (p.advance D r k op).pos r k = p.pos r k + 1 := by
  simp [Progress.advance_pos]

/-- A step that passes a wait has the signal for it, and the signals for waits passed before stay. -/
theorem signalled_after_advance {n count : ℕ}
    (hold : ∀ q i, n + 1 ≤ p.pos q i → ∃ j, i ≤ j ∧ count ≤ p.pos q.peer j)
    (hnew : p.pos r k = n → ∃ j, k ≤ j ∧ count ≤ p.pos r.peer j) (D : Device Op Mem) (q : Rank)
    (i : ℕ) (h : n + 1 ≤ (p.advance D r k op).pos q i) :
    ∃ j, i ≤ j ∧ count ≤ (p.advance D r k op).pos q.peer j := by
  have hbefore : ∃ j, i ≤ j ∧ count ≤ p.pos q.peer j := by
    by_cases hq : n + 1 ≤ p.pos q i
    · exact hold q i hq
    · rw [Progress.advance_pos] at h
      split_ifs at h with heq
      · obtain ⟨rfl, rfl⟩ := heq
        exact hnew (by omega)
      · exact absurd h hq
  obtain ⟨j, hj, hle⟩ := hbefore
  exact ⟨j, hj, Nat.le_trans hle (Progress.le_advance_pos _ _ _ _ _ _ _)⟩

/-- One operation of rank r, by what it does: a wait it passes has its signal, a value it stores
is no less than those before, a copy changes its heap, an add gives the right sum. -/
theorem FaultInv.advance (inv : FaultInv addValues cs p)
    (hlater : ∀ j, k < j → p.pos r j = 0)
    (hready : p.pos r k = 2 → ∃ j, k ≤ j ∧ 2 ≤ p.pos r.peer j)
    (hconsumed : p.pos r k = 5 → ∃ j, k ≤ j ∧ 5 ≤ p.pos r.peer j)
    (hfence : ∀ q, (op.run addValues p.mem).fence q = p.mem.fence q ∨
      ∃ v, (op.run addValues p.mem).fence q = (p.mem.fence q).set v ∧
        (q = r ∧ v = k * 2 + 1 ∧ 1 ≤ p.pos r k ∨ q = r.peer ∧ v = k * 2 + 2 ∧ 4 ≤ p.pos r k) ∧
        ∀ w ∈ (p.mem.fence q).stored, w ≤ v)
    (hheap : ∀ q, (op.run addValues p.mem).heap q = p.mem.heap q ∧ (q = r → 0 < p.pos r k) ∨
      q = r ∧ ∀ col, (moving cs)[k]? = some col →
        (col.call r).tensor.data <+: (op.run addValues p.mem).heap r)
    (houtput : ∀ q i bytes, (op.run addValues p.mem).output q (i + 1) = some bytes →
      p.mem.output q (i + 1) = some bytes ∨ q = r ∧ i = k ∧ ∀ col, (moving cs)[k]? = some col →
        (col.call r).fault = none → bytes = col.sum addValues r) :
    FaultInv addValues cs (p.advance (device addValues) r k op) where
  stored q v hv := by
    have keep : ∀ w ∈ (p.mem.fence q).stored,
        (∃ j, w = j * 2 + 1 ∧ 2 ≤ (p.advance (device addValues) r k op).pos q j) ∨
          ∃ i, w = i * 2 + 2 ∧ 5 ≤ (p.advance (device addValues) r k op).pos q.peer i := by
      intro w hw
      refine (inv.stored q w hw).imp ?_ ?_ <;> rintro ⟨j, hj, hle⟩ <;>
        exact ⟨j, hj, Nat.le_trans hle (Progress.le_advance_pos _ _ _ _ _ _ _)⟩
    change v ∈ ((op.run addValues p.mem).fence q).stored at hv
    rcases hfence q with h | ⟨w, h, hcase, _⟩
    · exact keep v (h ▸ hv)
    · rw [h, Timeline.set, List.mem_append, List.mem_singleton] at hv
      rcases hv with hv | rfl
      · exact keep v hv
      · rcases hcase with ⟨rfl, rfl, hle⟩ | ⟨rfl, rfl, hle⟩
        · exact .inl ⟨k, rfl, by rw [advance_pos_self]; omega⟩
        · exact .inr ⟨k, rfl, by rw [Rank.peer_peer, advance_pos_self]; omega⟩
  ready := signalled_after_advance inv.ready hready (device addValues)
  consumed := signalled_after_advance inv.consumed hconsumed (device addValues)
  sorted q := by
    change ((op.run addValues p.mem).fence q).Nondecreasing
    rcases hfence q with h | ⟨w, h, _, hle⟩
    · exact h ▸ inv.sorted q
    · exact h ▸ (inv.sorted q).set hle
  heap q i col hcol hbegun hlast := by
    have hlast' : ∀ j, i < j → p.pos q j = 0 := fun j hj =>
      Nat.le_zero.mp (hlast j hj ▸ Progress.le_advance_pos _ _ _ _ _ _ _)
    change (col.call q).tensor.data <+: (op.run addValues p.mem).heap q
    rw [Progress.advance_pos] at hbegun
    rcases hheap q with ⟨h, hpos⟩ | ⟨rfl, hnew⟩
    · rw [h]
      refine inv.heap q i col hcol ?_ hlast'
      split_ifs at hbegun with heq
      · obtain ⟨rfl, rfl⟩ := heq
        exact hpos rfl
      · exact hbegun
    · -- Call i has begun and nothing after it, so i is the call that copied.
      have hki : ¬ i < k := fun hlt => by
        have := hlast k hlt
        rw [advance_pos_self] at this
        omega
      have hik : i = k := by
        by_contra hne
        rw [if_neg (by simp [hne]), hlater i (by omega)] at hbegun
        omega
      subst hik
      exact hnew col hcol
  output q i col bytes hcol hfault hout := by
    rcases houtput q i bytes hout with h | ⟨rfl, rfl, hnew⟩
    · exact inv.output q i col bytes hcol hfault h
    · exact hnew col hcol hfault

/-- A ready wait passes on the ready signal of its own call or of a later one. -/
theorem FaultInv.ready_of_wait (inv : FaultInv addValues cs p) (hlater : ∀ j, k < j → p.pos r j = 0)
    (hpos : p.pos r k = 2) (hwait : (k + 1) * 2 - 1 ≤ (p.mem.fence r.peer).value) :
    ∃ j, k ≤ j ∧ 2 ≤ p.pos r.peer j := by
  rcases inv.stored r.peer _ ((p.mem.fence r.peer).value_mem (by omega)) with
    ⟨j, hv, hj⟩ | ⟨i, hv, hi⟩
  · exact ⟨j, by omega, hj⟩
  · rw [Rank.peer_peer] at hi
    rcases Nat.lt_or_ge k i with hki | hik
    · rw [hlater i hki] at hi
      omega
    · obtain rfl : i = k := by omega
      omega

/-- A consumed wait passes on the consumed signal of its own call or of a later one. -/
theorem FaultInv.consumed_of_wait (inv : FaultInv addValues cs p)
    (hlater : ∀ j, k < j → p.pos r j = 0) (hwait : (k + 1) * 2 ≤ (p.mem.fence r).value) :
    ∃ j, k ≤ j ∧ 5 ≤ p.pos r.peer j := by
  rcases inv.stored r _ ((p.mem.fence r).value_mem (by omega)) with ⟨j, hv, hj⟩ | ⟨i, hv, hi⟩
  · rw [hlater j (by omega)] at hj
    omega
  · exact ⟨i, by omega, hi⟩

/-- When a ready signal is next, everything its fence holds comes from earlier calls. -/
theorem FaultInv.stored_le_ready (inv : FaultInv addValues cs p)
    (hlater : ∀ j, k < j → p.pos r j = 0) (hpos : p.pos r k = 1) :
    ∀ w ∈ (p.mem.fence r).stored, w ≤ k * 2 + 1 := by
  have own : ∀ j, 2 ≤ p.pos r j → j < k := by
    intro j hj
    rcases Nat.lt_trichotomy j k with h | rfl | h
    · exact h
    · omega
    · rw [hlater j h] at hj
      omega
  intro w hw
  rcases inv.stored r w hw with ⟨j, rfl, hj⟩ | ⟨i, rfl, hi⟩
  · have := own j hj
    omega
  · obtain ⟨j, hij, hj⟩ := inv.ready r.peer i (by omega)
    have := own j (by simpa using hj)
    omega

section
variable (hss : SingleStream cs) (hp : (progress (device addValues) (jobs cs) m).Reachable p)
  (inv : FaultInv addValues cs p) (hlater : ∀ j, k < j → p.pos r j = 0)
include hss hp inv hlater

/-- A peer that enqueued all of call k stays there until this rank's consumed signal of it. -/
theorem peer_not_begun (hpos : p.pos r k < 5) (hfull : 5 < steps cs r.peer k) {j : ℕ} (hj : k < j) :
    p.pos r.peer j = 0 := by
  by_contra hne
  have hk := pos_eq_steps hss hp hj (Nat.pos_of_ne_zero hne)
  obtain ⟨i, hki, hi⟩ := inv.consumed r.peer k (by omega)
  rw [Rank.peer_peer] at hi
  rcases Nat.lt_or_ge k i with h | h
  · rw [hlater i h] at hi
    omega
  · obtain rfl : i = k := by omega
    omega

/-- When a consumed signal is next, its fence holds nothing from later calls. -/
theorem stored_le_consumed (hcond : FailuresContained cs) (hpos : p.pos r k = 4)
    (hlt : p.pos r k < steps cs r k) : ∀ w ∈ (p.mem.fence r.peer).stored, w ≤ k * 2 + 2 := by
  intro w hw
  rcases inv.stored r.peer w hw with ⟨j, rfl, hj⟩ | ⟨i, rfl, hi⟩
  · suffices hjk : j ≤ k by omega
    by_contra hkj
    rcases Nat.lt_or_ge 5 (steps cs r.peer k) with hfull | hfew
    · have := peer_not_begun hss hp inv hlater (by omega) hfull (Nat.lt_of_not_le hkj)
      omega
    · have hsteps := hcond.signalled r k j (by omega) (by omega) hfew
      have hle := pos_le hp r.peer j
      rw [length_opsAt] at hle
      omega
  · rw [Rank.peer_peer] at hi
    suffices hik : i ≤ k by omega
    by_contra hki
    rw [hlater i (by omega)] at hi
    omega

/-- When the add of a call that will return is next, the peer's heap holds the payload of the same
call. -/
theorem peer_heap_of_add (hcond : FailuresContained cs) {col : Collective pair}
    (hcol : (moving cs)[k]? = some col) (hpos : p.pos r k = 3) (hret : steps cs r k = 6) :
    (col.call r.peer).tensor.data <+: p.mem.heap r.peer := by
  obtain ⟨j, hkj, hj⟩ := inv.ready r k (by omega)
  have hle : ∀ j, p.pos r.peer j ≤ steps cs r.peer j := fun j =>
    length_opsAt r.peer j ▸ pos_le hp r.peer j
  rcases Nat.lt_or_ge 5 (steps cs r.peer k) with hfull | hfew
  · have hnone : ∀ i, k < i → p.pos r.peer i = 0 := fun i hi =>
      peer_not_begun hss hp inv hlater (by omega) hfull hi
    refine inv.heap r.peer k col hcol ?_ hnone
    rcases Nat.lt_or_ge k j with h | h
    · have := hnone j h
      omega
    · obtain rfl : j = k := by omega
      omega
  · obtain rfl : j = k := by
      by_contra hne
      have := hcond.signalled r k j (by omega) (by omega) hfew
      have := hle j
      omega
    refine inv.heap r.peer j col hcol (by omega) fun i hi => ?_
    have := hcond.returned r j i hi hret (Nat.le_trans hj (hle j)) hfew
    have := hle i
    omega

end

/-- The step lemma: whatever operation of whatever call comes next, the invariant is kept. -/
theorem FaultInv.step (hss : SingleStream cs) (hcond : FailuresContained cs)
    (hp : (progress (device addValues) (jobs cs) m).Reachable p) (inv : FaultInv addValues cs p)
    (hn : Next s (jobs cs r) (p.pos r) k op) (hr : op.ready p.mem) :
    FaultInv addValues cs (p.advance (device addValues) r k op) := by
  obtain ⟨col, hcol, hlt, hop⟩ := next_sixSteps hn
  have hlater : ∀ j, k < j → p.pos r j = 0 := fun j hj => not_begun_of_next (hss.oneStream r) hp hn hj
  have hlt6 : p.pos r k < 6 := Nat.lt_of_lt_of_le hlt (steps_le r k)
  generalize hj : p.pos r k = j at hop hlt6
  match j, hlt6 with
  | 0, _ =>
    cases hop
    refine inv.advance hlater (by omega) (by omega) (fun q => .inl rfl) (fun q => ?_)
      fun q i bytes h => .inl h
    rcases Rank.eq_or_eq_peer q r with rfl | rfl
    · refine .inr ⟨rfl, fun col' hcol' => ?_⟩
      obtain rfl : col = col' := by simpa using hcol.symm.trans hcol'
      simpa [Op.run] using copyKernel_prefix _ _
    · exact .inl (by simp [Op.run])
  | 1, _ =>
    cases hop
    refine inv.advance hlater (by omega) (by omega) (fun q => ?_)
      (fun q => .inl ⟨rfl, fun _ => by omega⟩) fun q i bytes h => .inl h
    rcases Rank.eq_or_eq_peer q r with rfl | rfl
    · exact .inr ⟨k * 2 + 1, by simp [Op.run]; congr 1; omega, .inl ⟨rfl, rfl, by omega⟩,
        inv.stored_le_ready hlater hj⟩
    · exact .inl (by simp [Op.run])
  | 2, _ =>
    cases hop
    exact inv.advance hlater (fun _ => inv.ready_of_wait hlater hj hr) (by omega)
      (fun q => .inl rfl) (fun q => .inl ⟨rfl, fun _ => by omega⟩) fun q i bytes h => .inl h
  | 3, _ =>
    cases hop
    refine inv.advance hlater (by omega) (by omega) (fun q => .inl rfl)
      (fun q => .inl ⟨rfl, fun _ => by omega⟩) fun q i bytes h => ?_
    by_cases hqi : q = r ∧ i = k
    · obtain ⟨rfl, rfl⟩ := hqi
      refine .inr ⟨rfl, rfl, fun col' hcol' hfault => ?_⟩
      obtain rfl : col = col' := by simpa using hcol.symm.trans hcol'
      have hret : steps cs q i = 6 := by rw [steps_of_moving hcol, hfault]; rfl
      have hheap := peer_heap_of_add hss hp inv hlater hcond hcol hj hret
      have hlen : (col.call q.peer).tensor.data.length =
          (col.call q).tensor.numel * (col.call q).tensor.dtype.elementSize := by
        rw [Tensor.data_length, ← (col.sameShape q).sizeBytes]
        rfl
      simpa [Op.run, addKernel_prefix addValues _ _ hheap hlen, Collective.sum, Tensor.sum,
        eq_comm] using h
    · refine .inl ?_
      rcases Rank.eq_or_eq_peer q r with rfl | rfl
      · simpa [Op.run, show i ≠ k from fun h => hqi ⟨rfl, h⟩] using h
      · simpa [Op.run] using h
  | 4, _ =>
    cases hop
    refine inv.advance hlater (by omega) (by omega) (fun q => ?_)
      (fun q => .inl ⟨rfl, fun _ => by omega⟩) fun q i bytes h => .inl h
    rcases Rank.eq_or_eq_peer q r with rfl | rfl
    · exact .inl (by simp [Op.run])
    · exact .inr ⟨k * 2 + 2, by simp [Op.run]; congr 1; omega, .inr ⟨rfl, rfl, by omega⟩,
        stored_le_consumed hss hp inv hlater hcond hj hlt⟩
  | 5, _ =>
    cases hop
    exact inv.advance hlater (by omega) (fun _ => inv.consumed_of_wait hlater hr)
      (fun q => .inl rfl) (fun q => .inl ⟨rfl, fun _ => by omega⟩) fun q i bytes h => .inl h

/-- The run lemma for calls that may fail. -/
theorem reachable_faultInv (hss : SingleStream cs) (hcond : FailuresContained cs)
    {heap : Rank → Bytes}
    (hp : (progress (device addValues) (jobs cs) (.start heap)).Reachable p) :
    FaultInv addValues cs p := by
  refine System.Reachable.invariant ?_ ?_ hp
  · rintro _ rfl
    exact FaultInv.start heap
  · rintro p _ hp inv ⟨hn, hr⟩
    exact inv.step hss hcond hp hn hr

/-- In every run whose failures are contained, each call that returned gets the sum of its own
payloads and the fences only go up. -/
theorem allReduce_failedCalls_safe (addValues : AddValues) (heap : Rank → Bytes) (pair : Pair)
    (cs : List (Collective pair)) (hss : SingleStream cs) (hcond : FailuresContained cs) :
    FaultSafe addValues cs (pythonReturns pair cs) (pythonSystem addValues pair cs heap) where
  sums c hc r i col ref bytes hcol hr hread := by
    obtain ⟨p, hf⟩ := (program_realizes pair cs).follows hc
    have inv := reachable_faultInv hss hcond hf.reachable
    obtain ⟨col', hcol', ⟨hm, rfl⟩ | ⟨k, rfl, hk, hfault⟩⟩ := makeCalls_result cs r _ i ref hr
    · obtain rfl : col = col' := by simpa using hcol.symm.trans hcol'
      rw [Collective.sum_of_not_moves hm]
      simpa [TensorRef.read, eq_comm] using hread
    · obtain rfl : col = col' := by simpa using hcol.symm.trans hcol'
      refine inv.output r k col bytes hk hfault ?_
      simpa [TensorRef.read, hf.mem_eq] using hread
  fences c hc r := by
    obtain ⟨p, hf⟩ := (program_realizes pair cs).follows hc
    exact hf.mem_eq ▸ (reachable_faultInv hss hcond hf.reachable).sorted r

end

/-- Rank 0 fails to launch the add of its second and last call. -/
def lastCallFails : List (Collective samplePair) :=
  [sampleCollective (fun _ => 1) (fun _ => 7) (fun _ => none),
   sampleCollective (fun _ => 2) (fun _ => 7)
    (fun r => if r = .zero then some ⟨.addAsync, "719"⟩ else none)]

theorem allReduce_failedCalls_safe_sample :
    SingleStream lastCallFails ∧ FailuresContained lastCallFails ∧
      FaultSafe addBytes lastCallFails (pythonReturns samplePair lastCallFails)
        (pythonSystem addBytes samplePair lastCallFails fun _ => [0, 0, 0, 0]) := by
  have hstream : ∀ col ∈ moving lastCallFails, ∀ r, (col.call r).stream = 7 := by
    intro col hcol r
    have hmem := List.mem_of_mem_filter hcol
    simp only [lastCallFails, List.mem_cons, List.not_mem_nil, or_false] at hmem
    rcases hmem with rfl | rfl <;> rfl
  have hss : SingleStream lastCallFails := fun r col hcol col' hcol' =>
    (hstream col hcol r).trans (hstream col' hcol' r).symm
  have hcond : FailuresContained lastCallFails := by
    refine failuresContained_of_last fun r k hk => ?_
    have hlen : (moving lastCallFails).length = 2 := by decide +kernel
    obtain rfl : k = 0 := by omega
    cases r <;> decide +kernel
  exact ⟨hss, hcond, allReduce_failedCalls_safe addBytes _ samplePair lastCallFails hss hcond⟩

/-- Rank 0 fails to launch the copy of its first call and succeeds with its second. -/
def firstCopyFails : List (Collective samplePair) :=
  [sampleCollective (fun _ => 1) (fun _ => 7)
    (fun r => if r = .zero then some ⟨.copyAsync, "719"⟩ else none),
   sampleCollective (fun _ => 2) (fun _ => 7) (fun _ => none)]

/-- Rank 0 publishes its second payload, and rank 1's first wait passes on that. -/
def firstCopyFailsRun : List (Turn Rank (Rank × StreamId)) :=
  List.replicate 6 (.host .zero) ++ List.replicate 12 (.host .one) ++
    List.replicate 2 (.stream (.zero, 7)) ++ List.replicate 4 (.stream (.one, 7))

/-- Rank 1's first call returned, and gets 1 + 2: the sum with a payload of the second. -/
theorem firstCopyFails_unsafe : SingleStream firstCopyFails ∧
    ¬ FaultSafe addBytes firstCopyFails (pythonReturns samplePair firstCopyFails)
      (pythonSystem addBytes samplePair firstCopyFails fun _ => [0, 0, 0, 0]) := by
  constructor
  · have hstream : ∀ col ∈ moving firstCopyFails, ∀ r, (col.call r).stream = 7 := by
      intro col hcol r
      have hmem := List.mem_of_mem_filter hcol
      simp only [firstCopyFails, List.mem_cons, List.not_mem_nil, or_false] at hmem
      rcases hmem with rfl | rfl <;> rfl
    exact fun r col hcol col' hcol' => (hstream col hcol r).trans (hstream col' hcol' r).symm
  · intro safe
    have hrun : ((HostConfig.start (program samplePair firstCopyFails) (.start fun _ =>
        [0, 0, 0, 0])).turns (device addBytes) firstCopyFailsRun).map
          (fun c => c.mem.output .one 1) = some (some [3, 0, 0, 0]) := by decide +kernel
    obtain ⟨c, hc, hout⟩ := Option.map_eq_some_iff.mp hrun
    have hsum := safe.sums c (reachable_turns (.init rfl) hc) .one 0 _ (.output 1) _ rfl
      (by unfold pythonReturns; decide +kernel) hout
    revert hsum
    decide +kernel

end MultiGpuTransport.D3D12
