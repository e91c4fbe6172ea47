import Mathlib.Tactic.IntervalCases
import MultiGpuTransport.Bridge.Transfer
import MultiGpuTransport.Lib.Runs

/-!
# The protocol of the bridge

The calls that take an epoch leave a job on a source stream and a job on the default stream of the
destination. On one source stream the copy of a call waits for the destination to have read the call
before, unless that failed in its very last step: then nothing waits.
-/
namespace MultiGpuTransport.Bridge
open Streams Transition

/-! ### The jobs of the two sides -/

/-- How many of the first n of the six operations are on a side. -/
def Side.count : Side → ℕ → ℕ
  | creator, n => min n 2 + (n - 5)
  | opener, n => min (n - 2) 3

def Side.stream : Side → Call NativeStep → StreamId
  | creator, call => call.stream
  | opener, _ => defaultStream

/-- The operations of the k-th call on a side, were none of its steps to fail. -/
def Side.ops : Side → ℕ → Call NativeStep → List Op
  | creator, k, call => [.copyToHeap call.tensor.data, .signal (k * 2 + 1), .wait (k * 2 + 2)]
  | opener, k, call =>
    [.wait (k * 2 + 1), .copyFromHeap (k + 1) call.tensor.sizeBytes, .signal (k * 2 + 2)]

def Side.job (side : Side) (b : Call NativeStep × ℕ) : Job StreamId Op where
  stream := side.stream b.1
  ops := (side.ops b.2 b.1).take (side.count (enqueuedBy b.1.fault))

def jobs (ms : List (Call NativeStep)) (side : Side) : List (Job StreamId Op) :=
  ms.zipIdx.map side.job

/-- What a call enqueues, side by side. -/
theorem filterMap_items (b : Call NativeStep × ℕ) (side : Side) (s : StreamId) :
    (items b).filterMap (fun e => if e.1 = (side, s) then some e.2 else none) =
      if side.stream b.1 = s then (side.job b).ops else [] := by
  obtain ⟨call, k⟩ := b
  have hready : (k + 1) * 2 - 1 = k * 2 + 1 := by omega
  have hconsumed : (k + 1) * 2 = k * 2 + 2 := by omega
  simp only [items, Side.job, sixSteps, hready]
  simp only [hconsumed]
  have hle := enqueuedBy_le call.fault
  generalize enqueuedBy call.fault = n at hle
  interval_cases n <;> cases side <;>
    simp [Side.ops, Side.count, Side.stream, List.filterMap_cons] <;> split_ifs <;> rfl

theorem program_eq (bridge : D3D12TensorBridge) (calls : List (Call NativeStep)) :
    program bridge calls =
      ((moving bridge calls).zipIdx.flatMap items).map fun e => .enqueue e.1 e.2 := by
  rw [program, hostRun, makeCalls_enqueued]
  rfl

theorem program_realizes (bridge : D3D12TensorBridge) (calls : List (Call NativeStep)) :
    Realizes (fun _ => ()) (fun _ => program bridge calls) (jobs (moving bridge calls)) := by
  rw [program_eq]
  exact realizes_oneHost fun b _ r s => filterMap_items b r s

theorem program_isEnqueue (bridge : D3D12TensorBridge) (calls : List (Call NativeStep)) :
    ∀ i ∈ program bridge calls, i.IsEnqueue := by
  intro i hi
  obtain ⟨e, -, rfl⟩ := List.mem_map.mp hi
  trivial

section
variable {ms : List (Call NativeStep)}

/-- How many of its six operations the k-th call enqueues. -/
def steps (ms : List (Call NativeStep)) (k : ℕ) : ℕ :=
  (ms[k]?.map fun call => enqueuedBy call.fault).getD 0

/-- All calls are made under one source stream. -/
def SingleStream (ms : List (Call NativeStep)) : Prop :=
  ∀ call ∈ ms, ∀ call' ∈ ms, call.stream = call'.stream

/-- After a call that failed in its last step, the wait on the source stream, every call fails
before its ready signal. -/
def LateFailuresLast (ms : List (Call NativeStep)) : Prop :=
  ∀ k j, k < j → steps ms k = 5 → steps ms j ≤ 1

theorem steps_eq {k : ℕ} {call : Call NativeStep} (h : ms[k]? = some call) :
    steps ms k = enqueuedBy call.fault := by
  simp [steps, h]

theorem steps_le (ms : List (Call NativeStep)) (k : ℕ) : steps ms k ≤ 6 := by
  rw [steps]
  cases ms[k]? with
  | none => exact Nat.zero_le _
  | some call => exact enqueuedBy_le _

theorem jobs_getElem? (side : Side) (k : ℕ) :
    (jobs ms side)[k]? = ms[k]?.map fun call => side.job (call, k) := by
  simp [jobs, Function.comp_def]

theorem opsAt_jobs {side : Side} {k : ℕ} {call : Call NativeStep} (h : ms[k]? = some call) :
    opsAt (jobs ms side) k = (side.ops k call).take (side.count (steps ms k)) := by
  simp [opsAt, jobs_getElem?, h, Side.job, steps_eq h]

theorem exists_call_of_op {side : Side} {k n : ℕ} {op : Op}
    (h : (opsAt (jobs ms side) k)[n]? = some op) : ∃ call, ms[k]? = some call := by
  cases hc : ms[k]? with
  | some call => exact ⟨call, rfl⟩
  | none => simp [opsAt, jobs_getElem?, hc] at h

theorem length_opsAt (ms : List (Call NativeStep)) (side : Side) (k : ℕ) :
    (opsAt (jobs ms side) k).length = side.count (steps ms k) := by
  cases h : ms[k]? with
  | none => cases side <;> simp [opsAt, jobs_getElem?, steps, h, Side.count]
  | some call =>
    have hle := steps_le ms k
    rw [opsAt_jobs h, List.length_take]
    cases side
    · simp [Side.ops, Side.count]
      omega
    · simp [Side.ops, Side.count]

theorem SingleStream.oneStream (h : SingleStream ms) (side : Side) : OneStream (jobs ms side) := by
  intro j k s t hs ht
  simp only [streamAt, jobs_getElem?, Option.map_map, Option.map_eq_some_iff] at hs ht
  obtain ⟨call, hcall, rfl⟩ := hs
  obtain ⟨call', hcall', rfl⟩ := ht
  cases side with
  | creator => exact h _ (List.mem_of_getElem? hcall) _ (List.mem_of_getElem? hcall')
  | opener => rfl

/-! ### The invariant -/

/-- A value in the fence was stored by a ready or by a consumed signal, and a wait that was passed
had the signal of its own call. -/
structure Inv (ms : List (Call NativeStep)) (p : Progress Side Mem) : Prop where
  ready : ∀ k, 1 ≤ p.pos .opener k → 2 ≤ p.pos .creator k
  consumed : ∀ k, 3 ≤ p.pos .creator k → 3 ≤ p.pos .opener k
  stored : ∀ v, v ∈ p.mem.fence.stored ↔
    (∃ k, v = k * 2 + 1 ∧ 2 ≤ p.pos .creator k) ∨ ∃ k, v = k * 2 + 2 ∧ 3 ≤ p.pos .opener k
  sorted : p.mem.fence.Nondecreasing
  heap : ∀ k call, ms[k]? = some call → 1 ≤ p.pos .creator k →
    (∀ j, k < j → ¬ 1 ≤ p.pos .creator j) → call.tensor.data <+: p.mem.heap
  output : ∀ k call, ms[k]? = some call → steps ms k = 6 →
    p.mem.output (k + 1) = if 2 ≤ p.pos .opener k then some call.tensor.data else none

theorem Inv.start (heap : Bytes) : Inv ms ⟨fun _ _ => 0, Mem.start heap⟩ where
  ready k h := absurd h (by simp)
  consumed k h := absurd h (by simp)
  stored v := by simp [Mem.start, Timeline.zero]
  sorted := Timeline.nondecreasing_zero
  heap k call _ h := absurd h (by simp)
  output k call _ _ := by simp [Mem.start]

variable {p : Progress Side Mem} {s : StreamId} {k : ℕ} {call : Call NativeStep}

theorem Inv.copyToHeap (inv : Inv ms p) (hcall : ms[k]? = some call) (hpos : p.pos .creator k = 0)
    (hlater : ∀ j, k < j → p.pos .creator j = 0) :
    Inv ms (p.advance device .creator k (.copyToHeap call.tensor.data)) where
  ready := by simpa [Progress.le_advance_pos_iff, hpos] using inv.ready
  consumed := by simpa [Progress.le_advance_pos_iff, hpos] using inv.consumed
  stored := by simpa [Progress.le_advance_pos_iff, hpos, Op.run] using inv.stored
  sorted := inv.sorted
  heap i call' hcall' hbegun hlast := by
    have hik : i = k := by
      simp only [Progress.le_advance_pos_iff, hpos, true_and, zero_add, and_true,
        not_or] at hbegun hlast
      refine hbegun.resolve_left fun hi => ?_
      rcases Nat.lt_trichotomy i k with h | rfl | h
      · exact (hlast k h).2 rfl
      · omega
      · have := hlater i h
        omega
    subst hik
    obtain rfl : call = call' := by simpa using hcall.symm.trans hcall'
    exact copyKernel_prefix _ _
  output := by simpa [Progress.le_advance_pos_iff, hpos, Op.run] using inv.output

/-- A step that is not a copy to the heap leaves what was copied last. -/
theorem Inv.heap_frame (inv : Inv ms p) {side : Side} {op : Op}
    (hpos : side = .creator → 1 ≤ p.pos .creator k) (hheap : (op.run p.mem).heap = p.mem.heap) (i : ℕ)
    (call' : Call NativeStep) (hcall' : ms[i]? = some call')
    (hbegun : 1 ≤ (p.advance device side k op).pos .creator i)
    (hlast : ∀ j, i < j → ¬ 1 ≤ (p.advance device side k op).pos .creator j) :
    call'.tensor.data <+: (op.run p.mem).heap := by
  have hiff : ∀ j, 1 ≤ (p.advance device side k op).pos .creator j ↔ 1 ≤ p.pos .creator j := by
    intro j
    rw [Progress.le_advance_pos_iff]
    refine or_iff_left fun h => ?_
    obtain ⟨rfl, rfl, h⟩ := h
    have := hpos rfl
    omega
  simp only [hiff] at hbegun hlast
  exact hheap ▸ inv.heap i call' hcall' hbegun hlast

theorem Inv.signalReady (inv : Inv ms p) (hpos : p.pos .creator k = 1)
    (hlater : ∀ j, k < j → p.pos .creator j = 0) :
    Inv ms (p.advance device .creator k (.signal (k * 2 + 1))) where
  ready i h := by
    simp only [Progress.le_advance_pos_iff, hpos, reduceCtorEq, false_and, or_false] at h ⊢
    exact .inl (inv.ready i h)
  consumed := by simpa [Progress.le_advance_pos_iff, hpos] using inv.consumed
  stored v := by
    simp only [Progress.advance_mem, device_run, Op.run, Timeline.mem_set, inv.stored,
      Progress.le_advance_pos_iff, hpos, true_and, reduceCtorEq, false_and, or_false, and_true,
      and_or_left, exists_or, exists_eq_right]
    exact or_right_comm
  sorted := by
    refine inv.sorted.set fun w hw => ?_
    -- what is stored already comes from calls before the k-th
    have hbefore : ∀ i, 2 ≤ p.pos .creator i → i < k := by
      intro i hi
      rcases Nat.lt_trichotomy i k with h | rfl | h
      · exact h
      · omega
      · have := hlater i h
        omega
    rcases (inv.stored w).mp hw with ⟨i, rfl, hi⟩ | ⟨i, rfl, hi⟩
    · have := hbefore i hi
      omega
    · have := hbefore i (inv.ready i (by omega))
      omega
  heap := inv.heap_frame (fun _ => by omega) rfl
  output := by simpa [Progress.le_advance_pos_iff, hpos, Op.run] using inv.output

theorem Inv.waitReady (inv : Inv ms p) (hpos : p.pos .opener k = 0) (hready : 2 ≤ p.pos .creator k) :
    Inv ms (p.advance device .opener k (.wait (k * 2 + 1))) where
  ready i h := by
    simp only [Progress.le_advance_pos_iff, hpos, true_and, zero_add, and_true, reduceCtorEq,
      false_and, or_false] at h ⊢
    rcases h with h | rfl
    · exact inv.ready i h
    · exact hready
  consumed := by simpa [Progress.le_advance_pos_iff, hpos] using inv.consumed
  stored := by simpa [Progress.le_advance_pos_iff, hpos, Op.run] using inv.stored
  sorted := inv.sorted
  heap := inv.heap_frame (by simp) rfl
  output := by simpa [Progress.le_advance_pos_iff, hpos, Op.run] using inv.output

theorem Inv.copyFromHeap (inv : Inv ms p) (hpos : p.pos .opener k = 1)
    (hheap : steps ms k = 6 → ∀ call, ms[k]? = some call →
      p.mem.heap.take call.tensor.sizeBytes = call.tensor.data) (hcall : ms[k]? = some call) :
    Inv ms (p.advance device .opener k (.copyFromHeap (k + 1) call.tensor.sizeBytes)) where
  ready i h := by
    simp only [Progress.le_advance_pos_iff, hpos, reduceCtorEq, false_and, or_false] at h ⊢
    exact inv.ready i (h.resolve_right (by simp))
  consumed := by simpa [Progress.le_advance_pos_iff, hpos] using inv.consumed
  stored := by simpa [Progress.le_advance_pos_iff, hpos, Op.run] using inv.stored
  sorted := inv.sorted
  heap := inv.heap_frame (by simp) rfl
  output i call' hcall' hsteps := by
    simp only [Progress.le_advance_pos_iff, hpos, Nat.reduceAdd, true_and, and_true,
      Progress.advance_mem, device_run, Op.run]
    by_cases hik : i = k
    · subst hik
      obtain rfl : call = call' := by simpa using hcall.symm.trans hcall'
      simp [hheap hsteps call hcall]
    · simp [hik, inv.output i call' hcall' hsteps]

theorem Inv.signalConsumed (inv : Inv ms p) (hpos : p.pos .opener k = 2)
    (hlater : ∀ j, k < j → p.pos .opener j = 0)
    (hnone : ∀ j, k < j → ¬ 2 ≤ p.pos .creator j) :
    Inv ms (p.advance device .opener k (.signal (k * 2 + 2))) where
  ready i h := by
    simp only [Progress.le_advance_pos_iff, hpos, reduceCtorEq, false_and, or_false] at h ⊢
    exact inv.ready i (h.resolve_right (by simp))
  consumed i h := by
    simp only [Progress.le_advance_pos_iff, reduceCtorEq, false_and, or_false] at h ⊢
    exact .inl (inv.consumed i h)
  stored v := by
    simp only [Progress.advance_mem, device_run, Op.run, Timeline.mem_set, inv.stored,
      Progress.le_advance_pos_iff, hpos, true_and, reduceCtorEq, false_and, or_false, and_true,
      and_or_left, exists_or, exists_eq_right]
    exact or_assoc
  sorted := by
    refine inv.sorted.set fun w hw => ?_
    rcases (inv.stored w).mp hw with ⟨i, rfl, hi⟩ | ⟨i, rfl, hi⟩
    · have : ¬ k < i := fun h => hnone i h hi
      omega
    · have : ¬ k < i := fun h => by
        have := hlater i h
        omega
      omega
  heap := inv.heap_frame (by simp) rfl
  output := by simpa [Progress.le_advance_pos_iff, hpos, Op.run] using inv.output

theorem Inv.waitConsumed (inv : Inv ms p) (hpos : p.pos .creator k = 2)
    (hconsumed : 3 ≤ p.pos .opener k) :
    Inv ms (p.advance device .creator k (.wait (k * 2 + 2))) where
  ready i h := by
    simp only [Progress.le_advance_pos_iff, hpos, reduceCtorEq, false_and, or_false] at h ⊢
    exact .inl (inv.ready i h)
  consumed i h := by
    simp only [Progress.le_advance_pos_iff, hpos, true_and, Nat.reduceAdd, and_true, reduceCtorEq,
      false_and, or_false] at h ⊢
    rcases h with h | rfl
    · exact inv.consumed i h
    · exact hconsumed
  stored := by simpa [Progress.le_advance_pos_iff, hpos, Op.run] using inv.stored
  sorted := inv.sorted
  heap := inv.heap_frame (fun _ => by omega) rfl
  output := by simpa [Progress.le_advance_pos_iff, hpos, Op.run] using inv.output

end
end MultiGpuTransport.Bridge
