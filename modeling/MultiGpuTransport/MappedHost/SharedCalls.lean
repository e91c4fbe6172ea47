import MultiGpuTransport.Lib.Counting
import MultiGpuTransport.Lib.Schedule
import MultiGpuTransport.MappedHost.StreamProtocol

/-!
# The calls of both ranks

Both ranks give a call the same number and the same path. With one stream per rank and no failing
step, each rank runs its calls one after the other, and at the barrier a rank waits for the set that its
peer has made in the same call.
-/
namespace MultiGpuTransport.MappedHost
open Streams Transition

/-- A collective past the checks, with the number and the path it has on both ranks. -/
structure SharedCall (pair : Pair) where
  number : ℕ
  route : Route
  col : Collective pair

namespace SharedCall
variable {pair : Pair}

def planned (sc : SharedCall pair) (r : Rank) : Planned := ⟨sc.number, sc.route, sc.col.call r⟩

/-- The call has bytes to move, on both ranks or on neither. -/
def Moves (sc : SharedCall pair) : Prop := (sc.col.call .zero).tensor.numel ≠ 0

instance (sc : SharedCall pair) : Decidable sc.Moves := by unfold Moves; infer_instance

/-- The copy is among the first n operations. -/
def Copied (sc : SharedCall pair) (n : ℕ) : Prop :=
  match sc.route with
  | .stream e => lead e < n
  | .barrier => 0 < n

/-- The operation that fills the output of rank r is among the first n. -/
def Filled (sc : SharedCall pair) (r : Rank) (n : ℕ) : Prop :=
  match sc.route with
  | .stream e => (sc.col.call r).tensor.numel ≠ 0 ∧ lead e + 4 ≤ n
  | .barrier => 5 ≤ n

instance (sc : SharedCall pair) (r : Rank) (n : ℕ) : Decidable (sc.Filled r n) := by
  unfold Filled
  cases sc.route <;> infer_instance

/-- The sum as the barrier path makes it, with the operands in the order of the ranks. -/
def rankSum (addValues : AddValues) (sc : SharedCall pair) : Bytes :=
  (sc.col.call .zero).tensor.sum addValues (sc.col.call .one).tensor

/-- What the path puts in the output of rank r. -/
def value (addValues : AddValues) (sc : SharedCall pair) (r : Rank) : Bytes :=
  match sc.route with
  | .stream _ => sc.col.sum addValues r
  | .barrier => sc.rankSum addValues

end SharedCall

/-- Bytes that are the elementwise sum of two tensors, in either order of the operands. -/
def IsSum (addValues : AddValues) (t u : Tensor) (bytes : Bytes) : Prop :=
  bytes = t.sum addValues u ∨ bytes = u.sum addValues t

section
variable {pair : Pair}

theorem SharedCall.isSum_value (addValues : AddValues) (sc : SharedCall pair) (r : Rank) :
    IsSum addValues (sc.col.call r).tensor (sc.col.call r.peer).tensor (sc.value addValues r) := by
  cases h : sc.route with
  | stream e => exact .inl (by simp [value, h, Collective.sum])
  | barrier =>
    cases r with
    | zero => exact .inl (by simp [value, h, rankSum, Rank.peer])
    | one => exact .inr (by simp [value, h, rankSum, Rank.peer])

theorem SharedCall.numel_eq (sc : SharedCall pair) (r : Rank) :
    (sc.col.call r).tensor.numel = (sc.col.call .zero).tensor.numel := by
  cases r with
  | zero => rfl
  | one => exact (sc.col.sameShape .one).numel

theorem SharedCall.data_eq_nil {sc : SharedCall pair} (h : ¬ sc.Moves) (r : Rank) :
    (sc.col.call r).tensor.data = [] := by
  have hnumel : (sc.col.call r).tensor.numel = 0 := (sc.numel_eq r).trans (not_not.mp h)
  exact Tensor.data_eq_nil (by simp [Tensor.sizeBytes, hnumel])

theorem SharedCall.Copied.mono {sc : SharedCall pair} {n n' : ℕ} (h : sc.Copied n) (hle : n ≤ n') :
    sc.Copied n' := by
  unfold Copied at h ⊢
  cases hroute : sc.route <;> simp only [hroute] at h ⊢ <;> omega

theorem SharedCall.Copied.pos {sc : SharedCall pair} {n : ℕ} (h : sc.Copied n) : 0 < n := by
  unfold Copied at h
  cases hroute : sc.route <;> simp only [hroute] at h <;> omega

/-- The ranks' calls of a collective take the same path. -/
theorem Collective.route_eq (col : Collective pair) (r : Rank) (e : ℕ) :
    (pair.comm r).route e (col.call r).tensor = (pair.comm .zero).route e (col.call .zero).tensor := by
  have hdtype : (col.call r).tensor.dtype = (col.call .zero).tensor.dtype := by
    cases r with
    | zero => rfl
    | one => exact (col.sameShape .one).1
  have hfits : ∀ r, ¬ (col.call r).tensor.sizeBytes > pair.maxSizeBytes :=
    fun r => Nat.not_lt.mpr (col.fits r)
  by_cases hpath : pair.useStreamPath
  · simp [SharedMemoryAllReduce.route, Pair.comm, col.onDevice, hfits, hdtype, hpath,
      pair.kernel_present hpath]
  · simp [SharedMemoryAllReduce.route, Pair.comm, col.onDevice, hfits, hpath]

def sharedFrom : ℕ → ℕ → List (Collective pair) → List (SharedCall pair)
  | _, _, [] => []
  | e, n, col :: cs =>
    match (pair.comm .zero).route e (col.call .zero).tensor with
    | none => sharedFrom e (n + 1) cs
    | some route => ⟨n, route, col⟩ :: sharedFrom (route.epochAfter e) (n + 1) cs

/-- The calls of the collectives that get past their checks, on both ranks. -/
def shared (cs : List (Collective pair)) : List (SharedCall pair) := sharedFrom 0 0 cs

theorem planFrom_callsOf (r : Rank) (e n : ℕ) (cs : List (Collective pair)) :
    planFrom (pair.comm r) e n (callsOf cs r) =
      (sharedFrom e n cs).map fun sc => sc.planned r := by
  induction cs generalizing e n with
  | nil => rfl
  | cons col cs ih =>
    have hcons : callsOf (col :: cs) r = col.call r :: callsOf cs r := rfl
    rw [hcons, planFrom, sharedFrom, col.route_eq]
    cases (pair.comm .zero).route e (col.call .zero).tensor with
    | none => exact ih e (n + 1)
    | some route => exact congrArg _ (ih _ (n + 1))

theorem plan_callsOf (r : Rank) (cs : List (Collective pair)) :
    plan pair (callsOf cs) r = (shared cs).map fun sc => sc.planned r :=
  planFrom_callsOf r 0 0 cs

theorem sharedFrom_spec (e n : ℕ) (cs : List (Collective pair)) :
    (sharedFrom e n cs).Pairwise (fun sc sc' => sc.number < sc'.number) ∧
      ∀ sc ∈ sharedFrom e n cs, n ≤ sc.number ∧ cs[sc.number - n]? = some sc.col := by
  induction cs generalizing e n with
  | nil => simp [sharedFrom]
  | cons col cs ih =>
    have later : ∀ e', ∀ sc ∈ sharedFrom e' (n + 1) cs,
        n < sc.number ∧ (col :: cs)[sc.number - n]? = some sc.col := by
      intro e' sc hsc
      obtain ⟨hle, hcol⟩ := (ih e' (n + 1)).2 sc hsc
      refine ⟨hle, ?_⟩
      rw [show sc.number - n = sc.number - (n + 1) + 1 by omega]
      exact hcol
    rw [sharedFrom]
    cases (pair.comm .zero).route e (col.call .zero).tensor with
    | none => exact ⟨(ih e (n + 1)).1, fun sc hsc => ⟨(later e sc hsc).1.le, (later e sc hsc).2⟩⟩
    | some route =>
      refine ⟨List.pairwise_cons.mpr ⟨fun sc hsc => (later _ sc hsc).1, (ih _ (n + 1)).1⟩, ?_⟩
      intro sc hsc
      rcases List.mem_cons.mp hsc with rfl | hsc
      · exact ⟨Nat.le_refl _, by simp⟩
      · exact ⟨(later _ sc hsc).1.le, (later _ sc hsc).2⟩

end

/-- Every rank makes all its calls on one stream, and no step of them fails. -/
structure Plain {pair : Pair} (cs : List (Collective pair)) : Prop where
  oneStream : ∀ r, ∃ s, ∀ col ∈ cs, (col.call r).stream = s
  noFault : NoFault cs

section
variable {pair : Pair} {cs : List (Collective pair)} {addValues : AddValues}
  {p : Progress Rank Mem} {r : Rank} {s : StreamId} {k : ℕ} {op : Op} {m : Mem}
  {sc : SharedCall pair}

theorem shared_mem (h : (shared cs)[k]? = some sc) : sc.col ∈ cs :=
  List.mem_of_getElem? ((sharedFrom_spec 0 0 cs).2 sc (List.mem_of_getElem? h)).2

theorem jobs_shared (h : (shared cs)[k]? = some sc) (r : Rank) :
    (jobs pair (callsOf cs) r)[k]? = some ((sc.planned r).job r) := by
  rw [jobs_getElem?, plan_callsOf, List.getElem?_map, h]
  rfl

theorem opsAt_shared (hplain : Plain cs) (h : (shared cs)[k]? = some sc) (r : Rank) :
    opsAt (jobs pair (callsOf cs) r) k = (sc.planned r).ops r := by
  rw [opsAt, jobs_shared h]
  exact Planned.instrs_of_fault_none (hplain.noFault _ (shared_mem h) r)

theorem opsAt_unshared (h : (shared cs)[k]? = none) (r : Rank) :
    opsAt (jobs pair (callsOf cs) r) k = [] := by
  simp [opsAt, jobs_getElem?, plan_callsOf, h]

theorem streamAt_shared (h : (shared cs)[k]? = some sc) (r : Rank) :
    streamAt (jobs pair (callsOf cs) r) k = some (sc.col.call r).stream := by
  rw [streamAt, jobs_shared h]
  rfl

/-- A call that has begun has all earlier calls of its rank behind it. -/
theorem size_le_pos (hplain : Plain cs)
    (hp : (progress (device addValues) (jobs pair (callsOf cs)) m).Reachable p) {j : ℕ}
    (hjk : j < k) (h : (shared cs)[j]? = some sc) (hk : 0 < p.pos r k) :
    (sc.planned r).size ≤ p.pos r j := by
  cases hsc : (shared cs)[k]? with
  | none =>
    have := pos_le hp r k
    rw [opsAt_unshared hsc] at this
    exact absurd this (Nat.not_le.mpr hk)
  | some sc' =>
    obtain ⟨t, ht⟩ := hplain.oneStream r
    have hstream : streamAt (jobs pair (callsOf cs) r) j = streamAt (jobs pair (callsOf cs) r) k := by
      rw [streamAt_shared h, streamAt_shared hsc, ht _ (shared_mem h), ht _ (shared_mem hsc)]
    rw [pos_fifo hp r hjk hstream hk, opsAt_shared hplain h, Planned.length_ops]

theorem pos_later (hplain : Plain cs)
    (hp : (progress (device addValues) (jobs pair (callsOf cs)) m).Reachable p)
    (h : (shared cs)[k]? = some sc) (hlt : p.pos r k < (sc.planned r).size) {j : ℕ} (hj : k < j) :
    p.pos r j = 0 := by
  by_contra hne
  have := size_le_pos (r := r) hplain hp hj h (Nat.pos_of_ne_zero hne)
  omega

/-- The next operation belongs to a shared call, and everything before it is done. -/
theorem next_shared (hplain : Plain cs)
    (hn : Next s (jobs pair (callsOf cs) r) (p.pos r) k op) :
    ∃ sc, (shared cs)[k]? = some sc ∧ (sc.planned r).Runs r (p.pos r k) op ∧
      p.pos r k < (sc.planned r).size ∧ ∀ j sc', j < k → (shared cs)[j]? = some sc' →
        (sc'.planned r).size ≤ p.pos r j := by
  cases hsc : (shared cs)[k]? with
  | none =>
    have hop := hn.op_eq
    simp [opsAt_unshared hsc] at hop
  | some sc =>
    have hop := hn.op_eq
    rw [opsAt_shared hplain hsc] at hop
    refine ⟨sc, rfl, Planned.runs_of_getElem? hop, ?_, fun j sc' hj hsc' => ?_⟩
    · rw [← Planned.length_ops r]
      exact (List.getElem?_eq_some_iff.mp hop).1
    · obtain ⟨t, ht⟩ := hplain.oneStream r
      have hstream : streamAt (jobs pair (callsOf cs) r) j = some s := by
        rw [streamAt_shared hsc', ht _ (shared_mem hsc'), ← ht _ (shared_mem hsc),
          ← streamAt_shared hsc, hn.stream]
      have := hn.fifo j hj hstream
      rwa [opsAt_shared hplain hsc', Planned.length_ops] at this

/-! ### The barrier -/

def isSet (r : Rank) (op : Op) : Bool := op = .event (.set r)
def isWait (r : Rank) (op : Op) : Bool := op = .event (.wait r)

variable (pair cs) in
/-- Every wait that succeeded used up a set of its own. -/
def EventInv (p : Progress Rank Mem) : Prop :=
  ∀ r, ran (isWait r) (jobs pair (callsOf cs) r.peer) (p.pos r.peer) +
    (if p.mem.events r = true then 1 else 0) ≤
      ran (isSet r) (jobs pair (callsOf cs) r) (p.pos r)

/-- The events a rank's operations touch: it sets its own and waits for its peer's. -/
theorem Planned.Runs.event {pl : Planned} {n : ℕ} (h : pl.Runs r n op) :
    (∀ eop, op ≠ .event eop) ∨ op = .event (.set r) ∨ op = .event (.wait r.peer) := by
  obtain ⟨number, route, call⟩ := pl
  cases route with
  | stream e => cases h <;> exact .inl (by simp)
  | barrier => cases h <;> simp

theorem EventInv.step (inv : EventInv pair cs p)
    (hop : (opsAt (jobs pair (callsOf cs) r) k)[p.pos r k]? = some op)
    (hcases : (∀ eop, op ≠ .event eop) ∨ op = .event (.set r) ∨ op = .event (.wait r.peer))
    (hr : op.ready p.mem) : EventInv pair cs (p.advance (device addValues) r k op) := by
  intro q
  have hq := inv q
  rw [ran_advance hop, ran_advance hop, Progress.advance_mem]
  rcases hcases with hother | rfl | rfl
  · have hevents : ((device addValues).run op p.mem).events = p.mem.events := by
      cases op with
      | event eop => exact absurd rfl (hother eop)
      | _ => rfl
    have hset : isSet q op = false := by simp [isSet, hother]
    have hwait : isWait q op = false := by simp [isWait, hother]
    simpa [hevents, hset, hwait] using hq
  · by_cases hqr : q = r
    · subst hqr
      simp only [device, Op.run, EventOp.run, Function.update_self, isSet, isWait]
      split_ifs at hq ⊢ <;> simp_all
      omega
    · simp [device, Op.run, EventOp.run, isSet, isWait, hqr] at hq ⊢
      exact hq
  · by_cases hqr : q = r.peer
    · subst hqr
      have hev : p.mem.events r.peer = true := hr
      simp only [hev, if_true, Rank.peer_peer] at hq
      simp [device, Op.run, EventOp.run, isSet, isWait]
      exact hq
    · have hne : q.peer ≠ r := fun h => hqr (by rw [← h, Rank.peer_peer])
      simp [device, Op.run, EventOp.run, isSet, isWait, hqr, hne] at hq ⊢
      exact hq

theorem reachable_eventInv (hplain : Plain cs) {slot localOutput : Rank → Bytes}
    (hp : (progress (device addValues) (jobs pair (callsOf cs))
      (.start slot localOutput)).Reachable p) : EventInv pair cs p := by
  refine System.Reachable.invariant ?_ ?_ hp
  · rintro _ rfl r
    simp [Mem.start]
  · rintro p _ hp inv ⟨hn, hr⟩
    obtain ⟨sc, _, hruns, _⟩ := next_shared hplain hn
    exact inv.step hn.op_eq hruns.event hr

/-- Both ranks' calls set and wait equally often. -/
theorem countP_events (hplain : Plain cs) (r : Rank) (k : ℕ) :
    (opsAt (jobs pair (callsOf cs) r.peer) k).countP (isWait r) =
      (opsAt (jobs pair (callsOf cs) r) k).countP (isSet r) := by
  cases hsc : (shared cs)[k]? with
  | none => simp [opsAt_unshared hsc]
  | some sc =>
    rw [opsAt_shared hplain hsc, opsAt_shared hplain hsc]
    obtain ⟨number, route, col⟩ := sc
    cases route with
    | stream e =>
      rw [SharedCall.planned, SharedCall.planned, Planned.ops_stream, Planned.ops_stream]
      by_cases he : 1 < e <;> by_cases ht : (col.call r).tensor.numel = 0 <;>
        by_cases ht' : (col.call r.peer).tensor.numel = 0 <;>
          simp [he, ht, ht', isWait, isSet]
    | barrier =>
      simp [SharedCall.planned, Planned.ops, Route.steps, barrierSteps, barrierWait,
        Win32PairBarrier.wait, Instr.op, isWait, isSet]

theorem opsAt_barrier (hplain : Plain cs) (h : (shared cs)[k]? = some sc)
    (hroute : sc.route = .barrier) (r : Rank) : opsAt (jobs pair (callsOf cs) r) k =
      [.copyToSlot r (sc.col.call r).tensor.data, .event (.set r), .event (.wait r.peer),
        .addSlots r (sc.col.call r).tensor.dtype (sc.col.call r).tensor.numel,
        .copyOutput r sc.number (sc.col.call r).tensor.sizeBytes, .event (.set r),
        .event (.wait r.peer)] := by
  rw [opsAt_shared hplain h, SharedCall.planned, hroute]
  rfl

/-- At least all waits before the next operation have succeeded. -/
theorem waits_before_next (hplain : Plain cs)
    (hn : Next s (jobs pair (callsOf cs) r) (p.pos r) k op) (q : Rank) :
    total (isWait q) ((jobs pair (callsOf cs) r).take k) +
        ((opsAt (jobs pair (callsOf cs) r) k).take (p.pos r k)).countP (isWait q) ≤
      ran (isWait q) (jobs pair (callsOf cs) r) (p.pos r) := by
  obtain ⟨sc, hsc, _, _, hdone⟩ := next_shared hplain hn
  apply le_ran
  intro j hj
  cases hj' : (shared cs)[j]? with
  | none => simp [opsAt_unshared hj']
  | some scj =>
    rw [opsAt_shared hplain hj', Planned.length_ops]
    exact hdone j scj hj hj'

/-- A rank inside call k has made no more sets than its calls so far contain. -/
theorem sets_le_of_pos_le (hplain : Plain cs)
    (hp : (progress (device addValues) (jobs pair (callsOf cs)) m).Reachable p)
    (h : (shared cs)[k]? = some sc) {n : ℕ} (hle : p.pos r k ≤ n) (hlt : n < (sc.planned r).size) :
    ran (isSet r) (jobs pair (callsOf cs) r) (p.pos r) ≤
      total (isSet r) ((jobs pair (callsOf cs) r).take k) +
        ((opsAt (jobs pair (callsOf cs) r) k).take n).countP (isSet r) := by
  refine Nat.le_trans (ran_le fun j hj => pos_later hplain hp h (by omega) hj) ?_
  exact Nat.add_le_add_left (List.Sublist.countP_le (List.take_sublist_take_left hle)) _

/-- When a wait at the barrier can succeed, the peer has made the set it waits for: the n-th of a
call, if the wait is the n-th of the same call. -/
theorem set_before_wait (hplain : Plain cs)
    (hp : (progress (device addValues) (jobs pair (callsOf cs)) m).Reachable p)
    (inv : EventInv pair cs p) (h : (shared cs)[k]? = some sc) (hroute : sc.route = .barrier)
    (hn : Next s (jobs pair (callsOf cs) r) (p.pos r) k (.event (.wait r.peer)))
    (hevent : p.mem.events r.peer = true) :
    (p.pos r k = 2 → 2 ≤ p.pos r.peer k) ∧ (p.pos r k = 6 → 6 ≤ p.pos r.peer k) := by
  have hsize : (sc.planned r.peer).size = 7 := by
    simp [SharedCall.planned, Planned.size, hroute]
  have hinv := inv r.peer
  rw [Rank.peer_peer, if_pos hevent] at hinv
  have hwaits := waits_before_next hplain hn r.peer
  have hsame := total_take_congr (countP_events hplain r.peer) k
  rw [Rank.peer_peer] at hsame
  constructor
  · intro hpos
    by_contra hlt
    have hsets := sets_le_of_pos_le hplain hp h (by omega : p.pos r.peer k ≤ 1) (by omega)
    rw [opsAt_barrier hplain h hroute] at hsets
    rw [opsAt_barrier hplain h hroute, hpos] at hwaits
    simp [isSet, isWait] at hsets hwaits
    omega
  · intro hpos
    by_contra hlt
    have hsets := sets_le_of_pos_le hplain hp h (by omega : p.pos r.peer k ≤ 5) (by omega)
    rw [opsAt_barrier hplain h hroute] at hsets
    rw [opsAt_barrier hplain h hroute, hpos] at hwaits
    simp [isSet, isWait] at hsets hwaits
    omega

end

end MultiGpuTransport.MappedHost
