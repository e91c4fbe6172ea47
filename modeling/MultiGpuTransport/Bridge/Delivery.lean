import MultiGpuTransport.Bridge.Protocol

/-!
# Delivery

Calls under one source stream whose late failures come last: the destination of a call that returned
ends up with the payload of that call, the fence never goes back, and all that is queued can run.
-/
namespace MultiGpuTransport.Bridge
open Streams Transition

section
variable {ms : List (Call NativeStep)} {p : Progress Side Mem} {side : Side} {s : StreamId} {k : ℕ}
  {op : Op} {m : Mem}

/-- The next operation is one of those of its call. -/
theorem next_ops (side : Side) (hn : Next s (jobs ms side) (p.pos side) k op) :
    ∃ call, ms[k]? = some call ∧ p.pos side k < side.count (steps ms k) ∧
      (side.ops k call)[p.pos side k]? = some op := by
  obtain ⟨call, hcall⟩ := exists_call_of_op hn.op_eq
  have hlt := (List.getElem?_eq_some_iff.mp hn.op_eq).1
  have hop := hn.op_eq
  rw [length_opsAt] at hlt
  rw [opsAt_jobs hcall, List.getElem?_take, if_pos hlt] at hop
  exact ⟨call, hcall, hlt, hop⟩

theorem pos_le_count (hp : (progress device (jobs ms) m).Reachable p) (side : Side) (k : ℕ) :
    p.pos side k ≤ side.count (steps ms k) :=
  length_opsAt ms side k ▸ pos_le hp side k

/-- On one source stream, a call that has begun on a side has all earlier ones behind it there. -/
theorem pos_eq_count (hss : SingleStream ms) (hp : (progress device (jobs ms) m).Reachable p)
    {j : ℕ} (hjk : j < k) (hk : 1 ≤ p.pos side k) : p.pos side j = side.count (steps ms j) := by
  rw [← length_opsAt]
  exact begun_after (hss.oneStream side) hp hjk hk

/-- A ready wait passes on the ready signal of its own call: that of a later call comes after it. -/
theorem Inv.ready_of_wait (inv : Inv ms p) (hss : SingleStream ms)
    (hp : (progress device (jobs ms) m).Reachable p)
    (hlater : ∀ j, k < j → p.pos .opener j = 0) (hpos : p.pos .opener k = 0)
    (hsteps : 0 < Side.opener.count (steps ms k)) (hwait : k * 2 + 1 ≤ p.mem.fence.value) :
    2 ≤ p.pos .creator k := by
  have hmem := p.mem.fence.value_mem (by omega)
  rcases (inv.stored _).mp hmem with ⟨j, hv, hj⟩ | ⟨j, hv, hj⟩
  · rcases Nat.lt_or_ge k j with hkj | hjk
    · have hdone := pos_eq_count hss hp hkj (by omega : 1 ≤ p.pos .creator j)
      simp only [Side.count] at hdone hsteps
      omega
    · obtain rfl : j = k := by omega
      exact hj
  · rcases Nat.lt_or_ge k j with hkj | hjk
    · have := hlater j hkj
      omega
    · obtain rfl : j = k := by omega
      omega

/-- A consumed wait passes on the consumed signal of its own call. -/
theorem Inv.consumed_of_wait (inv : Inv ms p) (hss : SingleStream ms)
    (hp : (progress device (jobs ms) m).Reachable p)
    (hlater : ∀ j, k < j → p.pos .creator j = 0)
    (hsteps : 2 < Side.creator.count (steps ms k)) (hwait : k * 2 + 2 ≤ p.mem.fence.value) :
    3 ≤ p.pos .opener k := by
  have hmem := p.mem.fence.value_mem (by omega)
  rcases (inv.stored _).mp hmem with ⟨j, hv, hj⟩ | ⟨j, hv, hj⟩
  · have := hlater j (by omega)
    omega
  · rcases Nat.lt_or_ge k j with hkj | hjk
    · have hdone := pos_eq_count hss hp hkj (by omega : 1 ≤ p.pos .opener j)
      simp only [Side.count] at hdone hsteps
      omega
    · obtain rfl : j = k := by omega
      exact hj

/-- Of a call whose source stream waits, nothing later begins there before its consumed signal. -/
theorem Inv.not_begun (inv : Inv ms p) (hss : SingleStream ms)
    (hp : (progress device (jobs ms) m).Reachable p) (hsteps : steps ms k = 6)
    (hpos : ¬ 3 ≤ p.pos .opener k) {j : ℕ} (hkj : k < j) : ¬ 1 ≤ p.pos .creator j := by
  intro hj
  have hdone := pos_eq_count hss hp hkj hj
  rw [hsteps] at hdone
  exact hpos (inv.consumed k (by simp only [Side.count] at hdone; omega))

/-- The step lemma: whatever operation comes next, the invariant is kept. -/
theorem Inv.step (inv : Inv ms p) (hss : SingleStream ms) (hlate : LateFailuresLast ms)
    (hp : (progress device (jobs ms) m).Reachable p)
    (hn : Next s (jobs ms side) (p.pos side) k op) (hr : op.ready p.mem) :
    Inv ms (p.advance device side k op) := by
  obtain ⟨call, hcall, hlt, hop⟩ := next_ops side hn
  have hlater : ∀ j, k < j → p.pos side j = 0 := fun j hj =>
    not_begun_of_next (hss.oneStream side) hp hn hj
  have hthree : p.pos side k = 0 ∨ p.pos side k = 1 ∨ p.pos side k = 2 := by
    have := (List.getElem?_eq_some_iff.mp hop).1
    cases side <;> simp only [Side.ops, List.length_cons, List.length_nil] at this <;> omega
  cases side with
  | creator =>
    rcases hthree with hpos | hpos | hpos <;> rw [hpos] at hop hlt <;> cases hop
    · exact inv.copyToHeap hcall hpos hlater
    · exact inv.signalReady hpos hlater
    · exact inv.waitConsumed hpos (inv.consumed_of_wait hss hp hlater hlt hr)
  | opener =>
    rcases hthree with hpos | hpos | hpos <;> rw [hpos] at hop hlt <;> cases hop
    · exact inv.waitReady hpos (inv.ready_of_wait hss hp hlater hpos hlt hr)
    · refine inv.copyFromHeap hpos (fun hsteps call' hcall' => ?_) hcall
      -- the copy of this call is the last one made, since its source stream waits
      have hheap := inv.heap k call' hcall' (Nat.le_of_succ_le (inv.ready k (by omega)))
        fun j hj => inv.not_begun hss hp hsteps (by omega) hj
      rw [← Tensor.data_length, ← List.prefix_iff_eq_take.mp hheap]
    · refine inv.signalConsumed hpos hlater fun j hj hbegun => ?_
      have hle := pos_le_count hp .creator j
      have hsteps : steps ms k = 5 ∨ steps ms k = 6 := by
        have := steps_le ms k
        simp only [Side.count] at hlt
        omega
      rcases hsteps with h | h
      · have := hlate k j hj h
        simp only [Side.count] at hle
        omega
      · exact inv.not_begun hss hp h (by omega) hj (by omega)

/-- The run lemma: the invariant holds in every state the two sides can reach. -/
theorem reachable_inv (hss : SingleStream ms) (hlate : LateFailuresLast ms) {heap : Bytes}
    (hp : (progress device (jobs ms) (.start heap)).Reachable p) : Inv ms p := by
  refine System.Reachable.invariant ?_ ?_ hp
  · rintro _ rfl
    exact .start heap
  · rintro p _ hp inv ⟨hn, hr⟩
    exact inv.step hss hlate hp hn hr

/-! ### Nothing is stuck -/

theorem Inv.ready_of_signal (inv : Inv ms p) (hpos : 2 ≤ p.pos .creator k) :
    k * 2 + 1 ≤ p.mem.fence.value :=
  inv.sorted.le_value ((inv.stored _).mpr (.inl ⟨k, rfl, hpos⟩))

theorem Inv.ready_of_consumed (inv : Inv ms p) (hpos : 3 ≤ p.pos .opener k) :
    k * 2 + 2 ≤ p.mem.fence.value :=
  inv.sorted.le_value ((inv.stored _).mpr (.inr ⟨k, rfl, hpos⟩))

/-- The destination goes on with a call once the source has signalled it, and with every call before
that. -/
theorem Inv.opener_canStep (inv : Inv ms p) {i : ℕ}
    (hi : p.pos .opener i < Side.opener.count (steps ms i))
    (hsignal : ∀ k ≤ i, 0 < Side.opener.count (steps ms k) → 2 ≤ p.pos .creator k) :
    (progress device (jobs ms) m).CanStep p := by
  rw [← length_opsAt] at hi
  obtain ⟨s, k, op, hki, hn, -⟩ := exists_next hi
  refine ⟨_, .run (r := .opener) hn ?_⟩
  obtain ⟨call, -, hlt, hop⟩ := next_ops .opener hn
  rcases hpos : p.pos .opener k with _ | _ | _ | _ <;> rw [hpos] at hop <;> cases hop
  · exact inv.ready_of_signal (hsignal k hki (by omega))
  · trivial
  · trivial

/-- The run lemma for liveness: what is unfinished can go on. -/
theorem Inv.live (inv : Inv ms p)
    (hu : ∃ side k, p.pos side k < (opsAt (jobs ms side) k).length) :
    (progress device (jobs ms) m).CanStep p := by
  have hcount : ∀ k, 0 < Side.opener.count (steps ms k) → 2 ≤ Side.creator.count (steps ms k) := by
    intro k hk
    simp only [Side.count] at hk ⊢
    omega
  by_cases hsource : ∃ i, p.pos .creator i < (opsAt (jobs ms .creator) i).length
  · obtain ⟨i, hi⟩ := hsource
    obtain ⟨s, k, op, -, hn, hbefore⟩ := exists_next hi
    obtain ⟨call, -, hlt, hop⟩ := next_ops .creator hn
    have hrun : op.ready p.mem → (progress device (jobs ms) m).CanStep p := fun hr =>
      ⟨_, .run (r := .creator) hn hr⟩
    rcases hpos : p.pos .creator k with _ | _ | _ | _ <;> rw [hpos] at hop hlt <;> cases hop
    · exact hrun trivial
    · exact hrun trivial
    · by_cases hread : 3 ≤ p.pos .opener k
      · exact hrun (inv.ready_of_consumed hread)
      · -- the source waits for the destination, which is at this call or before it
        refine inv.opener_canStep (i := k) ?_ fun j hj hsteps => ?_
        · simp only [Side.count] at hlt ⊢
          omega
        · rcases Nat.lt_or_eq_of_le hj with h | rfl
          · have := hbefore j h
            rw [length_opsAt] at this
            have := hcount j hsteps
            omega
          · omega
  · push Not at hsource
    obtain ⟨side, i, hi⟩ := hu
    cases side with
    | creator => exact absurd hi (Nat.not_lt.mpr (hsource i))
    | opener =>
      rw [length_opsAt] at hi
      refine inv.opener_canStep hi fun j _ hsteps => ?_
      have := hsource j
      rw [length_opsAt] at this
      exact Nat.le_trans (hcount j hsteps) this

end

/-! ### What the bridge is for -/

/-- Every call that returned gets its own payload, the fence never goes back, no run is stuck and all
that is queued can run. -/
structure Delivers (bridge : D3D12TensorBridge) (calls : List (Call NativeStep))
    (S : System (HostConfig Unit (Side × StreamId) Op Mem)) : Prop where
  returns : ∀ i call, calls[i]? = some call → bridge.Accepts call.tensor → call.fault = none →
    ∃ ref, Returns bridge calls i ref
  payloads : ∀ c, S.Reachable c → ∀ i call ref bytes, calls[i]? = some call →
    Returns bridge calls i ref → c.mem.read ref = some bytes → bytes = call.tensor.data
  complete : ∀ c, S.Reachable c → ¬ c.Unfinished → ∀ i call ref, calls[i]? = some call →
    Returns bridge calls i ref → c.mem.read ref = some call.tensor.data
  sorted : ∀ c, S.Reachable c → c.mem.fence.Nondecreasing
  live : S.NeverStuck HostConfig.Unfinished
  drains : ∀ c, S.Reachable c → ∃ t, Relation.ReflTransGen S.step c t ∧ ¬ t.Unfinished

section
variable {bridge : D3D12TensorBridge} {calls : List (Call NativeStep)} {heap : Bytes}

/-- The bytes of the destination of a call that returned, whether the copy is made or not. -/
theorem Inv.read_returned {p : Progress Side Mem} (inv : Inv (moving bridge calls) p) {i : ℕ}
    {call : Call NativeStep} {ref : TensorRef} (hcall : calls[i]? = some call)
    (hret : Returns bridge calls i ref) :
    (∀ bytes, p.mem.read ref = some bytes → bytes = call.tensor.data) ∧
      ((∀ side k, Side.count side (steps (moving bridge calls) k) ≤ p.pos side k) →
        p.mem.read ref = some call.tensor.data) := by
  obtain ⟨call', hcall', ⟨hsize, rfl⟩ | ⟨k, rfl, hk, hfault⟩⟩ := makeCalls_result _ i ref hret
  · obtain rfl : call = call' := by simpa using hcall.symm.trans hcall'
    simp [Mem.read, Tensor.data_eq_nil hsize, eq_comm]
  · obtain rfl : call = call' := by simpa using hcall.symm.trans hcall'
    have hsteps : steps (moving bridge calls) k = 6 := by
      rw [steps_eq hk, hfault]
      rfl
    have hout := inv.output k call hk hsteps
    simp only [Mem.read, zero_add, hout]
    refine ⟨fun bytes h => ?_, fun hdone => ?_⟩
    · split_ifs at h
      exact (Option.some.inj h).symm
    · have := hdone .opener k
      rw [hsteps] at this
      exact if_pos (Nat.le_trans (by decide) this)

theorem live_of (hss : SingleStream (moving bridge calls))
    (hlate : LateFailuresLast (moving bridge calls)) :
    (system bridge calls heap).NeverStuck HostConfig.Unfinished := by
  intro c hc hu
  obtain ⟨p, hf⟩ := (program_realizes bridge calls).follows hc
  exact hf.canStep (fun _ => program_isEnqueue bridge calls) hc hu fun hl =>
    (reachable_inv hss hlate hf.reachable).live hl

/-- Under one source stream, with late failures last, the bridge delivers. -/
theorem delivers_of (hss : SingleStream (moving bridge calls))
    (hlate : LateFailuresLast (moving bridge calls)) :
    Delivers bridge calls (system bridge calls heap) where
  returns i call hcall hacc hfault := makeCalls_returns _ i hcall hacc hfault
  payloads c hc i call ref bytes hcall hret hread := by
    obtain ⟨p, hf⟩ := (program_realizes bridge calls).follows hc
    exact ((reachable_inv hss hlate hf.reachable).read_returned hcall hret).1 bytes
      (hf.mem_eq ▸ hread)
  complete c hc hu i call ref hcall hret := by
    obtain ⟨p, hf⟩ := (program_realizes bridge calls).follows hc
    refine hf.mem_eq ▸ ((reachable_inv hss hlate hf.reachable).read_returned hcall hret).2
      fun side k => ?_
    rw [← length_opsAt]
    exact hf.finished hu side k
  sorted c hc := by
    obtain ⟨p, hf⟩ := (program_realizes bridge calls).follows hc
    exact hf.mem_eq ▸ (reachable_inv hss hlate hf.reachable).sorted
  live := live_of hss hlate
  drains c hc := exists_run_to_finish (live_of hss hlate) hc

end
end MultiGpuTransport.Bridge
