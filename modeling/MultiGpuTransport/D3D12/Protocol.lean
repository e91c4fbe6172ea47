import MultiGpuTransport.D3D12.AllReduce

/-!
# The two-rank protocol

With one stream per rank and no failing step, a rank's progress is one number: how many of its
operations have run, six for every call. The invariant ties the two numbers, the values stored in
both fences and the contents of both heaps together.
-/
namespace MultiGpuTransport.D3D12
open Streams Transition

section
variable {pair : Pair} {cs : List (Collective pair)}

/-- The collectives that take an epoch, in order: the k-th has epoch k+1. -/
def moving (cs : List (Collective pair)) : List (Collective pair) := cs.filter Collective.moves

theorem jobs_getElem? (cs : List (Collective pair)) (r : Rank) (k : ℕ) :
    (jobs cs r)[k]? = (moving cs)[k]?.map fun col => job r (k + 1) (col.call r) := by
  simp [jobs, getElem?_jobsFrom, movingCalls, moving, Function.comp_def]

theorem opsAt_jobs {r : Rank} {k : ℕ} {col : Collective pair} (h : (moving cs)[k]? = some col) :
    opsAt (jobs cs r) k = (job r (k + 1) (col.call r)).ops := by
  simp [opsAt, jobs_getElem?, h]

theorem streamAt_jobs {r : Rank} {k : ℕ} {col : Collective pair} (h : (moving cs)[k]? = some col) :
    streamAt (jobs cs r) k = some (col.call r).stream := by
  simp [streamAt, jobs_getElem?, h, job]

theorem moving_of_opsAt {r : Rank} {k n : ℕ} {op : Op} (h : (opsAt (jobs cs r) k)[n]? = some op) :
    ∃ col, (moving cs)[k]? = some col := by
  cases hc : (moving cs)[k]? with
  | some col => exact ⟨col, rfl⟩
  | none => simp [opsAt, jobs_getElem?, hc] at h

/-- No native step of any call that moves bytes fails. -/
def NoFault (cs : List (Collective pair)) : Prop :=
  ∀ col ∈ moving cs, ∀ r, (col.call r).fault = none

/-- Every rank makes all its calls that move bytes on one stream. -/
def SingleStream (cs : List (Collective pair)) : Prop :=
  ∀ r, ∀ col ∈ moving cs, ∀ col' ∈ moving cs, (col.call r).stream = (col'.call r).stream

theorem SingleStream.oneStream (h : SingleStream cs) (r : Rank) : OneStream (jobs cs r) := by
  intro j k s t hs ht
  simp only [streamAt, jobs_getElem?, Option.map_map, Option.map_eq_some_iff] at hs ht
  obtain ⟨col, hcol, rfl⟩ := hs
  obtain ⟨col', hcol', rfl⟩ := ht
  exact h r _ (List.mem_of_getElem? hcol) _ (List.mem_of_getElem? hcol')

theorem opsAt_noFault (hnf : NoFault cs) {r : Rank} {k : ℕ} {col : Collective pair}
    (h : (moving cs)[k]? = some col) :
    opsAt (jobs cs r) k = sixSteps r (k + 1) (col.call r).tensor := by
  rw [opsAt_jobs h, job, hnf col (List.mem_of_getElem? h) r]
  rfl

/-- Two ranks a and b operations into their programs: each has passed only those waits for which
the peer has made the signal. -/
structure Lockstep (a b : ℕ) : Prop where
  ready : (a + 3) / 6 ≤ (b + 4) / 6
  ready' : (b + 3) / 6 ≤ (a + 4) / 6
  consumed : a / 6 ≤ (b + 1) / 6
  consumed' : b / 6 ≤ (a + 1) / 6

theorem Lockstep.symm {a b : ℕ} (h : Lockstep a b) : Lockstep b a :=
  ⟨h.ready', h.ready, h.consumed', h.consumed⟩

/-- How often the fence of a rank a operations into its program has been set. -/
def stores (a b : ℕ) : ℕ := (a + 4) / 6 + (b + 1) / 6

variable (addValues : AddValues)

/-- The state in terms of how many operations each rank has run. -/
structure Inv (cs : List (Collective pair)) (p : Progress Rank Mem) (cur : Rank → ℕ) : Prop where
  pos : ∀ r k, p.pos r k = min 6 (cur r - 6 * k)
  lockstep : ∀ r, Lockstep (cur r) (cur r.peer)
  fence : ∀ r, (p.mem.fence r).Counts (stores (cur r) (cur r.peer))
  heap : ∀ r k col, (moving cs)[k]? = some col → 6 * k < cur r → cur r ≤ 6 * k + 6 →
    (col.call r).tensor.data <+: p.mem.heap r
  output : ∀ r k col, (moving cs)[k]? = some col →
    p.mem.output r (k + 1) = if 6 * k + 4 ≤ cur r then some (col.sum addValues r) else none

theorem Inv.start (heap : Rank → Bytes) :
    Inv addValues cs ⟨fun _ _ => 0, Mem.start heap⟩ (fun _ => 0) where
  pos r k := by simp
  lockstep r := ⟨by simp, by simp, by simp, by simp⟩
  fence r := Timeline.counts_zero
  heap r k col _ hlt := absurd hlt (by omega)
  output r k col _ := by simp [Mem.start]

variable {addValues} {p : Progress Rank Mem} {cur : Rank → ℕ} {r : Rank} {s : StreamId} {k : ℕ} {op : Op}

/-- The next operation of a rank is the one its cursor points at. -/
theorem Inv.cursor (inv : Inv addValues cs p cur) (hnf : NoFault cs) (hss : SingleStream cs)
    (hn : Next s (jobs cs r) (p.pos r) k op) : cur r = 6 * k + p.pos r k ∧ p.pos r k < 6 := by
  obtain ⟨col, hcol⟩ := moving_of_opsAt hn.op_eq
  have hlt : p.pos r k < 6 := by
    have h := (List.getElem?_eq_some_iff.mp hn.op_eq).1
    simpa [opsAt_noFault hnf hcol, sixSteps] using h
  have hpos := inv.pos r k
  cases k with
  | zero => omega
  | succ k =>
    have hk : k < (moving cs).length := by
      have := (List.getElem?_eq_some_iff.mp hcol).1
      omega
    have hcol' : (moving cs)[k]? = some (moving cs)[k] := List.getElem?_eq_getElem hk
    have hstream : streamAt (jobs cs r) k = some s := by
      have hat := streamAt_jobs (r := r) hcol'
      rw [hat, hss.oneStream r _ _ _ _ hat hn.stream]
    have hfull := hn.fifo k (by omega) hstream
    simp only [opsAt_noFault hnf hcol', sixSteps, List.length_cons, List.length_nil] at hfull
    have hprev := inv.pos r k
    omega

/-- Running one operation of rank r: the cursors stay in lockstep if a wait has been met by its
signal, and the rest of the invariant is about the memory. -/
theorem Inv.advance (inv : Inv addValues cs p cur) (hcur : cur r = 6 * k + p.pos r k)
    (hlt : p.pos r k < 6) (hready : p.pos r k = 2 → k < (cur r.peer + 4) / 6)
    (hconsumed : p.pos r k = 5 → k < (cur r.peer + 1) / 6)
    (hfence : (((op.run addValues p.mem).fence r).Counts (stores (cur r + 1) (cur r.peer))) ∧
      (((op.run addValues p.mem).fence r.peer).Counts (stores (cur r.peer) (cur r + 1))))
    (hheap : ∀ q i col, (moving cs)[i]? = some col →
      6 * i < Function.update cur r (cur r + 1) q → Function.update cur r (cur r + 1) q ≤ 6 * i + 6 →
      (col.call q).tensor.data <+: (op.run addValues p.mem).heap q)
    (houtput : ∀ q i col, (moving cs)[i]? = some col → (op.run addValues p.mem).output q (i + 1) =
      if 6 * i + 4 ≤ Function.update cur r (cur r + 1) q then some (col.sum addValues q) else none) :
    Inv addValues cs (p.advance (device addValues) r k op) (Function.update cur r (cur r + 1)) where
  pos q i := by
    rw [Progress.advance_pos]
    have hi := inv.pos q i
    rcases Rank.eq_or_eq_peer q r with rfl | rfl
    · rw [Function.update_self]
      by_cases hik : i = k
      · subst hik
        simp only [and_self, if_true]
        omega
      · simp only [hik, and_false, if_false]
        omega
    · simpa using hi
  lockstep := by
    have hb := inv.lockstep r
    have hlock : Lockstep (cur r + 1) (cur r.peer) := by
      obtain ⟨h1, h2, h3, h4⟩ := hb
      constructor <;> omega
    rw [Rank.forall_iff r]
    exact ⟨by simpa using hlock, by simpa using hlock.symm⟩
  fence := by
    rw [Rank.forall_iff r]
    exact ⟨by simpa [device] using hfence.1, by simpa [device] using hfence.2⟩
  heap := hheap
  output := houtput

theorem stores_succ_left (a b : ℕ) :
    stores (a + 1) b = stores a b + if a % 6 = 1 then 1 else 0 := by
  unfold stores
  split_ifs <;> omega

theorem stores_succ_right (a b : ℕ) :
    stores b (a + 1) = stores b a + if a % 6 = 4 then 1 else 0 := by
  unfold stores
  split_ifs <;> omega

/-- An operation that is not a copy leaves what was copied last. -/
theorem Inv.heap_frame (inv : Inv addValues cs p cur) (hmod : cur r % 6 ≠ 0) (q : Rank) (i : ℕ)
    (col : Collective pair) (hcol : (moving cs)[i]? = some col)
    (hlo : 6 * i < Function.update cur r (cur r + 1) q)
    (hhi : Function.update cur r (cur r + 1) q ≤ 6 * i + 6) :
    (col.call q).tensor.data <+: p.mem.heap q := by
  rcases Rank.eq_or_eq_peer q r with rfl | rfl
  · rw [Function.update_self] at hlo hhi
    exact inv.heap q i col hcol (by omega) (by omega)
  · simp only [ne_eq, Rank.peer_ne, not_false_eq_true, Function.update_of_ne] at hlo hhi
    exact inv.heap r.peer i col hcol hlo hhi

/-- An operation that is not an add leaves the outputs that are there. -/
theorem Inv.output_frame (inv : Inv addValues cs p cur) (hmod : cur r % 6 ≠ 3) (q : Rank) (i : ℕ)
    (col : Collective pair) (hcol : (moving cs)[i]? = some col) :
    p.mem.output q (i + 1) =
      if 6 * i + 4 ≤ Function.update cur r (cur r + 1) q then some (col.sum addValues q) else none := by
  rw [inv.output q i col hcol]
  rcases Rank.eq_or_eq_peer q r with rfl | rfl
  · rw [Function.update_self]
    have : 6 * i + 4 ≤ cur q + 1 ↔ 6 * i + 4 ≤ cur q := by omega
    simp only [this]
  · simp

/-- An operation that sets no fence leaves both counts. -/
theorem Inv.fence_frame (inv : Inv addValues cs p cur) (h1 : cur r % 6 ≠ 1) (h4 : cur r % 6 ≠ 4) :
    (p.mem.fence r).Counts (stores (cur r + 1) (cur r.peer)) ∧
      (p.mem.fence r.peer).Counts (stores (cur r.peer) (cur r + 1)) := by
  rw [stores_succ_left, stores_succ_right, if_neg h1, if_neg h4]
  exact ⟨inv.fence r, by simpa using inv.fence r.peer⟩

/-- A copy puts the payload of the rank's next call in its heap. -/
theorem Inv.step_copy (inv : Inv addValues cs p cur) {col : Collective pair}
    (hcol : (moving cs)[k]? = some col) (hcur : cur r = 6 * k) (hpos : p.pos r k = 0) :
    Inv addValues cs
      (p.advance (device addValues) r k (.copy r (k + 1) (col.call r).tensor.data))
      (Function.update cur r (cur r + 1)) := by
  refine inv.advance (by omega) (by omega) (by omega) (by omega)
    (inv.fence_frame (by omega) (by omega)) (fun q i col' hcol' hlo hhi => ?_)
    (inv.output_frame (by omega))
  rcases Rank.eq_or_eq_peer q r with rfl | rfl
  · rw [Function.update_self] at hlo hhi
    obtain rfl : i = k := by omega
    obtain rfl : col = col' := by simpa using hcol.symm.trans hcol'
    simpa [Op.run] using copyKernel_prefix _ _
  · simp only [ne_eq, Rank.peer_ne, not_false_eq_true, Function.update_of_ne] at hlo hhi
    simpa [Op.run] using inv.heap r.peer i col' hcol' hlo hhi

/-- The ready signal finds the fence at the value of the previous call's last one. -/
theorem Inv.step_signalReady (inv : Inv addValues cs p cur) (hcur : cur r = 6 * k + 1)
    (hpos : p.pos r k = 1) :
    Inv addValues cs (p.advance (device addValues) r k (.signal r ((k + 1) * 2 - 1)))
      (Function.update cur r (cur r + 1)) := by
  obtain ⟨h1, h2, h3, h4⟩ := inv.lockstep r
  refine inv.advance (by omega) (by omega) (by omega) (by omega) ?_
    (inv.heap_frame (by omega)) (inv.output_frame (by omega))
  have hv : (k + 1) * 2 - 1 = stores (cur r) (cur r.peer) + 1 := by
    unfold stores
    omega
  rw [stores_succ_left, stores_succ_right, if_pos (by omega), if_neg (by omega), hv]
  exact ⟨by simpa [Op.run] using (inv.fence r).set, by simpa [Op.run] using inv.fence r.peer⟩

/-- The peer's ready value is there only if the peer has made that signal. -/
theorem Inv.step_waitReady (inv : Inv addValues cs p cur) (hcur : cur r = 6 * k + 2)
    (hpos : p.pos r k = 2) (hready : (k + 1) * 2 - 1 ≤ (p.mem.fence r.peer).value) :
    Inv addValues cs (p.advance (device addValues) r k (.wait r.peer ((k + 1) * 2 - 1)))
      (Function.update cur r (cur r + 1)) := by
  obtain ⟨h1, h2, h3, h4⟩ := inv.lockstep r
  refine inv.advance (by omega) (by omega) (fun _ => ?_) (by omega)
    (inv.fence_frame (by omega) (by omega)) (inv.heap_frame (by omega)) (inv.output_frame (by omega))
  rw [(inv.fence r.peer).value, Rank.peer_peer, stores] at hready
  omega

/-- When a rank adds, the peer's heap holds the peer's payload of the same call. -/
theorem Inv.peer_heap (inv : Inv addValues cs p cur) {col : Collective pair}
    (hcol : (moving cs)[k]? = some col) (hcur : cur r = 6 * k + 3) :
    (col.call r.peer).tensor.data <+: p.mem.heap r.peer := by
  obtain ⟨h1, h2, h3, h4⟩ := inv.lockstep r
  exact inv.heap r.peer k col hcol (by omega) (by omega)

theorem Inv.step_add (inv : Inv addValues cs p cur) {col : Collective pair}
    (hcol : (moving cs)[k]? = some col) (hcur : cur r = 6 * k + 3) (hpos : p.pos r k = 3) :
    Inv addValues cs
      (p.advance (device addValues) r k (.add r (k + 1) (col.call r).tensor.dtype
        (col.call r).tensor.numel (col.call r).tensor.data r.peer))
      (Function.update cur r (cur r + 1)) := by
  have hheap := inv.peer_heap hcol hcur
  have hlen : (col.call r.peer).tensor.data.length =
      (col.call r).tensor.numel * (col.call r).tensor.dtype.elementSize := by
    rw [Tensor.data_length, ← (col.sameShape r).sizeBytes]
    rfl
  refine inv.advance (by omega) (by omega) (by omega) (by omega)
    (inv.fence_frame (by omega) (by omega)) (inv.heap_frame (by omega)) fun q i col' hcol' => ?_
  rcases Rank.eq_or_eq_peer q r with rfl | rfl
  · rw [Function.update_self]
    by_cases hik : i = k
    · subst hik
      obtain rfl : col = col' := by simpa using hcol.symm.trans hcol'
      rw [if_pos (by omega)]
      simp [Op.run, addKernel_prefix addValues _ _ hheap hlen, Collective.sum, Tensor.sum]
    · have hiff : 6 * i + 4 ≤ cur q + 1 ↔ 6 * i + 4 ≤ cur q := by omega
      simp [Op.run, hik, hiff, inv.output q i col' hcol']
  · simp [Op.run, inv.output r.peer i col' hcol']

/-- The consumed signal finds the peer's fence at the ready value of the same call. -/
theorem Inv.step_signalConsumed (inv : Inv addValues cs p cur) (hcur : cur r = 6 * k + 4)
    (hpos : p.pos r k = 4) :
    Inv addValues cs (p.advance (device addValues) r k (.signal r.peer ((k + 1) * 2)))
      (Function.update cur r (cur r + 1)) := by
  obtain ⟨h1, h2, h3, h4⟩ := inv.lockstep r
  refine inv.advance (by omega) (by omega) (by omega) (by omega) ?_
    (inv.heap_frame (by omega)) (inv.output_frame (by omega))
  have hv : (k + 1) * 2 = stores (cur r.peer) (cur r) + 1 := by
    unfold stores
    omega
  have hpeer := inv.fence r.peer
  rw [Rank.peer_peer] at hpeer
  rw [stores_succ_left, stores_succ_right, if_neg (by omega), if_pos (by omega), hv]
  exact ⟨by simpa [Op.run] using inv.fence r, by simpa [Op.run] using hpeer.set⟩

theorem Inv.step_waitConsumed (inv : Inv addValues cs p cur) (hcur : cur r = 6 * k + 5)
    (hpos : p.pos r k = 5) (hready : (k + 1) * 2 ≤ (p.mem.fence r).value) :
    Inv addValues cs (p.advance (device addValues) r k (.wait r ((k + 1) * 2)))
      (Function.update cur r (cur r + 1)) := by
  obtain ⟨h1, h2, h3, h4⟩ := inv.lockstep r
  refine inv.advance (by omega) (by omega) (by omega) (fun _ => ?_)
    (inv.fence_frame (by omega) (by omega)) (inv.heap_frame (by omega)) (inv.output_frame (by omega))
  rw [(inv.fence r).value, stores] at hready
  omega

/-- Whatever operation of a rank runs next, the invariant is kept. -/
theorem Inv.step (inv : Inv addValues cs p cur) (hnf : NoFault cs) (hss : SingleStream cs)
    (hn : Next s (jobs cs r) (p.pos r) k op) (hr : op.ready p.mem) :
    Inv addValues cs (p.advance (device addValues) r k op) (Function.update cur r (cur r + 1)) := by
  obtain ⟨hcur, hlt⟩ := inv.cursor hnf hss hn
  obtain ⟨col, hcol⟩ := moving_of_opsAt hn.op_eq
  have hop := hn.op_eq
  rw [opsAt_noFault hnf hcol, sixSteps] at hop
  generalize hj : p.pos r k = j at hcur hlt hop
  have hsix : j = 0 ∨ j = 1 ∨ j = 2 ∨ j = 3 ∨ j = 4 ∨ j = 5 := by omega
  rcases hsix with rfl | rfl | rfl | rfl | rfl | rfl <;> cases hop
  · exact inv.step_copy hcol hcur hj
  · exact inv.step_signalReady hcur hj
  · exact inv.step_waitReady hcur hj hr
  · exact inv.step_add hcol hcur hj
  · exact inv.step_signalConsumed hcur hj
  · exact inv.step_waitConsumed hcur hj hr

/-- The run lemma: the invariant holds in every state the two ranks can reach. -/
theorem reachable_inv (hnf : NoFault cs) (hss : SingleStream cs) {heap : Rank → Bytes}
    (hp : (progress (device addValues) (jobs cs) (.start heap)).Reachable p) :
    ∃ cur, Inv addValues cs p cur := by
  refine System.Reachable.invariant (I := fun p => ∃ cur, Inv addValues cs p cur) ?_ ?_ hp
  · rintro _ rfl
    exact ⟨_, .start addValues heap⟩
  · rintro p _ _ ⟨cur, inv⟩ ⟨hn, hr⟩
    exact ⟨_, inv.step hnf hss hn hr⟩

end
end MultiGpuTransport.D3D12
