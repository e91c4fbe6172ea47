import MultiGpuTransport.Bridge.StreamChange

/-!
# Transfers that fail part-way

The destination finishes what a failed call has put on its stream. When it was the last step that
failed, the wait on the source stream, nothing keeps the source from going on while the destination
still has the consumed signal of the failed call to make. A later call that comes to its ready signal
then finds the fence taken back.
-/
namespace MultiGpuTransport.Bridge
open Streams Transition

section
variable {bridge : D3D12TensorBridge} {calls ms : List (Call NativeStep)} {heap : Bytes}

/-- Late failures that are not last: after a call that failed in its last step there is one that comes
past its ready signal, and before it only such that do not. -/
theorem exists_lateFailure (h : ¬ LateFailuresLast ms) :
    ∃ before failed skipped later after,
      ms = before ++ failed :: (skipped ++ later :: after) ∧ enqueuedBy failed.fault = 5 ∧
        (∀ call ∈ skipped, enqueuedBy call.fault ≤ 1) ∧ 2 ≤ enqueuedBy later.fault := by
  simp only [LateFailuresLast, not_forall, not_le] at h
  obtain ⟨k, j, hkj, hfive, hj⟩ := h
  have hlater : j < ms.length := by
    by_contra hge
    simp [steps, List.getElem?_eq_none (Nat.le_of_not_lt hge)] at hj
  have hk := List.getElem?_eq_getElem (Nat.lt_trans hkj hlater)
  rw [steps_eq hk] at hfive
  rw [steps_eq (List.getElem?_eq_getElem hlater)] at hj
  have hsplit : ms = ms.take k ++ ms[k] :: ms.drop (k + 1) := by
    rw [← List.drop_eq_getElem_cons, List.take_append_drop]
  cases hfind : (ms.drop (k + 1)).find? fun call => 2 ≤ enqueuedBy call.fault with
  | none =>
    have hnone := List.find?_eq_none.mp hfind ms[j]
      (List.mem_drop_iff_getElem.mpr ⟨j - (k + 1), by omega, by congr 1; omega⟩)
    simp at hnone
    omega
  | some later =>
    obtain ⟨hpast, skipped, after, hrest, hskipped⟩ := List.find?_eq_some_iff_append.mp hfind
    rw [hrest] at hsplit
    refine ⟨_, _, skipped, later, after, hsplit, hfive, fun call hcall => ?_, by simpa using hpast⟩
    have := hskipped call hcall
    simp at this
    omega

/-- In the order in which a call enqueues them, its operations never wait. -/
theorem readyInOrder_items (b : Call NativeStep × ℕ) (m : Mem) :
    device.ReadyInOrder ((items b).map Prod.snd) m := by
  rw [items, List.map_take]
  refine Device.ReadyInOrder.take ?_ _
  simp [sixSteps, Op.ready, Op.run]

/-- A call that fails before its ready signal leaves at most a copy. -/
theorem copies_of_skipped {blocks : List (Call NativeStep × ℕ)}
    (h : ∀ b ∈ blocks, enqueuedBy b.1.fault ≤ 1) {op : Op} {on : Side × StreamId}
    (hop : op ∈ (blocks.flatMap items).filterMap fun e => if e.1 = on then some e.2 else none) :
    ∃ source, op = .copyToHeap source := by
  obtain ⟨e, he, hsome⟩ := List.mem_filterMap.mp hop
  obtain ⟨b, hb, heb⟩ := List.mem_flatMap.mp he
  have hfirst := List.take_subset_take_left _ (h b hb) heb
  simp only [sixSteps, List.take_succ_cons, List.take_zero, List.mem_singleton] at hfirst
  subst hfirst
  split_ifs at hsome
  exact ⟨_, (Option.some.inj hsome).symm⟩

/-- Copies to the heap are always ready and leave the fence alone. -/
theorem readyInOrder_copies {ops : List Op} (h : ∀ op ∈ ops, ∃ source, op = .copyToHeap source)
    (m : Mem) : device.ReadyInOrder ops m ∧ (device.runAll ops m).fence = m.fence := by
  induction ops generalizing m with
  | nil => exact ⟨trivial, rfl⟩
  | cons op ops ih =>
    obtain ⟨⟨source, rfl⟩, hops⟩ := List.forall_mem_cons.mp h
    exact ⟨⟨trivial, (ih hops _).1⟩, (ih hops _).2⟩

/-- The operations of a list of items for one stream. -/
def opsOn (on : Side × StreamId) (es : List Item) : List Op :=
  es.filterMap fun e => if e.1 = on then some e.2 else none

theorem opsOn_append (on : Side × StreamId) (es es' : List Item) :
    opsOn on (es ++ es') = opsOn on es ++ opsOn on es' := List.filterMap_append

/-- A call that comes past its ready signal puts its copy and the signal first. -/
theorem opsOn_later {later : Call NativeStep} (h : 2 ≤ enqueuedBy later.fault) (k : ℕ) :
    ∃ rest, opsOn (.creator, later.stream) (items (later, k)) =
      [.copyToHeap later.tensor.data, .signal (k * 2 + 1)] ++ rest := by
  obtain ⟨n, hn⟩ := Nat.exists_eq_add_of_le (show 2 ≤ Side.creator.count (enqueuedBy later.fault) by
    simp only [Side.count]
    omega)
  refine ⟨[Op.wait (k * 2 + 2)].take n, ?_⟩
  rw [opsOn, filterMap_items, if_pos (show Side.creator.stream later = later.stream from rfl)]
  simp [Side.job, Side.ops, hn, Nat.add_comm 2 n, List.take_succ_cons]

/-- The streams take what they can of some items, and then the rest is enqueued. -/
theorem reachable_after {done rest : List Item}
    (hsplit : (moving bridge calls).zipIdx.flatMap items = done ++ rest)
    (hready : device.ReadyInOrder (done.map Prod.snd) (.start heap)) :
    ∃ c, (system bridge calls heap).Reachable c ∧ ∀ on, c.queue on = opsOn on rest := by
  have hstart : (system bridge calls heap).Reachable
      (HostConfig.start (fun _ => program bridge calls) (.start heap)) := .init rfl
  have hprogram : (HostConfig.start (fun _ => program bridge calls) (Mem.start heap)).pending () =
      (done.map fun e => .enqueue e.1 e.2) ++ rest.map fun e => .enqueue e.1 e.2 := by
    rw [← List.map_append, ← hsplit]
    exact program_eq bridge calls
  have hdone := reachable_inOrder hstart hprogram (fun _ => rfl) hready
  have hall : ∀ i ∈ rest.map fun e => Instr.enqueue e.1 e.2, i.IsEnqueue := by
    intro i hi
    obtain ⟨e, -, rfl⟩ := List.mem_map.mp hi
    trivial
  have henq := reachable_enqueue hdone (h := ()) (by simp) hall
  exact ⟨_, henq, fun on => by simp [HostConfig.start, List.filterMap_map, opsOn, Function.comp_def]⟩

/-- Where the source may go on to a ready signal and the destination is still to make an earlier
consumed signal, the fence can be taken back. -/
theorem not_sorted_of_race {c : HostConfig Unit (Side × StreamId) Op Mem}
    (hc : (system bridge calls heap).Reachable c) {s t : StreamId} {copies rest rest' : List Op}
    {source : Bytes} {epoch sizeBytes v w u : ℕ}
    (hcopies : ∀ op ∈ copies, ∃ source, op = .copyToHeap source)
    (hsource : c.queue (.creator, s) = (copies ++ [.copyToHeap source, .signal v]) ++ rest)
    (hdestination : c.queue (.opener, t) =
      [.wait w, .copyFromHeap epoch sizeBytes, .signal u] ++ rest')
    (hwait : w ≤ v) (hlt : u < v) :
    ∃ c, (system bridge calls heap).Reachable c ∧ ¬ c.mem.fence.Nondecreasing := by
  have hready := (readyInOrder_copies hcopies c.mem).1
  have hsignal := reachable_execute hc hsource
    (Device.readyInOrder_append.mpr ⟨hready, trivial, trivial, trivial⟩)
  rw [Device.runAll_append] at hsignal
  generalize device.runAll copies c.mem = m at hsignal
  have hleft : Function.update c.queue (.creator, s) rest (.opener, t) =
      [.wait w, .copyFromHeap epoch sizeBytes, .signal u] ++ rest' := by
    rw [Function.update_of_ne (by simp), hdestination]
  have hpassed : device.ReadyInOrder [.wait w, .copyFromHeap epoch sizeBytes, .signal u]
      (device.runAll [.copyToHeap source, .signal v] m) := by
    simpa [Op.ready, Op.run] using hwait
  refine ⟨_, reachable_execute (s := (.opener, t)) hsignal hleft hpassed, ?_⟩
  simp only [Device.runAll, device_run, Op.run]
  exact Timeline.not_nondecreasing_set (Timeline.mem_set.mpr (.inr rfl)) hlt

variable (heap) in
/-- The source goes on past a call that failed in its last step, and then the destination finishes
that call. -/
theorem not_sorted_of_lateFailure (h : ¬ LateFailuresLast (moving bridge calls)) :
    ∃ c, (system bridge calls heap).Reachable c ∧ ¬ c.mem.fence.Nondecreasing := by
  obtain ⟨before, failed, skipped, later, after, hms, hfive, hskipped, hlater⟩ :=
    exists_lateFailure h
  obtain ⟨k, hk⟩ : ∃ k, k = before.length := ⟨_, rfl⟩
  obtain ⟨j, hj⟩ : ∃ j, j = k + 1 + skipped.length := ⟨_, rfl⟩
  -- what the streams have run when the call fails, what it leaves to the destination, and what the
  -- calls after it enqueue
  let done : List Item := before.zipIdx.flatMap items ++
    [((.creator, failed.stream), .copyToHeap failed.tensor.data),
     ((.creator, failed.stream), .signal (k * 2 + 1))]
  let left : List Item :=
    [((.opener, defaultStream), .wait (k * 2 + 1)),
     ((.opener, defaultStream), .copyFromHeap (k + 1) failed.tensor.sizeBytes),
     ((.opener, defaultStream), .signal (k * 2 + 2))]
  let copies : List Item := (skipped.zipIdx (k + 1)).flatMap items
  have hfailed : items (failed, k) =
      [((.creator, failed.stream), .copyToHeap failed.tensor.data),
       ((.creator, failed.stream), .signal (k * 2 + 1))] ++ left := by
    simp [items, hfive, sixSteps, left, Nat.add_mul]
  have hsplit : (moving bridge calls).zipIdx.flatMap items = done ++
      (left ++ (copies ++ (items (later, j) ++ (after.zipIdx (j + 1)).flatMap items))) := by
    simp [hms, done, copies, List.zipIdx_append, List.zipIdx_cons, ← hk, ← hj, hfailed]
  have hready : device.ReadyInOrder (done.map Prod.snd) (Mem.start heap) := by
    rw [List.map_append, List.map_flatMap, Device.readyInOrder_append]
    exact ⟨Device.readyInOrder_flatMap (fun b _ m => readyInOrder_items b m) _, trivial, trivial,
      trivial⟩
  obtain ⟨c, hc, hq⟩ := reachable_after hsplit hready
  obtain ⟨rest, hrest⟩ := opsOn_later hlater j
  have hcopies : ∀ op ∈ opsOn (.creator, later.stream) copies, ∃ source, op = .copyToHeap source :=
    fun op hop => copies_of_skipped
      (fun b hb => hskipped b.1 (List.fst_mem_of_mem_zipIdx hb)) hop
  have hsource : c.queue (.creator, later.stream) =
      (opsOn (.creator, later.stream) copies ++
        [.copyToHeap later.tensor.data, .signal (j * 2 + 1)]) ++
      (rest ++ opsOn (.creator, later.stream) ((after.zipIdx (j + 1)).flatMap items)) := by
    have hleft : opsOn (.creator, later.stream) left = [] := by simp [opsOn, left]
    rw [hq, opsOn_append, opsOn_append, opsOn_append, hleft, hrest]
    simp
  have hdestination : c.queue (.opener, defaultStream) =
      [.wait (k * 2 + 1), .copyFromHeap (k + 1) failed.tensor.sizeBytes, .signal (k * 2 + 2)] ++
        opsOn (.opener, defaultStream)
          (copies ++ (items (later, j) ++ (after.zipIdx (j + 1)).flatMap items)) := by
    rw [hq, opsOn_append]
    rfl
  exact not_sorted_of_race hc hcopies hsource hdestination (by omega) (by omega)

/-- Under one source stream, the bridge delivers exactly when no call that fails in its last step is
followed by one that comes past its ready signal. -/
theorem failedTransfer_delivers_iff (bridge : D3D12TensorBridge) (calls : List (Call NativeStep))
    (heap : Bytes) (hss : SingleStream (moving bridge calls)) :
    Delivers bridge calls (system bridge calls heap) ↔
      LateFailuresLast (moving bridge calls) := by
  constructor
  · intro hdelivers
    by_contra h
    obtain ⟨c, hc, hdecreased⟩ := not_sorted_of_lateFailure heap h
    exact hdecreased (hdelivers.sorted c hc)
  · exact fun hlate => delivers_of hss hlate

end

/-- The second of three transfers fails in its first step. -/
def earlyFailure : List (Call NativeStep) :=
  [sampleTransfer 1 7 none, sampleTransfer 2 7 (some ⟨.copyToHeap, "719"⟩), sampleTransfer 3 7 none]

theorem failedTransfer_delivers_iff_sample : SingleStream (moving sampleBridge earlyFailure) ∧
    (Delivers sampleBridge earlyFailure (system sampleBridge earlyFailure [0]) ↔
      LateFailuresLast (moving sampleBridge earlyFailure)) := by
  have hall : ∀ call ∈ moving sampleBridge earlyFailure, call.stream = 7 := by
    intro call hcall
    have hmem := List.mem_of_mem_filter hcall
    simp only [earlyFailure, List.mem_cons, List.not_mem_nil, or_false] at hmem
    rcases hmem with rfl | rfl | rfl <;> rfl
  have hss : SingleStream (moving sampleBridge earlyFailure) := fun call hcall call' hcall' =>
    (hall call hcall).trans (hall call' hcall').symm
  exact ⟨hss, failedTransfer_delivers_iff _ _ _ hss⟩

/-- The first transfer fails in its last step, and the second in none. -/
def lateFailure : List (Call NativeStep) :=
  [sampleTransfer 1 7 (some ⟨.waitConsumed, "719"⟩), sampleTransfer 2 7 none]

/-- The source signals the second payload before the destination has done with the first call. -/
def lateFailureRun : List (Turn Unit (Side × StreamId)) :=
  List.replicate 11 (.host ()) ++ List.replicate 4 (.stream (.creator, 7)) ++
    List.replicate 3 (.stream (.opener, 0))

/-- The fence goes from 3 back to 2. -/
theorem lateFailure_undelivered : SingleStream (moving sampleBridge lateFailure) ∧
    ¬ Delivers sampleBridge lateFailure (system sampleBridge lateFailure [0]) := by
  constructor
  · have hall : ∀ call ∈ moving sampleBridge lateFailure, call.stream = 7 := by
      intro call hcall
      have hmem := List.mem_of_mem_filter hcall
      simp only [lateFailure, List.mem_cons, List.not_mem_nil, or_false] at hmem
      rcases hmem with rfl | rfl <;> rfl
    exact fun call hcall call' hcall' => (hall call hcall).trans (hall call' hcall').symm
  · intro hdelivers
    have hrun : ((HostConfig.start (fun _ => program sampleBridge lateFailure)
        (.start [0])).turns device lateFailureRun).map (fun c => c.mem.fence.stored) =
          some [1, 3, 2] := by decide +kernel
    obtain ⟨c, hc, hstored⟩ := Option.map_eq_some_iff.mp hrun
    have hsorted := hdelivers.sorted c (reachable_turns (.init rfl) hc)
    rw [Timeline.Nondecreasing, hstored] at hsorted
    revert hsorted
    decide

end MultiGpuTransport.Bridge
