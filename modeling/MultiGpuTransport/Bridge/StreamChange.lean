import MultiGpuTransport.Bridge.Delivery
import MultiGpuTransport.Lib.Schedule

/-!
# Transfers under changing source streams

The wait that protects the heap stands on the source stream of its own call. A call under another
source stream is not held back: it overwrites a payload that may still have to be read, and its ready
value passes the fence before those of the calls before it.
-/
namespace MultiGpuTransport.Bridge
open Streams Transition

section
variable {bridge : D3D12TensorBridge} {calls ms : List (Call NativeStep)} {heap : Bytes}

/-- No step of any of the calls fails. -/
def NoFault (ms : List (Call NativeStep)) : Prop := ∀ call ∈ ms, call.fault = none

theorem NoFault.lateFailuresLast (h : NoFault ms) : LateFailuresLast ms := by
  intro k j _ hfive
  exfalso
  cases hcall : ms[k]? with
  | none => simp [steps, hcall] at hfive
  | some call =>
    rw [steps_eq hcall, h call (List.mem_of_getElem? hcall)] at hfive
    simp [enqueuedBy] at hfive

/-- Calls under more than one source stream have a first one under another stream than the first. -/
theorem exists_first_change (h : ¬ SingleStream ms) :
    ∃ first before other after, ms = first :: (before ++ other :: after) ∧
      (∀ call ∈ before, call.stream = first.stream) ∧ other.stream ≠ first.stream := by
  cases ms with
  | nil => exact absurd (fun call hcall => by simp at hcall) h
  | cons first rest =>
    cases hfind : rest.find? fun call => call.stream ≠ first.stream with
    | none =>
      have hall : ∀ call ∈ first :: rest, call.stream = first.stream := by
        simpa using List.find?_eq_none.mp hfind
      exact absurd (fun call hc call' hc' => (hall call hc).trans (hall call' hc').symm) h
    | some other =>
      obtain ⟨hne, before, after, rfl, hbefore⟩ := List.find?_eq_some_iff_append.mp hfind
      exact ⟨first, before, other, after, rfl, by simpa using hbefore, by simpa using hne⟩

/-- All of it enqueued, the source streams hold their calls one after the other. -/
theorem reachable_allEnqueued (bridge : D3D12TensorBridge) (calls : List (Call NativeStep))
    (heap : Bytes) : ∃ c, (system bridge calls heap).Reachable c ∧ c.mem = .start heap ∧
      ∀ s, c.queue (.creator, s) = remaining s (jobs (moving bridge calls) .creator) fun _ => 0 := by
  obtain ⟨c, hc, hm, hq⟩ := reachable_enqueued device (fun _ => program bridge calls) (.start heap)
    () (program_isEnqueue bridge calls)
  exact ⟨c, hc, hm, fun s =>
    (hq (.creator, s)).trans ((program_realizes bridge calls).queue_eq .creator s)⟩

variable (heap) in
/-- The first call under another stream may signal before the very first call does. -/
theorem not_sorted_of_change (hnf : NoFault (moving bridge calls))
    (h : ¬ SingleStream (moving bridge calls)) :
    ∃ c, (system bridge calls heap).Reachable c ∧ ¬ c.mem.fence.Nondecreasing := by
  obtain ⟨first, before, other, after, hms, hbefore, hne⟩ := exists_first_change h
  obtain ⟨c, hc, hm, hq⟩ := reachable_allEnqueued bridge calls heap
  have hfault : ∀ call ∈ [first, other], call.fault = none := fun call hcall =>
    hnf call (by rw [hms]; simp at hcall ⊢; tauto)
  have hjobs : jobs (moving bridge calls) .creator = Side.creator.job (first, 0) ::
      ((before.zipIdx 1).map Side.creator.job ++
        Side.creator.job (other, 1 + before.length) ::
          (after.zipIdx (1 + before.length + 1)).map Side.creator.job) := by
    simp [jobs, hms, List.zipIdx_cons, List.zipIdx_append]
  have hskip : remaining other.stream ((before.zipIdx 1).map Side.creator.job) (fun _ => 0) = [] := by
    refine remaining_eq_nil_of_ne fun j hj => ?_
    obtain ⟨b, hb, rfl⟩ := List.mem_map.mp hj
    exact fun heq => hne (heq.symm.trans (hbefore b.1 (List.fst_mem_of_mem_zipIdx hb)))
  have hops : ∀ call ∈ [first, other], ∀ k, (Side.creator.job (call, k)).ops =
      [.copyToHeap call.tensor.data, .signal (k * 2 + 1), .wait (k * 2 + 2)] := by
    intro call hcall k
    simp [Side.job, hfault call hcall, enqueuedBy, Side.count, Side.ops]
  have hstream : ∀ call k, (Side.creator.job (call, k)).stream = call.stream := fun _ _ => rfl
  have hother : ∃ rest, c.queue (.creator, other.stream) =
      [.copyToHeap other.tensor.data, .signal ((1 + before.length) * 2 + 1)] ++ rest := by
    rw [hq, hjobs, remaining, remaining_append, hskip]
    simp [remaining, hstream, hops, hne.symm]
  have hfirst : ∃ rest, c.queue (.creator, first.stream) =
      [.copyToHeap first.tensor.data, .signal 1] ++ rest := by
    rw [hq, hjobs, remaining]
    simp [hstream, hops]
  obtain ⟨rest, hrest⟩ := hother
  obtain ⟨rest', hrest'⟩ := hfirst
  have hrun := reachable_execute hc hrest ⟨trivial, trivial, trivial⟩
  have hleft : Function.update c.queue (.creator, other.stream) rest (.creator, first.stream) =
      [.copyToHeap first.tensor.data, .signal 1] ++ rest' := by
    rw [Function.update_of_ne (by simpa using hne.symm), hrest']
  refine ⟨_, reachable_execute hrun hleft ⟨trivial, trivial, trivial⟩, ?_⟩
  simp only [Device.runAll, device_run, Op.run]
  exact Timeline.not_nondecreasing_set (Timeline.mem_set.mpr (.inr rfl)) (by omega)

/-- Where no step fails, the bridge delivers exactly when all calls that move bytes are made under one
source stream. -/
theorem transfer_delivers_iff (bridge : D3D12TensorBridge) (calls : List (Call NativeStep))
    (heap : Bytes) (hnf : NoFault (moving bridge calls)) :
    Delivers bridge calls (system bridge calls heap) ↔ SingleStream (moving bridge calls) := by
  constructor
  · intro hdelivers
    by_contra h
    obtain ⟨c, hc, hdecreased⟩ := not_sorted_of_change heap hnf h
    exact hdecreased (hdelivers.sorted c hc)
  · exact fun hss => delivers_of hss hnf.lateFailuresLast

end

/-- A bridge from device 0 to device 1 with room for four bytes. -/
def sampleBridge : D3D12TensorBridge where
  sourceDevice := 0
  destinationDevice := 1
  maxSizeBytes := 4
  creatorOpen := true
  openerOpen := true
  devices_ne := by decide
  maxSizeBytes_pos := by decide

def sampleTransfer (byte : UInt8) (stream : StreamId) (fault : Option (Fault NativeStep)) :
    Call NativeStep :=
  ⟨⟨.uint8, [1], 0, [byte], rfl⟩, stream, fault⟩

theorem transfer_delivers_iff_sample :
    NoFault (moving sampleBridge [sampleTransfer 1 7 none, sampleTransfer 2 7 none]) ∧
    (Delivers sampleBridge [sampleTransfer 1 7 none, sampleTransfer 2 7 none]
      (system sampleBridge [sampleTransfer 1 7 none, sampleTransfer 2 7 none] [0]) ↔
        SingleStream (moving sampleBridge [sampleTransfer 1 7 none, sampleTransfer 2 7 none])) := by
  have hnf : NoFault (moving sampleBridge [sampleTransfer 1 7 none, sampleTransfer 2 7 none]) := by
    intro call hcall
    have hmem := List.mem_of_mem_filter hcall
    simp only [List.mem_cons, List.not_mem_nil, or_false] at hmem
    rcases hmem with rfl | rfl <;> rfl
  exact ⟨hnf, transfer_delivers_iff _ _ _ hnf⟩

/-- Two transfers, each under a source stream of its own. -/
def changingTransfers : List (Call NativeStep) := [sampleTransfer 1 1 none, sampleTransfer 2 2 none]

/-- Both payloads are in the heap before the destination reads the first. -/
def changingRun : List (Turn Unit (Side × StreamId)) :=
  List.replicate 12 (.host ()) ++
    [.stream (.creator, 1), .stream (.creator, 2), .stream (.creator, 1), .stream (.opener, 0),
     .stream (.opener, 0)]

/-- The first transfer then delivers the payload of the second. -/
theorem changingTransfers_undelivered : NoFault (moving sampleBridge changingTransfers) ∧
    ¬ Delivers sampleBridge changingTransfers (system sampleBridge changingTransfers [0]) := by
  constructor
  · intro call hcall
    have hmem := List.mem_of_mem_filter hcall
    simp only [changingTransfers, List.mem_cons, List.not_mem_nil, or_false] at hmem
    rcases hmem with rfl | rfl <;> rfl
  · intro hdelivers
    have hrun : ((HostConfig.start (fun _ => program sampleBridge changingTransfers)
        (.start [0])).turns device changingRun).map (fun c => c.mem.output 1) =
          some (some [2]) := by decide +kernel
    obtain ⟨c, hc, hout⟩ := Option.map_eq_some_iff.mp hrun
    have hpayload := hdelivers.payloads c (reachable_turns (.init rfl) hc) 0 _ (.output 1) _ rfl
      (by unfold Returns; decide +kernel) hout
    revert hpayload
    decide

end MultiGpuTransport.Bridge
