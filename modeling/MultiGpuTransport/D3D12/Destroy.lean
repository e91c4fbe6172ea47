import MultiGpuTransport.D3D12.AllReduceCorrect
import MultiGpuTransport.Lib.Teardown

/-!
# D3D12AllReduce.destroy

Each rank waits for its device, then for its peer at a barrier of the group, and then closes its
mappings of both heaps. The ranks call it whenever they like, while the streams of both still run.
-/
namespace MultiGpuTransport.D3D12
open Streams Transition

/-- The two buffers that a rank has open. -/
inductive SharedBuffer
  | peer
  | own
  deriving DecidableEq, Repr

def D3D12AllReduce.isOpen (comm : D3D12AllReduce) : SharedBuffer → Bool
  | .peer => comm.peerOpen
  | .own => comm.ownOpen

def D3D12AllReduce.closeBuffers (comm : D3D12AllReduce) : List (Shutdown SharedBuffer) :=
  ([.peer, .own].filter comm.isOpen).map .release

def D3D12AllReduce.destroy (comm : D3D12AllReduce) : List (Shutdown SharedBuffer) :=
  if !comm.ownOpen && !comm.peerOpen then []
  else .synchronize :: .arrive :: .pass :: comm.closeBuffers

section
variable (addValues : AddValues) (pair : Pair) (heap : Rank → Bytes)

/-- What the ranks' calls put on their streams, whichever of them raise. -/
def callsProgram (calls : Rank → List (Call NativeStep)) (r : Rank) :
    List (Instr (Rank × StreamId) Op) :=
  enqueues r (makeCalls (pair.comm r).allReduce (calls r) ⟨0, []⟩).2.enqueued

/-- The two ranks, each of which calls destroy after its last call. -/
def destroySystem (calls : Rank → List (Call NativeStep)) :
    System (Closing Rank (Rank × StreamId) Op Mem SharedBuffer) :=
  closing (device addValues) (Barrier.group Rank Mem) Prod.fst
    (HostConfig.start (callsProgram pair calls) (.start heap)) fun r => (pair.comm r).destroy

/-- Rank r has closed the buffer. -/
def Closed (c : Closing Rank (Rank × StreamId) Op Mem SharedBuffer) (r : Rank)
    (b : SharedBuffer) : Prop :=
  .release b ∉ c.left r

variable {addValues pair heap} {calls : Rank → List (Call NativeStep)}
  {c : Closing Rank (Rank × StreamId) Op Mem SharedBuffer}

theorem callsProgram_owned (r : Rank) : ∀ i ∈ callsProgram pair calls r, i.stream.1 = r := by
  simp only [callsProgram, enqueues, List.mem_map]
  rintro _ ⟨e, -, rfl⟩
  rfl

theorem destroySystem_eq : destroySystem addValues pair heap calls =
    closing (device addValues) (Barrier.group Rank Mem) Prod.fst
      (HostConfig.start (callsProgram pair calls) (.start heap)) (shutdownPlan fun _ => [.peer, .own]) := rfl

theorem Closed.finished (hc : (destroySystem addValues pair heap calls).Reachable c) {r : Rank}
    {b : SharedBuffer} (hb : Closed c r b) : ¬ c.work.Unfinished := by
  rw [destroySystem_eq] at hc
  refine finished_of_released callsProgram_owned hc (sound_group hc) (h := r) (r := b) ⟨?_, hb⟩
  cases b <;> simp

theorem destroy_closes_after_work (addValues : AddValues) (pair : Pair) (heap : Rank → Bytes) :
    (∀ calls c, (destroySystem addValues pair heap calls).Reachable c →
      ∀ r b, Closed c r b → ¬ c.work.Unfinished ∧
        ∀ c', (destroySystem addValues pair heap calls).step c c' → c'.work = c.work) ∧
    ∀ cs : List (Collective pair), NoFault cs → SingleStream cs →
      ∀ c, (destroySystem addValues pair heap fun r => cs.map fun col => col.call r).Reachable c →
        (∃ t, Relation.ReflTransGen (destroySystem addValues pair heap fun r =>
            cs.map fun col => col.call r).step c t ∧ ∀ r b, Closed t r b) ∧
        ∀ r b, Closed c r b → ∀ q i col ref, cs[i]? = some col → pythonReturns pair cs q i ref →
          ref.read c.work.mem q = some (col.sum addValues q) := by
  refine ⟨fun calls c hc r b hb => ⟨hb.finished hc, fun c' hst => ?_⟩, ?_⟩
  · exact CloseStep.work_eq hst (hb.finished hc)
  · intro cs hnf hss c hc
    have hcorrect : Correct addValues cs (pythonReturns pair cs) _ := python_correct hnf hss heap
    refine ⟨?_, fun r b hb q i col ref hcol href => ?_⟩
    · rw [destroySystem_eq] at hc
      obtain ⟨t, hrun, hend⟩ := exists_run_to_closed
        (neverStuck_closing callsProgram_owned hcorrect.live) hc
      refine ⟨t, hrun, fun r b hmem => hend (.inr ⟨r, List.ne_nil_of_mem hmem⟩)⟩
    · exact hcorrect.complete c.work (reachable_work hc) (hb.finished hc) q i col ref hcol href

theorem destroy_closes_after_work_sample :
    ∃ t, (destroySystem addBytes samplePair (fun _ => [0, 0, 0, 0])
        fun r => sampleCalls.map fun col => col.call r).Reachable t ∧
      ∀ r b, Closed t r b ∧ ¬ t.work.Unfinished := by
  obtain ⟨hsafe, hcomplete⟩ := destroy_closes_after_work addBytes samplePair fun _ => [0, 0, 0, 0]
  obtain ⟨⟨t, hrun, hclosed⟩, -⟩ :=
    hcomplete sampleCalls sampleCalls_noFault sampleCalls_singleStream _ (.init rfl)
  have ht := System.Reachable.steps (.init rfl) hrun
  exact ⟨t, ht, fun r b => ⟨hclosed r b, (hsafe _ t ht r b (hclosed r b)).1⟩⟩

end
end MultiGpuTransport.D3D12
