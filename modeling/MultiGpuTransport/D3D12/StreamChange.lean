import Mathlib.Data.Nat.Find
import MultiGpuTransport.D3D12.AllReduceCorrect
import MultiGpuTransport.Lib.Schedule

/-!
# Calls on changing streams

The consumed wait of a call stands on the stream of that call only. When the next call is made on
another stream nothing holds its copy back, and the heap is reused while the peer may still have
to read it. So the heap is safe exactly when each rank stays on one stream.
-/
namespace MultiGpuTransport.D3D12
open Streams Transition

/-- What the transport promises when its streams are not ordered among themselves: a copy waits
until the peer has read the heap, sums are those of their calls, no fence goes back. -/
structure StreamSafe {pair : Pair} {η : Type} [DecidableEq η] (addValues : AddValues)
    (cs : List (Collective pair)) (returned : Returns)
    (S : System (HostConfig η (Rank × StreamId) Op Mem)) : Prop where
  reuse : ∀ c, S.Reachable c → ∀ r s epoch source rest,
    c.queue (r, s) = .copy r (epoch + 1) source :: rest → 0 < epoch →
      (c.mem.output r.peer epoch).isSome
  sums : ∀ c, S.Reachable c → ∀ r i col ref bytes, cs[i]? = some col → returned r i ref →
    ref.read c.mem r = some bytes → bytes = col.sum addValues r
  fences : ∀ c, S.Reachable c → ∀ r, (c.mem.fence r).Nondecreasing

section
variable {pair : Pair} {cs : List (Collective pair)} {addValues : AddValues}

/-- A rank that does not stay on one stream has a first call on another one. -/
theorem exists_first_change {r : Rank} {col col' : Collective pair} (hcol : col ∈ moving cs)
    (hcol' : col' ∈ moving cs) (hne : (col.call r).stream ≠ (col'.call r).stream) :
    ∃ k s, streamAt (jobs cs r) (k + 1) = some s ∧
      ∀ j ≤ k, streamAt (jobs cs r) j ≠ some s := by
  obtain ⟨first, hfirst⟩ : ∃ first, (moving cs)[0]? = some first :=
    ⟨_, List.getElem?_eq_getElem (List.length_pos_of_mem hcol)⟩
  obtain ⟨i, other, hother, hdiff⟩ : ∃ (i : ℕ) (other : Collective pair), (moving cs)[i]? = some other ∧
      (other.call r).stream ≠ (first.call r).stream := by
    by_cases h : (col.call r).stream = (first.call r).stream
    · obtain ⟨i, hi⟩ := List.getElem?_of_mem hcol'
      exact ⟨i, col', hi, fun h' => hne (h.trans h'.symm)⟩
    · obtain ⟨i, hi⟩ := List.getElem?_of_mem hcol
      exact ⟨i, col, hi, h⟩
  have hchange : ∃ i s, streamAt (jobs cs r) i = some s ∧ s ≠ (first.call r).stream :=
    ⟨i, _, streamAt_jobs hother, hdiff⟩
  classical
  obtain ⟨s, hs, hsne⟩ := Nat.find_spec hchange
  obtain ⟨k, hk⟩ : ∃ k, Nat.find hchange = k + 1 := by
    refine Nat.exists_eq_succ_of_ne_zero fun h0 => hsne ?_
    rw [h0, streamAt_jobs hfirst] at hs
    exact (Option.some.inj hs).symm
  refine ⟨k, s, hk ▸ hs, fun j hj hjs => ?_⟩
  exact Nat.find_min hchange (by omega : j < Nat.find hchange) ⟨s, hjs, hsne⟩

/-- The first call on another stream can copy before anything else has happened. -/
theorem not_reuse_of_change {η : Type} [DecidableEq η] {owner : Rank × StreamId → η}
    {program : η → List (Instr (Rank × StreamId) Op)} (hnf : NoFault cs)
    (hreal : Realizes owner program (jobs cs)) (henq : ∀ h, ∀ i ∈ program h, i.IsEnqueue)
    {returned : Returns} {heap : Rank → Bytes} {r : Rank} {k : ℕ} {s : StreamId}
    (hs : streamAt (jobs cs r) (k + 1) = some s) (hfirst : ∀ j ≤ k, streamAt (jobs cs r) j ≠ some s) :
    ¬ StreamSafe addValues cs returned
      (hostSystem (device addValues) (HostConfig.start program (.start heap))) := by
  intro safe
  obtain ⟨c, hc, hm, hq⟩ := reachable_enqueued (device addValues) program (.start heap)
    (owner (r, s)) (henq _)
  obtain ⟨col, hcol⟩ : ∃ col, (moving cs)[k + 1]? = some col := by
    simp only [streamAt, jobs_getElem?, Option.map_map, Option.map_eq_some_iff] at hs
    exact ⟨_, hs.choose_spec.1⟩
  have hnext : Next s (jobs cs r) (fun _ => 0) (k + 1)
      (.copy r (k + 1 + 1) (col.call r).tensor.data) := by
    refine ⟨hs, by rw [opsAt_noFault hnf hcol]; rfl, fun j hj hjs => ?_⟩
    exact absurd hjs (hfirst j (by omega))
  obtain ⟨rest, hrest⟩ := hnext.remaining_eq
  have hhead := safe.reuse c hc r s (k + 1) _ rest
    ((hq (r, s)).trans ((hreal.queue_eq r s).trans hrest)) (Nat.succ_pos k)
  simp [hm, Mem.start] at hhead

/-- On one stream the copy of a call comes after the peer's add of the call before. -/
theorem reuse_of_singleStream {η : Type} [DecidableEq η] {owner : Rank × StreamId → η}
    {program : η → List (Instr (Rank × StreamId) Op)} (hnf : NoFault cs) (hss : SingleStream cs)
    (hreal : Realizes owner program (jobs cs)) {heap : Rank → Bytes}
    {c : HostConfig η (Rank × StreamId) Op Mem}
    (hc : (hostSystem (device addValues) (HostConfig.start program (.start heap))).Reachable c)
    {r : Rank} {s : StreamId} {epoch : ℕ} {source : Bytes} {rest : List Op}
    (hq : c.queue (r, s) = .copy r (epoch + 1) source :: rest) (he : 0 < epoch) :
    (c.mem.output r.peer epoch).isSome := by
  obtain ⟨p, hf⟩ := hreal.follows hc
  obtain ⟨cur, inv⟩ := reachable_inv hnf hss hf.reachable
  obtain ⟨k, hn⟩ := hf.next hq
  obtain ⟨hcur, hlt⟩ := inv.cursor hnf hss hn
  obtain ⟨col, hcol⟩ := moving_of_opsAt hn.op_eq
  have hop := hn.op_eq
  rw [opsAt_noFault hnf hcol, sixSteps] at hop
  obtain ⟨hpos, hk⟩ : p.pos r k = 0 ∧ k = epoch := by
    generalize p.pos r k = j at hop hlt
    have hsix : j = 0 ∨ j = 1 ∨ j = 2 ∨ j = 3 ∨ j = 4 ∨ j = 5 := by omega
    rcases hsix with rfl | rfl | rfl | rfl | rfl | rfl <;> cases hop
    exact ⟨rfl, rfl⟩
  obtain ⟨i, rfl⟩ := Nat.exists_eq_succ_of_ne_zero he.ne'
  have hprev : i < (moving cs).length := by
    have := (List.getElem?_eq_some_iff.mp hcol).1
    omega
  have hbehind := (inv.lockstep r).consumed
  rw [← hf.mem_eq, inv.output r.peer i _ (List.getElem?_eq_getElem hprev), if_pos (by omega)]
  rfl

/-- Whatever feeds the streams: safe on all interleavings if and only if no rank ever changes
stream. -/
theorem streamSafe_iff {η : Type} [DecidableEq η] {owner : Rank × StreamId → η}
    {program : η → List (Instr (Rank × StreamId) Op)} (hnf : NoFault cs)
    (hreal : Realizes owner program (jobs cs)) (henq : ∀ h, ∀ i ∈ program h, i.IsEnqueue)
    {returned : Returns} {heap : Rank → Bytes}
    (hcorrect : SingleStream cs → Correct addValues cs returned
      (hostSystem (device addValues) (HostConfig.start program (.start heap)))) :
    StreamSafe addValues cs returned
      (hostSystem (device addValues) (HostConfig.start program (.start heap))) ↔
      SingleStream cs := by
  constructor
  · intro safe r col hcol col' hcol'
    by_contra hne
    obtain ⟨k, s, hs, hfirst⟩ := exists_first_change hcol hcol' hne
    exact not_reuse_of_change hnf hreal henq hs hfirst safe
  · intro hss
    have hall := hcorrect hss
    exact {
      reuse := fun c hc r s epoch source rest hq he => reuse_of_singleStream hnf hss hreal hc hq he
      sums := hall.sums
      fences := fun c hc r => (hall.fences c hc r).choose_spec.nondecreasing }

/-- Under both hosts: the heaps are safe exactly when each rank stays on one stream. -/
theorem allReduce_streamSafe_iff (addValues : AddValues) (heap : Rank → Bytes) :
    (∀ (pair : Pair) (cs : List (Collective pair)), NoFault cs →
      (StreamSafe addValues cs (pythonReturns pair cs) (pythonSystem addValues pair cs heap) ↔
        SingleStream cs)) ∧
    ∀ (devices : Rank → ℕ) (maxSizeBytes : ℕ) (cs : List (ShimCollective devices maxSizeBytes)),
      StreamSafe addValues (ShimCollective.toCollectives cs) (shimReturns cs)
        (ShimCollective.system addValues cs heap) ↔
          SingleStream (ShimCollective.toCollectives cs) :=
  ⟨fun pair cs hnf => streamSafe_iff hnf (program_realizes pair cs) (program_isEnqueue pair cs)
      fun hss => python_correct hnf hss heap,
    fun _ _ cs => streamSafe_iff (ShimCollective.noFault cs) (ShimCollective.program_realizes cs)
      (fun _ => ShimCollective.program_isEnqueue cs) fun hss => shim_correct hss heap⟩

end

theorem allReduce_streamSafe_iff_sample : NoFault sampleCalls ∧
    (StreamSafe addBytes sampleCalls (pythonReturns samplePair sampleCalls)
      (pythonSystem addBytes samplePair sampleCalls fun _ => [0, 0, 0, 0]) ↔
        SingleStream sampleCalls) :=
  ⟨sampleCalls_noFault, (allReduce_streamSafe_iff addBytes _).1 samplePair _ sampleCalls_noFault⟩

/-- Rank 0 makes its second call on another stream than its first. -/
def changingCalls : List (Collective samplePair) :=
  [sampleCollective (fun _ => 1) (fun _ => 1) (fun _ => none),
   sampleCollective (fun _ => 2) (fun r => if r = .zero then 2 else 1) (fun _ => none)]

/-- Rank 0 publishes both payloads before rank 1 adds the first. -/
def changingRun : List (Turn Rank (Rank × StreamId)) :=
  List.replicate 12 (.host .zero) ++ List.replicate 12 (.host .one) ++
    [.stream (.zero, 1), .stream (.zero, 2), .stream (.zero, 1)] ++
    List.replicate 4 (.stream (.one, 1))

/-- Rank 1 then gets 1 + 2 for a call in which both ranks passed 1. -/
theorem changingCalls_unsafe : NoFault changingCalls ∧
    ¬ StreamSafe addBytes changingCalls (pythonReturns samplePair changingCalls)
      (pythonSystem addBytes samplePair changingCalls fun _ => [0, 0, 0, 0]) := by
  constructor
  · intro col hcol r
    have hmem := List.mem_of_mem_filter hcol
    simp only [changingCalls, List.mem_cons, List.not_mem_nil, or_false] at hmem
    rcases hmem with rfl | rfl <;> rfl
  · intro safe
    have hrun : ((HostConfig.start (program samplePair changingCalls) (.start fun _ =>
        [0, 0, 0, 0])).turns (device addBytes) changingRun).map (fun c => c.mem.output .one 1) =
          some (some [3, 0, 0, 0]) := by decide +kernel
    obtain ⟨c, hc, hout⟩ := Option.map_eq_some_iff.mp hrun
    have hsum := safe.sums c (reachable_turns (.init rfl) hc) .one 0 _ (.output 1) _ rfl
      (by unfold pythonReturns; decide +kernel) hout
    revert hsum
    decide +kernel

end MultiGpuTransport.D3D12
