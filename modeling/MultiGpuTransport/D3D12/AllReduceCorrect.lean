import MultiGpuTransport.D3D12.ShimTransport

/-!
# Correctness of the two-rank AllReduce

Calls on one stream per rank none of whose steps fails: every output is the sum of its own call,
the fences count, and nothing gets stuck. This holds of the Python communicators, each with a
host of its own, and of the shim, whose one thread feeds both ranks.
-/
namespace MultiGpuTransport
open Streams Transition

/-- The bytes of a returned tensor, once its operations have filled it. -/
def TensorRef.read (m : D3D12.Mem) (r : Rank) : TensorRef → Option Bytes
  | .empty => some []
  | .output epoch => m.output r epoch

namespace D3D12

/-- Call i returns ref on rank r. -/
abbrev Returns := Rank → ℕ → TensorRef → Prop

/-- A run of the collectives cs does what AllReduce is for. -/
structure Correct {pair : Pair} {η : Type} [DecidableEq η] (addValues : AddValues)
    (cs : List (Collective pair)) (returned : Returns)
    (S : System (HostConfig η (Rank × StreamId) Op Mem)) : Prop where
  returns : ∀ r i, i < cs.length → ∃ ref, returned r i ref
  sums : ∀ c, S.Reachable c → ∀ r i col ref bytes, cs[i]? = some col → returned r i ref →
    ref.read c.mem r = some bytes → bytes = col.sum addValues r
  fences : ∀ c, S.Reachable c → ∀ r, ∃ n, (c.mem.fence r).Counts n
  live : ∀ c, S.Reachable c → c.Unfinished → S.CanStep c
  complete : ∀ c, S.Reachable c → ¬ c.Unfinished → ∀ r i col ref, cs[i]? = some col →
    returned r i ref → ref.read c.mem r = some (col.sum addValues r)

section
variable {pair : Pair} {cs : List (Collective pair)} {addValues : AddValues}

/-- Nothing is to be added up where there is nothing to move. -/
theorem Collective.sum_of_not_moves {col : Collective pair} (h : col.moves = false) (r : Rank) :
    col.sum addValues r = [] := by
  have hsize : (col.call r).tensor.sizeBytes = 0 := by
    simpa using mt (col.moves_iff r).mpr (by simp [h])
  have hes : (col.call r).tensor.dtype.elementSize ≠ 0 := by
    have hn := (col.accepted r).native
    revert hn
    cases (col.call r).tensor.dtype <;> simp [Dtype.isNative, Dtype.elementSize]
  have hnumel : (col.call r).tensor.numel = 0 := by
    simpa [Tensor.sizeBytes, Nat.mul_eq_zero, hes] using hsize
  simp [Collective.sum, Tensor.sum, hnumel]

/-- The waits of a rank a operations into its program that could be next have their signals. -/
def Runnable (a b : ℕ) : Prop :=
  (a % 6 = 2 → (a / 6 + 1) * 2 - 1 ≤ stores b a) ∧ (a % 6 = 5 → (a / 6 + 1) * 2 ≤ stores a b)

/-- Of two ranks in lockstep one is never blocked, and it is the one that is behind. -/
theorem Lockstep.runnable {a b : ℕ} (h : Lockstep a b) : Runnable a b ∨ Runnable b a ∧ b ≤ a := by
  obtain ⟨h1, h2, h3, h4⟩ := h
  unfold Runnable stores
  omega

/-- Of the six operations only the third and the last can be blocked. -/
theorem ready_sixSteps {r : Rank} {e j : ℕ} {t : Tensor} {op : Op} {m : Mem}
    (hop : (sixSteps r e t)[j]? = some op)
    (hready : j = 2 → e * 2 - 1 ≤ (m.fence r.peer).value)
    (hconsumed : j = 5 → e * 2 ≤ (m.fence r).value) : op.ready m := by
  have hj : j < 6 := (List.getElem?_eq_some_iff.mp hop).1
  match j, hj with
  | 0, _ | 1, _ | 3, _ | 4, _ => cases hop; trivial
  | 2, _ => cases hop; exact hready rfl
  | 5, _ => cases hop; exact hconsumed rfl

/-- A rank whose next wait has its signal can run its next operation. -/
theorem Inv.canStep {p : Progress Rank Mem} {cur : Rank → ℕ} (inv : Inv addValues cs p cur)
    (hnf : NoFault cs) {r : Rank} (hlt : cur r < 6 * (moving cs).length)
    (hrun : Runnable (cur r) (cur r.peer)) {m : Mem} :
    (progress (device addValues) (jobs cs) m).CanStep p := by
  have hk : cur r / 6 < (moving cs).length := by omega
  have hcol := List.getElem?_eq_getElem hk
  have hpos : p.pos r (cur r / 6) = cur r % 6 := by rw [inv.pos]; omega
  have hops := opsAt_noFault hnf (r := r) hcol
  obtain ⟨op, hop⟩ : ∃ op, (opsAt (jobs cs r) (cur r / 6))[cur r % 6]? = some op := by
    refine ⟨_, List.getElem?_eq_getElem ?_⟩
    rw [hops]
    exact Nat.mod_lt _ (by decide)
  have hfence := inv.fence r.peer
  rw [Rank.peer_peer] at hfence
  refine ⟨_, .run ⟨streamAt_jobs hcol, hpos ▸ hop, fun j hj _ => ?_⟩ (ready_sixSteps (hops ▸ hop) ?_ ?_)⟩
  · rw [opsAt_noFault hnf (List.getElem?_eq_getElem (Nat.lt_trans hj hk)), inv.pos]
    simp only [sixSteps, List.length_cons, List.length_nil]
    omega
  · rw [hfence.value]
    exact hrun.1
  · rw [(inv.fence r).value]
    exact hrun.2

/-- The run lemma for liveness: some rank that has not finished can take its next step. -/
theorem Inv.live {p : Progress Rank Mem} {cur : Rank → ℕ} (inv : Inv addValues cs p cur)
    (hnf : NoFault cs) (hu : ∃ r k, p.pos r k < (opsAt (jobs cs r) k).length) {m : Mem} :
    (progress (device addValues) (jobs cs) m).CanStep p := by
  obtain ⟨r, k, hlt⟩ := hu
  have hr : cur r < 6 * (moving cs).length := by
    obtain ⟨col, hcol⟩ := moving_of_opsAt (List.getElem?_eq_getElem hlt)
    have hk := (List.getElem?_eq_some_iff.mp hcol).1
    rw [opsAt_noFault hnf hcol, inv.pos] at hlt
    simp only [sixSteps, List.length_cons, List.length_nil] at hlt
    omega
  rcases (inv.lockstep r).runnable with h | ⟨h, hle⟩
  · exact inv.canStep hnf hr h
  · exact inv.canStep hnf (r := r.peer) (by omega) (by rwa [Rank.peer_peer])

/-- Any program whose streams get the jobs of the collectives in order is correct. -/
theorem correct_of_realizes {η : Type} [DecidableEq η] {owner : Rank × StreamId → η}
    {program : η → List (Instr (Rank × StreamId) Op)} (hnf : NoFault cs) (hss : SingleStream cs)
    (hreal : Realizes owner program (jobs cs)) (henq : ∀ h, ∀ i ∈ program h, i.IsEnqueue)
    {returned : Returns} (hret : ∀ r i, i < cs.length → ∃ ref, returned r i ref)
    (href : ∀ r i ref, returned r i ref → ∃ col, cs[i]? = some col ∧
      (col.moves = false ∧ ref = .empty ∨
        ∃ k, ref = .output (k + 1) ∧ (moving cs)[k]? = some col)) (heap : Rank → Bytes) :
    Correct addValues cs returned
      (hostSystem (device addValues) (HostConfig.start program (.start heap))) where
  returns := hret
  sums c hc r i col ref bytes hcol hr hread := by
    obtain ⟨p, hf⟩ := hreal.follows hc
    obtain ⟨cur, inv⟩ := reachable_inv hnf hss hf.reachable
    obtain ⟨col', hcol', ⟨hm, rfl⟩ | ⟨k, rfl, hk⟩⟩ := href r i ref hr
    · obtain rfl : col = col' := by simpa using hcol.symm.trans hcol'
      rw [Collective.sum_of_not_moves hm]
      simpa [TensorRef.read, eq_comm] using hread
    · obtain rfl : col = col' := by simpa using hcol.symm.trans hcol'
      rw [TensorRef.read, ← hf.mem_eq, inv.output r k col hk] at hread
      split_ifs at hread
      simpa [eq_comm] using hread
  fences c hc r := by
    obtain ⟨p, hf⟩ := hreal.follows hc
    obtain ⟨cur, inv⟩ := reachable_inv hnf hss hf.reachable
    exact ⟨_, hf.mem_eq ▸ inv.fence r⟩
  live c hc hu := by
    obtain ⟨p, hf⟩ := hreal.follows hc
    obtain ⟨cur, inv⟩ := reachable_inv hnf hss hf.reachable
    exact hf.canStep henq hc hu fun hl => inv.live hnf hl
  complete c hc hu r i col ref hcol hr := by
    obtain ⟨p, hf⟩ := hreal.follows hc
    obtain ⟨cur, inv⟩ := reachable_inv hnf hss hf.reachable
    obtain ⟨col', hcol', ⟨hm, rfl⟩ | ⟨k, rfl, hk⟩⟩ := href r i ref hr
    · obtain rfl : col = col' := by simpa using hcol.symm.trans hcol'
      rw [Collective.sum_of_not_moves hm]
      rfl
    · obtain rfl : col = col' := by simpa using hcol.symm.trans hcol'
      have hdone := hf.finished hu r k
      rw [opsAt_noFault hnf hk, inv.pos] at hdone
      simp only [sixSteps, List.length_cons, List.length_nil] at hdone
      rw [TensorRef.read, ← hf.mem_eq, inv.output r k col hk, if_pos (by omega)]

/-- What the Python calls return. -/
def pythonReturns (pair : Pair) (cs : List (Collective pair)) : Returns :=
  fun r i ref => (hostRun pair cs r).1[i]? = some (.ok ref)

theorem python_correct (hnf : NoFault cs) (hss : SingleStream cs) (heap : Rank → Bytes) :
    Correct addValues cs (pythonReturns pair cs) (pythonSystem addValues pair cs heap) := by
  refine correct_of_realizes hnf hss (program_realizes pair cs) (program_isEnqueue pair cs) ?_ ?_ heap
  · intro r i hi
    exact makeCalls_returns cs r _ i _ (List.getElem?_eq_getElem hi) fun hm =>
      hnf _ (List.mem_filter.mpr ⟨List.getElem_mem hi, hm⟩) r
  · intro r i ref h
    obtain ⟨col, hcol, hcase⟩ := makeCalls_result cs r _ i ref h
    refine ⟨col, hcol, hcase.imp_right ?_⟩
    rintro ⟨k, rfl, hk, _⟩
    exact ⟨k, by simp, hk⟩

variable {devices : Rank → ℕ} {maxSizeBytes : ℕ}

/-- What the shim's calls return: the same to both ranks. -/
def shimReturns (cs : List (ShimCollective devices maxSizeBytes)) : Returns := fun _ i ref =>
  (shimRun (ShimCollective.transportAt devices maxSizeBytes 0) (ShimCollective.arguments cs)).1[i]? =
    some (.ok ref)

theorem shim_correct {cs : List (ShimCollective devices maxSizeBytes)}
    (hss : SingleStream (ShimCollective.toCollectives cs)) (heap : Rank → Bytes) :
    Correct addValues (ShimCollective.toCollectives cs) (shimReturns cs)
      (ShimCollective.system addValues cs heap) := by
  refine correct_of_realizes (ShimCollective.noFault cs) hss (ShimCollective.program_realizes cs)
    (fun _ => ShimCollective.program_isEnqueue cs) ?_ ?_ heap
  · intro _ i hi
    exact ShimCollective.shimRun_returns cs 0 i (by simpa [ShimCollective.toCollectives] using hi)
  · intro _ i ref h
    obtain ⟨col, hcol, hcase⟩ := ShimCollective.shimRun_result cs 0 i ref h
    refine ⟨_, by rw [ShimCollective.toCollectives, List.getElem?_map, hcol]; rfl,
      hcase.imp_right ?_⟩
    rintro ⟨k, rfl, hk⟩
    exact ⟨k, by simp, hk⟩

/-- With one stream per rank and no failing step, the protocol is correct under both hosts. -/
theorem allReduce_singleStream_correct (addValues : AddValues) (heap : Rank → Bytes) :
    (∀ (pair : Pair) (cs : List (Collective pair)), NoFault cs → SingleStream cs →
      Correct addValues cs (pythonReturns pair cs) (pythonSystem addValues pair cs heap)) ∧
    ∀ (devices : Rank → ℕ) (maxSizeBytes : ℕ) (cs : List (ShimCollective devices maxSizeBytes)),
      SingleStream (ShimCollective.toCollectives cs) →
        Correct addValues (ShimCollective.toCollectives cs) (shimReturns cs)
          (ShimCollective.system addValues cs heap) :=
  ⟨fun _ _ hnf hss => python_correct hnf hss heap, fun _ _ _ hss => shim_correct hss heap⟩

end

/-- A pair on devices 0 and 1 with room for four elements. -/
def samplePair : Pair where
  device r := if r = .zero then 0 else 1
  maxSizeBytes _ := 16

/-- Both ranks pass one element, of which only the first byte is nonzero. -/
def sampleCollective (byte : Rank → UInt8) (stream : Rank → StreamId)
    (fault : Rank → Option (Fault NativeStep)) : Collective samplePair where
  call r := ⟨⟨.float32, [1], samplePair.device r, [byte r, 0, 0, 0], rfl⟩, stream r, fault r⟩
  accepted _ := ⟨rfl, rfl, rfl, rfl, show 4 ≤ 16 by decide⟩
  sameShape _ := ⟨rfl, rfl⟩

def sampleCalls : List (Collective samplePair) :=
  [sampleCollective (fun _ => 1) (fun _ => 7) (fun _ => none),
   sampleCollective (fun _ => 2) (fun _ => 7) (fun _ => none)]

theorem sampleCalls_noFault : NoFault sampleCalls := by
  intro col hcol r
  have hmem := List.mem_of_mem_filter hcol
  simp only [sampleCalls, List.mem_cons, List.not_mem_nil, or_false] at hmem
  rcases hmem with rfl | rfl <;> rfl

theorem sampleCalls_singleStream : SingleStream sampleCalls := by
  have hall : ∀ col ∈ moving sampleCalls, ∀ r, (col.call r).stream = 7 := by
    intro col hcol r
    have hmem := List.mem_of_mem_filter hcol
    simp only [sampleCalls, List.mem_cons, List.not_mem_nil, or_false] at hmem
    rcases hmem with rfl | rfl <;> rfl
  exact fun r col hcol col' hcol' => (hall col hcol r).trans (hall col' hcol' r).symm

theorem allReduce_singleStream_correct_sample :
    NoFault sampleCalls ∧ SingleStream sampleCalls ∧
      Correct addBytes sampleCalls (pythonReturns samplePair sampleCalls)
        (pythonSystem addBytes samplePair sampleCalls fun _ => [0, 0, 0, 0]) :=
  ⟨sampleCalls_noFault, sampleCalls_singleStream,
    (allReduce_singleStream_correct addBytes _).1 samplePair sampleCalls sampleCalls_noFault
      sampleCalls_singleStream⟩

end D3D12
end MultiGpuTransport
