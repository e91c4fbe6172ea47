import MultiGpuTransport.Backends.Collectives

/-!
# Memory layouts under host staging

A staging buffer has the strides of the caller's tensor, and Gloo reduces the elements of the buffers
by their places. So the ranks' elements meet in the right pairs exactly when all ranks put every index
at the same place, and all of them are reduced only when they lie densely.
-/
namespace MultiGpuTransport.Backends
open Strided

section
variable {W n : ℕ} {α : Type} [AddCommMonoid α]

/-- All ranks put every index at the same place, no two at one, and none beyond the elements that are
reduced. -/
def LayoutsAgree (shape : Fin n → ℕ) (strides : Fin W → Fin n → ℕ) : Prop :=
  (∀ r, Nonoverlapping shape (strides r) ∧ Dense shape (strides r)) ∧
    ∀ r q, ∀ idx ∈ indices shape, offset (strides r) idx = offset (strides q) idx

instance (shape : Fin n → ℕ) (strides : Fin W → Fin n → ℕ) :
    Decidable (LayoutsAgree shape strides) :=
  inferInstanceAs (Decidable (_ ∧ _))

/-- A tensor for each rank, on the rank's device and with its own strides and contents. -/
@[simps -fullyApplied] def tensors (device : Fin W → Device) (dtype : Dtype) (shape : Fin n → ℕ)
    (strides : Fin W → Fin n → ℕ) (contents : Fin W → ℕ → α) (r : Fin W) : StridedTensor α n :=
  ⟨dtype, device r, shape, strides r, contents r⟩

variable {comm : HostStagedGloo W} {x : Fin W → StridedTensor α n}

variable (comm) in
/-- What a rank gets where no rank's elements share a place: among the first numel places the sum of
what all stages have there, and its own element otherwise. -/
theorem hostStaged_allReduce (torch : Torch α W) (hW : W ≠ 1) (hdevice : ∀ q, (x q).device = comm.device q)
    (hno : ∀ q, Nonoverlapping (x q).shape (x q).strides) (r : Fin W) :
    ∃ y, comm.allReduce torch x r = .returned y ∧ y.dtype = (x r).dtype ∧
      y.device = (x r).device ∧ y.shape = (x r).shape ∧
      ∀ idx, InBounds (x r).shape idx → y.read idx =
        if offset (x r).strides idx < numel (x r).shape then
          ∑ q, HostStagedGloo.stagedMemory torch q (x q) (offset (x r).strides idx)
        else (x r).read idx := by
  have hentered : ∀ q, (do comm.checkDevice q (x q); HostStagedGloo.staged torch q (x q)) =
      Except.ok (HostStagedGloo.stageOf torch q (x q)) := by
    intro q
    rw [HostStagedGloo.checkDevice_of_eq (hdevice q), HostStagedGloo.staged_of_nonoverlapping (hno q)]
    rfl
  obtain ⟨y, hy, hdtype, hdev, hshape, -, hread⟩ := HostStagedGloo.gpuFromHost_of_nonoverlapping torch
    r ⟨(x r).dtype, .cpu, (x r).shape, (x r).strides, receive (numel (x r).shape)
      (fun i => ∑ q, HostStagedGloo.stagedMemory torch q (x q) i)
      (HostStagedGloo.stagedMemory torch r (x r))⟩ (hno r) (x r).device
  refine ⟨y, ?_, hdtype, hdev, hshape, fun idx hidx => ?_⟩
  · rw [HostStagedGloo.allReduce, if_neg hW, collective_of_ok hentered]
    exact Outcome.ofExcept_eq_returned.mpr hy
  · rw [hread idx hidx, StridedTensor.read]
    dsimp only [receive]
    rw [HostStagedGloo.stagedMemory_offset (hno r) hidx]

/-- Whatever the tensors hold, every rank gets the elementwise sum. -/
def ReducesElements (comm : HostStagedGloo W) (torch : Torch α W) (dtype : Dtype) (shape : Fin n → ℕ)
    (strides : Fin W → Fin n → ℕ) : Prop :=
  ∀ contents : Fin W → ℕ → α, ∀ r, ∃ y,
    comm.allReduce torch (tensors comm.device dtype shape strides contents) r = .returned y ∧
      y.shape = shape ∧ ∀ idx, InBounds shape idx →
        y.read idx = ∑ q, (tensors comm.device dtype shape strides contents q).read idx

variable {torch : Torch α W} {dtype : Dtype} {shape : Fin n → ℕ} {strides : Fin W → Fin n → ℕ}

theorem reducesElements_of_agree (h : W = 1 ∨ LayoutsAgree shape strides) :
    ReducesElements comm torch dtype shape strides := by
  intro contents r
  by_cases hW : W = 1
  · subst hW
    refine ⟨tensors comm.device dtype shape strides contents r, ?_, rfl, fun idx _ => ?_⟩
    · rw [HostStagedGloo.allReduce, if_pos rfl, HostStagedGloo.checkDevice_of_eq rfl]
      rfl
    · simp [Subsingleton.elim r 0]
  · obtain ⟨hlayout, hsame⟩ := h.resolve_left hW
    obtain ⟨y, hy, -, -, hshape, hread⟩ := hostStaged_allReduce comm torch
      (x := tensors comm.device dtype shape strides contents) hW (fun _ => rfl)
      (fun q => (hlayout q).1) r
    refine ⟨y, hy, hshape, fun idx hidx => ?_⟩
    have hmem := mem_indices.mpr hidx
    rw [hread idx hidx]
    simp only [tensors_shape, tensors_strides]
    rw [if_pos ((hlayout r).2 idx hmem)]
    refine Finset.sum_congr rfl fun q _ => ?_
    rw [hsame r q idx hmem]
    exact HostStagedGloo.stagedMemory_offset (hlayout q).1 hidx

/-- Contents that are zero but for one element of one rank. -/
def oneElement (strides : Fin W → Fin n → ℕ) (q : Fin W) (idx : Fin n → ℕ) (a : α) :
    Fin W → ℕ → α := fun p => if p = q then Function.update 0 (offset (strides q) idx) a else 0

theorem read_oneElement {device : Fin W → Device} {q p : Fin W} {idx idx' : Fin n → ℕ} {a : α} :
    (tensors device dtype shape strides (oneElement strides q idx a) p).read idx' =
      if p = q ∧ offset (strides q) idx' = offset (strides q) idx then a else 0 := by
  by_cases hp : p = q
  · subst hp
    simp [StridedTensor.read, tensors, oneElement, Function.update_apply]
  · simp [StridedTensor.read, tensors, oneElement, hp]

theorem sum_oneElement {device : Fin W → Device} {q : Fin W} {idx : Fin n → ℕ} {a : α} :
    ∑ p, (tensors device dtype shape strides (oneElement strides q idx a) p).read idx = a := by
  simp [read_oneElement]

theorem agree_of_reducesElements [Nontrivial α] (hW : W ≠ 1)
    (h : ReducesElements comm torch dtype shape strides) : LayoutsAgree shape strides := by
  obtain ⟨a, ha⟩ := exists_ne (0 : α)
  have hno : ∀ r, Nonoverlapping shape (strides r) := by
    intro r
    obtain ⟨y, hy, -⟩ := h 0 r
    rw [HostStagedGloo.allReduce, if_neg hW] at hy
    obtain ⟨stage, hstage, -⟩ := collective_eq_returned hy
    have hr := hstage r
    rw [HostStagedGloo.checkDevice_of_eq rfl] at hr
    exact HostStagedGloo.nonoverlapping_of_staged hr
  have hread : ∀ q idx, InBounds shape idx → ∀ r, a =
      if offset (strides r) idx < numel shape then
        ∑ p, HostStagedGloo.stagedMemory torch p
          (tensors comm.device dtype shape strides (oneElement strides q idx a) p)
          (offset (strides r) idx)
      else if r = q then a else 0 := by
    intro q idx hidx r
    obtain ⟨y, hy, hshape, hsum⟩ := h (oneElement strides q idx a) r
    obtain ⟨y', hy', -, -, -, hread⟩ := hostStaged_allReduce comm torch
      (x := tensors comm.device dtype shape strides (oneElement strides q idx a)) hW (fun _ => rfl)
      hno r
    obtain rfl : y = y' := by
      rw [hy] at hy'
      exact Outcome.returned.inj hy'
    have hboth := (hsum idx hidx).symm.trans (hread idx hidx)
    rw [sum_oneElement, read_oneElement] at hboth
    simpa [tensors] using hboth
  have hdense : ∀ r, Dense shape (strides r) := by
    intro r idx hidx
    by_contra hlt
    obtain ⟨q, hq⟩ := Fintype.exists_ne_of_one_lt_card
      (by simp only [Fintype.card_fin]; have := r.pos; omega) r
    have hzero := hread q idx (mem_indices.mp hidx) r
    rw [if_neg hlt, if_neg hq.symm] at hzero
    exact ha hzero
  refine ⟨fun r => ⟨hno r, hdense r⟩, fun r q idx hidx => ?_⟩
  by_contra hne
  have hzero := hread q idx (mem_indices.mp hidx) r
  rw [if_pos (hdense r idx hidx)] at hzero
  refine ha (hzero.trans (Finset.sum_eq_zero fun p _ => ?_))
  -- no rank has the element at the place where rank r has it
  obtain ⟨idx', hidx', hplace⟩ := exists_offset (hno p) (hdense p) (hdense r idx hidx)
  rw [← hplace]
  refine (HostStagedGloo.stagedMemory_offset (hno p) hidx').trans ?_
  rw [read_oneElement, if_neg]
  rintro ⟨rfl, heq⟩
  exact hne (hplace.symm.trans heq)

variable (comm torch dtype) in
/-- HostStagedGloo.all_reduce gives every rank the elementwise sum, whatever the tensors and the
stages hold, exactly when the ranks' layouts agree. -/
theorem allReduce_reducesElements_iff [Nontrivial α] (shape : Fin n → ℕ)
    (strides : Fin W → Fin n → ℕ) :
    ReducesElements comm torch dtype shape strides ↔ W = 1 ∨ LayoutsAgree shape strides := by
  refine ⟨fun h => ?_, reducesElements_of_agree⟩
  by_cases hW : W = 1
  · exact .inl hW
  · exact .inr (agree_of_reducesElements hW h)

end

/-- Two ranks on two devices; fresh memory holds zeros. -/
def sampleGloo : HostStagedGloo 2 := ⟨fun r => .cuda r⟩

def sampleTorch : Torch ℤ 2 where
  denseStrides shape _ := rowMajor shape
  fresh _ _ _ := 0

theorem allReduce_reducesElements_iff_sample :
    LayoutsAgree ![2, 2] (fun _ : Fin 2 => ![1, 2]) ∧
      ReducesElements sampleGloo sampleTorch .int32 ![2, 2] (fun _ => ![1, 2]) := by
  have hagree : LayoutsAgree ![2, 2] (fun _ : Fin 2 => ![1, 2]) := by decide +kernel
  exact ⟨hagree, (allReduce_reducesElements_iff sampleGloo sampleTorch .int32 _ _).mpr (.inr hagree)⟩

/-- Rank 0 passes a contiguous matrix and rank 1 the transpose of one. -/
def transposedStrides (r : Fin 2) : Fin 2 → ℕ := if r = 0 then ![2, 1] else ![1, 2]

/-- Rank 0 then gets zero for the element at row 0 and column 1, where rank 1 has 5. -/
theorem transposed_not_reduced :
    ¬ ReducesElements sampleGloo sampleTorch .int32 ![2, 2] transposedStrides := by
  intro h
  let contents : Fin 2 → ℕ → ℤ := fun r i => if r = 1 ∧ i = 2 then 5 else 0
  obtain ⟨y, hy, -, hread⟩ := h contents 0
  have hno : ∀ q, Nonoverlapping ![2, 2] (transposedStrides q) := by decide +kernel
  obtain ⟨y', hy', -, -, -, hread'⟩ := hostStaged_allReduce sampleGloo sampleTorch
    (x := tensors sampleGloo.device .int32 ![2, 2] transposedStrides contents) (by decide)
    (fun _ => rfl) hno 0
  obtain rfl : y = y' := Outcome.returned.inj (hy.symm.trans hy')
  have hsum := (hread ![0, 1] (by decide)).symm.trans (hread' ![0, 1] (by decide))
  revert hsum
  decide +kernel

end MultiGpuTransport.Backends
