import MultiGpuTransport.Backends.Layouts

/-!
# Broadcast on the two backends

The host-staged broadcast writes into the tensor it is given and returns it. The RCCL broadcast writes
into a new tensor and leaves the one it is given as it was.
-/
namespace MultiGpuTransport.Backends
open Strided

/-- The ranks' communicators. Either all ranks have asked for RCCL or none has. -/
structure WindowsAmdMultiGpuCommunicator (W : ℕ) where
  device : Fin W → Device
  rcclRequested : Bool

namespace WindowsAmdMultiGpuCommunicator
variable {W n : ℕ} {α : Type} (comm : WindowsAmdMultiGpuCommunicator W)

def rccl : Option (RcclCommunicator W) :=
  if comm.rcclRequested then some ⟨comm.device⟩ else none

/-- What a rank has afterwards: the tensor it gets back, and the one it has passed in. -/
def broadcast (torch : Torch α W) (src : Fin W) (x : Fin W → StridedTensor α n) (r : Fin W) :
    Outcome (StridedTensor α n × StridedTensor α n) :=
  match comm.rccl with
  | some rccl => rccl.broadcast torch src x r
  | none => HostStagedGloo.broadcast torch src x r

variable {comm}

theorem broadcast_of_rccl (h : comm.rcclRequested = true) (torch : Torch α W) (src : Fin W)
    (x : Fin W → StridedTensor α n) (r : Fin W) :
    comm.broadcast torch src x r = RcclCommunicator.broadcast ⟨comm.device⟩ torch src x r := by
  simp [broadcast, rccl, h]

theorem broadcast_of_gloo (h : comm.rcclRequested = false) (torch : Torch α W) (src : Fin W)
    (x : Fin W → StridedTensor α n) (r : Fin W) :
    comm.broadcast torch src x r = HostStagedGloo.broadcast torch src x r := by
  simp [broadcast, rccl, h]

end WindowsAmdMultiGpuCommunicator

section
variable {W n : ℕ} {α : Type} {torch : Torch α W} {src : Fin W} {shape : Fin n → ℕ}

/-- The elements of a tensor are those of the source rank's. -/
def HoldsData (shape : Fin n → ℕ) (y source : StridedTensor α n) : Prop :=
  y.shape = shape ∧ ∀ idx, InBounds shape idx → y.read idx = source.read idx

/-- Where the broadcast completes on every rank, each rank has the source rank's data in the tensor it
gets back and in the one it has passed in. -/
def BroadcastsData (comm : WindowsAmdMultiGpuCommunicator W) (torch : Torch α W) (src : Fin W)
    (shape : Fin n → ℕ) (x : Fin W → StridedTensor α n) : Prop :=
  ∀ out : Fin W → StridedTensor α n × StridedTensor α n,
    (∀ r, comm.broadcast torch src x r = .returned (out r)) → ∀ r,
      HoldsData shape (out r).1 (x src) ∧ HoldsData shape (out r).2 (x src)

/-! ### RCCL -/

variable {x : Fin W → StridedTensor α n}

variable (torch src) in
/-- Every rank gets back a tensor with the source rank's data, and has its own as it was. -/
theorem rccl_broadcast (comm : RcclCommunicator W) (hW : W ≠ 1)
    (hdevice : ∀ q, (x q).device = comm.device q) {dataType : ℕ}
    (hdtype : ∀ q, rcclDtype (x q).dtype = some dataType) (hshape : ∀ q, (x q).shape = shape)
    (r : Fin W) :
    ∃ y, comm.broadcast torch src x r = .returned (y, x r) ∧ HoldsData shape y (x src) := by
  have hentered : ∀ q, comm.prepare torch q (x q) =
      .ok ((x q).contiguous (torch.fresh q .contiguous), dataType) :=
    fun q => RcclCommunicator.prepare_of_accepted (hdevice q) (hdtype q)
  let source (q : Fin W) := (x q).contiguous (torch.fresh q .contiguous)
  have hsource : (source r).shape = shape :=
    (StridedTensor.same_contiguous (torch.fresh r .contiguous)).shape.trans (hshape r)
  refine ⟨{ (source r).emptyLike torch.denseStrides (torch.fresh r .output) with
    memory := receive (numel (source r).shape) (source src).memory (torch.fresh r .output) }, ?_,
    hsource, fun idx hidx => ?_⟩
  · rw [RcclCommunicator.broadcast, if_neg hW, collective_of_ok hentered]
    rfl
  · refine (read_emptyLike_receive torch _ _ (StridedTensor.isContiguous_contiguous _)
      (by rwa [hsource])).trans ?_
    rw [hsource, ← hshape src]
    exact memory_contiguous _ (by rwa [hshape src])

variable (torch src) in
theorem rccl_broadcast_refused (comm : RcclCommunicator W) (hW : W ≠ 1) {r : Fin W}
    (h : (x r).device ≠ comm.device r ∨ rcclDtype (x r).dtype = none) :
    ∃ error, comm.broadcast torch src x r = .raised error := by
  obtain ⟨error, herror⟩ := RcclCommunicator.prepare_of_refused h
  refine ⟨error, ?_⟩
  rw [RcclCommunicator.broadcast, if_neg hW]
  exact collective_of_error herror _

/-- An accepted RCCL broadcast leaves the source rank's data in both tensors of every rank exactly when
every rank has passed in that data. -/
theorem rccl_broadcastsData_iff {comm : WindowsAmdMultiGpuCommunicator W}
    (hrccl : comm.rcclRequested = true) (hW : W ≠ 1) {dtype : Dtype}
    (hdtype : ∀ q, (x q).dtype = dtype) (hshape : ∀ q, (x q).shape = shape) :
    BroadcastsData comm torch src shape x ↔
      (∃ r, (x r).device ≠ comm.device r) ∨ rcclDtype dtype = none ∨
        ∀ r, HoldsData shape (x r) (x src) := by
  unfold BroadcastsData
  simp only [WindowsAmdMultiGpuCommunicator.broadcast_of_rccl hrccl]
  constructor
  · intro h
    by_contra hnot
    push Not at hnot
    obtain ⟨hdevice, hsome, r, hr⟩ := hnot
    obtain ⟨dataType, hdataType⟩ := Option.ne_none_iff_exists'.mp hsome
    have hall := rccl_broadcast torch src ⟨comm.device⟩ hW hdevice
      (fun q => by rw [hdtype q, hdataType]) hshape
    choose y hy hdata using hall
    exact hr (h (fun q => (y q, x q)) hy r).2
  · intro h out hout
    have refused : ∀ r, ¬ ((x r).device ≠ comm.device r ∨ rcclDtype (x r).dtype = none) := by
      intro r hr
      obtain ⟨error, herror⟩ := rccl_broadcast_refused torch src ⟨comm.device⟩ hW hr
      simp [hout r] at herror
    have hdevice : ∀ r, (x r).device = comm.device r := fun r =>
      not_not.mp fun hne => refused r (.inl hne)
    have hnone : rcclDtype dtype ≠ none := fun hnone =>
      refused src (.inr ((congrArg rcclDtype (hdtype src)).trans hnone))
    have hdata := (h.resolve_left fun ⟨r, hr⟩ => hr (hdevice r)).resolve_left hnone
    obtain ⟨dataType, hdataType⟩ := Option.ne_none_iff_exists'.mp hnone
    intro r
    obtain ⟨y, hy, hholds⟩ := rccl_broadcast torch src ⟨comm.device⟩ hW hdevice
      (fun q => by rw [hdtype q, hdataType]) hshape r
    rw [Outcome.returned.inj ((hout r).symm.trans hy)]
    exact ⟨hholds, hdata r⟩

/-! ### Host staging -/

variable (torch src) in
/-- Every rank gets back its own tensor, which has among the first numel places what the source rank's
stage has there. -/
theorem hostStaged_broadcast (hW : W ≠ 1) (hno : ∀ q, Nonoverlapping (x q).shape (x q).strides)
    (r : Fin W) :
    ∃ y, HostStagedGloo.broadcast torch src x r = .returned (y, y) ∧ y.shape = (x r).shape ∧
      ∀ idx, InBounds (x r).shape idx → y.read idx =
        if offset (x r).strides idx < numel (x r).shape then
          HostStagedGloo.stagedMemory torch src (x src) (offset (x r).strides idx)
        else (x r).read idx := by
  have hentered : ∀ q, HostStagedGloo.staged torch q (x q) =
      .ok (HostStagedGloo.stageOf torch q (x q)) :=
    fun q => HostStagedGloo.staged_of_nonoverlapping (hno q)
  obtain ⟨y, hy, -, -, hshape, -, hread, -⟩ := StridedTensor.copy_of_nonoverlapping (t := x r)
    ⟨(x r).dtype, .cpu, (x r).shape, (x r).strides,
      receive (numel (x r).shape) (HostStagedGloo.stagedMemory torch src (x src))
        (HostStagedGloo.stagedMemory torch r (x r))⟩ (hno r)
  refine ⟨y, ?_, hshape, fun idx hidx => ?_⟩
  · rw [HostStagedGloo.broadcast, if_neg hW, collective_of_ok hentered,
      Outcome.ofExcept_eq_returned]
    exact congrArg (fun copied => copied >>= fun tensor => pure (tensor, tensor)) hy
  · rw [hread idx hidx, StridedTensor.read]
    dsimp only [receive]
    rw [HostStagedGloo.stagedMemory_offset (hno r) hidx]

variable {device : Fin W → Device} {dtype : Dtype} {strides : Fin W → Fin n → ℕ}

variable (torch src device dtype) in
theorem hostStaged_broadcast_agree (hW : W ≠ 1) (h : LayoutsAgree shape strides)
    (contents : Fin W → ℕ → α) (r : Fin W) :
    ∃ y, HostStagedGloo.broadcast torch src (tensors device dtype shape strides contents) r =
        .returned (y, y) ∧
      HoldsData shape y (tensors device dtype shape strides contents src) := by
  obtain ⟨hlayout, hsame⟩ := h
  obtain ⟨y, hy, hshape, hread⟩ := hostStaged_broadcast torch src
    (x := tensors device dtype shape strides contents) hW (fun q => (hlayout q).1) r
  refine ⟨y, hy, hshape, fun idx hidx => ?_⟩
  have hmem := mem_indices.mpr hidx
  rw [hread idx hidx]
  simp only [tensors_shape, tensors_strides]
  rw [if_pos ((hlayout r).2 idx hmem), hsame r src idx hmem]
  exact HostStagedGloo.stagedMemory_offset (hlayout src).1 hidx

variable (torch device dtype) in
/-- Where a place among the first numel ones holds an element of the source rank for all contents, it
is that element's. -/
theorem place_of_received [Nontrivial α] (hno : Nonoverlapping shape (strides src)) {r : Fin W}
    (hr : r ≠ src) {idx : Fin n → ℕ}
    (h : ∀ contents : Fin W → ℕ → α,
      (if offset (strides r) idx < numel shape then
        HostStagedGloo.stagedMemory torch src (tensors device dtype shape strides contents src)
          (offset (strides r) idx)
      else contents r (offset (strides r) idx)) = contents src (offset (strides src) idx)) :
    offset (strides r) idx = offset (strides src) idx ∧ offset (strides r) idx < numel shape := by
  obtain ⟨a, b, hab⟩ := exists_pair_ne α
  have hlt : offset (strides r) idx < numel shape := by
    by_contra hge
    have hown := h fun q _ => if q = src then a else b
    rw [if_neg hge, if_pos rfl, if_neg hr] at hown
    exact hab hown.symm
  simp only [if_pos hlt] at h
  have hplace : ∃ idx', InBounds shape idx' ∧ offset (strides src) idx' = offset (strides r) idx := by
    by_contra hfree
    push Not at hfree
    -- the stage keeps there what it had, whatever the source rank passes in
    have hfresh : ∀ contents : Fin W → ℕ → α,
        HostStagedGloo.stagedMemory torch src (tensors device dtype shape strides contents src)
          (offset (strides r) idx) = torch.fresh src .stage (offset (strides r) idx) :=
      fun contents => scatter_of_ne hfree
    have ha := (hfresh fun _ _ => a).symm.trans (h fun _ _ => a)
    have hb := (hfresh fun _ _ => b).symm.trans (h fun _ _ => b)
    exact hab (ha.symm.trans hb)
  refine ⟨?_, hlt⟩
  by_contra hne
  obtain ⟨idx', hidx', heq⟩ := hplace
  have hone := h fun _ i => if i = offset (strides src) idx then a else b
  rw [← heq, if_pos rfl] at hone
  have hread := (HostStagedGloo.stagedMemory_offset hno hidx').symm.trans hone
  rw [StridedTensor.read, tensors_memory, tensors_strides, heq, if_neg hne] at hread
  exact hab hread.symm

variable (torch src device dtype) in
theorem layoutsAgree_of_broadcast [Nontrivial α] (hW : W ≠ 1)
    (hno : ∀ r, Nonoverlapping shape (strides r))
    (h : ∀ contents : Fin W → ℕ → α, ∀ r y,
      HostStagedGloo.broadcast torch src (tensors device dtype shape strides contents) r =
        .returned (y, y) →
      HoldsData shape y (tensors device dtype shape strides contents src)) :
    LayoutsAgree shape strides := by
  have hplace : ∀ r, r ≠ src → ∀ idx, InBounds shape idx →
      offset (strides r) idx = offset (strides src) idx ∧ offset (strides r) idx < numel shape := by
    intro r hr idx hidx
    refine place_of_received torch device dtype (hno src) hr fun contents => ?_
    obtain ⟨y, hy, -, hread⟩ := hostStaged_broadcast torch src
      (x := tensors device dtype shape strides contents) hW hno r
    exact (hread idx hidx).symm.trans ((h contents r y hy).2 idx hidx)
  have hsame : ∀ r, ∀ idx ∈ indices shape, offset (strides r) idx = offset (strides src) idx := by
    intro r idx hidx
    by_cases hr : r = src
    · rw [hr]
    · exact (hplace r hr idx (mem_indices.mp hidx)).1
  have hdense : ∀ r, Dense shape (strides r) := by
    intro r idx hidx
    obtain ⟨q, hq⟩ := Fintype.exists_ne_of_one_lt_card
      (by simp only [Fintype.card_fin]; have := src.pos; omega) src
    rw [hsame r idx hidx, ← hsame q idx hidx]
    exact (hplace q hq idx (mem_indices.mp hidx)).2
  exact ⟨fun r => ⟨hno r, hdense r⟩, fun r q idx hidx =>
    (hsame r idx hidx).trans (hsame q idx hidx).symm⟩

/-- A host-staged broadcast leaves the source rank's data in both tensors of every rank, whatever the
tensors hold, exactly when the ranks' layouts agree. Otherwise torch must refuse a tensor. -/
theorem gloo_broadcastsData_iff [Nontrivial α] {comm : WindowsAmdMultiGpuCommunicator W}
    (hgloo : comm.rcclRequested = false) (hW : W ≠ 1) :
    (∀ contents : Fin W → ℕ → α,
        BroadcastsData comm torch src shape (tensors device dtype shape strides contents)) ↔
      (∃ r, ¬ Nonoverlapping shape (strides r)) ∨ LayoutsAgree shape strides := by
  unfold BroadcastsData
  simp only [WindowsAmdMultiGpuCommunicator.broadcast_of_gloo hgloo]
  constructor
  · intro h
    by_cases hno : ∀ r, Nonoverlapping shape (strides r)
    · refine .inr (layoutsAgree_of_broadcast torch src device dtype hW hno fun contents r y hy => ?_)
      have hall := fun q => hostStaged_broadcast torch src
        (x := tensors device dtype shape strides contents) hW hno q
      choose out hout _ using hall
      have hdata := (h contents (fun q => (out q, out q)) hout r).1
      rwa [(Prod.mk.inj (Outcome.returned.inj (hy.symm.trans (hout r)))).1]
    · exact .inl (not_forall.mp hno)
  · intro h contents out hout r
    have hno : ∀ q, Nonoverlapping shape (strides q) := by
      intro q
      have hq := hout r
      rw [HostStagedGloo.broadcast, if_neg hW] at hq
      obtain ⟨stage, hstage, -⟩ := collective_eq_returned hq
      exact HostStagedGloo.nonoverlapping_of_staged (hstage q)
    have hagree := h.resolve_left fun ⟨q, hq⟩ => hq (hno q)
    obtain ⟨y, hy, hdata⟩ := hostStaged_broadcast_agree torch src device dtype hW hagree
      contents r
    rw [Outcome.returned.inj ((hout r).symm.trans hy)]
    exact ⟨hdata, hdata⟩

end

variable {W n : ℕ} {α : Type}

/-- When a broadcast does what its name says. Through RCCL, an accepted call does where all ranks have
the source rank's data already; through Gloo, a call that torch accepts does for all contents where the
ranks' layouts agree. -/
theorem broadcastsData_iff [Nontrivial α] (device : Fin W → Device) (torch : Torch α W) (src : Fin W)
    (dtype : Dtype) (shape : Fin n → ℕ) (strides : Fin W → Fin n → ℕ) (hW : 2 ≤ W) :
    (∀ x : Fin W → StridedTensor α n, (∀ q, (x q).dtype = dtype) → (∀ q, (x q).shape = shape) →
        (BroadcastsData ⟨device, true⟩ torch src shape x ↔
          (∃ r, (x r).device ≠ device r) ∨ rcclDtype dtype = none ∨
            ∀ r, HoldsData shape (x r) (x src))) ∧
      ∀ placed : Fin W → Device,
        (∀ contents, BroadcastsData ⟨device, false⟩ torch src shape
            (tensors placed dtype shape strides contents)) ↔
          (∃ r, ¬ Nonoverlapping shape (strides r)) ∨ LayoutsAgree shape strides := by
  have hone : W ≠ 1 := by omega
  exact ⟨fun x hdtype hshape => rccl_broadcastsData_iff rfl hone hdtype hshape,
    fun placed => gloo_broadcastsData_iff rfl hone⟩

/-- Two ranks with one 2 x 3 matrix, by rows on rank 0 and by columns on rank 1. -/
def sampleMatrices : Fin 2 → StridedTensor ℤ 2 :=
  tensors (fun r => .cuda r) .float32 ![2, 3] ![![3, 1], ![1, 2]]
    ![fun place => place, fun place => 3 * (place % 2) + place / 2]

theorem broadcastsData_iff_sample :
    BroadcastsData ⟨fun r : Fin 2 => .cuda r, true⟩ sampleTorch 0 ![2, 3] sampleMatrices ∧
      ∀ contents, BroadcastsData ⟨fun r : Fin 2 => .cuda r, false⟩ sampleTorch 0 ![2, 3]
        (tensors (fun r => .cuda r) .float32 ![2, 3] (fun _ => ![1, 2]) contents) := by
  have hiff := broadcastsData_iff (fun r : Fin 2 => .cuda r) sampleTorch 0 .float32 ![2, 3]
    (fun _ => ![1, 2]) le_rfl
  refine ⟨(hiff.1 _ (fun _ => rfl) fun _ => rfl).mpr (.inr (.inr ?_)), (hiff.2 _).mpr (.inr ?_)⟩
  · have hread : ∀ r, ∀ idx ∈ indices ![2, 3],
        (sampleMatrices r).read idx = (sampleMatrices 0).read idx := by decide +kernel
    exact fun r => ⟨rfl, fun idx hidx => hread r idx (mem_indices.mpr hidx)⟩
  · show LayoutsAgree ![2, 3] fun _ : Fin 2 => ![1, 2]
    decide +kernel

/-- Two ranks that pass one element each. -/
def sampleBroadcast (contents : Fin 2 → ℤ) : Fin 2 → StridedTensor ℤ 1 :=
  tensors (fun r => .cuda r) .float32 ![1] (fun _ => ![1]) fun r _ => contents r

/-- Through RCCL, rank 1 still has -1 in the tensor it has passed in. -/
theorem passedTensor_not_broadcast :
    ¬ BroadcastsData ⟨fun r : Fin 2 => .cuda r, true⟩ sampleTorch 0 ![1]
      (sampleBroadcast ![7, -1]) := by
  intro h
  have hreturned : ∀ r, ∃ y, RcclCommunicator.broadcast ⟨fun r : Fin 2 => .cuda r⟩ sampleTorch 0
      (sampleBroadcast ![7, -1]) r = .returned (y, sampleBroadcast ![7, -1] r) ∧
        HoldsData ![1] y (sampleBroadcast ![7, -1] 0) :=
    rccl_broadcast sampleTorch 0 _ (by decide) (fun _ => rfl) (fun _ => rfl) fun _ => rfl
  choose y hy _ using hreturned
  have hread : (sampleBroadcast ![7, -1] 1).read ![0] = (sampleBroadcast ![7, -1] 0).read ![0] :=
    (h (fun r => (y r, sampleBroadcast ![7, -1] r)) hy 1).2.2 ![0] (by decide)
  exact absurd hread (by decide +kernel)

end MultiGpuTransport.Backends
