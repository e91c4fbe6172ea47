import MultiGpuTransport.Backends.Layouts

/-!
# Reduce-scatter and all-gather

Both backends exchange flat buffers: a reduce-scatter gives rank r the r-th segment of the reduced
buffer, an all-gather puts the ranks' buffers one after the other. With the scattered dimension moved to
the front the segments are the chunks along this dimension, so a reduce-scatter followed by an
all-gather is an all-reduce.
-/
namespace MultiGpuTransport.Backends
open Strided

section
variable {W n : ℕ} {α : Type}

/-- A tensor with these elements. -/
structure Represents (dtype : Dtype) (device : Device) (shape : Fin n → ℕ)
    (value : (Fin n → ℕ) → α) (t : StridedTensor α n) : Prop where
  dtype_eq : t.dtype = dtype
  device_eq : t.device = device
  shape_eq : t.shape = shape
  read_eq : ∀ idx, InBounds shape idx → t.read idx = value idx

/-- A tensor that has the ranks' tensors as its chunks along dimension k, in rank order. -/
structure Concatenates (dtype : Dtype) (device : Device) (k : Fin n) (shape : Fin n → ℕ)
    (x : Fin W → StridedTensor α n) (t : StridedTensor α n) : Prop where
  dtype_eq : t.dtype = dtype
  device_eq : t.device = device
  shape_eq : t.shape = Function.update shape k (W * shape k)
  read_eq : ∀ (q : Fin W) idx, InBounds shape idx →
    t.read (inChunk k (shape k) q idx) = (x q).read idx

/-- What the ranks pass to a collective: contiguous tensors of one shape and dtype, each on its rank's
device. -/
structure Inputs (device : Fin W → Device) (dtype : Dtype) (shape : Fin n → ℕ)
    (x : Fin W → StridedTensor α n) : Prop where
  dtype_eq : ∀ q, (x q).dtype = dtype
  device_eq : ∀ q, (x q).device = device q
  shape_eq : ∀ q, (x q).shape = shape
  contiguous : ∀ q, (x q).isContiguous = true

variable {dtype : Dtype} {device : Device} {shape : Fin n → ℕ} {value : (Fin n → ℕ) → α}
  {t u : StridedTensor α n} {k : Fin n} {x : Fin W → StridedTensor α n}

theorem Represents.same (h : Represents dtype device shape value t)
    (h' : Represents dtype device shape value u) : StridedTensor.Same t u :=
  ⟨h.dtype_eq.trans h'.dtype_eq.symm, h.device_eq.trans h'.device_eq.symm,
    h.shape_eq.trans h'.shape_eq.symm, fun idx hidx => by
      rw [h.shape_eq] at hidx
      rw [h.read_eq idx hidx, h'.read_eq idx hidx]⟩

theorem StridedTensor.Same.represents (h : Same t u) (h' : Represents dtype device shape value u) :
    Represents dtype device shape value t :=
  ⟨h.dtype.trans h'.dtype_eq, h.device.trans h'.device_eq, h.shape.trans h'.shape_eq,
    fun idx hidx =>
      (h.read idx (by rwa [h.shape, h'.shape_eq])).trans (h'.read_eq idx hidx)⟩

variable (value) in
/-- A concatenation is what any function says that describes all its chunks. -/
theorem Concatenates.represents (h : Concatenates dtype device k shape x t)
    (hvalue : ∀ (q : Fin W) idx, InBounds shape idx →
      (x q).read idx = value (inChunk k (shape k) q idx)) :
    Represents dtype device (Function.update shape k (W * shape k)) value t := by
  refine ⟨h.dtype_eq, h.device_eq, h.shape_eq, fun idx hidx => ?_⟩
  obtain ⟨q, hq, idx', hidx', rfl⟩ := exists_inChunk hidx
  rw [Function.update_eq_self] at hidx'
  exact (h.read_eq ⟨q, hq⟩ idx' hidx').trans (hvalue ⟨q, hq⟩ idx' hidx')

theorem Concatenates.same (h : Concatenates dtype device k shape x t)
    (h' : Concatenates dtype device k shape x u) : StridedTensor.Same t u := by
  have hu := h'.represents u.read fun q idx hidx => (h'.read_eq q idx hidx).symm
  exact (h.represents u.read fun q idx hidx => (h'.read_eq q idx hidx).symm).same hu

end

section
variable {W n : ℕ} {α : Type} [AddCommMonoid α]

/-- The elementwise sum of the ranks' tensors. -/
def reduced (x : Fin W → StridedTensor α n) (idx : Fin n → ℕ) : α := ∑ q, (x q).read idx

/-- Chunk r of the elementwise sum, in chunks of extent d along dimension k. -/
def reducedChunk (k : Fin n) (d : ℕ) (r : Fin W) (x : Fin W → StridedTensor α n)
    (idx : Fin n → ℕ) : α := reduced x (inChunk k d r idx)

/-- The chunks of the sum, put together again, are the sum. -/
theorem Concatenates.represents_reduced {dtype : Dtype} {device : Fin W → Device} {k : Fin n}
    {shape : Fin n → ℕ} {x y : Fin W → StridedTensor α n} {t : StridedTensor α n} {r : Fin W}
    (hdvd : W ∣ shape k)
    (hy : ∀ q, Represents dtype (device q) (Function.update shape k (shape k / W))
      (reducedChunk k (shape k / W) q x) (y q))
    (h : Concatenates dtype (device r) k (Function.update shape k (shape k / W)) y t) :
    Represents dtype (device r) shape (reduced x) t := by
  have hall := h.represents (reduced x) fun q idx hidx => by
    rw [(hy q).read_eq idx hidx, Function.update_self]
    rfl
  rwa [Function.update_self, Function.update_idem, Nat.mul_div_cancel' hdvd,
    Function.update_eq_self] at hall

/-- A segment of flat buffers that hold the tensors with dimension k moved to the front is a chunk along
dimension k. -/
theorem represents_reducedChunk {shape : Fin (n + 1) → ℕ} {k : Fin (n + 1)}
    {x : Fin W → StridedTensor α (n + 1)} {r : Fin W} (hdvd : W ∣ shape k)
    {memory : Fin W → ℕ → α}
    (hmemory : ∀ q idx, InBounds (movedim k 0 shape) idx →
      memory q (flat (movedim k 0 shape) idx) = (x q).read (movedim 0 k idx))
    {output : StridedTensor α (n + 1)}
    (hshape : output.shape = Function.update (movedim k 0 shape) 0 (shape k / W))
    (hread : ∀ idx, InBounds output.shape idx → output.read idx =
      ∑ q, memory q (r * numel output.shape + flat output.shape idx)) (fresh : ℕ → α) :
    Represents output.dtype output.device (Function.update shape k (shape k / W))
      (reducedChunk k (shape k / W) r x) ((output.movedim 0 k).contiguous fresh) := by
  refine (StridedTensor.same_contiguous fresh).represents ⟨rfl, rfl, ?_, fun idx hidx => ?_⟩
  · rw [StridedTensor.movedim_shape, hshape, movedim_update, movedim_movedim]
  · have hidx' : InBounds output.shape (movedim k 0 idx) := by
      rw [hshape, ← movedim_apply_same k 0 shape, ← movedim_update, inBounds_movedim]
      simpa using hidx
    have hfront : InBounds (movedim k 0 shape) (inChunk 0 (shape k / W) r (movedim k 0 idx)) := by
      have hchunk := inBounds_inChunk (hshape ▸ hidx') r.isLt
      rwa [Nat.mul_div_cancel' hdvd, ← movedim_apply_same k 0 shape, Function.update_eq_self]
        at hchunk
    rw [← movedim_movedim k 0 idx, StridedTensor.read_movedim, hread _ hidx']
    refine Finset.sum_congr rfl fun q _ => ?_
    rw [hshape, ← flat_inChunk, hmemory q _ hfront, movedim_inChunk, movedim_movedim]

/-- What both reduce-scatters make of a tensor first. -/
def toFront (k : Fin (n + 1)) (t : StridedTensor α (n + 1)) (fresh : ℕ → α) :
    StridedTensor α (n + 1) := (t.movedim k 0).contiguous fresh

omit [AddCommMonoid α] in
theorem Inputs.toFront {device : Fin W → Device} {dtype : Dtype} {shape : Fin (n + 1) → ℕ}
    {x : Fin W → StridedTensor α (n + 1)} (hx : Inputs device dtype shape x) (q : Fin W)
    (k : Fin (n + 1)) (fresh : ℕ → α) :
    Represents dtype (device q) (movedim k 0 shape) (fun idx => (x q).read (movedim 0 k idx))
      (Backends.toFront k (x q) fresh) := by
  refine (StridedTensor.same_contiguous fresh).represents
    ⟨hx.dtype_eq q, hx.device_eq q, ?_, fun idx _ => ?_⟩
  · rw [StridedTensor.movedim_shape, hx.shape_eq q]
  · rw [← StridedTensor.read_movedim k 0 (x q), movedim_movedim]

/-! ### RCCL -/

variable (device : Fin W → Device) (torch : Torch α W) {dtype : Dtype} {dataType : ℕ}

theorem rccl_allReduce {shape : Fin n → ℕ} {x : Fin W → StridedTensor α n} (hW : W ≠ 1)
    (hdtype : rcclDtype dtype = some dataType) (hx : Inputs device dtype shape x) (r : Fin W) :
    ∃ y, RcclCommunicator.allReduce ⟨device⟩ torch x r = .returned y ∧
      Represents dtype (device r) shape (reduced x) y := by
  let source (q : Fin W) := (x q).contiguous (torch.fresh q .contiguous)
  have hsame : ∀ q, (source q).Same (x q) := fun q => StridedTensor.same_contiguous _
  have hshape : ∀ q, (source q).shape = shape := fun q => (hsame q).shape.trans (hx.shape_eq q)
  have hentered : ∀ q, RcclCommunicator.prepare ⟨device⟩ torch q (x q) = .ok (source q, dataType) :=
    fun q => RcclCommunicator.prepare_of_accepted (hx.device_eq q) (by rw [hx.dtype_eq q, hdtype])
  refine ⟨{ (source r).emptyLike torch.denseStrides (torch.fresh r .output) with
    memory := receive (numel (source r).shape) (fun i => ∑ q, (source q).memory i)
      (torch.fresh r .output) }, ?_, (hsame r).dtype.trans (hx.dtype_eq r),
    (hsame r).device.trans (hx.device_eq r), hshape r, fun idx hidx => ?_⟩
  · rw [RcclCommunicator.allReduce, if_neg hW, collective_of_ok hentered]
    rfl
  · rw [read_emptyLike_receive torch _ _ (StridedTensor.isContiguous_contiguous _)
      (by rwa [hshape r]), hshape r]
    refine Finset.sum_congr rfl fun q _ => ?_
    rw [← hx.shape_eq q] at hidx ⊢
    exact memory_contiguous _ hidx

omit [AddCommMonoid α] in
theorem rccl_allGather {shape : Fin n → ℕ} {x : Fin W → StridedTensor α n} (hW : W ≠ 1)
    (hdtype : rcclDtype dtype = some dataType) (hx : Inputs device dtype shape x) (dim : Dim n)
    (r : Fin W) :
    ∃ z, RcclCommunicator.allGather ⟨device⟩ torch dim x r = .returned z ∧
      Concatenates dtype (device r) dim.index shape x z := by
  obtain ⟨W, rfl⟩ : ∃ W', W = W' + 1 := ⟨W - 1, by have := r.pos; omega⟩
  let source (q : Fin (W + 1)) := (x q).contiguous (torch.fresh q .contiguous)
  have hsame : ∀ q, (source q).Same (x q) := fun q => StridedTensor.same_contiguous _
  have hshape : ∀ q, (source q).shape = shape := fun q => (hsame q).shape.trans (hx.shape_eq q)
  have hentered : ∀ q, RcclCommunicator.prepare ⟨device⟩ torch q (x q) = .ok (source q, dataType) :=
    fun q => RcclCommunicator.prepare_of_accepted (hx.device_eq q) (by rw [hx.dtype_eq q, hdtype])
  let gathered : StridedTensor α (n + 1) :=
    ⟨(source r).dtype, (source r).device, Fin.cons (W + 1) (source r).shape,
      rowMajor (Fin.cons (W + 1) (source r).shape : Fin (n + 1) → ℕ),
      segments (numel (source r).shape) (fun q => (source q).memory) (torch.fresh r (.gathered 0))⟩
  have hselect : ∀ q : Fin (W + 1), (gathered.select q).shape = shape := fun q => hshape r
  obtain ⟨z, hz, hzdtype, hzdevice, -, hzshape, hread⟩ := StridedTensor.cat_ofFn dim.index
    (fun q : Fin (W + 1) => gathered.select q) hselect (torch.fresh r .result)
  refine ⟨z, ?_, hzdtype.trans ((hsame r).dtype.trans (hx.dtype_eq r)),
    hzdevice.trans ((hsame r).device.trans (hx.device_eq r)), hzshape, fun q idx hidx => ?_⟩
  · rw [RcclCommunicator.allGather, if_neg hW, collective_of_ok hentered,
      Outcome.ofExcept_eq_returned]
    exact (congrArg (fun ts => StridedTensor.cat dim.index ts (torch.fresh r .result))
      gathered.unbind_eq_ofFn).trans hz
  · have hplace : offset gathered.strides (Fin.cons q idx) =
        q * numel (source r).shape + flat (source r).shape idx :=
      flat_succ (Fin.cons (W + 1) (source r).shape) (Fin.cons q idx)
    rw [hread q idx hidx, StridedTensor.read_select, StridedTensor.read, hplace]
    have hlt : flat (source r).shape idx < numel (source r).shape := flat_lt (by rwa [hshape r])
    refine (segments_of_lt (fun q => (source q).memory) (torch.fresh r (.gathered 0)) q hlt).trans ?_
    rw [hshape r, ← hx.shape_eq q]
    exact memory_contiguous _ (by rwa [hx.shape_eq q])

theorem rccl_reduceScatter {shape : Fin (n + 1) → ℕ} {x : Fin W → StridedTensor α (n + 1)}
    (hW : W ≠ 1) (hdtype : rcclDtype dtype = some dataType) (hx : Inputs device dtype shape x)
    (dim : Dim (n + 1)) (hdvd : W ∣ shape dim.index) (r : Fin W) :
    ∃ y, RcclCommunicator.reduceScatter ⟨device⟩ torch dim x r = .returned y ∧
      y.isContiguous = true ∧
      Represents dtype (device r) (Function.update shape dim.index (shape dim.index / W))
        (reducedChunk dim.index (shape dim.index / W) r x) y := by
  let moved (q : Fin W) := toFront dim.index (x q) (torch.fresh q .moved)
  have hmoved : ∀ q, Represents dtype (device q) (movedim dim.index 0 shape)
      (fun idx => (x q).read (movedim 0 dim.index idx)) (moved q) := fun q => hx.toFront q _ _
  let source (q : Fin W) := (moved q).contiguous (torch.fresh q .contiguous)
  have hsource : ∀ q, Represents dtype (device q) (movedim dim.index 0 shape)
      (fun idx => (x q).read (movedim 0 dim.index idx)) (source q) :=
    fun q => (StridedTensor.same_contiguous _).represents (hmoved q)
  have hentered : ∀ q, (if (moved q).shape 0 % W ≠ 0 then
        .error (.valueError "scatter dimension must be divisible by world size")
      else RcclCommunicator.prepare ⟨device⟩ torch q (moved q)) =
      Except.ok (source q, dataType) := by
    intro q
    rw [(hmoved q).shape_eq, movedim_apply_same,
      if_neg (not_not.mpr (Nat.mod_eq_zero_of_dvd hdvd))]
    exact RcclCommunicator.prepare_of_accepted (hmoved q).device_eq
      (by rw [(hmoved q).dtype_eq, hdtype])
  let chunk := Function.update (source r).shape 0 ((source r).shape 0 / W)
  have hchunk : chunk =
      Function.update (movedim dim.index 0 shape) 0 (shape dim.index / W) := by
    dsimp only [chunk]
    rw [(hsource r).shape_eq, movedim_apply_same]
  let output : StridedTensor α (n + 1) :=
    ⟨(source r).dtype, (source r).device, chunk, rowMajor chunk, receive (numel chunk)
      (fun i => ∑ q, (source q).memory (r * numel chunk + i)) (torch.fresh r .output)⟩
  have hmemory : ∀ q idx, InBounds (movedim dim.index 0 shape) idx →
      (source q).memory (flat (movedim dim.index 0 shape) idx) =
        (x q).read (movedim 0 dim.index idx) := by
    intro q idx hidx
    rw [← (hmoved q).read_eq idx hidx]
    rw [← (hmoved q).shape_eq] at hidx ⊢
    exact memory_contiguous _ hidx
  have hread : ∀ idx, InBounds output.shape idx → output.read idx =
      ∑ q, (source q).memory (r * numel output.shape + flat output.shape idx) :=
    fun idx hidx => if_pos (flat_lt hidx)
  have hresult := represents_reducedChunk hdvd hmemory hchunk hread (torch.fresh r .result)
  rw [show output.dtype = dtype from (hsource r).dtype_eq,
    show output.device = device r from (hsource r).device_eq] at hresult
  refine ⟨(output.movedim 0 dim.index).contiguous (torch.fresh r .result), ?_,
    StridedTensor.isContiguous_contiguous _, hresult⟩
  rw [RcclCommunicator.reduceScatter, if_neg hW]
  exact collective_of_ok hentered _ r

/-! ### Host staging -/

omit [AddCommMonoid α] in
theorem Inputs.rowMajor {device : Fin W → Device} {shape : Fin n → ℕ}
    {x : Fin W → StridedTensor α n} (hx : Inputs device dtype shape x) (q : Fin W) :
    RowMajor (x q).shape (x q).strides := StridedTensor.rowMajor_of_isContiguous (hx.contiguous q)

omit [AddCommMonoid α] in
/-- The stage of a contiguous tensor has its elements in row-major order. -/
theorem stagedMemory_flat {t : StridedTensor α n} (h : t.isContiguous = true) (q : Fin W)
    {idx : Fin n → ℕ} (hidx : InBounds t.shape idx) :
    HostStagedGloo.stagedMemory torch q t (flat t.shape idx) = t.read idx := by
  have hrow := StridedTensor.rowMajor_of_isContiguous h
  rw [← hrow idx (mem_indices.mpr hidx)]
  exact HostStagedGloo.stagedMemory_offset hrow.nonoverlapping hidx

theorem gloo_allReduce {shape : Fin n → ℕ} {x : Fin W → StridedTensor α n} (hW : W ≠ 1)
    (hx : Inputs device dtype shape x) (r : Fin W) :
    ∃ y, HostStagedGloo.allReduce ⟨device⟩ torch x r = .returned y ∧
      Represents dtype (device r) shape (reduced x) y := by
  obtain ⟨y, hy, hdtype, hdevice, hshape, hread⟩ := hostStaged_allReduce ⟨device⟩ torch hW
    hx.device_eq (fun q => (hx.rowMajor q).nonoverlapping) r
  refine ⟨y, hy, hdtype.trans (hx.dtype_eq r), hdevice.trans (hx.device_eq r),
    hshape.trans (hx.shape_eq r), fun idx hidx => ?_⟩
  have hidx' : ∀ q, InBounds (x q).shape idx := fun q => by rwa [hx.shape_eq q]
  have hplace := hx.rowMajor r idx (mem_indices.mpr (hidx' r))
  rw [hread idx (hidx' r), hplace, if_pos (flat_lt (hidx' r))]
  refine Finset.sum_congr rfl fun q _ => ?_
  rw [hx.shape_eq r, ← hx.shape_eq q]
  exact stagedMemory_flat torch (hx.contiguous q) q (hidx' q)

omit [AddCommMonoid α] in
theorem gloo_allGather {shape : Fin n → ℕ} {x : Fin W → StridedTensor α n} (hW : W ≠ 1)
    (hx : Inputs device dtype shape x) (dim : Dim n) (r : Fin W) :
    ∃ z, HostStagedGloo.allGather torch dim x r = .returned z ∧
      Concatenates dtype (device r) dim.index shape x z := by
  obtain ⟨W, rfl⟩ : ∃ W', W = W' + 1 := ⟨W - 1, by have := r.pos; omega⟩
  let stage (q : Fin (W + 1)) := HostStagedGloo.stageOf torch q (x q)
  have hentered : ∀ q, HostStagedGloo.staged torch q (x q) = .ok (stage q) :=
    fun q => HostStagedGloo.staged_of_nonoverlapping (hx.rowMajor q).nonoverlapping
  let gathered (q : Fin (W + 1)) : StridedTensor α n :=
    { (stage r).emptyLike torch.denseStrides (torch.fresh r (.gathered q)) with
      memory := receive (numel (stage r).shape) (stage q).memory (torch.fresh r (.gathered q)) }
  obtain ⟨host, hhost, hdtype, -, hstrides, hshape, hread⟩ := StridedTensor.cat_ofFn dim.index
    gathered (fun _ => hx.shape_eq r) (torch.fresh r .hostOutput)
  obtain ⟨z, hz, hzdtype, hzdevice, hzshape, -, hzread⟩ :=
    HostStagedGloo.gpuFromHost_of_nonoverlapping torch r host
      (hstrides ▸ (rowMajor_rowMajor host.shape).nonoverlapping) (x r).device
  refine ⟨z, ?_, hzdtype.trans (hdtype.trans (hx.dtype_eq r)), hzdevice.trans (hx.device_eq r),
    hzshape.trans hshape, fun q idx hidx => ?_⟩
  · rw [HostStagedGloo.allGather, if_neg hW]
    refine (collective_of_ok hentered _ r).trans (Outcome.ofExcept_eq_returned.mpr ?_)
    exact (congrArg (fun output => output >>= fun host =>
      HostStagedGloo.gpuFromHost torch r host (x r).device) hhost).trans hz
  · have hbounds : InBounds host.shape (inChunk dim.index (shape dim.index) q idx) := by
      rw [hshape]
      exact inBounds_inChunk (by rwa [Function.update_eq_self]) q.isLt
    have hidx' : ∀ p, InBounds (x p).shape idx := fun p => by rwa [hx.shape_eq p]
    rw [hzread _ hbounds, hread q idx hidx]
    refine (read_emptyLike_receive torch _ _ (hx.contiguous r) (hidx' r)).trans ?_
    rw [hx.shape_eq r, ← hx.shape_eq q]
    exact stagedMemory_flat torch (hx.contiguous q) q (hidx' q)

theorem gloo_reduceScatter {shape : Fin (n + 1) → ℕ} {x : Fin W → StridedTensor α (n + 1)}
    (hW : W ≠ 1) (hx : Inputs device dtype shape x) (dim : Dim (n + 1))
    (hdvd : W ∣ shape dim.index) (r : Fin W) :
    ∃ y, HostStagedGloo.reduceScatter torch dim x r = .returned y ∧
      y.isContiguous = true ∧
      Represents dtype (device r) (Function.update shape dim.index (shape dim.index / W))
        (reducedChunk dim.index (shape dim.index / W) r x) y := by
  let moved (q : Fin W) := toFront dim.index (x q) (torch.fresh q .moved)
  have hmoved : ∀ q, Represents dtype (device q) (movedim dim.index 0 shape)
      (fun idx => (x q).read (movedim 0 dim.index idx)) (moved q) := fun q => hx.toFront q _ _
  have hcontiguous : ∀ q, (moved q).isContiguous = true :=
    fun q => StridedTensor.isContiguous_contiguous _
  let stage (q : Fin W) := HostStagedGloo.stageOf torch q (moved q)
  have hentered : ∀ q, (if (moved q).shape 0 % W ≠ 0 then
        .error (.valueError "scatter dimension must be divisible by world size")
      else HostStagedGloo.staged torch q (moved q)) = Except.ok (stage q) := by
    intro q
    rw [(hmoved q).shape_eq, movedim_apply_same,
      if_neg (not_not.mpr (Nat.mod_eq_zero_of_dvd hdvd))]
    exact HostStagedGloo.staged_of_nonoverlapping
      (StridedTensor.rowMajor_of_isContiguous (hcontiguous q)).nonoverlapping
  let chunk := Function.update (moved r).shape 0 ((moved r).shape 0 / W)
  have hchunk : chunk =
      Function.update (movedim dim.index 0 shape) 0 (shape dim.index / W) := by
    dsimp only [chunk]
    rw [(hmoved r).shape_eq, movedim_apply_same]
  let host : StridedTensor α (n + 1) :=
    ⟨(moved r).dtype, .cpu, chunk, rowMajor chunk, receive (numel chunk)
      (fun i => ∑ q, (stage q).memory (r * numel chunk + i)) (torch.fresh r .hostOutput)⟩
  obtain ⟨output, houtput, hodtype, hodevice, hoshape, -, horead⟩ :=
    HostStagedGloo.gpuFromHost_of_nonoverlapping torch r host
      (rowMajor_rowMajor chunk).nonoverlapping (x r).device
  have hmemory : ∀ q idx, InBounds (movedim dim.index 0 shape) idx →
      (stage q).memory (flat (movedim dim.index 0 shape) idx) =
        (x q).read (movedim 0 dim.index idx) := by
    intro q idx hidx
    rw [← (hmoved q).read_eq idx hidx]
    rw [← (hmoved q).shape_eq] at hidx ⊢
    exact stagedMemory_flat torch (hcontiguous q) q hidx
  have hread : ∀ idx, InBounds output.shape idx → output.read idx =
      ∑ q, (stage q).memory (r * numel output.shape + flat output.shape idx) := by
    intro idx hidx
    rw [hoshape] at hidx ⊢
    exact (horead idx hidx).trans (if_pos (flat_lt hidx))
  have hresult := represents_reducedChunk hdvd hmemory (hoshape.trans hchunk) hread
    (torch.fresh r .result)
  rw [hodtype.trans (hmoved r).dtype_eq, hodevice.trans (hx.device_eq r)] at hresult
  refine ⟨(output.movedim 0 dim.index).contiguous (torch.fresh r .result), ?_,
    StridedTensor.isContiguous_contiguous _, hresult⟩
  rw [HostStagedGloo.reduceScatter, if_neg hW]
  refine (collective_of_ok hentered _ r).trans (Outcome.ofExcept_eq_returned.mpr ?_)
  exact congrArg (fun copied => copied >>= fun output =>
    pure ((output.movedim 0 dim.index).contiguous (torch.fresh r .result))) houtput

/-! ### The two backends together -/

inductive Backend
  | rccl | gloo
  deriving DecidableEq

namespace Backend

def allReduce (device : Fin W → Device) (torch : Torch α W) (x : Fin W → StridedTensor α n)
    (r : Fin W) : Backend → Outcome (StridedTensor α n)
  | .rccl => RcclCommunicator.allReduce ⟨device⟩ torch x r
  | .gloo => HostStagedGloo.allReduce ⟨device⟩ torch x r

omit [AddCommMonoid α] in
def allGather (device : Fin W → Device) (torch : Torch α W) (dim : Dim n)
    (x : Fin W → StridedTensor α n) (r : Fin W) : Backend → Outcome (StridedTensor α n)
  | .rccl => RcclCommunicator.allGather ⟨device⟩ torch dim x r
  | .gloo => HostStagedGloo.allGather torch dim x r

def reduceScatter (device : Fin W → Device) (torch : Torch α W) (dim : Dim (n + 1))
    (x : Fin W → StridedTensor α (n + 1)) (r : Fin W) :
    Backend → Outcome (StridedTensor α (n + 1))
  | .rccl => RcclCommunicator.reduceScatter ⟨device⟩ torch dim x r
  | .gloo => HostStagedGloo.reduceScatter torch dim x r

end Backend

variable {device}

/-- The one rank of a group of one is returned its tensor by all collectives. -/
theorem represents_of_one {shape : Fin n → ℕ} {x : Fin 1 → StridedTensor α n}
    {device : Fin 1 → Device} (hx : Inputs device dtype shape x) (r : Fin 1) :
    Represents dtype (device r) shape (reduced x) (x r) :=
  ⟨hx.dtype_eq r, hx.device_eq r, hx.shape_eq r, fun idx _ => by
    simp [reduced, Subsingleton.elim r 0]⟩

theorem Backend.allReduce_represents (backend : Backend) {shape : Fin n → ℕ}
    {x : Fin W → StridedTensor α n} (hdtype : rcclDtype dtype = some dataType)
    (hx : Inputs device dtype shape x) (r : Fin W) :
    ∃ y, backend.allReduce device torch x r = .returned y ∧
      Represents dtype (device r) shape (reduced x) y := by
  by_cases hW : W = 1
  · subst hW
    refine ⟨x r, ?_, represents_of_one hx r⟩
    have hcheck : HostStagedGloo.checkDevice ⟨device⟩ r (x r) = .ok () :=
      HostStagedGloo.checkDevice_of_eq (hx.device_eq r)
    cases backend with
    | rccl => rfl
    | gloo => simp [allReduce, HostStagedGloo.allReduce, hcheck, Except.map, Outcome.ofExcept]
  · cases backend with
    | rccl => exact rccl_allReduce device torch hW hdtype hx r
    | gloo => exact gloo_allReduce device torch hW hx r

omit [AddCommMonoid α] in
theorem Backend.allGather_concatenates (backend : Backend) {shape : Fin n → ℕ}
    {x : Fin W → StridedTensor α n} (hdtype : rcclDtype dtype = some dataType)
    (hx : Inputs device dtype shape x) (dim : Dim n) (r : Fin W) :
    ∃ z, backend.allGather device torch dim x r = .returned z ∧
      Concatenates dtype (device r) dim.index shape x z := by
  by_cases hW : W = 1
  · subst hW
    refine ⟨x r, by cases backend <;> rfl, hx.dtype_eq r, hx.device_eq r, ?_, fun q idx _ => ?_⟩
    · rw [hx.shape_eq r, Nat.one_mul, Function.update_eq_self]
    · simp [Subsingleton.elim q r, Subsingleton.elim r 0, inChunk]
  · cases backend with
    | rccl => exact rccl_allGather device torch hW hdtype hx dim r
    | gloo => exact gloo_allGather device torch hW hx dim r

theorem Backend.reduceScatter_represents (backend : Backend) {shape : Fin (n + 1) → ℕ}
    {x : Fin W → StridedTensor α (n + 1)} (hdtype : rcclDtype dtype = some dataType)
    (hx : Inputs device dtype shape x) (dim : Dim (n + 1)) (hdvd : W ∣ shape dim.index)
    (r : Fin W) :
    ∃ y, backend.reduceScatter device torch dim x r = .returned y ∧ y.isContiguous = true ∧
      Represents dtype (device r) (Function.update shape dim.index (shape dim.index / W))
        (reducedChunk dim.index (shape dim.index / W) r x) y := by
  by_cases hW : W = 1
  · subst hW
    refine ⟨x r, by cases backend <;> rfl, hx.contiguous r, ?_⟩
    have hall := represents_of_one hx r
    refine ⟨hall.dtype_eq, hall.device_eq, ?_, fun idx hidx => ?_⟩
    · rw [hall.shape_eq, Nat.div_one, Function.update_eq_self]
    · rw [Nat.div_one, Function.update_eq_self] at hidx
      rw [hall.read_eq idx hidx]
      simp [reducedChunk, Subsingleton.elim r 0, inChunk]
  · cases backend with
    | rccl => exact rccl_reduceScatter device torch hW hdtype hx dim hdvd r
    | gloo => exact gloo_reduceScatter device torch hW hx dim hdvd r

/-- A rank that finds the extent not divisible raises before it comes to the collective. -/
theorem Backend.reduceScatter_indivisible (backend : Backend) {shape : Fin (n + 1) → ℕ}
    {x : Fin W → StridedTensor α (n + 1)} (hx : Inputs device dtype shape x) (dim : Dim (n + 1))
    (hdvd : ¬ W ∣ shape dim.index) (r : Fin W) :
    backend.reduceScatter device torch dim x r =
      .raised (.valueError "scatter dimension must be divisible by world size") := by
  have hW : W ≠ 1 := fun hone => hdvd (by rw [hone]; exact one_dvd _)
  have hmod : (toFront dim.index (x r) (torch.fresh r .moved)).shape 0 % W ≠ 0 := by
    rw [(hx.toFront r dim.index _).shape_eq, movedim_apply_same]
    exact fun hzero => hdvd (Nat.dvd_of_mod_eq_zero hzero)
  cases backend with
  | rccl =>
    rw [reduceScatter, RcclCommunicator.reduceScatter, if_neg hW]
    exact collective_of_error (if_pos hmod) _
  | gloo =>
    rw [reduceScatter, HostStagedGloo.reduceScatter, if_neg hW]
    exact collective_of_error (if_pos hmod) _

end

/-- Two ranks with a matrix of two rows and four columns each, scattered along the last dimension. -/
def sampleInputs : Fin 2 → StridedTensor ℤ 2 :=
  tensors sampleGloo.device .float32 ![2, 4] (fun _ => ![4, 1]) fun r i => 10 * r + i

end MultiGpuTransport.Backends
