import MultiGpuTransport.Backends.Torch

/-!
# The collectives of the two backends

RcclCommunicator gives contiguous device memory to RCCL; HostStagedGloo gives host buffers to Gloo.
A group has any number of ranks, all of which make the same call. A rank that raises before the
collective leaves those that have entered it waiting.
-/
namespace MultiGpuTransport.Backends
open Strided

/-- How a call ends on a rank, if it does. -/
inductive Outcome (A : Type)
  | returned (a : A)
  | raised (error : PyError)
  | waiting

def Outcome.ofExcept {A : Type} : Except PyError A → Outcome A
  | .ok a => .returned a
  | .error error => .raised error

@[simp] theorem Outcome.ofExcept_eq_returned {A : Type} {result : Except PyError A} {a : A} :
    Outcome.ofExcept result = .returned a ↔ result = .ok a := by
  cases result <;> simp [ofExcept]

section
variable {W : ℕ} {S A : Type}

/-- What the ranks bring into a collective, where all of them come to it. -/
def allEntered (entered : Fin W → Except PyError S) : Option (Fin W → S) :=
  if h : ∀ r, (entered r).toOption.isSome then some fun r => (entered r).toOption.get (h r) else none

/-- A call with one collective: what a rank does up to it, and then with what it has exchanged. -/
def collective (entered : Fin W → Except PyError S) (finish : (Fin W → S) → Fin W → Except PyError A)
    (r : Fin W) : Outcome A :=
  match entered r with
  | .error error => .raised error
  | .ok _ =>
    match allEntered entered with
    | none => .waiting
    | some s => .ofExcept (finish s r)

theorem allEntered_eq_some {entered : Fin W → Except PyError S} {s : Fin W → S} :
    allEntered entered = some s ↔ ∀ r, entered r = .ok (s r) := by
  unfold allEntered
  constructor
  · intro h r
    split_ifs at h with hall
    obtain ⟨a, ha⟩ := Option.isSome_iff_exists.mp (hall r)
    rw [← Option.some.inj h]
    cases he : entered r with
    | error error => simp [he, Except.toOption] at ha
    | ok b => simp [he, Except.toOption]
  · intro h
    have hall : ∀ r, (entered r).toOption.isSome := fun r => by simp [h r, Except.toOption]
    rw [dif_pos hall]
    simp [h, Except.toOption]

/-- Where all ranks come to the collective, each goes on. -/
theorem collective_of_ok {entered : Fin W → Except PyError S} {s : Fin W → S}
    (h : ∀ r, entered r = .ok (s r)) (finish : (Fin W → S) → Fin W → Except PyError A) (r : Fin W) :
    collective entered finish r = .ofExcept (finish s r) := by
  simp [collective, h, allEntered_eq_some.mpr h]

theorem collective_of_error {entered : Fin W → Except PyError S} {r : Fin W} {error : PyError}
    (h : entered r = .error error) (finish : (Fin W → S) → Fin W → Except PyError A) :
    collective entered finish r = .raised error := by
  simp [collective, h]

/-- A rank returns only where all have come to the collective. -/
theorem collective_eq_returned {entered : Fin W → Except PyError S}
    {finish : (Fin W → S) → Fin W → Except PyError A} {r : Fin W} {a : A}
    (h : collective entered finish r = .returned a) :
    ∃ s, (∀ q, entered q = .ok (s q)) ∧ finish s r = .ok a := by
  unfold collective at h
  cases hr : entered r with
  | error error => simp [hr] at h
  | ok b =>
    cases hall : allEntered entered with
    | none => simp [hr, hall] at h
    | some s =>
      refine ⟨s, allEntered_eq_some.mp hall, ?_⟩
      simpa [hr, hall] using h

end

/-- The memory a rank allocates in a call. -/
inductive Allocation
  | moved | contiguous | stage | gathered (peer : ℕ) | hostOutput | output | result
  deriving DecidableEq

/-- What the code leaves to torch: the strides that empty_like gives to what is not dense, and what
memory holds that nobody has written, or that a staging buffer has kept from earlier calls. -/
structure Torch (α : Type) (W : ℕ) where
  denseStrides : {n : ℕ} → (Fin n → ℕ) → (Fin n → ℕ) → Fin n → ℕ
  fresh : Fin W → Allocation → ℕ → α

def Device.name : Device → String
  | .cpu => "cpu"
  | .cuda index => cudaName (some index)

/-- The first count elements of a buffer are written. -/
def receive {α : Type} (count : ℕ) (data old : ℕ → α) : ℕ → α :=
  fun i => if i < count then data i else old i

/-- The segments of all ranks, count elements each, in rank order. -/
def segments {α : Type} {W : ℕ} (count : ℕ) (send : Fin W → ℕ → α) (old : ℕ → α) : ℕ → α :=
  fun i => if h : i / count < W then send ⟨i / count, h⟩ (i % count) else old i

theorem segments_of_lt {α : Type} {W count : ℕ} (send : Fin W → ℕ → α) (old : ℕ → α) (q : Fin W)
    {i : ℕ} (hi : i < count) : segments count send old (q * count + i) = send q i := by
  have hpos : 0 < count := Nat.zero_lt_of_lt hi
  have hdiv : (q * count + i) / count = q := by
    rw [Nat.mul_comm, Nat.mul_add_div hpos, Nat.div_eq_of_lt hi, Nat.add_zero]
  have hmod : (q * count + i) % count = i := by
    rw [Nat.mul_comm, Nat.mul_add_mod, Nat.mod_eq_of_lt hi]
  simp only [segments, hdiv, hmod, q.isLt, dite_true]

section
variable {W n : ℕ} {α : Type} [AddCommMonoid α]

/-- The ranks' RCCL communicators, in rank order. -/
structure RcclCommunicator (W : ℕ) where
  device : Fin W → Device

/-- The ranks' host-staged communicators. -/
structure HostStagedGloo (W : ℕ) where
  device : Fin W → Device

namespace RcclCommunicator
variable (comm : RcclCommunicator W) (torch : Torch α W)

def prepare (r : Fin W) (tensor : StridedTensor α n) : Except PyError (StridedTensor α n × ℕ) :=
  if tensor.device ≠ comm.device r then
    .error (.valueError
      s!"tensor is on {tensor.device.name}, communicator is {(comm.device r).name}")
  else
    match rcclDtype tensor.dtype with
    | none => .error (.typeError s!"RCCL dtype is not supported: {tensor.dtype.name}")
    | some dataType => .ok (tensor.contiguous (torch.fresh r .contiguous), dataType)

def allReduce (x : Fin W → StridedTensor α n) (r : Fin W) : Outcome (StridedTensor α n) :=
  if W = 1 then .returned (x r)
  else
    collective (fun r => comm.prepare torch r (x r)) (fun prepared r =>
      let source := (prepared r).1
      let output := source.emptyLike torch.denseStrides (torch.fresh r .output)
      .ok { output with
        memory := receive (numel source.shape) (fun i => ∑ q, (prepared q).1.memory i)
          output.memory }) r

def allGather (dim : Dim n) (x : Fin W → StridedTensor α n) (r : Fin W) :
    Outcome (StridedTensor α n) :=
  if W = 1 then .returned (x r)
  else
    collective (fun r => comm.prepare torch r (x r)) (fun prepared r =>
      let source := (prepared r).1
      let empty : StridedTensor α (n + 1) := .empty source.dtype source.device
        (Fin.cons W source.shape) (torch.fresh r (.gathered 0))
      let gathered := { empty with
        memory := segments (numel source.shape) (fun q => (prepared q).1.memory) empty.memory }
      StridedTensor.cat dim.index gathered.unbind (torch.fresh r .result)) r

def reduceScatter (dim : Dim (n + 1)) (x : Fin W → StridedTensor α (n + 1)) (r : Fin W) :
    Outcome (StridedTensor α (n + 1)) :=
  if W = 1 then .returned (x r)
  else
    collective (fun r =>
      let moved := ((x r).movedim dim.index 0).contiguous (torch.fresh r .moved)
      if moved.shape 0 % W ≠ 0 then
        .error (.valueError "scatter dimension must be divisible by world size")
      else comm.prepare torch r moved) (fun prepared r =>
      let source := (prepared r).1
      let empty : StridedTensor α (n + 1) := .empty source.dtype source.device
        (Function.update source.shape 0 (source.shape 0 / W)) (torch.fresh r .output)
      let count := numel empty.shape
      let output := { empty with
        memory := receive count (fun i => ∑ q, (prepared q).1.memory (r * count + i)) empty.memory }
      .ok ((output.movedim 0 dim.index).contiguous (torch.fresh r .result))) r

/-- What a rank has after a broadcast: the tensor it gets back, and the one it has passed in. -/
def broadcast (src : Fin W) (x : Fin W → StridedTensor α n) (r : Fin W) :
    Outcome (StridedTensor α n × StridedTensor α n) :=
  if W = 1 then .returned (x r, x r)
  else
    collective (fun r => comm.prepare torch r (x r)) (fun prepared r =>
      let source := (prepared r).1
      let output := source.emptyLike torch.denseStrides (torch.fresh r .output)
      .ok ({ output with
        memory := receive (numel source.shape) (prepared src).1.memory output.memory }, x r)) r

end RcclCommunicator

namespace HostStagedGloo
variable (comm : HostStagedGloo W) (torch : Torch α W)

/-- The buffer a rank keeps for tensors of this shape, these strides and this dtype. -/
def stageFor (r : Fin W) (tensor : StridedTensor α n) : StridedTensor α n :=
  .emptyStrided tensor.dtype .cpu tensor.shape tensor.strides (torch.fresh r .stage)

def gpuFromHost (r : Fin W) (host : StridedTensor α n) (device : Device) :
    Except PyError (StridedTensor α n) :=
  StridedTensor.copy_ (.emptyStrided host.dtype device host.shape host.strides
    (torch.fresh r .output)) host

def staged (r : Fin W) (tensor : StridedTensor α n) : Except PyError (StridedTensor α n) :=
  (stageFor torch r tensor).copy_ tensor

def checkDevice (r : Fin W) (tensor : StridedTensor α n) : Except PyError Unit :=
  if tensor.device ≠ comm.device r then
    .error (.valueError
      s!"tensor is on {tensor.device.name}, communicator is {(comm.device r).name}")
  else .ok ()

def allReduce (x : Fin W → StridedTensor α n) (r : Fin W) : Outcome (StridedTensor α n) :=
  if W = 1 then .ofExcept ((comm.checkDevice r (x r)).map fun _ => x r)
  else
    collective (fun r => do
      comm.checkDevice r (x r)
      staged torch r (x r)) (fun stage r =>
      let reduced := { stage r with
        memory := receive (numel (stage r).shape) (fun i => ∑ q, (stage q).memory i)
          (stage r).memory }
      gpuFromHost torch r reduced (x r).device) r

def allGather (dim : Dim n) (x : Fin W → StridedTensor α n) (r : Fin W) :
    Outcome (StridedTensor α n) :=
  if W = 1 then .returned (x r)
  else
    collective (fun r => staged torch r (x r)) (fun stage r => do
      let gathered := List.ofFn fun q : Fin W =>
        let empty := (stage r).emptyLike torch.denseStrides (torch.fresh r (.gathered q))
        { empty with memory := receive (numel (stage r).shape) (stage q).memory empty.memory }
      let hostOutput ← StridedTensor.cat dim.index gathered (torch.fresh r .hostOutput)
      gpuFromHost torch r hostOutput (x r).device) r

def reduceScatter (dim : Dim (n + 1)) (x : Fin W → StridedTensor α (n + 1)) (r : Fin W) :
    Outcome (StridedTensor α (n + 1)) :=
  if W = 1 then .returned (x r)
  else
    collective (fun r =>
      let moved := ((x r).movedim dim.index 0).contiguous (torch.fresh r .moved)
      if moved.shape 0 % W ≠ 0 then
        .error (.valueError "scatter dimension must be divisible by world size")
      else staged torch r moved) (fun stage r => do
      let empty : StridedTensor α (n + 1) := .empty (stage r).dtype .cpu
        (Function.update (stage r).shape 0 ((stage r).shape 0 / W)) (torch.fresh r .hostOutput)
      let count := numel empty.shape
      let hostOutput := { empty with
        memory := receive count (fun i => ∑ q, (stage q).memory (r * count + i)) empty.memory }
      let output ← gpuFromHost torch r hostOutput (x r).device
      return (output.movedim 0 dim.index).contiguous (torch.fresh r .result)) r

/-- What a rank has after a broadcast: the tensor it gets back is the one it has passed in. -/
def broadcast (src : Fin W) (x : Fin W → StridedTensor α n) (r : Fin W) :
    Outcome (StridedTensor α n × StridedTensor α n) :=
  if W = 1 then .returned (x r, x r)
  else
    collective (fun r => staged torch r (x r)) (fun stage r => do
      let received := { stage r with
        memory := receive (numel (stage r).shape) (stage src).memory (stage r).memory }
      let tensor ← (x r).copy_ received
      return (tensor, tensor)) r

end HostStagedGloo

end

/-! ### Contiguous device memory -/

section
variable {W n : ℕ} {α : Type} {t : StridedTensor α n}

/-- Contiguous memory holds the elements in row-major order. -/
theorem memory_contiguous (fresh : ℕ → α) {idx : Fin n → ℕ} (hidx : InBounds t.shape idx) :
    (t.contiguous fresh).memory (flat t.shape idx) = t.read idx := by
  have hsame := StridedTensor.same_contiguous (t := t) fresh
  have hread := hsame.read idx (hsame.shape.symm ▸ hidx)
  rwa [StridedTensor.read_eq_memory
    (StridedTensor.rowMajor_of_isContiguous (StridedTensor.isContiguous_contiguous fresh))
    (hsame.shape.symm ▸ hidx), hsame.shape] at hread

/-- A tensor that is like a contiguous one, with numel elements received into it, has them in row-major
order. -/
theorem read_emptyLike_receive (torch : Torch α W) (fresh data : ℕ → α)
    (h : t.isContiguous = true) {idx : Fin n → ℕ} (hidx : InBounds t.shape idx) :
    StridedTensor.read { t.emptyLike torch.denseStrides fresh with
      memory := receive (numel t.shape) data fresh } idx = data (flat t.shape idx) := by
  have hrow := StridedTensor.rowMajor_of_isContiguous h
  have hstrides : (t.emptyLike torch.denseStrides fresh).strides = t.strides :=
    if_pos ⟨hrow.nonoverlapping, hrow.dense⟩
  rw [StridedTensor.read]
  dsimp only
  rw [hstrides, hrow idx (mem_indices.mpr hidx), receive, if_pos (flat_lt hidx)]

namespace RcclCommunicator
variable {comm : RcclCommunicator W} {torch : Torch α W} {r : Fin W}

theorem prepare_of_accepted (hdevice : t.device = comm.device r) {dataType : ℕ}
    (hdtype : rcclDtype t.dtype = some dataType) :
    comm.prepare torch r t = .ok (t.contiguous (torch.fresh r .contiguous), dataType) := by
  simp [prepare, hdevice, hdtype]

theorem prepare_of_refused (h : t.device ≠ comm.device r ∨ rcclDtype t.dtype = none) :
    ∃ error, comm.prepare torch r t = .error error := by
  unfold prepare
  split_ifs with hdevice
  · exact ⟨_, rfl⟩
  · rw [h.resolve_left hdevice]
    exact ⟨_, rfl⟩

end RcclCommunicator
end

/-! ### Staging -/

namespace HostStagedGloo
variable {W n : ℕ} {α : Type} {torch : Torch α W} {r : Fin W} {x : StridedTensor α n}

/-- What the stage of a tensor holds: the tensor's elements where the tensor has them. -/
def stagedMemory (torch : Torch α W) (r : Fin W) (x : StridedTensor α n) : ℕ → α :=
  scatter x.shape x.strides x.read (torch.fresh r .stage)

@[simps -fullyApplied] def stageOf (torch : Torch α W) (r : Fin W) (x : StridedTensor α n) :
    StridedTensor α n := ⟨x.dtype, .cpu, x.shape, x.strides, stagedMemory torch r x⟩

theorem checkDevice_of_eq {comm : HostStagedGloo W} (h : x.device = comm.device r) :
    comm.checkDevice r x = .ok () := if_neg (not_not.mpr h)

/-- A tensor can be staged exactly when its elements share no place. -/
theorem staged_of_nonoverlapping (h : Nonoverlapping x.shape x.strides) :
    staged torch r x = .ok (stageOf torch r x) := if_pos h

theorem nonoverlapping_of_staged {stage : StridedTensor α n} (h : staged torch r x = .ok stage) :
    Nonoverlapping x.shape x.strides := by
  unfold staged StridedTensor.copy_ at h
  split_ifs at h with hno
  exact hno

theorem stagedMemory_offset (h : Nonoverlapping x.shape x.strides) {idx : Fin n → ℕ}
    (hidx : InBounds x.shape idx) : stagedMemory torch r x (offset x.strides idx) = x.read idx :=
  scatter_offset h hidx

theorem gpuFromHost_of_nonoverlapping (torch : Torch α W) (r : Fin W) (host : StridedTensor α n)
    (h : Nonoverlapping host.shape host.strides) (device : Device) :
    ∃ y, gpuFromHost torch r host device = .ok y ∧ y.dtype = host.dtype ∧ y.device = device ∧
      y.shape = host.shape ∧ y.strides = host.strides ∧
      ∀ idx, InBounds host.shape idx → y.read idx = host.read idx :=
  ⟨_, if_pos h, rfl, rfl, rfl, rfl, fun _ hidx => scatter_offset h hidx⟩

end HostStagedGloo
end MultiGpuTransport.Backends
