import MultiGpuTransport.D3D12.Protocol

/-!
# The transport of the llama shim

One thread makes the calls of both ranks: `wac_d3d12_allreduce` checks the pair and runs
`enqueue_rank` for rank 0 and then for rank 1. The HIP calls it makes are listed in order; the
first that fails ends the list.
-/
namespace MultiGpuTransport.D3D12
open Streams

inductive WacDataType
  | f16 | f32 | bf16
  deriving DecidableEq, Repr

/-- The size of an element, as wac_d3d12_allreduce takes it and as the kernels have it. -/
def WacDataType.elementSize (type : WacDataType) : ℕ := if type = .f32 then 4 else 2

def WacDataType.dtype : WacDataType → Dtype
  | f16 => .float16
  | f32 => .float32
  | bf16 => .bfloat16

@[simp] theorem WacDataType.elementSize_dtype (type : WacDataType) :
    type.dtype.elementSize = type.elementSize := by
  cases type <;> rfl

/-- One rank's part of a call; payload is what the buffer at send holds. Address 0 is null. -/
structure RankCall where
  send : ℕ
  payload : Bytes
  recv : ℕ
  count : ℕ
  device : ℕ
  stream : StreamId
  deriving DecidableEq

/-- A HIP call of the transport, with the name its failure is reported under, or an exception the
transport throws itself. -/
inductive HipCall
  | setDevice (device : ℕ)
  | onStream (operation : String) (rank : Rank) (stream : StreamId) (op : Op)
  | throw (message : String)
  deriving DecidableEq

structure Transport where
  devices : Rank → ℕ
  maxSizeBytes : ℕ
  epoch : ℕ

def enqueueRank (device : ℕ) (rank : Rank) (type : WacDataType) (epoch : ℕ) (call : RankCall)
    (readyValue consumedValue : ℕ) : List HipCall :=
  let nbytes := call.count * type.elementSize
  let source := call.payload.take nbytes
  if nbytes = 0 then []
  else
    [.onStream "D3D12 AllReduce publish kernel" rank call.stream (.copy rank epoch source),
     .setDevice device,
     .onStream "hipSignalExternalSemaphoresAsync" rank call.stream (.signal rank readyValue),
     .setDevice device,
     .onStream "hipWaitExternalSemaphoresAsync" rank call.stream (.wait rank.peer readyValue),
     .onStream "D3D12 AllReduce add kernel" rank call.stream
      (.add rank epoch type.dtype call.count source rank.peer),
     .setDevice device,
     .onStream "hipSignalExternalSemaphoresAsync" rank call.stream (.signal rank.peer consumedValue),
     .setDevice device,
     .onStream "hipWaitExternalSemaphoresAsync" rank call.stream (.wait rank consumedValue)]

/-- The part of the loop body for one rank. -/
def Transport.rankCalls (transport : Transport) (type : WacDataType) (epoch : ℕ) (rank : Rank)
    (call : RankCall) : List HipCall :=
  let readyValue := epoch * 2 - 1
  let consumedValue := readyValue + 1
  if call.device ≠ transport.devices rank then
    [.throw "D3D12 AllReduce rank/device order changed"]
  else
    .setDevice call.device ::
      enqueueRank (transport.devices rank) rank type epoch call readyValue consumedValue

/-- The checks, the new epoch, and the HIP calls for both ranks. -/
def wacD3d12Allreduce (transport : Transport) (type : WacDataType) (calls : Rank → RankCall) :
    Except String (Transport × List HipCall) :=
  let a := calls .zero
  let b := calls .one
  if a.send = 0 ∨ a.recv = 0 ∨ b.send = 0 ∨ b.recv = 0 ∨ a.count ≠ b.count then
    .error "D3D12 AllReduce received mismatched calls"
  else if a.count > transport.maxSizeBytes / type.elementSize then
    .error "D3D12 AllReduce payload exceeds the configured buffer"
  else if a.count = 0 then
    .ok (transport, [])
  else
    let epoch := transport.epoch + 1
    .ok ({ transport with epoch := epoch },
      transport.rankCalls type epoch .zero a ++ transport.rankCalls type epoch .one b)

/-- What a HIP call puts on a stream. -/
def HipCall.instr : HipCall → Option (Instr (Rank × StreamId) Op)
  | onStream _ rank stream op => some (.enqueue (rank, stream) op)
  | _ => none

/-- A sequence of calls none of whose HIP calls fails: whose outputs they fill, and the HIP calls. -/
def shimRun : Transport → List (WacDataType × (Rank → RankCall)) →
    List (Except String TensorRef) × List HipCall
  | _, [] => ([], [])
  | transport, (type, calls) :: rest =>
    match wacD3d12Allreduce transport type calls with
    | .error message =>
      let (results, hip) := shimRun transport rest
      (.error message :: results, hip)
    | .ok (transport', hip) =>
      let (results, hip') := shimRun transport' rest
      let ref := if transport'.epoch = transport.epoch then .empty else .output transport'.epoch
      (.ok ref :: results, hip ++ hip')

/-- A pair of calls the transport accepts, with buffers of the size the count says. -/
structure ShimCollective (devices : Rank → ℕ) (maxSizeBytes : ℕ) where
  type : WacDataType
  call : Rank → RankCall
  nonnull : ∀ r, (call r).send ≠ 0 ∧ (call r).recv ≠ 0
  count_eq : ∀ r, (call r).count = (call r.peer).count
  device_eq : ∀ r, (call r).device = devices r
  payload_length : ∀ r, (call r).payload.length = (call r).count * type.elementSize
  fits : (call .zero).count ≤ maxSizeBytes / type.elementSize

namespace ShimCollective
variable {devices : Rank → ℕ} {maxSizeBytes : ℕ}

def tensor (col : ShimCollective devices maxSizeBytes) (r : Rank) : Tensor where
  dtype := col.type.dtype
  shape := [(col.call r).count]
  device := (col.call r).device
  data := (col.call r).payload
  size_eq := by simpa using col.payload_length r

@[simp] theorem tensor_sizeBytes (col : ShimCollective devices maxSizeBytes) (r : Rank) :
    (col.tensor r).sizeBytes = (col.call r).count * col.type.elementSize := by
  simp [Tensor.sizeBytes, Tensor.numel, tensor]

theorem count_eq_zero (col : ShimCollective devices maxSizeBytes) (r : Rank) :
    (col.call r).count = (col.call .zero).count := by
  cases r with
  | zero => rfl
  | one => exact col.count_eq .one

/-- The same collective as the Python communicators would make it. -/
def toCollective (col : ShimCollective devices maxSizeBytes) :
    Collective ⟨devices, fun _ => maxSizeBytes⟩ where
  call r := ⟨col.tensor r, (col.call r).stream, none⟩
  accepted r := {
    ownOpen := rfl
    peerOpen := rfl
    onDevice := congrArg some (col.device_eq r).symm
    native := by
      cases h : col.type <;> simp [tensor, h, WacDataType.dtype, Dtype.isNative]
    fits := by
      have h := Nat.mul_le_of_le_div _ _ _ col.fits
      simpa [Pair.comm, col.count_eq_zero r] using h }
  sameShape r := ⟨rfl, by simp [tensor, col.count_eq r]⟩

theorem moves_toCollective (col : ShimCollective devices maxSizeBytes) :
    col.toCollective.moves = true ↔ (col.call .zero).count ≠ 0 := by
  have hes : col.type.elementSize ≠ 0 := by
    unfold WacDataType.elementSize
    split_ifs <;> decide
  have hsize : (col.toCollective.call .zero).tensor.sizeBytes =
      (col.call .zero).count * col.type.elementSize := tensor_sizeBytes col .zero
  rw [Collective.moves_iff col.toCollective .zero, hsize, ne_eq, Nat.mul_eq_zero, or_iff_left hes]

/-- The transport after a number of epochs. -/
def transportAt (devices : Rank → ℕ) (maxSizeBytes e : ℕ) : Transport := ⟨devices, maxSizeBytes, e⟩

/-- The job one rank's part of the call amounts to. -/
theorem rankCalls_instr (col : ShimCollective devices maxSizeBytes) (e : ℕ) (r : Rank)
    (hcount : (col.call .zero).count ≠ 0) :
    ((transportAt devices maxSizeBytes e).rankCalls col.type (e + 1) r (col.call r)).filterMap
        HipCall.instr =
      enqueues r ((job r (e + 1) (col.toCollective.call r)).ops.map ((col.call r).stream, ·)) := by
  have hes : col.type.elementSize ≠ 0 := by
    unfold WacDataType.elementSize
    split_ifs <;> decide
  have hn : ¬ (col.call r).count * col.type.elementSize = 0 := by
    simpa [Nat.mul_eq_zero, hes, col.count_eq_zero r] using hcount
  have htake : (col.call r).payload.take ((col.call r).count * col.type.elementSize) =
      (col.call r).payload := List.take_of_length_le (by rw [col.payload_length r])
  have hv : (e + 1) * 2 - 1 + 1 = (e + 1) * 2 := by omega
  have hnumel : (col.tensor r).numel = (col.call r).count := by simp [Tensor.numel, tensor]
  simp only [Transport.rankCalls, transportAt, col.device_eq r, enqueueRank, hn, htake, hv, job,
    sixSteps, toCollective, hnumel, ne_eq, not_true_eq_false, if_false]
  rfl

theorem wacD3d12Allreduce_eq (col : ShimCollective devices maxSizeBytes) (e : ℕ) :
    wacD3d12Allreduce (transportAt devices maxSizeBytes e) col.type col.call =
      if (col.call .zero).count = 0 then .ok (transportAt devices maxSizeBytes e, [])
      else .ok (transportAt devices maxSizeBytes (e + 1),
        (transportAt devices maxSizeBytes e).rankCalls col.type (e + 1) .zero (col.call .zero) ++
        (transportAt devices maxSizeBytes e).rankCalls col.type (e + 1) .one (col.call .one)) := by
  have hc : (col.call .zero).count = (col.call .one).count := col.count_eq .zero
  have hfits := Nat.not_lt.mpr col.fits
  have hchecks : ¬ ((col.call .zero).send = 0 ∨ (col.call .zero).recv = 0 ∨
      (col.call .one).send = 0 ∨ (col.call .one).recv = 0 ∨
      (col.call .zero).count ≠ (col.call .one).count) := by
    simp [col.nonnull .zero, col.nonnull .one, hc]
  simp only [wacD3d12Allreduce, transportAt, hchecks, hfits, if_false]

/-- What a sequence of pairs of calls amounts to for the Python communicators. -/
def toCollectives (cs : List (ShimCollective devices maxSizeBytes)) :
    List (Collective ⟨devices, fun _ => maxSizeBytes⟩) :=
  cs.map toCollective

theorem noFault (cs : List (ShimCollective devices maxSizeBytes)) : NoFault (toCollectives cs) := by
  intro col hcol r
  obtain ⟨col, _, rfl⟩ := List.mem_map.mp (List.mem_of_mem_filter hcol)
  rfl

/-- The arguments of the calls. -/
def arguments (cs : List (ShimCollective devices maxSizeBytes)) :
    List (WacDataType × (Rank → RankCall)) :=
  cs.map fun col => (col.type, col.call)

theorem movingCalls_cons (col : ShimCollective devices maxSizeBytes)
    (cs : List (ShimCollective devices maxSizeBytes)) (r : Rank) :
    movingCalls (toCollectives (col :: cs)) r =
      if (col.call .zero).count = 0 then movingCalls (toCollectives cs) r
      else col.toCollective.call r :: movingCalls (toCollectives cs) r := by
  have hm := col.moves_toCollective
  by_cases hc : (col.call .zero).count = 0
  · have : col.toCollective.moves = false := by simpa [hc] using hm
    simp [movingCalls, toCollectives, hc, this]
  · have : col.toCollective.moves = true := hm.mpr hc
    simp [movingCalls, toCollectives, hc, this]

theorem shimRun_cons (col : ShimCollective devices maxSizeBytes)
    (cs : List (ShimCollective devices maxSizeBytes)) (e : ℕ) :
    shimRun (transportAt devices maxSizeBytes e) (arguments (col :: cs)) =
      if (col.call .zero).count = 0 then
        let run := shimRun (transportAt devices maxSizeBytes e) (arguments cs)
        (.ok .empty :: run.1, run.2)
      else
        let run := shimRun (transportAt devices maxSizeBytes (e + 1)) (arguments cs)
        (.ok (.output (e + 1)) :: run.1,
          (transportAt devices maxSizeBytes e).rankCalls col.type (e + 1) .zero (col.call .zero) ++
          (transportAt devices maxSizeBytes e).rankCalls col.type (e + 1) .one (col.call .one) ++
          run.2) := by
  by_cases hc : (col.call .zero).count = 0
  · simp [arguments, shimRun, wacD3d12Allreduce_eq, hc]
  · have hne : (transportAt devices maxSizeBytes (e + 1)).epoch ≠
        (transportAt devices maxSizeBytes e).epoch := by simp [transportAt]
    simp [arguments, shimRun, wacD3d12Allreduce_eq, hc, hne]
    simp [transportAt]

/-- Of the calls for both ranks, only a rank's own reach its streams. -/
theorem rankCalls_opOn (col : ShimCollective devices maxSizeBytes) (e : ℕ) (r : Rank) (s : StreamId)
    (hcount : (col.call .zero).count ≠ 0) :
    (((transportAt devices maxSizeBytes e).rankCalls col.type (e + 1) .zero (col.call .zero) ++
        (transportAt devices maxSizeBytes e).rankCalls col.type (e + 1) .one
          (col.call .one)).filterMap HipCall.instr).filterMap (Instr.opOn (r, s)) =
      remaining s [job r (e + 1) (col.toCollective.call r)] (fun _ => 0) := by
  have hown := filterMap_enqueues r s [job r (e + 1) (col.toCollective.call r)]
  simp only [flatten, List.flatMap_cons, List.flatMap_nil, List.append_nil] at hown
  rw [List.filterMap_append, rankCalls_instr col e _ hcount, rankCalls_instr col e _ hcount,
    List.filterMap_append, ← hown]
  cases r with
  | zero => rw [filterMap_enqueues_of_ne (show Rank.one ≠ .zero by decide), List.append_nil]; rfl
  | one => rw [filterMap_enqueues_of_ne (show Rank.zero ≠ .one by decide), List.nil_append]; rfl

theorem shimRun_opOn (cs : List (ShimCollective devices maxSizeBytes)) (e : ℕ) (r : Rank)
    (s : StreamId) :
    ((shimRun (transportAt devices maxSizeBytes e) (arguments cs)).2.filterMap
        HipCall.instr).filterMap (Instr.opOn (r, s)) =
      remaining s (jobsFrom r e (movingCalls (toCollectives cs) r)) (fun _ => 0) := by
  induction cs generalizing e with
  | nil => rfl
  | cons col cs ih =>
    rw [shimRun_cons, movingCalls_cons]
    split_ifs with hc
    · exact ih e
    · rw [List.filterMap_append, List.filterMap_append, ih, rankCalls_opOn col e r s hc]
      simp [jobsFrom, remaining]

/-- What a call returns: nothing to fill if there is nothing to move, else the output of its own
epoch. -/
theorem shimRun_result (cs : List (ShimCollective devices maxSizeBytes)) (e i : ℕ) (ref : TensorRef)
    (h : (shimRun (transportAt devices maxSizeBytes e) (arguments cs)).1[i]? = some (.ok ref)) :
    ∃ col, cs[i]? = some col ∧ (col.toCollective.moves = false ∧ ref = .empty ∨
      ∃ k, ref = .output (e + k + 1) ∧
        (moving (toCollectives cs))[k]? = some col.toCollective) := by
  induction cs generalizing e i with
  | nil => simp [arguments, shimRun] at h
  | cons col cs ih =>
    have hm := col.moves_toCollective
    rw [shimRun_cons] at h
    by_cases hc : (col.call .zero).count = 0
    · have hf : col.toCollective.moves = false := by simpa [hc] using hm
      simp only [hc, if_true] at h
      cases i with
      | zero => exact ⟨col, rfl, .inl ⟨hf, by simpa [eq_comm] using h⟩⟩
      | succ i =>
        obtain ⟨col', hcol, hcase⟩ := ih e i (by simpa using h)
        exact ⟨col', by simpa using hcol, by simpa [moving, toCollectives, hf] using hcase⟩
    · have ht : col.toCollective.moves = true := hm.mpr hc
      simp only [hc, if_false] at h
      cases i with
      | zero =>
        exact ⟨col, rfl, .inr ⟨0, by simpa [eq_comm] using h, by simp [moving, toCollectives, ht]⟩⟩
      | succ i =>
        obtain ⟨col', hcol, hcase⟩ := ih (e + 1) i (by simpa using h)
        refine ⟨col', by simpa using hcol, hcase.imp_right ?_⟩
        rintro ⟨k, rfl, hk⟩
        exact ⟨k + 1, by rw [show e + 1 + k + 1 = e + (k + 1) + 1 by omega],
          by simpa [moving, toCollectives, ht] using hk⟩

/-- Every accepted call returns success. -/
theorem shimRun_returns (cs : List (ShimCollective devices maxSizeBytes)) (e i : ℕ)
    (hi : i < cs.length) :
    ∃ ref, (shimRun (transportAt devices maxSizeBytes e) (arguments cs)).1[i]? =
      some (.ok ref) := by
  induction cs generalizing e i with
  | nil => simp at hi
  | cons col cs ih =>
    rw [shimRun_cons]
    split_ifs with hc
    · cases i with
      | zero => exact ⟨.empty, rfl⟩
      | succ i => simpa using ih e i (by simpa using hi)
    · cases i with
      | zero => exact ⟨.output (e + 1), rfl⟩
      | succ i => simpa using ih (e + 1) i (by simpa using hi)

/-- The instructions of the shim's one thread. -/
def program (cs : List (ShimCollective devices maxSizeBytes)) :
    List (Instr (Rank × StreamId) Op) :=
  (shimRun (transportAt devices maxSizeBytes 0) (arguments cs)).2.filterMap HipCall.instr

theorem program_isEnqueue (cs : List (ShimCollective devices maxSizeBytes)) :
    ∀ i ∈ program cs, i.IsEnqueue := by
  intro i hi
  obtain ⟨c, _, hc⟩ := List.mem_filterMap.mp hi
  cases c <;> simp only [HipCall.instr, Option.some.injEq, reduceCtorEq] at hc
  exact hc ▸ trivial

theorem program_realizes (cs : List (ShimCollective devices maxSizeBytes)) :
    Realizes (fun _ => ()) (fun _ => program cs) (jobs (toCollectives cs)) where
  owned _ _ _ := rfl
  ordered _ := Instr.ordered_of_enqueue (program_isEnqueue cs) _
  queue_eq r s := shimRun_opOn cs 0 r s

/-- Both ranks' streams under the shim's thread, from heaps with any contents. -/
def system (addValues : AddValues) (cs : List (ShimCollective devices maxSizeBytes))
    (heap : Rank → Bytes) : Transition.System (HostConfig Unit (Rank × StreamId) Op Mem) :=
  hostSystem (device addValues) (HostConfig.start (fun _ => program cs) (.start heap))

end ShimCollective
end MultiGpuTransport.D3D12
