import MultiGpuTransport.Host
import MultiGpuTransport.Lib.Progress
import MultiGpuTransport.Lib.Timeline

/-!
# D3D12TensorBridge.transfer

One process copies tensors from one of its GPUs to another. The source device writes a payload to a
cross-adapter heap and the destination device reads it there; both have the heap and its one fence
mapped. Calls are serialised by the lock of the bridge, so that they enqueue like one host.
-/
namespace MultiGpuTransport.Bridge
open Streams

/-- The two mappings: the creator's on the source device, the opener's on the destination device. -/
inductive Side
  | creator
  | opener
  deriving DecidableEq, Repr

/-- The stream operations of a transfer. A copy from the heap fills the destination of its epoch. -/
inductive Op
  | copyToHeap (source : Bytes)
  | signal (value : ℕ)
  | wait (value : ℕ)
  | copyFromHeap (epoch sizeBytes : ℕ)
  deriving DecidableEq

structure Mem where
  heap : Bytes
  fence : Timeline
  output : ℕ → Option Bytes

namespace Mem

/-- The fence is created with value zero; a fresh heap holds anything. -/
def start (heap : Bytes) : Mem where
  heap := heap
  fence := .zero
  output _ := none

/-- The bytes of a returned tensor, once its operations have filled it. -/
def read (m : Mem) : TensorRef → Option Bytes
  | .empty => some []
  | .output epoch => m.output epoch

end Mem

/-- Only a wait has to wait, until the fence has reached the value. -/
def Op.ready : Op → Mem → Prop
  | .wait value, m => value ≤ m.fence.value
  | _, _ => True

def Op.run : Op → Mem → Mem
  | .copyToHeap source, m => { m with heap := copyKernel source m.heap }
  | .signal value, m => { m with fence := m.fence.set value }
  | .wait _, m => m
  | .copyFromHeap epoch sizeBytes, m =>
    { m with output := Function.update m.output epoch (some (m.heap.take sizeBytes)) }

@[simps] def device : Device Op Mem where
  ready := Op.ready
  run := Op.run

instance (op : Op) (m : Mem) : Decidable (op.ready m) := by
  cases op <;> unfold Op.ready <;> infer_instance

instance (op : Op) (m : Mem) : Decidable (device.ready op m) :=
  inferInstanceAs (Decidable (op.ready m))

/-- The steps of a call that may raise after its checks, in order. -/
inductive NativeStep
  | emptyLike | setDevice | copyToHeap | signalReady | waitReady | copyFromHeap | signalConsumed
  | waitConsumed | restoreDevice
  deriving DecidableEq, Repr

def nativeError (fault : Fault NativeStep) : PyError :=
  match fault.step with
  | .emptyLike | .setDevice | .restoreDevice => .runtimeError fault.detail
  | .copyToHeap | .copyFromHeap => .runtimeError ("hipMemcpyAsync failed: " ++ fault.detail)
  | .signalReady | .signalConsumed =>
    .runtimeError ("D3D12 transport signal failed: " ++ fault.detail)
  | .waitReady | .waitConsumed => .runtimeError ("D3D12 transport wait failed: " ++ fault.detail)

/-- A constructed bridge. -/
structure D3D12TensorBridge where
  sourceDevice : ℕ
  destinationDevice : ℕ
  maxSizeBytes : ℕ
  creatorOpen : Bool
  openerOpen : Bool
  devices_ne : sourceDevice ≠ destinationDevice
  maxSizeBytes_pos : 0 < maxSizeBytes

/-- An operation, and the side and stream it is enqueued on. -/
abbrev Item := (Side × StreamId) × Op

/-- The stream on the destination device; the call chooses the one on the source device. -/
def defaultStream : StreamId := 0

/-- The native steps of a call that has taken its epoch, with what each of them enqueues. -/
def nativeSteps (epoch : ℕ) (tensor : Tensor) (sourceStream : StreamId) :
    List (NativeStep × List Item) :=
  let readyValue := epoch * 2 - 1
  let consumedValue := readyValue + 1
  [(.setDevice, []),
   (.copyToHeap, [((.creator, sourceStream), .copyToHeap tensor.data)]),
   (.signalReady, [((.creator, sourceStream), .signal readyValue)]),
   (.waitReady, [((.opener, defaultStream), .wait readyValue)]),
   (.copyFromHeap, [((.opener, defaultStream), .copyFromHeap epoch tensor.sizeBytes)]),
   (.signalConsumed, [((.opener, defaultStream), .signal consumedValue)]),
   (.waitConsumed, [((.creator, sourceStream), .wait consumedValue)]),
   (.restoreDevice, [])]

def D3D12TensorBridge.transfer (bridge : D3D12TensorBridge) (call : Call NativeStep)
    (st : HostState Item) : Except PyError TensorRef × HostState Item :=
  let tensor := call.tensor
  if !bridge.creatorOpen || !bridge.openerOpen then
    (.error (.runtimeError "D3D12 tensor bridge is closed"), st)
  else if tensor.device ≠ bridge.sourceDevice then
    (.error (.valueError (s!"tensor is on cuda:{tensor.device}, " ++
      s!"bridge source is cuda:{bridge.sourceDevice}")), st)
  else if tensor.sizeBytes > bridge.maxSizeBytes then
    (.error (.valueError (s!"transfer payload {tensor.sizeBytes} exceeds " ++
      s!"WAVMG_D3D12_MAX_BYTES={bridge.maxSizeBytes}")), st)
  else
    match (perform nativeError call.fault [(NativeStep.emptyLike, ([] : List Item))]).1 with
    | .error error => (.error error, st)
    | .ok () =>
      if tensor.sizeBytes = 0 then (.ok .empty, st)
      else
        let epoch := st.epoch + 1
        let (result, items) := perform nativeError call.fault
          (nativeSteps epoch tensor call.stream)
        (result.map fun _ => .output epoch, ⟨epoch, st.enqueued ++ items⟩)

/-- The call passes the checks made before its first native step. -/
structure D3D12TensorBridge.Accepts (bridge : D3D12TensorBridge) (tensor : Tensor) : Prop where
  creatorOpen : bridge.creatorOpen = true
  openerOpen : bridge.openerOpen = true
  onDevice : tensor.device = bridge.sourceDevice
  fits : tensor.sizeBytes ≤ bridge.maxSizeBytes

/-- The call gets to where it takes an epoch. -/
def D3D12TensorBridge.takesEpoch (bridge : D3D12TensorBridge) (call : Call NativeStep) : Bool :=
  bridge.creatorOpen && bridge.openerOpen && call.tensor.device = bridge.sourceDevice &&
    call.tensor.sizeBytes ≤ bridge.maxSizeBytes && call.tensor.sizeBytes ≠ 0 &&
    call.fault.map Fault.step ≠ some .emptyLike

/-- The six operations of a call. -/
def sixSteps (epoch : ℕ) (call : Call NativeStep) : List Item :=
  [((.creator, call.stream), .copyToHeap call.tensor.data),
   ((.creator, call.stream), .signal (epoch * 2 - 1)),
   ((.opener, defaultStream), .wait (epoch * 2 - 1)),
   ((.opener, defaultStream), .copyFromHeap epoch call.tensor.sizeBytes),
   ((.opener, defaultStream), .signal (epoch * 2)),
   ((.creator, call.stream), .wait (epoch * 2))]

/-- How many of the six operations are enqueued before the step fails. -/
def NativeStep.enqueuedBefore : NativeStep → ℕ
  | emptyLike | setDevice | copyToHeap => 0
  | signalReady => 1
  | waitReady => 2
  | copyFromHeap => 3
  | signalConsumed => 4
  | waitConsumed => 5
  | restoreDevice => 6

/-- How many of the six operations a call enqueues. -/
def enqueuedBy (fault : Option (Fault NativeStep)) : ℕ :=
  fault.elim 6 fun f => f.step.enqueuedBefore

theorem enqueuedBy_le (fault : Option (Fault NativeStep)) : enqueuedBy fault ≤ 6 := by
  rcases fault with _ | ⟨step, _⟩
  · rfl
  · cases step <;> simp [enqueuedBy, NativeStep.enqueuedBefore]

/-- What the k-th call to take an epoch enqueues. -/
def items (b : Call NativeStep × ℕ) : List Item :=
  (sixSteps (b.2 + 1) b.1).take (enqueuedBy b.1.fault)

theorem before_nativeSteps (call : Call NativeStep) (k : ℕ)
    (hempty : call.fault.map Fault.step ≠ some .emptyLike) :
    (before call.fault (nativeSteps (k + 1) call.tensor call.stream)).flatMap Prod.snd =
      items (call, k) := by
  obtain ⟨tensor, stream, fault⟩ := call
  have hv : (k + 1) * 2 - 1 + 1 = (k + 1) * 2 := by omega
  rcases fault with _ | ⟨step, detail⟩
  · simp [before, nativeSteps, items, sixSteps, enqueuedBy, hv]
  · cases step <;>
      first
      | exact absurd rfl hempty
      | simp [before, nativeSteps, items, sixSteps, enqueuedBy, NativeStep.enqueuedBefore, hv]

section
variable {bridge : D3D12TensorBridge} {call : Call NativeStep}

theorem D3D12TensorBridge.Accepts.of_takesEpoch (h : bridge.takesEpoch call = true) :
    bridge.Accepts call.tensor ∧ call.tensor.sizeBytes ≠ 0 ∧
      call.fault.map Fault.step ≠ some .emptyLike := by
  simp only [takesEpoch, Bool.and_eq_true, decide_eq_true_eq] at h
  obtain ⟨⟨⟨⟨⟨hc, ho⟩, hd⟩, hf⟩, hsize⟩, hempty⟩ := h
  exact ⟨⟨hc, ho, hd, hf⟩, hsize, hempty⟩

theorem perform_emptyLike (fault : Option (Fault NativeStep)) :
    (perform nativeError fault [(NativeStep.emptyLike, ([] : List Item))]).1 = .ok () ↔
      fault.map Fault.step ≠ some .emptyLike := by
  rw [perform_ok]
  cases fault <;> simp

/-- A call that gets so far takes an epoch and enqueues its items. -/
theorem D3D12TensorBridge.transfer_state (h : bridge.takesEpoch call = true) (st : HostState Item) :
    (bridge.transfer call st).2 = ⟨st.epoch + 1, st.enqueued ++ items (call, st.epoch)⟩ := by
  obtain ⟨hacc, hsize, hempty⟩ := Accepts.of_takesEpoch h
  rw [← before_nativeSteps _ _ hempty]
  simp [transfer, hacc.creatorOpen, hacc.openerOpen, hacc.onDevice, Nat.not_lt.mpr hacc.fits,
    (perform_emptyLike _).mpr hempty, hsize, perform_enqueued]

/-- Any other call leaves the bridge as it is, and if it returns, an empty tensor. -/
theorem D3D12TensorBridge.transfer_skipped (h : bridge.takesEpoch call = false)
    (st : HostState Item) :
    (bridge.transfer call st).2 = st ∧ ∀ ref, (bridge.transfer call st).1 = .ok ref →
      ref = .empty ∧ call.tensor.sizeBytes = 0 := by
  unfold transfer
  dsimp only
  split_ifs with hopen hdevice hlarge hsize
  · simp
  · simp
  · simp
  · split
    · simp
    · exact ⟨rfl, fun ref href => ⟨(Except.ok.inj href).symm, hsize⟩⟩
  · split
    · simp
    · rename_i hempty
      have hstep := (perform_emptyLike _).mp hempty
      simp only [Bool.or_eq_true, Bool.not_eq_eq_eq_not, Bool.not_true, not_or,
        Bool.not_eq_false] at hopen
      simp [takesEpoch, hopen, not_not.mp hdevice, Nat.le_of_not_lt hlarge, hsize, hstep] at h

/-- A call that takes an epoch returns exactly when no step failed, and then the output of the
epoch. -/
theorem D3D12TensorBridge.transfer_result (h : bridge.takesEpoch call = true) (st : HostState Item)
    (ref : TensorRef) :
    (bridge.transfer call st).1 = .ok ref ↔ ref = .output (st.epoch + 1) ∧ call.fault = none := by
  obtain ⟨hacc, hsize, hempty⟩ := Accepts.of_takesEpoch h
  have hres : (bridge.transfer call st).1 = (perform nativeError call.fault
      (nativeSteps (st.epoch + 1) call.tensor call.stream)).1.map
        fun _ => .output (st.epoch + 1) := by
    simp [transfer, hacc.creatorOpen, hacc.openerOpen, hacc.onDevice, Nat.not_lt.mpr hacc.fits,
      (perform_emptyLike _).mpr hempty, hsize]
  have hok : (perform nativeError call.fault (nativeSteps (st.epoch + 1) call.tensor
      call.stream)).1 = .ok () ↔ call.fault = none := by
    rw [perform_ok]
    rcases hf : call.fault with _ | ⟨step, detail⟩
    · simp
    · rw [hf] at hempty
      cases step <;> simp_all [nativeSteps]
  rw [hres, ← hok]
  cases (perform nativeError call.fault (nativeSteps (st.epoch + 1) call.tensor call.stream)).1 <;>
    simp [Except.map, eq_comm]

end

/-! ### A sequence of calls -/

section
variable (bridge : D3D12TensorBridge) (calls : List (Call NativeStep))

/-- The calls that take an epoch, in order: the k-th has epoch k+1. -/
def moving : List (Call NativeStep) := calls.filter bridge.takesEpoch

/-- What the calls return and leave on the host. -/
def hostRun : List (Except PyError TensorRef) × HostState Item :=
  makeCalls bridge.transfer calls ⟨0, []⟩

/-- Call i returns ref. -/
def Returns (i : ℕ) (ref : TensorRef) : Prop := (hostRun bridge calls).1[i]? = some (.ok ref)

def program : List (Instr (Side × StreamId) Op) :=
  (hostRun bridge calls).2.enqueued.map fun e => .enqueue e.1 e.2

/-- The host and the streams, from a heap with any contents. -/
def system (heap : Bytes) : Transition.System (HostConfig Unit (Side × StreamId) Op Mem) :=
  hostSystem device (HostConfig.start (fun _ => program bridge calls) (.start heap))

variable {bridge calls}

theorem makeCalls_enqueued (st : HostState Item) :
    (makeCalls bridge.transfer calls st).2.enqueued =
      st.enqueued ++ ((moving bridge calls).zipIdx st.epoch).flatMap items := by
  induction calls generalizing st with
  | nil => simp [makeCalls, moving]
  | cons call calls ih =>
    cases hm : bridge.takesEpoch call with
    | true => simp [makeCalls, ih, D3D12TensorBridge.transfer_state hm, moving, hm]
    | false => simp [makeCalls, ih, (D3D12TensorBridge.transfer_skipped hm st).1, moving, hm]

/-- What a call returns: an empty tensor if there is nothing to move, else the output of its own
epoch, and that only if no step of it failed. -/
theorem makeCalls_result (st : HostState Item) (i : ℕ) (ref : TensorRef)
    (h : (makeCalls bridge.transfer calls st).1[i]? = some (.ok ref)) :
    ∃ call, calls[i]? = some call ∧ (call.tensor.sizeBytes = 0 ∧ ref = .empty ∨
      ∃ k, ref = .output (st.epoch + k + 1) ∧ (moving bridge calls)[k]? = some call ∧
        call.fault = none) := by
  induction calls generalizing st i with
  | nil => simp [makeCalls] at h
  | cons call calls ih =>
    cases hm : bridge.takesEpoch call with
    | true =>
      cases i with
      | zero =>
        obtain ⟨rfl, hfault⟩ := (D3D12TensorBridge.transfer_result hm st ref).mp
          (by simpa [makeCalls] using h)
        exact ⟨call, rfl, .inr ⟨0, rfl, by simp [moving, hm], hfault⟩⟩
      | succ i =>
        obtain ⟨call', hc, hcase⟩ := ih _ i (by simpa [makeCalls] using h)
        refine ⟨call', by simpa using hc, hcase.imp_right ?_⟩
        rintro ⟨k, rfl, hk, hfault⟩
        refine ⟨k + 1, ?_, by simpa [moving, hm] using hk, hfault⟩
        rw [D3D12TensorBridge.transfer_state hm,
          show st.epoch + (k + 1) + 1 = st.epoch + 1 + k + 1 by omega]
    | false =>
      obtain ⟨hstate, hempty⟩ := D3D12TensorBridge.transfer_skipped hm st
      cases i with
      | zero =>
        obtain ⟨rfl, hsize⟩ := hempty ref (by simpa [makeCalls] using h)
        exact ⟨call, rfl, .inl ⟨hsize, rfl⟩⟩
      | succ i =>
        obtain ⟨call', hc, hcase⟩ := ih st i (by simpa [makeCalls, hstate] using h)
        exact ⟨call', by simpa using hc, by simpa [moving, hm] using hcase⟩

/-- An accepted call returns if none of its steps fails. -/
theorem makeCalls_returns (st : HostState Item) (i : ℕ) {call : Call NativeStep}
    (hcall : calls[i]? = some call) (hacc : bridge.Accepts call.tensor) (hfault : call.fault = none) :
    ∃ ref, (makeCalls bridge.transfer calls st).1[i]? = some (.ok ref) := by
  induction calls generalizing st i with
  | nil => simp at hcall
  | cons call' calls ih =>
    cases i with
    | zero =>
      obtain rfl : call' = call := by simpa using hcall
      by_cases hsize : call'.tensor.sizeBytes = 0
      · refine ⟨.empty, ?_⟩
        simp [makeCalls, D3D12TensorBridge.transfer, hacc.creatorOpen, hacc.openerOpen,
          hacc.onDevice, hfault, hsize, perform]
      · refine ⟨.output (st.epoch + 1), ?_⟩
        have hm : bridge.takesEpoch call' = true := by
          simp [D3D12TensorBridge.takesEpoch, hacc.creatorOpen, hacc.openerOpen, hacc.onDevice,
            hacc.fits, hsize, hfault]
        simpa [makeCalls] using (D3D12TensorBridge.transfer_result hm st _).mpr ⟨rfl, hfault⟩
    | succ i => simpa [makeCalls] using ih _ i (by simpa using hcall)

end

end MultiGpuTransport.Bridge
