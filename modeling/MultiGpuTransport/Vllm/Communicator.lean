import MultiGpuTransport.D3D12.Construction
import MultiGpuTransport.MappedHost.AllReduce

/-!
# WindowsAmdMultiGpuCommunicator

Which transports a rank constructs depends on its own environment, and which of them gets a tensor
depends on what it has constructed and on the tensor's size. The group has two ranks.
-/
namespace MultiGpuTransport.Vllm
open Collectives Fallible Constructor D3D12 MappedHost

/-- What one rank's RcclCommunicator constructor meets. -/
structure RcclLocal where
  checks : Except PyError Unit
  setDevice : Except PyError Unit
  loadLibrary : Except PyError Unit
  uniqueId : Except PyError Bytes
  commInitRank : Except PyError Unit

/-- What one rank's SharedMemoryAllReduce constructor meets. The kernel is there or not, or it may
raise; whether the device has stream waits is known once it is. -/
structure SharedMemoryLocal where
  checks : Except PyError Unit
  maxBytesVariable : IntVariable
  maxSizeBytes : Option ℤ
  device : ℕ
  createMapping : Except PyError String
  eventPrefix : String
  attachMapping : Except PyError Unit
  hipRuntime : Except PyError Unit
  hostRegister : Except PyError Unit
  hostGetDevicePointer : Except PyError Unit
  createBarrier : Except PyError Unit
  localOutput : Except PyError Unit
  mappedPeerKernel : Except PyError Unit
  canUseStreamWaitValue : Except PyError Bool

section
variable {Act : Type}

def RcclLocal.descriptor (rank : Rank) (loc : RcclLocal) : Except PyError (Option BroadcastObject) :=
  if rank = .zero then loc.uniqueId.map fun bytes => some (.uniqueId bytes) else .ok none

def exchangeUniqueId (bytes : Bytes) : Constructor Act Unit := do
  let _ ← exchange (.commInitRank bytes)
  return ()

def RcclCommunicator.init (rank : Rank) (loc : RcclLocal) : Constructor Act Unit := do
  attempt loc.checks
  attempt loc.setDevice
  attempt loc.loadLibrary
  let descriptor ← attempt (loc.descriptor rank)
  match ← broadcastObjectList descriptor with
  | none => throw (.runtimeError "rank 0 did not broadcast an RCCL unique ID")
  | some (.uniqueId bytes) =>
    if bytes.length < 128 then
      throw (.valueError "Buffer size too small")
    else
      exchangeUniqueId bytes
      attempt loc.commInitRank
  | some _ => throw (.typeError "a bytes-like object is required")

def sharedMemoryDefault : ℤ := 64 * 1024 * 1024

def SharedMemoryLocal.maxSize (loc : SharedMemoryLocal) : Except PyError ℤ := do
  let configuredSize ← loc.maxBytesVariable.getD (.ok sharedMemoryDefault)
  let maxSize := match loc.maxSizeBytes with
    | none | some 0 => configuredSize
    | some size => size
  if maxSize ≤ 0 ∨ maxSize % 4096 ≠ 0 then
    throw (.valueError "max shared-memory size must be a positive 4 KiB multiple")
  else return maxSize

def SharedMemoryLocal.descriptor (rank : Rank) (loc : SharedMemoryLocal) (maxSize : ℤ) :
    Except PyError (Option BroadcastObject) :=
  if rank = .zero then
    loc.createMapping.map fun name => some (.mapping name ("WAVMG_" ++ loc.eventPrefix) maxSize)
  else .ok none

/-- Whether there is a kernel and whether the stream path can be used; errors of the kinds that a
missing kernel gives are caught, and a TimeoutError is an OSError. -/
def SharedMemoryLocal.streamPath (loc : SharedMemoryLocal) : Except PyError (Bool × Bool) :=
  let probe : Except PyError Bool := do
    loc.mappedPeerKernel
    loc.canUseStreamWaitValue
  match probe with
  | .ok available => .ok (true, available)
  | .error (.runtimeError _) | .error (.osError _) | .error (.timeoutError _) => .ok (false, false)
  | .error error => .error error

def waitBarrier : Constructor Act Unit := do
  let _ ← exchange .barrierWait
  return ()

def SharedMemoryAllReduce.init (rank : Rank) (loc : SharedMemoryLocal) :
    Constructor Act SharedMemoryAllReduce := do
  attempt loc.checks
  let maxSize ← attempt loc.maxSize
  let descriptor ← attempt (loc.descriptor rank maxSize)
  match ← broadcastObjectList descriptor with
  | none => throw (.runtimeError "rank 0 did not broadcast a shared-memory descriptor")
  | some (.mapping _ _ maxSizeBytes) =>
    if maxSizeBytes ≠ maxSize then
      throw (.runtimeError "shared-memory size differs between ranks")
    else
      attempt (if rank = .zero then .ok () else loc.attachMapping)
      attempt loc.hipRuntime
      attempt loc.hostRegister
      attempt loc.hostGetDevicePointer
      attempt loc.createBarrier
      attempt loc.localOutput
      let (kernel, streamPathAvailable) ← attempt loc.streamPath
      let useStreamPath ← allReduceMin streamPathAvailable
      waitBarrier
      return ⟨rank, loc.device, maxSize.toNat, kernel, useStreamPath⟩
  | some _ => throw (.typeError "string indices must be integers")

end

/-- What the communicator's constructor meets on one rank, its environment variables included. -/
structure Environment where
  base : Except PyError Unit
  useAll2all : Bool
  hostStaged : Except PyError Unit
  useD3D12 : Option String
  useRccl : Option String
  d3d12Checks : Except PyError Unit
  d3d12 : Local
  rccl : RcclLocal
  sharedMemory : SharedMemoryLocal

/-- A switch is on when its value is one of these, in any case. -/
def enabled (value : Option String) : Bool :=
  (value.getD "").toLower ∈ ["1", "true", "yes", "on"]

def Environment.d3d12Requested (env : Environment) : Bool := enabled env.useD3D12

def Environment.rcclRequested (env : Environment) : Bool := enabled env.useRccl

/-- The transports of a rank; the host-staged one is always there. -/
structure WindowsAmdMultiGpuCommunicator where
  d3d12 : Option (D3D12AllReduce × PayloadRange)
  rccl : Bool
  fastAllReduce : Option SharedMemoryAllReduce
  deriving DecidableEq

def constructD3D12 (rank : Rank) (env : Environment) :
    Constructor BufferAction (Option (D3D12AllReduce × PayloadRange)) :=
  if env.d3d12Requested then do
    attempt env.d3d12Checks
    let d3d12 ← D3D12AllReduce.init rank env.d3d12
    return some d3d12
  else return none

def constructRccl (rank : Rank) (env : Environment) : Constructor BufferAction Bool :=
  if env.rcclRequested then do
    RcclCommunicator.init rank env.rccl
    return true
  else return false

def constructFastAllReduce (rank : Rank) (env : Environment) (other : Bool) :
    Constructor BufferAction (Option SharedMemoryAllReduce) :=
  if !other then do
    let fastAllReduce ← SharedMemoryAllReduce.init rank env.sharedMemory
    return some fastAllReduce
  else return none

def WindowsAmdMultiGpuCommunicator.init (rank : Rank) (env : Environment) :
    Constructor BufferAction WindowsAmdMultiGpuCommunicator := do
  attempt env.base
  attempt (if env.useAll2all then
    .error (.runtimeError "expert-parallel all-to-all is not implemented") else .ok ())
  attempt env.hostStaged
  let d3d12 ← constructD3D12 rank env
  let rccl ← constructRccl rank env
  let fastAllReduce ← constructFastAllReduce rank env (rccl || d3d12.isSome)
  return ⟨d3d12, rccl, fastAllReduce⟩

/-- Whether a tensor is in the payload range of the transport. -/
def canHandle (range : PayloadRange) (tensor : Tensor) : Bool :=
  tensor.dtype.isNative && decide (0 < tensor.sizeBytes) &&
    decide (range.minSizeBytes ≤ tensor.sizeBytes ∧ tensor.sizeBytes ≤ range.maxSizeBytes)

inductive Backend
  | d3d12 | rccl | mappedHost | glooHost
  deriving DecidableEq, Repr

/-- The transport that all_reduce gives a tensor to. -/
def WindowsAmdMultiGpuCommunicator.allReduceBackend (comm : WindowsAmdMultiGpuCommunicator)
    (tensor : Tensor) : Backend :=
  if comm.d3d12.any fun d3d12 => canHandle d3d12.2 tensor then .d3d12
  else if comm.rccl then .rccl
  else if comm.fastAllReduce.isSome then .mappedHost
  else .glooHost

end MultiGpuTransport.Vllm
