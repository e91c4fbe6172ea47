import MultiGpuTransport.D3D12.ShimTransport

/-!
# The llama shim: its data

The shim stands in for RCCL. A communicator of its own wraps one of the real library, where there is
one, and a clique of two may have a D3D12 transport besides. Inside a group an AllReduce is only kept;
the end of the outermost group hands all kept calls to one backend.

What the shim calls and does not define is an `Env`: each call may answer anything, and what it
answers may depend on how many calls were made before it.
-/
namespace MultiGpuTransport.Shim
open D3D12 (WacDataType)

inductive NcclResult
  | success
  | unhandledCudaError
  | systemError
  | internalError
  | invalidArgument
  | invalidUsage
  | remoteError
  | inProgress
  | timeout
  | other (code : ℕ)
  deriving DecidableEq, Repr

/-- The data types the shim knows, and all others of the library. -/
inductive NcclDataType
  | float16
  | float32
  | bfloat16
  | other (code : ℕ)
  deriving DecidableEq, Repr

inductive NcclRedOp
  | sum
  | other (code : ℕ)
  deriving DecidableEq, Repr

inductive TransportMode
  | hybrid | d3d12 | rccl
  deriving DecidableEq, Repr

inductive RcclDispatchMode
  | threaded | nativeGroup
  deriving DecidableEq, Repr

/-- The largest value of a size_t. -/
def sizeMax : ℕ := 2 ^ 64 - 1

/-- The element size and the transport's name of a data type it supports. -/
def datatypeInfo : NcclDataType → Option (ℕ × WacDataType)
  | .float16 => some (2, .f16)
  | .float32 => some (4, .f32)
  | .bfloat16 => some (2, .bf16)
  | .other _ => none

/-- What the communicators of one ncclCommInitAll share. Two cliques are the same when they are at
the same address. -/
structure CliqueContext where
  address : ℕ
  devices : List ℤ
  d3d12 : Bool
  mode : TransportMode
  rcclDispatch : RcclDispatchMode
  d3d12BufferBytes : ℕ
  d3d12RouteMinBytes : ℕ
  d3d12RouteMaxBytes : ℕ
  d3d12_pair : d3d12 = true → devices.length = 2
  deriving DecidableEq

/-- A live communicator of the shim, with the real one it wraps if there is one. -/
structure PluginComm where
  clique : CliqueContext
  realComm : Option ℕ
  rank : ℕ
  rank_lt : rank < clique.devices.length
  deriving DecidableEq

def PluginComm.device (comm : PluginComm) : ℤ := comm.clique.devices.get ⟨comm.rank, comm.rank_lt⟩

/-- The arguments of an AllReduce that passed its checks. A communicator never changes while it
lives, so it is kept by value. -/
structure PendingAllReduce where
  send : ℕ
  recv : ℕ
  count : ℕ
  datatype : NcclDataType
  op : NcclRedOp
  comm : PluginComm
  stream : StreamId
  deriving DecidableEq

/-- What the real library gets. -/
structure RealArgs where
  send : ℕ
  recv : ℕ
  count : ℕ
  datatype : NcclDataType
  op : NcclRedOp
  comm : ℕ
  stream : StreamId
  deriving DecidableEq, Repr

/-- What the D3D12 transport gets for one rank. -/
structure WacRankCall where
  send : ℕ
  recv : ℕ
  count : ℕ
  device : ℤ
  stream : StreamId
  deriving DecidableEq, Repr

namespace PendingAllReduce

def realArgs (call : PendingAllReduce) : Option RealArgs :=
  call.comm.realComm.map fun comm =>
    ⟨call.send, call.recv, call.count, call.datatype, call.op, comm, call.stream⟩

def wacCall (call : PendingAllReduce) (device : ℤ) : WacRankCall :=
  ⟨call.send, call.recv, call.count, device, call.stream⟩

end PendingAllReduce

structure GroupState where
  depth : ℕ
  error : NcclResult
  calls : List PendingAllReduce
  deriving DecidableEq

inductive Backend
  | d3d12 | rcclGrouped | rcclThreaded | rcclDirect
  deriving DecidableEq, Repr

/-- A call the shim makes to what it does not define. -/
inductive Event
  | groupStart
  | groupEnd
  | setDevice (device : ℤ)
  | allReduce (backend : Backend) (args : RealArgs)
  | d3d12AllReduce (type : WacDataType) (zero one : WacRankCall)
  | commInitAll (devices : List ℤ)
  | commDestroy (comm : ℕ)
  | d3d12Create (zero one : ℤ) (bufferBytes : ℕ)
  deriving DecidableEq, Repr

/-- An AllReduce given to a backend. -/
inductive Issue
  | real (backend : Backend) (args : RealArgs)
  | d3d12 (type : WacDataType) (rank : Rank) (call : WacRankCall)
  deriving DecidableEq, Repr

def Issue.backend : Issue → Backend
  | real backend _ => backend
  | d3d12 _ _ _ => .d3d12

def Event.issues : Event → List Issue
  | allReduce backend args => [.real backend args]
  | d3d12AllReduce type zero one => [.d3d12 type .zero zero, .d3d12 type .one one]
  | _ => []

/-- The shim as one thread sees it, and the calls it has made so far. -/
structure ThreadState where
  group : GroupState
  lastError : String
  log : List Event
  deriving DecidableEq

def ThreadState.start : ThreadState := ⟨⟨0, .success, []⟩, "", []⟩

/-- The real library, the D3D12 transport and HIP. Answers are by the number of calls made before;
what `realError` holds says why the real library could not be loaded. -/
structure Env where
  realError : Option String
  groupStart : ℕ → NcclResult
  groupEnd : ℕ → NcclResult
  allReduce : ℕ → NcclResult
  setDevice : ℕ → Bool
  d3d12AllReduce : ℕ → Except String Unit
  /-- Whether of the two workers the one of rank one comes first to its calls. -/
  rankOneFirst : ℕ → Bool
  commInitAll : ℕ → NcclResult × (ℕ → Option ℕ)
  commDestroy : ℕ → NcclResult
  d3d12Create : ℕ → Except String Unit

namespace ThreadState

/-- What has been given to backends so far. -/
def issues (st : ThreadState) : List Issue := st.log.flatMap Event.issues

/-- Make a call and get its answer. -/
def call {α : Type} (st : ThreadState) (answer : ℕ → α) (event : Event) : α × ThreadState :=
  (answer st.log.length, { st with log := st.log ++ [event] })

section
variable {α : Type} (st : ThreadState) (answer : ℕ → α) (event : Event)

@[simp] theorem call_fst : (st.call answer event).1 = answer st.log.length := rfl

@[simp] theorem call_group : (st.call answer event).2.group = st.group := rfl

@[simp] theorem call_lastError : (st.call answer event).2.lastError = st.lastError := rfl

@[simp] theorem call_log : (st.call answer event).2.log = st.log ++ [event] := rfl

@[simp] theorem call_issues : (st.call answer event).2.issues = st.issues ++ event.issues := by
  simp [issues]

@[simp] theorem issues_setGroup (group : GroupState) :
    ({ st with group := group } : ThreadState).issues = st.issues := rfl

@[simp] theorem issues_setError (error : String) :
    ({ st with lastError := error } : ThreadState).issues = st.issues := rfl

end
end ThreadState
end MultiGpuTransport.Shim
