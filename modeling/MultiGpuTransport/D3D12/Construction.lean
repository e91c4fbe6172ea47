import MultiGpuTransport.D3D12.AllReduce
import MultiGpuTransport.ProcessGroup

/-!
# D3D12AllReduce.__init__

The ranks exchange the name of their heaps, each creates its own, and each opens its peer's; after
each of the last two they agree on whether both have succeeded. What a rank does in between may raise.
-/
namespace MultiGpuTransport.D3D12
open Collectives Fallible Constructor

/-- The two buffers of a rank. -/
inductive Buffer
  | own | peer
  deriving DecidableEq, Repr

/-- A named heap: the object name both ranks agreed on, and the rank that creates it. -/
structure HeapName where
  base : BroadcastObject
  owner : Rank
  deriving DecidableEq, Repr

/-- What a constructor does with shared buffers. -/
inductive BufferAction
  | created (heap : HeapName)
  | opening (heap : HeapName)
  | opened (heap : HeapName)
  | closed (buffer : Buffer)
  deriving DecidableEq, Repr

abbrev InitHistory := History BufferAction GroupCollective

/-- The buffers that are open after some actions. -/
def openBuffers : List BufferAction → List Buffer :=
  List.foldl (fun held action => match action with
    | .created _ => .own :: held
    | .opening _ => held
    | .opened _ => .peer :: held
    | .closed buffer => held.erase buffer) []

/-- The payload range of a communicator. -/
structure PayloadRange where
  minSizeBytes : ℕ
  maxSizeBytes : ℕ
  max_pos : 0 < maxSizeBytes
  min_le_max : minSizeBytes ≤ maxSizeBytes
  deriving DecidableEq, Repr

/-- What int() makes of an environment variable, if it is set, or the error it raises. -/
abbrev IntVariable := Option (Except PyError ℤ)

/-- What one rank's part of the constructor meets, after the checks of world size and device. -/
structure Local where
  maxBytesVariable : IntVariable
  minBytesVariable : IntVariable
  maxSizeBytes : Option ℤ
  minSizeBytes : Option ℤ
  device : Option ℕ
  objectName : String
  setDevice : Except PyError Unit
  hipRuntime : Except PyError Unit
  mappedPeerKernel : Except PyError Unit
  createHeap : Except PyError Unit
  openHeap : Except PyError Unit

def defaultMaxBytes : ℤ := 64 * 1024 * 1024

def defaultMinBytes : ℤ := 32 * 1024

/-- The payload range a rank is configured with. -/
def Local.payloadRange (loc : Local) : Except PyError PayloadRange := do
  let configuredSize ← loc.maxBytesVariable.getD (.ok defaultMaxBytes)
  let maxSize := loc.maxSizeBytes.getD configuredSize
  if hmax : maxSize ≤ 0 then
    throw (.valueError "D3D12 maximum payload must be positive")
  else
    let configuredMinSize ← loc.minBytesVariable.getD (.ok defaultMinBytes)
    let minSize := loc.minSizeBytes.getD configuredMinSize
    if hmin : minSize < 0 then
      throw (.valueError "D3D12 minimum payload cannot be negative")
    else if hle : minSize > maxSize then
      throw (.valueError "D3D12 minimum payload cannot exceed its maximum payload")
    else
      return ⟨minSize.toNat, maxSize.toNat, by omega, by omega⟩

/-- The defaults pass their own checks. -/
theorem payloadRange_default (loc : Local) :
    ({ loc with
        maxBytesVariable := none
        minBytesVariable := none
        maxSizeBytes := none
        minSizeBytes := none } : Local).payloadRange =
      .ok ⟨32 * 1024, 64 * 1024 * 1024, by decide, by decide⟩ := rfl

/-- Close the buffers that are open, the peer's first. -/
def closeBuffers : List Buffer → Constructor BufferAction Unit
  | [] => return ()
  | buffer :: buffers => do
    act (.closed buffer)
    closeBuffers buffers

def agreeOrRaise (localError : Option PyError) (operation : String) (held : List Buffer) :
    Constructor BufferAction Unit := do
  let available ← allReduceMin localError.isNone
  if available then
    return ()
  else
    closeBuffers held
    let detail := match localError with
      | some error => ": " ++ error.message
      | none => " on peer rank"
    throw (.runtimeError ("failed to " ++ operation ++ detail))

/-- The error caught in creating the own heap, if any. -/
def createOwn (loc : Local) (heap : HeapName) : Constructor BufferAction (Option PyError) :=
  match loc.createHeap with
  | .ok () => do
    act (.created heap)
    return none
  | .error error => return some error

def openPeer (loc : Local) (heap : HeapName) : Constructor BufferAction (Option PyError) := do
  act (.opening heap)
  match loc.openHeap with
  | .ok () =>
    act (.opened heap)
    return none
  | .error error => return some error

/-- What a rank contributes to the broadcast of the object name. -/
def Local.descriptor (rank : Rank) (loc : Local) : Option BroadcastObject :=
  if rank = .zero then some (.name ("Local\\wavmg-d3d12-" ++ loc.objectName)) else none

/-- The constructor after its checks of world size and device. -/
def D3D12AllReduce.init (rank : Rank) (loc : Local) :
    Constructor BufferAction (D3D12AllReduce × PayloadRange) := do
  let range ← attempt loc.payloadRange
  attempt loc.setDevice
  match ← broadcastObjectList (loc.descriptor rank) with
  | none => throw (.runtimeError "rank 0 did not broadcast a D3D12 object name")
  | some baseName =>
    attempt loc.hipRuntime
    attempt loc.mappedPeerKernel
    let localError ← createOwn loc ⟨baseName, rank⟩
    agreeOrRaise localError "create D3D12 cross-adapter heap"
      (if localError.isNone then [.own] else [])
    let localError ← openPeer loc ⟨baseName, rank.peer⟩
    agreeOrRaise localError "open peer D3D12 cross-adapter heap"
      (if localError.isNone then [.peer, .own] else [.own])
    return (⟨rank, loc.device, range.maxSizeBytes, true, true⟩, range)

end MultiGpuTransport.D3D12
