import MultiGpuTransport.Lib.Rank
import MultiGpuTransport.Shim.Settings
import MultiGpuTransport.SharedBuffers.NativeContext

/-!
# The buffers of a shim transport

wac_d3d12_create makes four buffers. Each rank creates one, with a heap and a fence of its own that it
gives names, and opens the other rank's by these names. Heaps and fences are objects of the system,
and what has to be released are handles to them and what HIP imports from handles.
-/
namespace MultiGpuTransport.Shim.Buffers
open Lib
open SharedBuffers (Adapter NativeKind Slot)

inductive KernelObject
  | heap (sizeBytes : UInt64)
  | fence
  deriving DecidableEq, Repr

/-- Something to be released, and the number of the object it is for. -/
structure Resource where
  kind : NativeKind
  object : ℕ
  deriving DecidableEq, Repr

abbrev Handle := Resource × ℕ

/-- The objects made so far and their names, what is to be released, and the number of transports and
of calls so far. -/
structure Process where
  objects : List KernelObject
  names : List (String × ℕ)
  resources : Ledger Resource
  contextCounter : ℕ
  calls : ℕ

/-- Which calls succeed and what a failure is reported as, and what the machine has. -/
structure Machine where
  succeeds : ℕ → Bool
  detail : ℕ → String
  processId : ℕ
  adapters : List Adapter
  deviceLuid : ℤ → ℕ

structure SharedBuffer where
  hipDevice : ℤ
  sizes : SharedBufferSizes
  adapter : Option Adapter
  heapHandle : Option Handle
  fenceHandle : Option Handle
  externalMemory : Option Handle
  externalSemaphore : Option Handle
  devicePointer : Option ℕ

/-- What a buffer releases, in the order of its destructor. -/
def SharedBuffer.resources (buffer : SharedBuffer) : List Handle :=
  [buffer.externalSemaphore, buffer.externalMemory, buffer.fenceHandle, buffer.heapHandle].reduceOption

def Process.bound (p : Process) (name : String) : Option ℕ :=
  (p.names.find? fun b => b.1 = name).map Prod.snd

/-- A buffer under construction, with the variables of its initializer. -/
structure Initializing where
  process : Process
  hipDevice : ℤ
  sizes : SharedBufferSizes
  adapter : Option Adapter
  heap : Option ℕ
  fence : Option ℕ
  devicePointer : Option ℕ
  slots : Slot → Option Handle

namespace Initializing

def start (p : Process) (device : ℤ) (sizeBytes : UInt64) : Initializing :=
  ⟨p, device, initializeSizes sizeBytes, none, none, none, none, fun _ => none⟩

def buffer (s : Initializing) : SharedBuffer :=
  { hipDevice := s.hipDevice
    sizes := s.sizes
    adapter := s.adapter
    heapHandle := s.slots .heapHandle
    fenceHandle := s.slots .fenceHandle
    externalMemory := s.slots .externalMemory
    externalSemaphore := s.slots .externalSemaphore
    devicePointer := s.devicePointer }

/-- The handles that are no part of the buffer. -/
def sources (s : Initializing) : List Handle :=
  [s.slots .sourceHeapHandle, s.slots .sourceFenceHandle].reduceOption

def called (s : Initializing) : Initializing :=
  { s with process := { s.process with calls := s.process.calls + 1 } }

def created (s : Initializing) (object : KernelObject) : Initializing :=
  { s with process := { s.process with objects := s.process.objects ++ [object] } }

/-- A call has put a new resource for an object into a variable, and given the object a name. -/
def filled (s : Initializing) (slot : Slot) (object : ℕ) (name : Option String) : Initializing :=
  { s with
    process := { s.process with
      resources := s.process.resources.acquire ⟨slot.kind, object⟩
      names := (name.toList.map fun name => (name, object)) ++ s.process.names }
    slots := Function.update s.slots slot (some (s.process.resources.fresh ⟨slot.kind, object⟩)) }

end Initializing

abbrev Initializer := EStateM String Initializing

section
variable (machine : Machine)

/-- A call that succeeds only where it can, and what it does then. -/
def call (operation : String) (possible : Initializing → Bool) (effect : Initializing → Initializing) :
    Initializer Unit := fun s =>
  if machine.succeeds s.process.calls ∧ possible s then .ok () (effect s.called)
  else .error (operation ++ " failed: " ++ machine.detail s.process.calls) s.called

def check (operation : String) : Initializer Unit := call machine operation (fun _ => true) id

/-- A call that fills a variable with a resource for an object, if it finds one. -/
def acquire (operation : String) (slot : Slot) (object : Initializing → Option ℕ)
    (name : Option String) : Initializer Unit :=
  call machine operation
    (fun s => (object s).isSome ∧ ∀ n ∈ name, s.process.bound n = none)
    fun s => s.filled slot ((object s).getD 0) name

def createDevice (adapter : Adapter) : Initializer Unit :=
  call machine "D3D12CreateDevice" (fun _ => true) fun s => { s with adapter := some adapter }

def bindDevice (device : ℤ) : Initializer Unit :=
  SharedBuffers.bindDevice (check machine) (createDevice machine) device (machine.deviceLuid device)
    machine.adapters

def createHeap : Initializer Unit :=
  call machine "ID3D12Device::CreateHeap(cross-adapter)" (fun _ => true) fun s =>
    { s.created (.heap s.sizes.heapSize) with heap := some s.process.objects.length }

def createFence : Initializer Unit :=
  call machine "ID3D12Device::CreateFence(cross-adapter)" (fun _ => true) fun s =>
    { s.created .fence with fence := some s.process.objects.length }

/-- What a variable holds a resource for. -/
def Initializing.objectOf (slot : Slot) (s : Initializing) : Option ℕ :=
  (s.slots slot).map fun handle => handle.1.object

def openHeap : Initializer Unit :=
  call machine "ID3D12Device::OpenSharedHandle(memory)" (fun _ => true) fun s =>
    { s with heap := s.objectOf .sourceHeapHandle }

def openFence : Initializer Unit :=
  call machine "ID3D12Device::OpenSharedHandle(fence)" (fun _ => true) fun s =>
    { s with fence := s.objectOf .sourceFenceHandle }

def getMappedBuffer : Initializer Unit :=
  call machine "hipExternalMemoryGetMappedBuffer" (fun _ => true) fun s =>
    { s with devicePointer := s.objectOf .externalMemory }

/-- Whether the buffer fits into its heap. -/
def Initializing.fits (s : Initializing) : Bool :=
  match s.heap.bind fun heap => s.process.objects[heap]? with
  | some (.heap sizeBytes) => s.sizes.size ≤ sizeBytes
  | _ => false

def createPlacedBuffer : Initializer Unit :=
  call machine "ID3D12Device::CreatePlacedResource" Initializing.fits id

def importHipObjects : Initializer Unit := do
  check machine "hipSetDevice"
  acquire machine "hipImportExternalMemory(D3D12Heap)" .externalMemory
    (Initializing.objectOf .heapHandle) none
  getMappedBuffer machine
  acquire machine "hipImportExternalSemaphore(D3D12Fence)" .externalSemaphore
    (Initializing.objectOf .fenceHandle) none

def initializeCreator (device : ℤ) (baseName : String) : Initializer Unit := do
  bindDevice machine device
  createHeap machine
  createPlacedBuffer machine
  acquire machine "ID3D12Device::CreateSharedHandle(memory)" .heapHandle Initializing.heap
    (some (baseName ++ ".memory"))
  createFence machine
  acquire machine "ID3D12Device::CreateSharedHandle(fence)" .fenceHandle Initializing.fence
    (some (baseName ++ ".fence"))
  importHipObjects machine

/-- What the opener tries. -/
def openPeerObjects (baseName : String) : Initializer Unit := do
  acquire machine "ID3D12Device::OpenSharedHandleByName(memory)" .sourceHeapHandle
    (fun s => s.process.bound (baseName ++ ".memory")) none
  openHeap machine
  createPlacedBuffer machine
  acquire machine "ID3D12Device::CreateSharedHandle(peer memory)" .heapHandle Initializing.heap none
  acquire machine "ID3D12Device::OpenSharedHandleByName(fence)" .sourceFenceHandle
    (fun s => s.process.bound (baseName ++ ".fence")) none
  openFence machine
  acquire machine "ID3D12Device::CreateSharedHandle(peer fence)" .fenceHandle Initializing.fence none
  importHipObjects machine

/-- The memory handle is closed first; a variable that is null is not closed. -/
def closeSources : Initializer Unit :=
  modify fun s => { s with process := { s.process with
    resources := s.process.resources.releaseAll s.sources } }

def initializeOpener (device : ℤ) (baseName : String) : Initializer Unit := do
  bindDevice machine device
  tryCatch (openPeerObjects machine baseName) fun error => do
    closeSources
    throw error
  closeSources

end

/-! ### Transports -/

/-- A transport with its buffers, the last one made first. -/
structure Transport where
  devices : Rank → ℤ
  maxSizeBytes : UInt64
  buffers : List SharedBuffer

namespace Transport

def own (transport : Transport) : Rank → Option SharedBuffer
  | .zero => transport.buffers[3]?
  | .one => transport.buffers[2]?

def peer (transport : Transport) : Rank → Option SharedBuffer
  | .zero => transport.buffers[1]?
  | .one => transport.buffers[0]?

def resources (transport : Transport) : List Handle :=
  transport.buffers.flatMap SharedBuffer.resources

end Transport

def SharedBuffer.destroy (buffer : SharedBuffer) (p : Process) : Process :=
  { p with
    calls := if 0 ≤ buffer.hipDevice then p.calls + 1 else p.calls
    resources := p.resources.releaseAll buffer.resources }

/-- Both devices are selected and synchronized, whatever comes of it, before the buffers go. -/
def destroyTransport (buffers : List SharedBuffer) (p : Process) : Process :=
  buffers.foldl (fun p buffer => buffer.destroy p) { p with calls := p.calls + 4 }

/-- The buffers still to be made; where one fails, the transport goes with those that are there. -/
def createBuffers (sizeBytes : UInt64) :
    List SharedBuffer → List (ℤ × Initializer Unit) → Process →
      Except String (List SharedBuffer) × Process
  | made, [], p => (.ok made, p)
  | made, (device, initializer) :: rest, p =>
    match initializer (.start p device sizeBytes) with
    | .ok () s => createBuffers sizeBytes (s.buffer :: made) rest s.process
    | .error error s => (.error error, destroyTransport (s.buffer :: made) s.process)

/-- What all names of the process begin with. -/
def namePrefix (machine : Machine) : String :=
  "Local\\wavmg-llama-rccl-shim-" ++ toString machine.processId ++ "-"

/-- The number in a name has 64 bits. -/
def baseName (machine : Machine) (counter : ℕ) : String :=
  namePrefix machine ++ toString (counter % 2 ^ 64)

def bufferName (machine : Machine) (counter : ℕ) : Rank → String
  | .zero => baseName machine counter ++ ".rank0"
  | .one => baseName machine counter ++ ".rank1"

/-- The transport or the text of the error. -/
def wacD3d12Create (machine : Machine) (devices : Option (Rank → ℤ)) (maxSizeBytes : UInt64)
    (p : Process) : Except String Transport × Process :=
  match devices with
  | none => (.error "D3D12 AllReduce requires two devices and a nonzero buffer size", p)
  | some devices =>
    if maxSizeBytes = 0 then
      (.error "D3D12 AllReduce requires two devices and a nonzero buffer size", p)
    else
      let name := bufferName machine p.contextCounter
      let (buffers, p) := createBuffers maxSizeBytes []
        [(devices .zero, initializeCreator machine (devices .zero) (name .zero)),
         (devices .one, initializeCreator machine (devices .one) (name .one)),
         (devices .zero, initializeOpener machine (devices .zero) (name .one)),
         (devices .one, initializeOpener machine (devices .one) (name .zero))]
        { p with contextCounter := p.contextCounter + 1 }
      (buffers.map fun buffers => ⟨devices, maxSizeBytes, buffers⟩, p)

end MultiGpuTransport.Shim.Buffers
