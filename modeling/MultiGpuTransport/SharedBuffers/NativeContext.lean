import MultiGpuTransport.Lib.Ledger
import MultiGpuTransport.SharedBuffers.Adapters

/-!
# Contexts of the native D3D12 library

A context is made step by step: an initializer fills its variables, and any of its calls may fail.
The opener has two handles of its own besides, which it closes whether it succeeds or throws. A
context that is not complete is destroyed with what it has.
-/
namespace MultiGpuTransport.SharedBuffers
open Lib

/-- What is released by hand. COM objects are not, and the mapped buffer goes with its memory. -/
inductive NativeKind
  | win32Handle | externalMemory | externalSemaphore
  deriving DecidableEq, Repr

/-- The variables of an initializer that hold such a resource: four are the context's. -/
inductive Slot
  | heapHandle | fenceHandle | externalMemory | externalSemaphore
  | sourceHeapHandle | sourceFenceHandle
  deriving DecidableEq, Repr

def Slot.kind : Slot → NativeKind
  | externalMemory => .externalMemory
  | externalSemaphore => .externalSemaphore
  | _ => .win32Handle

/-- What a variable of this kind owns. -/
def NativeKind.owned (kind : NativeKind) (value : Option ℕ) : Option (NativeKind × ℕ) :=
  value.map fun id => (kind, id)

structure Context where
  hipDevice : ℤ
  heapHandle : Option ℕ
  fenceHandle : Option ℕ
  externalMemory : Option ℕ
  externalSemaphore : Option ℕ
  devicePointer : Option ℕ
  deriving DecidableEq, Repr

/-- What a context owns, in the order of its destructor. -/
def Context.resources (context : Context) : List (NativeKind × ℕ) :=
  [NativeKind.externalSemaphore.owned context.externalSemaphore,
    NativeKind.externalMemory.owned context.externalMemory,
    NativeKind.win32Handle.owned context.fenceHandle,
    NativeKind.win32Handle.owned context.heapHandle].reduceOption

/-- A context that was returned, with its number. Nothing changes it from there on. -/
abbrev ContextPtr := Context × ℕ

/-- The resources of the process, how many contexts it has returned, how many calls into the drivers it
has made, and the text of the last error. -/
structure Native where
  resources : Ledger NativeKind
  returned : ℕ
  calls : ℕ
  lastError : String

/-- Which calls succeed, what a failure is reported as, where a buffer is mapped, and what adapters
there are. -/
structure NativeAnswers where
  succeeds : ℕ → Bool
  detail : ℕ → String
  mapped : ℕ → Option ℕ
  adapters : List Adapter
  deviceLuid : ℤ → ℕ

/-- Releasing what a variable holds, if it holds anything. -/
def Native.dispose (native : Native) (kind : NativeKind) : Option ℕ → Native
  | none => native
  | some id => { native with resources := native.resources.release (kind, id) }

def Context.destroy (context : Context) (native : Native) : Native :=
  let native := if 0 ≤ context.hipDevice then { native with calls := native.calls + 1 } else native
  let native := native.dispose .externalSemaphore context.externalSemaphore
  let native := native.dispose .externalMemory context.externalMemory
  let native := native.dispose .win32Handle context.fenceHandle
  native.dispose .win32Handle context.heapHandle

/-- A context under construction, with the variables of its initializer. -/
structure Initializing where
  native : Native
  hipDevice : ℤ
  devicePointer : Option ℕ
  slots : Slot → Option ℕ

namespace Initializing

def context (s : Initializing) : Context :=
  { hipDevice := s.hipDevice
    heapHandle := s.slots .heapHandle
    fenceHandle := s.slots .fenceHandle
    externalMemory := s.slots .externalMemory
    externalSemaphore := s.slots .externalSemaphore
    devicePointer := s.devicePointer }

/-- The handles that are no part of the context. -/
def sources (s : Initializing) : List (NativeKind × ℕ) :=
  [NativeKind.win32Handle.owned (s.slots .sourceHeapHandle),
    NativeKind.win32Handle.owned (s.slots .sourceFenceHandle)].reduceOption

def called (s : Initializing) : Initializing :=
  { s with native := { s.native with calls := s.native.calls + 1 } }

/-- A call has put a new resource into a variable. -/
def filled (s : Initializing) (slot : Slot) : Initializing :=
  { s with
    native := { s.native with resources := s.native.resources.acquire slot.kind }
    slots := Function.update s.slots slot (some s.native.resources.acquired.length) }

end Initializing

abbrev Initializer := EStateM String Initializing

section
variable (answers : NativeAnswers)

/-- A call that gives nothing to release. -/
def check (operation : String) : Initializer Unit := fun s =>
  if answers.succeeds s.native.calls then .ok () s.called
  else .error (operation ++ " failed: " ++ answers.detail s.native.calls) s.called

/-- A call that fills a variable if it succeeds. -/
def acquire (slot : Slot) (operation : String) : Initializer Unit := fun s =>
  if answers.succeeds s.native.calls then .ok () (s.called.filled slot)
  else .error (operation ++ " failed: " ++ answers.detail s.native.calls) s.called

/-- hipExternalMemoryGetMappedBuffer, which may succeed with a null pointer. -/
def mapBuffer : Initializer Unit := fun s =>
  if answers.succeeds s.native.calls then
    .ok () { s.called with devicePointer := answers.mapped s.native.calls }
  else
    .error ("hipExternalMemoryGetMappedBuffer failed: " ++ answers.detail s.native.calls) s.called

def objectName (baseName : Option String) (suffix : String) : Initializer String :=
  match baseName with
  | none => throw "base_name must not be empty"
  | some name => if name = "" then throw "base_name must not be empty" else return name ++ suffix

/-- CloseHandle; the variable keeps its value and is not used again. -/
def closeHandle (slot : Slot) : Initializer Unit :=
  modify fun s => { s with native := s.native.dispose .win32Handle (s.slots slot) }

def importHipObjects : Initializer Unit := do
  check answers "hipSetDevice"
  acquire answers .externalMemory "hipImportExternalMemory(D3D12Heap)"
  mapBuffer answers
  acquire answers .externalSemaphore "hipImportExternalSemaphore(D3D12Fence)"

def initializeCreator (baseName : Option String) : Initializer Unit := do
  check answers "ID3D12Device::CreateHeap(cross-adapter)"
  check answers "ID3D12Device::CreatePlacedResource"
  let _memoryName ← objectName baseName ".memory"
  acquire answers .heapHandle "ID3D12Device::CreateSharedHandle(memory)"
  check answers "ID3D12Device::CreateFence(cross-adapter)"
  let _fenceName ← objectName baseName ".fence"
  acquire answers .fenceHandle "ID3D12Device::CreateSharedHandle(fence)"
  importHipObjects answers

/-- What the opener tries. -/
def openPeerObjects : Initializer Unit := do
  acquire answers .sourceHeapHandle "ID3D12Device::OpenSharedHandleByName(memory)"
  check answers "ID3D12Device::OpenSharedHandle(memory)"
  check answers "ID3D12Device::CreatePlacedResource"
  acquire answers .heapHandle "ID3D12Device::CreateSharedHandle(peer memory)"
  acquire answers .sourceFenceHandle "ID3D12Device::OpenSharedHandleByName(fence)"
  check answers "ID3D12Device::OpenSharedHandle(fence)"
  acquire answers .fenceHandle "ID3D12Device::CreateSharedHandle(peer fence)"
  importHipObjects answers

def initializeOpener (baseName : Option String) : Initializer Unit := do
  let _memoryName ← objectName baseName ".memory"
  let _fenceName ← objectName baseName ".fence"
  tryCatch (openPeerObjects answers) fun error => do
    closeHandle .sourceHeapHandle
    closeHandle .sourceFenceHandle
    throw error
  closeHandle .sourceHeapHandle
  closeHandle .sourceFenceHandle

def bindContext (hipDevice : ℤ) : Initializer Unit :=
  bindDevice (check answers) (fun _ => check answers "D3D12CreateDevice") hipDevice
    (answers.deviceLuid hipDevice) answers.adapters

/-- What a caller passes in, besides where the results go. -/
structure ContextArgs where
  hipDevice : ℤ
  baseName : Option String
  size : ℕ
  outputsNull : Bool

/-- The two output variables of the caller. -/
structure Outputs where
  context : Option ContextPtr
  pointer : Option ℕ

def createContext (initializer : Option String → Initializer Unit) (args : ContextArgs)
    (outputs : Outputs) (native : Native) : (ℕ × Outputs) × Native :=
  if args.size = 0 ∨ args.outputsNull = true then
    ((1, outputs), { native with lastError := "size and output pointers must be valid" })
  else
    let start : Initializing := ⟨native, args.hipDevice, none, fun _ => none⟩
    match (do bindContext answers args.hipDevice; initializer args.baseName : Initializer Unit) start with
    | .ok () s =>
      ((0, ⟨some (s.context, s.native.returned), s.devicePointer⟩),
        { s.native with
          returned := s.native.returned + 1
          lastError := "" })
    | .error error s => ((1, outputs), { s.context.destroy s.native with lastError := error })

def wavmgD3d12Create (args : ContextArgs) (outputs : Outputs) (native : Native) :
    (ℕ × Outputs) × Native :=
  createContext answers (initializeCreator answers) args outputs native

def wavmgD3d12Open (args : ContextArgs) (outputs : Outputs) (native : Native) :
    (ℕ × Outputs) × Native :=
  createContext answers (initializeOpener answers) args outputs native

end

/-- Deleting a null pointer does nothing; a destructor does not throw. -/
def wavmgD3d12Close (context : Option ContextPtr) (native : Native) : ℕ × Native :=
  match context with
  | none => (0, { native with lastError := "" })
  | some pointer => (0, { pointer.1.destroy native with lastError := "" })

/-! ### Releasing -/

lemma dispose_balanced {native : Native} {kind : NativeKind} {value : Option ℕ}
    {owned : List (NativeKind × ℕ)}
    (h : native.resources.Balanced ((kind.owned value).toList ++ owned)) :
    (native.dispose kind value).resources.Balanced owned := by
  cases value with
  | none => exact h
  | some id => exact h.release

@[simp] lemma dispose_returned (native : Native) (kind : NativeKind) (value : Option ℕ) :
    (native.dispose kind value).returned = native.returned := by
  cases value <;> rfl

lemma destroy_returned (context : Context) (native : Native) :
    (context.destroy native).returned = native.returned := by
  unfold Context.destroy
  dsimp only
  simp only [dispose_returned]
  split <;> rfl

/-- Destroying a context releases what it owns. -/
lemma destroy_balanced {context : Context} {native : Native} {owned : List (NativeKind × ℕ)}
    (h : native.resources.Balanced (context.resources ++ owned)) :
    (context.destroy native).resources.Balanced owned := by
  unfold Context.destroy
  apply dispose_balanced
  apply dispose_balanced
  apply dispose_balanced
  apply dispose_balanced
  simp only [Context.resources, Ledger.reduceOption_cons, List.reduceOption_nil, List.append_assoc,
    List.nil_append] at h
  split
  · exact h
  · exact h

/-! ### Initializing -/

def allSlots : List Slot :=
  [.externalSemaphore, .externalMemory, .fenceHandle, .heapHandle, .sourceHeapHandle,
    .sourceFenceHandle]

lemma resources_append_sources (s : Initializing) : s.context.resources ++ s.sources =
    (allSlots.map fun slot => slot.kind.owned (s.slots slot)).reduceOption := by
  rw [Context.resources, Initializing.sources, ← List.reduceOption_append]
  rfl

/-- A new resource is owned by the variable it is put into. -/
lemma filled_owned {s : Initializing} {slot : Slot} (hnull : s.slots slot = none) :
    ((s.filled slot).context.resources ++ (s.filled slot).sources).Perm
      (s.native.resources.fresh slot.kind :: (s.context.resources ++ s.sources)) := by
  have hslots : (fun other => other.kind.owned ((s.filled slot).slots other)) =
      Function.update (fun other => other.kind.owned (s.slots other)) slot
        (some (s.native.resources.fresh slot.kind)) := by
    funext other
    by_cases hother : other = slot
    · subst hother
      simp [Initializing.filled, NativeKind.owned, Ledger.fresh]
    · simp [Initializing.filled, hother]
  rw [resources_append_sources, resources_append_sources, hslots]
  apply Ledger.reduceOption_update (by decide)
  · cases slot <;> decide
  · simp [hnull, NativeKind.owned]

section
variable (returned : ℕ) (others : List (NativeKind × ℕ))

/-- What is open is owned by the variables, of which only those listed are filled, and by others. -/
structure Filling (allowed : List Slot) (s : Initializing) : Prop where
  returned : s.native.returned = returned
  balanced : s.native.resources.Balanced (s.context.resources ++ s.sources ++ others)
  null : ∀ slot, slot ∉ allowed → s.slots slot = none

/-- What is open is owned by the context and by others. -/
structure Complete (s : Initializing) : Prop where
  returned : s.native.returned = returned
  balanced : s.native.resources.Balanced (s.context.resources ++ others)

variable {returned others} {answers : NativeAnswers} {allowed filled : List Slot}

lemma Filling.mono {s : Initializing} (h : Filling returned others filled s)
    (hle : ∀ slot ∈ filled, slot ∈ allowed) : Filling returned others allowed s :=
  ⟨h.returned, h.balanced, fun slot hslot => h.null slot fun hmem => hslot (hle slot hmem)⟩

lemma check_spec (operation : String) (hle : ∀ slot ∈ filled, slot ∈ allowed) :
    Triple (Filling returned others filled) (check answers operation)
      (fun _ => Filling returned others filled) (Filling returned others allowed) := by
  intro s hs
  unfold check
  cases answers.succeeds s.native.calls with
  | true => exact ⟨hs.returned, hs.balanced, hs.null⟩
  | false => exact Filling.mono ⟨hs.returned, hs.balanced, hs.null⟩ hle

lemma mapBuffer_spec (hle : ∀ slot ∈ filled, slot ∈ allowed) :
    Triple (Filling returned others filled) (mapBuffer answers)
      (fun _ => Filling returned others filled) (Filling returned others allowed) := by
  intro s hs
  unfold mapBuffer
  cases answers.succeeds s.native.calls with
  | true => exact ⟨hs.returned, hs.balanced, hs.null⟩
  | false => exact Filling.mono ⟨hs.returned, hs.balanced, hs.null⟩ hle

lemma objectName_spec (baseName : Option String) (suffix : String)
    (hle : ∀ slot ∈ filled, slot ∈ allowed) :
    Triple (Filling returned others filled) (objectName baseName suffix)
      (fun _ => Filling returned others filled) (Filling returned others allowed) := by
  have hthrow : Triple (Filling returned others filled)
      (throw "base_name must not be empty" : Initializer String)
      (fun _ => Filling returned others filled) (Filling returned others allowed) :=
    .throw fun s hs => hs.mono hle
  cases baseName with
  | none => exact hthrow
  | some name =>
    unfold objectName
    dsimp only
    split
    · exact hthrow
    · exact .pure fun s hs => hs

/-- A variable is filled once. -/
lemma acquire_spec {slot : Slot} (operation : String) (hslot : slot ∉ filled)
    (hle : ∀ slot ∈ filled, slot ∈ allowed) :
    Triple (Filling returned others filled) (acquire answers slot operation)
      (fun _ => Filling returned others (slot :: filled)) (Filling returned others allowed) := by
  intro s hs
  unfold acquire
  cases answers.succeeds s.native.calls with
  | false => exact Filling.mono ⟨hs.returned, hs.balanced, hs.null⟩ hle
  | true =>
    refine ⟨hs.returned, ?_, fun other hother => ?_⟩
    · have hfresh := hs.balanced.acquire slot.kind
      exact hfresh.perm ((filled_owned (s := s.called) (hs.null slot hslot)).append_right _)
    · rw [List.mem_cons, not_or] at hother
      exact (Function.update_of_ne hother.1 _ _).trans (hs.null other hother.2)

lemma importHipObjects_spec (hmemory : .externalMemory ∉ filled)
    (hsemaphore : .externalSemaphore ∉ filled) (hle : ∀ slot ∈ filled, slot ∈ allowed)
    (hallowed : .externalMemory ∈ allowed) :
    Triple (Filling returned others filled) (importHipObjects answers)
      (fun _ => Filling returned others (.externalSemaphore :: .externalMemory :: filled))
      (Filling returned others allowed) := by
  have hle' : ∀ slot ∈ Slot.externalMemory :: filled, slot ∈ allowed := by
    rintro slot hslot
    obtain rfl | hslot := List.mem_cons.mp hslot
    · exact hallowed
    · exact hle slot hslot
  unfold importHipObjects
  apply Triple.bind (check_spec _ hle)
  intro _
  apply Triple.bind (acquire_spec _ hmemory hle)
  intro _
  apply Triple.bind (mapBuffer_spec hle')
  intro _
  exact acquire_spec _ (by simp [hsemaphore]) hle'

/-- Where no variable of the opener is filled, the context owns everything. -/
lemma Filling.complete {s : Initializing} (h : Filling returned others filled s)
    (hheap : .sourceHeapHandle ∉ filled) (hfence : .sourceFenceHandle ∉ filled) :
    Complete returned others s := by
  refine ⟨h.returned, ?_⟩
  have hsources : s.sources = [] := by
    simp [Initializing.sources, h.null _ hheap, h.null _ hfence, NativeKind.owned]
  have hbalanced := h.balanced
  rw [hsources, List.append_nil] at hbalanced
  exact hbalanced

lemma initializeCreator_spec (baseName : Option String) :
    Triple (Filling returned others []) (initializeCreator answers baseName)
      (fun _ => Complete returned others) (Complete returned others) := by
  have hfilling : Triple (Filling returned others []) (initializeCreator answers baseName)
      (fun _ => Filling returned others
        [.externalSemaphore, .externalMemory, .fenceHandle, .heapHandle])
      (Filling returned others
        [.externalSemaphore, .externalMemory, .fenceHandle, .heapHandle]) := by
    unfold initializeCreator
    apply Triple.bind (check_spec _ (by decide))
    intro _
    apply Triple.bind (check_spec _ (by decide))
    intro _
    apply Triple.bind (objectName_spec _ _ (by decide))
    intro _
    apply Triple.bind (acquire_spec _ (by decide) (by decide))
    intro _
    apply Triple.bind (check_spec _ (by decide))
    intro _
    apply Triple.bind (objectName_spec _ _ (by decide))
    intro _
    apply Triple.bind (acquire_spec _ (by decide) (by decide))
    intro _
    exact importHipObjects_spec (by decide) (by decide) (by decide) (by decide)
  have hcomplete : ∀ s, Filling returned others
      [.externalSemaphore, .externalMemory, .fenceHandle, .heapHandle] s →
      Complete returned others s :=
    fun s hs => hs.complete (by decide) (by decide)
  exact hfilling.consequence (fun s hs => hs) (fun _ => hcomplete) hcomplete

lemma openPeerObjects_spec :
    Triple (Filling returned others []) (openPeerObjects answers)
      (fun _ => Filling returned others allSlots) (Filling returned others allSlots) := by
  have hfilling : Triple (Filling returned others []) (openPeerObjects answers)
      (fun _ => Filling returned others [.externalSemaphore, .externalMemory, .fenceHandle,
        .sourceFenceHandle, .heapHandle, .sourceHeapHandle])
      (Filling returned others allSlots) := by
    unfold openPeerObjects
    apply Triple.bind (acquire_spec _ (by decide) (by decide))
    intro _
    apply Triple.bind (check_spec _ (by decide))
    intro _
    apply Triple.bind (check_spec _ (by decide))
    intro _
    apply Triple.bind (acquire_spec _ (by decide) (by decide))
    intro _
    apply Triple.bind (acquire_spec _ (by decide) (by decide))
    intro _
    apply Triple.bind (check_spec _ (by decide))
    intro _
    apply Triple.bind (acquire_spec _ (by decide) (by decide))
    intro _
    exact importHipObjects_spec (by decide) (by decide) (by decide) (by decide)
  exact hfilling.consequence (fun s hs => hs) (fun _ s hs => hs.mono (by decide)) fun s hs => hs

section
variable {E : Initializing → Prop}

/-- The first of the opener's handles is closed, and the second is left. -/
lemma closeSourceHeap_spec :
    Triple (Filling returned others allSlots) (closeHandle .sourceHeapHandle)
      (fun _ s => s.native.returned = returned ∧ s.native.resources.Balanced
        ((NativeKind.win32Handle.owned (s.slots .sourceFenceHandle)).toList ++
          (s.context.resources ++ others))) E := by
  apply Triple.modify
  intro s hs
  refine ⟨(dispose_returned _ _ _).trans hs.returned, dispose_balanced (hs.balanced.perm ?_)⟩
  rw [Initializing.sources, Ledger.reduceOption_cons, Ledger.reduceOption_cons, ← List.append_assoc,
    ← List.append_assoc]
  apply List.Perm.append_right
  rw [List.reduceOption_nil, List.append_nil]
  exact List.perm_append_comm

lemma closeSourceFence_spec :
    Triple (fun s => s.native.returned = returned ∧ s.native.resources.Balanced
        ((NativeKind.win32Handle.owned (s.slots .sourceFenceHandle)).toList ++
          (s.context.resources ++ others)))
      (closeHandle .sourceFenceHandle) (fun _ => Complete returned others) E := by
  apply Triple.modify
  intro s hs
  exact ⟨(dispose_returned _ _ _).trans hs.1, dispose_balanced hs.2⟩

end

/-- The opener closes its two handles once, whether it throws or not. -/
lemma initializeOpener_spec (baseName : Option String) :
    Triple (Filling returned others []) (initializeOpener answers baseName)
      (fun _ => Complete returned others) (Complete returned others) := by
  have hname : ∀ suffix, Triple (Filling returned others []) (objectName baseName suffix)
      (fun _ => Filling returned others []) (Complete returned others) := by
    intro suffix
    have hspec : Triple (Filling returned others []) (objectName baseName suffix)
        (fun _ => Filling returned others []) (Filling returned others []) :=
      objectName_spec baseName suffix fun slot hslot => hslot
    exact hspec.consequence (fun s hs => hs) (fun _ s hs => hs)
      fun s hs => hs.complete (by decide) (by decide)
  unfold initializeOpener
  apply Triple.bind (hname _)
  intro _
  apply Triple.bind (hname _)
  intro _
  apply Triple.bind (Triple.tryCatch openPeerObjects_spec ?_)
  · intro _
    apply Triple.bind closeSourceHeap_spec
    intro _
    exact closeSourceFence_spec
  · intro error
    apply Triple.bind closeSourceHeap_spec
    intro _
    apply Triple.bind closeSourceFence_spec
    intro _
    exact .throw fun s hs => hs

end

/-! ### Creating and closing -/

/-- A caller whose context could not be made finds its variables as they were. -/
lemma createContext_failed {answers : NativeAnswers}
    {initializer : Option String → Initializer Unit} {args : ContextArgs} {outputs : Outputs}
    {native : Native} (h : (createContext answers initializer args outputs native).1.1 ≠ 0) :
    (createContext answers initializer args outputs native).1.2 = outputs := by
  revert h
  unfold createContext
  split
  · exact fun _ => rfl
  · dsimp only
    split
    · exact fun h => absurd rfl h
    · exact fun _ => rfl

/-- What comes of making a context: it is returned, and owns what was added, or nothing was added. -/
inductive Created (native : Native) (outputs : Outputs) (others : List (NativeKind × ℕ)) :
    (ℕ × Outputs) × Native → Prop
  | returned (context : Context) (pointer : Option ℕ) (after : Native)
      (hreturned : after.returned = native.returned + 1)
      (hbalanced : after.resources.Balanced (context.resources ++ others)) :
      Created native outputs others ((0, ⟨some (context, native.returned), pointer⟩), after)
  | failed (after : Native) (hreturned : after.returned = native.returned)
      (hbalanced : after.resources.Balanced others) :
      Created native outputs others ((1, outputs), after)

section
variable {answers : NativeAnswers} {native : Native} {others : List (NativeKind × ℕ)}

lemma bindContext_spec (hipDevice : ℤ) (returned : ℕ) :
    Triple (Filling returned others []) (bindContext answers hipDevice)
      (fun _ => Filling returned others []) (Complete returned others) := by
  have hcheck : ∀ operation, Triple (Filling returned others []) (check answers operation)
      (fun _ => Filling returned others []) (Complete returned others) := by
    intro operation
    have hspec : Triple (Filling returned others []) (check answers operation)
        (fun _ => Filling returned others []) (Filling returned others []) :=
      check_spec _ fun slot hslot => hslot
    exact hspec.consequence (fun s hs => hs) (fun _ s hs => hs)
      fun s hs => hs.complete (by decide) (by decide)
  unfold bindContext
  apply bindDevice_spec
  · exact hcheck
  · exact fun _ _ _ => hcheck _
  · exact fun _ s hs => hs.complete (by decide) (by decide)

lemma createContext_spec {initializer : Option String → Initializer Unit}
    (hinitializer : ∀ baseName returned others, Triple (Filling returned others [])
      (initializer baseName) (fun _ => Complete returned others) (Complete returned others))
    (args : ContextArgs) (outputs : Outputs) (h : native.resources.Balanced others) :
    Created native outputs others (createContext answers initializer args outputs native) := by
  unfold createContext
  split
  · exact .failed _ rfl h
  · have hbind : Triple (Filling native.returned others []) (bindContext answers args.hipDevice)
        (fun _ => Filling native.returned others []) (Complete native.returned others) :=
      bindContext_spec args.hipDevice native.returned
    have hrun := Triple.bind hbind fun _ => hinitializer args.baseName native.returned others
    have hstart : Filling native.returned others []
        ⟨native, args.hipDevice, none, fun _ => none⟩ :=
      ⟨rfl, h, fun _ _ => rfl⟩
    have hafter := hrun _ hstart
    dsimp only
    split
    · rename_i s hresult
      rw [hresult] at hafter
      rw [hafter.returned]
      exact .returned _ _ _ rfl hafter.balanced
    · rename_i error s hresult
      rw [hresult] at hafter
      exact .failed _ ((destroy_returned _ _).trans hafter.returned)
        (destroy_balanced hafter.balanced)

theorem wavmgD3d12Create_spec (args : ContextArgs) (outputs : Outputs)
    (h : native.resources.Balanced others) :
    Created native outputs others (wavmgD3d12Create answers args outputs native) :=
  createContext_spec (fun baseName _ _ => initializeCreator_spec baseName) args outputs h

theorem wavmgD3d12Open_spec (args : ContextArgs) (outputs : Outputs)
    (h : native.resources.Balanced others) :
    Created native outputs others (wavmgD3d12Open answers args outputs native) :=
  createContext_spec (fun baseName _ _ => initializeOpener_spec baseName) args outputs h

/-- Closing a context releases what it owns. -/
theorem wavmgD3d12Close_spec (pointer : ContextPtr)
    (h : native.resources.Balanced (pointer.1.resources ++ others)) :
    (wavmgD3d12Close (some pointer) native).1 = 0 ∧
    (wavmgD3d12Close (some pointer) native).2.returned = native.returned ∧
    (wavmgD3d12Close (some pointer) native).2.resources.Balanced others :=
  ⟨rfl, destroy_returned _ _, destroy_balanced h⟩

end

end MultiGpuTransport.SharedBuffers
