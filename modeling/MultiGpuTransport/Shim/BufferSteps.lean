import MultiGpuTransport.Shim.TransportBuffers

/-!
# Making a buffer

How far an initializer has come is a stage, and each of its calls leads from one stage to the next or
fails. A creator ends with the next heap and fence of the process, an opener with those that have the
names; where either fails, what its variables own is what is left.
-/
namespace MultiGpuTransport.Shim.Buffers
open Lib
open SharedBuffers (Adapter NativeKind Slot allSlots)

/-- How far a buffer has come: for what object each variable holds a resource, and what has been made
and named for it. -/
structure Stage where
  device : ℤ
  sizes : SharedBufferSizes
  adapter : Option Adapter
  objects : List KernelObject
  names : List (String × ℕ)
  heap : Option ℕ
  fence : Option ℕ
  pointer : Option ℕ
  filled : Slot → Option ℕ

namespace Stage

def start (device : ℤ) (sizeBytes : UInt64) : Stage :=
  ⟨device, initializeSizes sizeBytes, none, [], [], none, none, none, fun _ => none⟩

def fill (stage : Stage) (slot : Slot) (object : ℕ) (name : Option String) : Stage :=
  { stage with
    names := (name.toList.map fun name => (name, object)) ++ stage.names
    filled := Function.update stage.filled slot (some object) }

def bindTo (stage : Stage) (adapter : Adapter) : Stage := { stage with adapter := some adapter }

def mapAt (stage : Stage) (heap : ℕ) : Stage := { stage with pointer := some heap }

def useHeap (stage : Stage) (heap : ℕ) (made : List KernelObject) : Stage :=
  { stage with
    objects := stage.objects ++ made
    heap := some heap }

def useFence (stage : Stage) (fence : ℕ) (made : List KernelObject) : Stage :=
  { stage with
    objects := stage.objects ++ made
    fence := some fence }

@[simp] theorem fill_self (stage : Stage) (slot : Slot) (o : ℕ) (name : Option String) :
    (stage.fill slot o name).filled slot = some o :=
  Function.update_self ..

@[simp] theorem fill_of_ne (stage : Stage) {slot other : Slot} (o : ℕ) (name : Option String)
    (h : other ≠ slot) : (stage.fill slot o name).filled other = stage.filled other :=
  Function.update_of_ne h _ _

@[simp] theorem bindTo_filled (stage : Stage) (adapter : Adapter) :
    (stage.bindTo adapter).filled = stage.filled := rfl

@[simp] theorem mapAt_filled (stage : Stage) (heap : ℕ) :
    (stage.mapAt heap).filled = stage.filled := rfl

@[simp] theorem useHeap_filled (stage : Stage) (heap : ℕ) (made : List KernelObject) :
    (stage.useHeap heap made).filled = stage.filled := rfl

@[simp] theorem useFence_filled (stage : Stage) (fence : ℕ) (made : List KernelObject) :
    (stage.useFence fence made).filled = stage.filled := rfl

end Stage

/-- A process q that comes from p by giving names among these. -/
structure Grown (allowed : List String) (p q : Process) : Prop where
  objects : p.objects <+: q.objects
  names : ∀ b ∈ q.names, b ∈ p.names ∨ b.1 ∈ allowed
  counter : q.contextCounter = p.contextCounter

namespace Grown
variable {allowed : List String} {p q r : Process}

theorem trans (h : Grown allowed p q) (h' : Grown allowed q r) : Grown allowed p r where
  objects := h.objects.trans h'.objects
  names b hb := (h'.names b hb).elim (h.names b) .inr
  counter := h'.counter.trans h.counter

end Grown

section
variable (p : Process) (others : List Handle)

/-- The buffer has come to this stage in the process p, where others own what is not its own. -/
structure At (stage : Stage) (s : Initializing) : Prop where
  device : s.hipDevice = stage.device
  sizes : s.sizes = stage.sizes
  adapter : s.adapter = stage.adapter
  objects : s.process.objects = p.objects ++ stage.objects
  names : s.process.names = stage.names ++ p.names
  counter : s.process.contextCounter = p.contextCounter
  heap : s.heap = stage.heap
  fence : s.fence = stage.fence
  pointer : s.devicePointer = stage.pointer
  filled : ∀ slot, (s.slots slot).map Prod.fst =
    (stage.filled slot).map fun object => ⟨slot.kind, object⟩
  balanced : s.process.resources.Balanced (s.buffer.resources ++ (s.sources ++ others))

/-- It has come to an end at some stage before these variables were filled, and that is excused. -/
structure Broken (allowed : List String) (unfilled : List Slot) (excuse : Prop)
    (s : Initializing) : Prop where
  grown : Grown allowed p s.process
  null : ∀ slot ∈ unfilled, s.slots slot = none
  balanced : s.process.resources.Balanced (s.buffer.resources ++ (s.sources ++ others))
  excused : excuse

end

/-- What an initializer may name and leaves alone, and what excuses it if it fails: that a call did. -/
structure Terms (machine : Machine) where
  allowed : List String
  unfilled : List Slot
  excuse : Prop
  excused : (∃ n, machine.succeeds n = false) → excuse

/-- A stage in these terms. -/
structure Stage.Within {machine : Machine} (stage : Stage) (terms : Terms machine) : Prop where
  names : ∀ b ∈ stage.names, b.1 ∈ terms.allowed
  unfilled : ∀ slot ∈ terms.unfilled, stage.filled slot = none

section
variable {machine : Machine} {p : Process} {others : List Handle} {terms : Terms machine}
  {stage stage' : Stage} {s : Initializing}

theorem At.slot_none (h : At p others stage s) {slot : Slot} :
    s.slots slot = none ↔ stage.filled slot = none := by
  rw [← Option.map_eq_none_iff, h.filled slot, Option.map_eq_none_iff]

theorem At.objectOf (h : At p others stage s) (slot : Slot) :
    s.objectOf slot = stage.filled slot := by
  have hmap := congrArg (Option.map Resource.object) (h.filled slot)
  rw [Option.map_map, Option.map_map] at hmap
  exact hmap.trans Option.map_id'

theorem At.broken (h : At p others stage s) (hwithin : stage.Within terms) (hexcuse : terms.excuse) :
    Broken p others terms.allowed terms.unfilled terms.excuse s where
  grown := {
    objects := h.objects ▸ List.prefix_append _ _
    names := by
      intro b hb
      rw [h.names] at hb
      exact (List.mem_append.mp hb).symm.imp_right (hwithin.names b)
    counter := h.counter }
  null slot hslot := h.slot_none.mpr (hwithin.unfilled slot hslot)
  balanced := h.balanced
  excused := hexcuse

theorem At.called (h : At p others stage s) : At p others stage s.called :=
  ⟨h.device, h.sizes, h.adapter, h.objects, h.names, h.counter, h.heap, h.fence, h.pointer, h.filled,
    h.balanced⟩

abbrev Steps (p : Process) (others : List Handle) (terms : Terms machine) (stage : Stage)
    (m : Initializer Unit) (Q : Initializing → Prop) : Prop :=
  Triple (At p others stage) m (fun _ => Q)
    (Broken p others terms.allowed terms.unfilled terms.excuse)

/-- A call fails where it does not succeed or cannot. -/
theorem call_spec {Q : Initializing → Prop} (operation : String) {possible : Initializing → Bool}
    {effect : Initializing → Initializing} (hwithin : stage.Within terms)
    (hpossible : ∀ s, At p others stage s → possible s = false → terms.excuse)
    (heffect : ∀ s, At p others stage s → possible s = true → Q (effect s.called)) :
    Steps p others terms stage (call machine operation possible effect) Q := by
  intro s hs
  unfold call
  by_cases hsucceeds : machine.succeeds s.process.calls = true
  · by_cases hcan : possible s = true
    · rw [if_pos ⟨hsucceeds, hcan⟩]
      exact heffect s hs hcan
    · rw [if_neg fun h => hcan h.2]
      exact hs.called.broken hwithin (hpossible s hs (Bool.eq_false_of_not_eq_true hcan))
  · rw [if_neg fun h => hsucceeds h.1]
    exact hs.called.broken hwithin (terms.excused ⟨_, Bool.eq_false_of_not_eq_true hsucceeds⟩)

theorem check_spec (operation : String) (hwithin : stage.Within terms) :
    Steps p others terms stage (check machine operation) (At p others stage) :=
  call_spec operation hwithin (fun _ _ h => absurd h (by simp)) fun _ hs _ =>
    hs.called

theorem resources_append_sources (s : Initializing) :
    s.buffer.resources ++ s.sources = (allSlots.map s.slots).reduceOption := by
  rw [SharedBuffer.resources, Initializing.sources, ← List.reduceOption_append]
  rfl

/-- A new resource is owned by the variable it is put into. -/
theorem filled_owned {slot : Slot} (object : ℕ) (name : Option String) (hnull : s.slots slot = none) :
    ((s.filled slot object name).buffer.resources ++ (s.filled slot object name).sources).Perm
      (s.process.resources.fresh ⟨slot.kind, object⟩ :: (s.buffer.resources ++ s.sources)) := by
  have hmem : slot ∈ allSlots := by cases slot <;> decide
  rw [resources_append_sources, resources_append_sources]
  exact Ledger.reduceOption_update (by decide) hmem hnull _

/-- A variable is filled once, with a resource for an object that is known. -/
theorem acquire_spec (operation : String) {slot : Slot} {object : Initializing → Option ℕ} (o : ℕ)
    {name : Option String} (hwithin : stage.Within terms)
    (hslot : stage.filled slot = none) (hobject : ∀ s, At p others stage s → object s = some o)
    (hname : ∀ s, At p others stage s → ∀ n ∈ name, s.process.bound n = none ∨ terms.excuse) :
    Steps p others terms stage (acquire machine operation slot object name)
      (At p others (stage.fill slot o name)) := by
  apply call_spec operation hwithin
  · intro s hs himpossible
    simp only [hobject s hs, Option.isSome_some, true_and, decide_eq_false_iff_not, not_forall] at himpossible
    obtain ⟨n, hn, hbound⟩ := himpossible
    exact (hname s hs n hn).resolve_left hbound
  · intro s hs _
    rw [hobject _ hs.called, Option.getD_some]
    refine ⟨hs.device, hs.sizes, hs.adapter, hs.objects, ?_, hs.counter, hs.heap, hs.fence, hs.pointer,
      ?_, ?_⟩
    · rw [Stage.fill, List.append_assoc, ← hs.names]
      rfl
    · intro other
      by_cases hother : other = slot
      · subst hother
        simp [Initializing.filled, Stage.fill, Ledger.fresh]
      · simpa [Initializing.filled, Stage.fill, hother] using hs.called.filled other
    · have hfresh := hs.balanced.acquire ⟨slot.kind, o⟩
      rw [← List.append_assoc] at hfresh ⊢
      exact hfresh.perm ((filled_owned (s := s.called) o name (hs.slot_none.mpr hslot)).append_right _)

theorem Stage.Within.fill {slot : Slot} (h : stage.Within terms) (hslot : slot ∉ terms.unfilled) (o : ℕ)
    (name : Option String) (hname : ∀ n ∈ name, n ∈ terms.allowed) :
    (stage.fill slot o name).Within terms where
  names := by
    intro b hb
    obtain hnew | hold := List.mem_append.mp hb
    · obtain ⟨n, hn, rfl⟩ := List.mem_map.mp hnew
      exact hname n (Option.mem_toList.mp hn)
    · exact h.names b hold
  unfilled := by
    intro other hother
    have hne : other ≠ slot := by
      rintro rfl
      exact hslot hother
    rw [stage.fill_of_ne o name hne]
    exact h.unfilled other hother

theorem Stage.Within.bindTo (h : stage.Within terms) (adapter : Adapter) :
    (stage.bindTo adapter).Within terms := ⟨h.names, h.unfilled⟩

theorem Stage.Within.mapAt (h : stage.Within terms) (heap : ℕ) : (stage.mapAt heap).Within terms :=
  ⟨h.names, h.unfilled⟩

theorem Stage.Within.useHeap (h : stage.Within terms) (heap : ℕ) (made : List KernelObject) :
    (stage.useHeap heap made).Within terms := ⟨h.names, h.unfilled⟩

theorem Stage.Within.useFence (h : stage.Within terms) (fence : ℕ) (made : List KernelObject) :
    (stage.useFence fence made).Within terms := ⟨h.names, h.unfilled⟩

/-- The machine has the adapter, and it is that of the HIP device. -/
def Machine.Matches (machine : Machine) (device : ℤ) (adapter : Adapter) : Prop :=
  adapter ∈ machine.adapters ∧ adapter.Matches (machine.deviceLuid device)

theorem createDevice_spec (hwithin : stage.Within terms) (adapter : Adapter) :
    Steps p others terms stage (createDevice machine adapter) (At p others (stage.bindTo adapter)) := by
  apply call_spec _ hwithin (fun _ _ h => absurd h (by simp))
  intro s hs _
  exact ⟨hs.device, hs.sizes, rfl, hs.objects, hs.names, hs.counter, hs.heap, hs.fence, hs.pointer,
    hs.filled, hs.balanced⟩

theorem bindDevice_spec (hwithin : stage.Within terms) (device : ℤ)
    (hnone : (∀ a, ¬ machine.Matches device a) → terms.excuse) :
    Steps p others terms stage (bindDevice machine device) fun s =>
      ∃ a, machine.Matches device a ∧ At p others (stage.bindTo a) s := by
  unfold bindDevice
  apply SharedBuffers.bindDevice_spec
  · exact fun _ => check_spec _ hwithin
  · intro a ha hmatches
    apply (createDevice_spec hwithin a).consequence (fun s hs => hs) _ fun s hs => hs
    exact fun _ s hs => ⟨a, ⟨ha, hmatches⟩, hs⟩
  · intro hothers s hs
    exact hs.broken hwithin (hnone fun a ha => hothers a ha.1 ha.2)

/-- A buffer is placed only where it fits. -/
theorem createPlacedBuffer_spec {heap : ℕ} {sizeBytes : UInt64} (hwithin : stage.Within terms)
    (hheap : stage.heap = some heap)
    (hobject : (p.objects ++ stage.objects)[heap]? = some (.heap sizeBytes))
    (hfits : stage.sizes.size ≤ sizeBytes ∨ terms.excuse) :
    Steps p others terms stage (createPlacedBuffer machine) fun s =>
      stage.sizes.size ≤ sizeBytes ∧ At p others stage s := by
  have hpossible : ∀ s, At p others stage s → s.fits = decide (stage.sizes.size ≤ sizeBytes) := by
    intro s hs
    rw [Initializing.fits, hs.heap, hheap, Option.bind_some, hs.objects, hobject, hs.sizes]
  apply call_spec _ hwithin
  · intro s hs himpossible
    exact hfits.resolve_left (of_decide_eq_false ((hpossible s hs).symm.trans himpossible))
  · intro s hs hcan
    exact ⟨of_decide_eq_true ((hpossible s hs).symm.trans hcan), hs.called⟩

/-- The memory and the semaphore are imported from the two handles. -/
def Stage.imported (stage : Stage) (heap fence : ℕ) : Stage :=
  ((stage.fill .externalMemory heap none).mapAt heap).fill .externalSemaphore fence none

theorem createHeap_spec (hwithin : stage.Within terms) (hobjects : stage.objects = []) :
    Steps p others terms stage (createHeap machine)
      (At p others (stage.useHeap p.objects.length [.heap stage.sizes.heapSize])) := by
  apply call_spec _ hwithin (fun _ _ h => absurd h (by simp))
  intro s hs _
  refine ⟨hs.device, hs.sizes, hs.adapter, ?_, hs.names, hs.counter, ?_, hs.fence, hs.pointer, hs.filled,
    hs.balanced⟩
  · simp [Initializing.created, Stage.useHeap, hs.called.objects, hs.called.sizes]
  · simp [Stage.useHeap, hs.called.objects, hobjects]

theorem createFence_spec {fence : ℕ} (hwithin : stage.Within terms)
    (hfence : p.objects.length + stage.objects.length = fence) :
    Steps p others terms stage (createFence machine) (At p others (stage.useFence fence [.fence])) := by
  apply call_spec _ hwithin (fun _ _ h => absurd h (by simp))
  intro s hs _
  refine ⟨hs.device, hs.sizes, hs.adapter, ?_, hs.names, hs.counter, hs.heap, ?_, hs.pointer, hs.filled,
    hs.balanced⟩
  · simp [Initializing.created, Stage.useFence, hs.called.objects]
  · simp [Stage.useFence, hs.called.objects, hfence]

theorem openHeap_spec {heap : ℕ} (hwithin : stage.Within terms)
    (hsource : stage.filled .sourceHeapHandle = some heap) :
    Steps p others terms stage (openHeap machine) (At p others (stage.useHeap heap [])) := by
  apply call_spec _ hwithin (fun _ _ h => absurd h (by simp))
  intro s hs _
  exact ⟨hs.device, hs.sizes, hs.adapter, by simpa [Stage.useHeap] using hs.called.objects, hs.names,
    hs.counter, (hs.called.objectOf _).trans hsource, hs.fence, hs.pointer, hs.filled, hs.balanced⟩

theorem openFence_spec {fence : ℕ} (hwithin : stage.Within terms)
    (hsource : stage.filled .sourceFenceHandle = some fence) :
    Steps p others terms stage (openFence machine) (At p others (stage.useFence fence [])) := by
  apply call_spec _ hwithin (fun _ _ h => absurd h (by simp))
  intro s hs _
  exact ⟨hs.device, hs.sizes, hs.adapter, by simpa [Stage.useFence] using hs.called.objects, hs.names,
    hs.counter, hs.heap, (hs.called.objectOf _).trans hsource, hs.pointer, hs.filled, hs.balanced⟩

theorem getMappedBuffer_spec {heap : ℕ} (hwithin : stage.Within terms)
    (hmemory : stage.filled .externalMemory = some heap) :
    Steps p others terms stage (getMappedBuffer machine) (At p others (stage.mapAt heap)) := by
  apply call_spec _ hwithin (fun _ _ h => absurd h (by simp))
  intro s hs _
  exact ⟨hs.device, hs.sizes, hs.adapter, hs.objects, hs.names, hs.counter, hs.heap, hs.fence,
    (hs.called.objectOf _).trans hmemory, hs.filled, hs.balanced⟩

theorem importHipObjects_spec (heap fence : ℕ) (hwithin : stage.Within terms)
    (hunfilled : ∀ slot ∈ terms.unfilled, slot = .sourceHeapHandle ∨ slot = .sourceFenceHandle)
    (hheap : stage.filled .heapHandle = some heap) (hfence : stage.filled .fenceHandle = some fence)
    (hmemory : stage.filled .externalMemory = none)
    (hsemaphore : stage.filled .externalSemaphore = none) :
    Steps p others terms stage (importHipObjects machine) (At p others (stage.imported heap fence)) := by
  have hfill : (stage.fill .externalMemory heap none).Within terms :=
    hwithin.fill (fun h => by simpa using hunfilled _ h) heap none (by simp)
  unfold importHipObjects
  apply Triple.bind (check_spec _ hwithin)
  intro _
  apply Triple.bind (acquire_spec _ heap hwithin hmemory (fun s hs => (hs.objectOf _).trans hheap)
    (by simp))
  intro _
  apply Triple.bind (getMappedBuffer_spec hfill (stage.fill_self ..))
  intro _
  apply acquire_spec _ fence (hfill.mapAt heap)
  · simpa using hsemaphore
  · intro s hs
    rw [hs.objectOf]
    simpa using hfence
  · simp

/-! ### Creators and openers -/

/-- The buffer has handles to this heap and this fence, and HIP has imported both; its pointer is that
of the heap. -/
structure SharedBuffer.Holds (buffer : SharedBuffer) (heap fence : ℕ) : Prop where
  heapHandle : buffer.heapHandle.map Prod.fst = some ⟨.win32Handle, heap⟩
  fenceHandle : buffer.fenceHandle.map Prod.fst = some ⟨.win32Handle, fence⟩
  memory : buffer.externalMemory.map Prod.fst = some ⟨.externalMemory, heap⟩
  semaphore : buffer.externalSemaphore.map Prod.fst = some ⟨.externalSemaphore, fence⟩
  pointer : buffer.devicePointer = some heap

/-- A buffer that is complete, for a device and of this size. -/
structure SharedBuffer.CompleteFor (machine : Machine) (buffer : SharedBuffer) (device : ℤ)
    (sizeBytes : UInt64) : Prop where
  hipDevice : buffer.hipDevice = device
  sizes : buffer.sizes = initializeSizes sizeBytes
  adapter : ∃ a ∈ buffer.adapter, machine.Matches device a

/-- The buffer is made, and in the process p these objects and names have come with it. -/
structure Made (machine : Machine) (p : Process) (others : List Handle) (device : ℤ)
    (sizeBytes : UInt64) (objects : List KernelObject) (names : List (String × ℕ)) (heap fence : ℕ)
    (s : Initializing) : Prop where
  objects : s.process.objects = p.objects ++ objects
  names : s.process.names = names ++ p.names
  counter : s.process.contextCounter = p.contextCounter
  holds : s.buffer.Holds heap fence
  complete : s.buffer.CompleteFor machine device sizeBytes
  fits : ∃ bytes, s.process.objects[heap]? = some (.heap bytes) ∧ sizeBytes ≤ bytes
  balanced : s.process.resources.Balanced (s.buffer.resources ++ others)

/-- The buffer is not made; its variables own what is left of it. -/
structure Unmade (p : Process) (others : List Handle) (terms : Terms machine) (s : Initializing) :
    Prop where
  grown : Grown terms.allowed p s.process
  balanced : s.process.resources.Balanced (s.buffer.resources ++ others)
  excused : terms.excuse

theorem At.start {device : ℤ} {sizeBytes : UInt64} (h : p.resources.Balanced others) :
    At p others (.start device sizeBytes) (.start p device sizeBytes) :=
  ⟨rfl, rfl, rfl, (List.append_nil _).symm, rfl, rfl, rfl, rfl, rfl, fun _ => rfl, h⟩

theorem At.holds {heap fence : ℕ} (h : At p others (stage.imported heap fence) s)
    (hheap : stage.filled .heapHandle = some heap) (hfence : stage.filled .fenceHandle = some fence) :
    s.buffer.Holds heap fence where
  heapHandle := (h.filled .heapHandle).trans (by simp [Stage.imported, Slot.kind, hheap])
  fenceHandle := (h.filled .fenceHandle).trans (by simp [Stage.imported, Slot.kind, hfence])
  memory := (h.filled .externalMemory).trans (by simp [Stage.imported, Slot.kind])
  semaphore := (h.filled .externalSemaphore).trans (by simp [Stage.imported, Slot.kind])
  pointer := h.pointer

theorem At.bound (h : At p others stage s) (name : String) : s.process.bound name =
    ((stage.names.find? fun b => b.1 = name).map Prod.snd).or (p.bound name) := by
  rw [Process.bound, h.names, List.find?_append, Option.map_or]
  rfl

theorem At.bound_eq (h : At p others stage s) (hnames : stage.names = []) (name : String) :
    s.process.bound name = p.bound name := by
  rw [h.bound, hnames]
  rfl

/-- The last stage of a buffer that is created. -/
def Stage.creator (device : ℤ) (sizeBytes : UInt64) (baseName : String) (heap fence : ℕ)
    (adapter : Adapter) : Stage :=
  (Stage.start device sizeBytes).bindTo adapter
    |>.useHeap heap [.heap (alignHeapSize sizeBytes)]
    |>.fill .heapHandle heap (some (baseName ++ ".memory"))
    |>.useFence fence [.fence]
    |>.fill .fenceHandle fence (some (baseName ++ ".fence"))
    |>.imported heap fence

/-- A rank that creates its buffer makes the next heap and the next fence. -/
theorem initializeCreator_spec (device : ℤ) (sizeBytes : UInt64) (baseName : String)
    (hunfilled : ∀ slot ∈ terms.unfilled, slot = .sourceHeapHandle ∨ slot = .sourceFenceHandle)
    (hmemory : baseName ++ ".memory" ∈ terms.allowed) (hfence : baseName ++ ".fence" ∈ terms.allowed)
    (hne : baseName ++ ".memory" ≠ baseName ++ ".fence")
    (hbound : ∀ name ∈ [baseName ++ ".memory", baseName ++ ".fence"],
      p.bound name = none ∨ terms.excuse)
    (hadapter : (∀ a, ¬ machine.Matches device a) → terms.excuse)
    (hfits : sizeBytes ≤ alignHeapSize sizeBytes ∨ terms.excuse) :
    Steps p others terms (.start device sizeBytes) (initializeCreator machine device baseName) fun s =>
      ∃ a, machine.Matches device a ∧ sizeBytes ≤ alignHeapSize sizeBytes ∧ At p others
        (.creator device sizeBytes baseName p.objects.length (p.objects.length + 1) a) s := by
  have hstart : (Stage.start device sizeBytes).Within terms := ⟨by simp [Stage.start], fun _ _ => rfl⟩
  have hslot : ∀ slot ∈ [Slot.heapHandle, .fenceHandle], slot ∉ terms.unfilled := by
    intro slot hslot hmem
    obtain rfl | rfl := hunfilled slot hmem <;> simp at hslot
  unfold initializeCreator
  apply Triple.bind (bindDevice_spec hstart device hadapter)
  intro _
  apply Triple.of_exists
  intro a
  apply Triple.of_and
  intro ha
  have hbind := hstart.bindTo a
  apply Triple.bind (createHeap_spec hbind rfl)
  intro _
  have hheap := hbind.useHeap p.objects.length [.heap (alignHeapSize sizeBytes)]
  apply Triple.bind (createPlacedBuffer_spec hheap rfl (by simp [Stage.useHeap, Stage.bindTo, Stage.start])
    hfits)
  intro _
  apply Triple.of_and
  intro hle
  have hnamed := hheap.fill (hslot .heapHandle (by simp)) p.objects.length
    (some (baseName ++ ".memory")) (by simpa using hmemory)
  apply Triple.bind (acquire_spec _ p.objects.length hheap rfl (fun s hs => hs.heap) ?_)
  · intro _
    apply Triple.bind (createFence_spec hnamed rfl)
    intro _
    have hfenced := hnamed.useFence (p.objects.length + 1) [.fence]
    have hall := hfenced.fill (hslot .fenceHandle (by simp)) (p.objects.length + 1)
      (some (baseName ++ ".fence")) (by simpa using hfence)
    apply Triple.bind (acquire_spec _ (p.objects.length + 1) hfenced (by simp [Stage.start])
      (fun s hs => hs.fence) ?_)
    · intro _
      refine Triple.consequence (importHipObjects_spec p.objects.length (p.objects.length + 1) hall
        hunfilled (by simp) (by simp) (by simp [Stage.start]) (by simp [Stage.start]))
        (fun s hs => hs) (fun _ s hs => ?_) fun s hs => hs
      exact ⟨a, ha, hle, hs⟩
    · intro s hs n hn
      obtain rfl := Option.some.inj hn
      rw [hs.bound]
      simpa [Stage.fill, Stage.useFence, Stage.useHeap, Stage.bindTo, Stage.start, hne] using
        hbound _ (by simp)
  · intro s hs n hn
    obtain rfl := Option.some.inj hn
    rw [hs.bound]
    exact hbound _ (by simp)

/-- The last stage of a buffer that is opened. -/
def Stage.opener (device : ℤ) (sizeBytes : UInt64) (heap fence : ℕ) (adapter : Adapter) : Stage :=
  (Stage.start device sizeBytes).bindTo adapter
    |>.fill .sourceHeapHandle heap none
    |>.useHeap heap []
    |>.fill .heapHandle heap none
    |>.fill .sourceFenceHandle fence none
    |>.useFence fence []
    |>.fill .fenceHandle fence none
    |>.imported heap fence

theorem openPeerObjects_spec (device : ℤ) (sizeBytes : UInt64) (baseName : String) (a : Adapter)
    {heap fence : ℕ} {bytes : UInt64} (hunfilled : terms.unfilled = [])
    (hmemory : p.bound (baseName ++ ".memory") = some heap)
    (hfence : p.bound (baseName ++ ".fence") = some fence)
    (hobject : p.objects[heap]? = some (.heap bytes)) (hfits : sizeBytes ≤ bytes ∨ terms.excuse) :
    Steps p others terms ((Stage.start device sizeBytes).bindTo a) (openPeerObjects machine baseName)
      fun s => sizeBytes ≤ bytes ∧ At p others (.opener device sizeBytes heap fence a) s := by
  have hall : ∀ stage : Stage, stage.names = [] → stage.Within terms := fun stage hnames =>
    ⟨by simp [hnames], by simp [hunfilled]⟩
  unfold openPeerObjects
  apply Triple.bind (acquire_spec _ heap (hall _ rfl) rfl
    (fun s hs => (hs.bound_eq rfl _).trans hmemory) (by simp))
  intro _
  apply Triple.bind (openHeap_spec (hall _ rfl) (Stage.fill_self ..))
  intro _
  apply Triple.bind (createPlacedBuffer_spec (hall _ rfl) rfl
    (by simpa [Stage.useHeap, Stage.fill, Stage.bindTo, Stage.start] using hobject) hfits)
  intro _
  apply Triple.of_and
  intro hle
  apply Triple.bind (acquire_spec _ heap (hall _ rfl) (by simp [Stage.start]) (fun s hs => hs.heap)
    (by simp))
  intro _
  apply Triple.bind (acquire_spec _ fence (hall _ rfl) (by simp [Stage.start])
    (fun s hs => (hs.bound_eq rfl _).trans hfence) (by simp))
  intro _
  apply Triple.bind (openFence_spec (hall _ rfl) (Stage.fill_self ..))
  intro _
  apply Triple.bind (acquire_spec _ fence (hall _ rfl) (by simp [Stage.start]) (fun s hs => hs.fence)
    (by simp))
  intro _
  refine Triple.consequence (importHipObjects_spec heap fence (hall _ rfl) (by simp [hunfilled])
    (by simp) (by simp) (by simp [Stage.start]) (by simp [Stage.start]))
    (fun s hs => hs) (fun _ s hs => ?_) fun s hs => hs
  exact ⟨hle, hs⟩

theorem sources_released (h : s.process.resources.Balanced (s.buffer.resources ++ (s.sources ++ others))) :
    (s.process.resources.releaseAll s.sources).Balanced (s.buffer.resources ++ others) := by
  apply Ledger.Balanced.releaseAll
  apply h.perm
  rw [← List.append_assoc, ← List.append_assoc]
  exact List.perm_append_comm.append_right _

theorem sources_eq_nil (hheap : s.slots .sourceHeapHandle = none)
    (hfence : s.slots .sourceFenceHandle = none) : s.sources = [] := by
  simp [Initializing.sources, hheap, hfence, List.reduceOption]

/-- What is made of the last stage, once only the buffer owns something. -/
theorem At.made {device : ℤ} {sizeBytes bytes : UInt64} {a : Adapter} {heap fence : ℕ}
    (h : At p others (stage.imported heap fence) s) (hdevice : stage.device = device)
    (hsizes : stage.sizes = initializeSizes sizeBytes) (hadapter : stage.adapter = some a)
    (hheap : stage.filled .heapHandle = some heap) (hfence : stage.filled .fenceHandle = some fence)
    (ha : machine.Matches device a) (hobject : (p.objects ++ stage.objects)[heap]? = some (.heap bytes))
    (hle : sizeBytes ≤ bytes) {resources : Ledger Resource}
    (hbalanced : resources.Balanced (s.buffer.resources ++ others)) :
    Made machine p others device sizeBytes stage.objects stage.names heap fence
      { s with process := { s.process with resources := resources } } where
  objects := h.objects
  names := h.names
  counter := h.counter
  holds := h.holds hheap hfence
  complete := ⟨h.device.trans hdevice, h.sizes.trans hsizes, a, h.adapter.trans hadapter, ha⟩
  fits := ⟨bytes, (congrArg (·[heap]?) h.objects).trans hobject, hle⟩
  balanced := hbalanced

theorem Broken.unmade (h : Broken p others terms.allowed [.sourceHeapHandle, .sourceFenceHandle]
    terms.excuse s) : Unmade p others terms s where
  grown := h.grown
  balanced := by
    have hbalanced := h.balanced
    rw [sources_eq_nil (h.null _ (by simp)) (h.null _ (by simp))] at hbalanced
    exact hbalanced
  excused := h.excused

end

/-- The terms of an initializer that has no handles of its own. -/
def Terms.ofNames {machine : Machine} (allowed : List String) {excuse : Prop}
    (excused : (∃ n, machine.succeeds n = false) → excuse) : Terms machine :=
  ⟨allowed, [.sourceHeapHandle, .sourceFenceHandle], excuse, excused⟩

section
variable {machine : Machine} {p : Process} {others : List Handle} {allowed : List String} {excuse : Prop}
  {excused : (∃ n, machine.succeeds n = false) → excuse}

/-- A buffer that is made or not. -/
abbrev Makes (p : Process) (others : List Handle) (terms : Terms machine) (device : ℤ)
    (sizeBytes : UInt64) (initializer : Initializer Unit) (objects : List KernelObject)
    (names : List (String × ℕ)) (heap fence : ℕ) : Prop :=
  Triple (At p others (.start device sizeBytes)) initializer
    (fun _ => Made machine p others device sizeBytes objects names heap fence)
    (Unmade p others terms)

theorem initializeCreator_makes (device : ℤ) (sizeBytes : UInt64) (baseName : String)
    (hmemory : baseName ++ ".memory" ∈ allowed) (hfence : baseName ++ ".fence" ∈ allowed)
    (hne : baseName ++ ".memory" ≠ baseName ++ ".fence")
    (hbound : ∀ name ∈ [baseName ++ ".memory", baseName ++ ".fence"], p.bound name = none ∨ excuse)
    (hadapter : (∀ a, ¬ machine.Matches device a) → excuse)
    (hfits : sizeBytes ≤ alignHeapSize sizeBytes ∨ excuse) :
    Makes p others (.ofNames allowed excused) device sizeBytes
      (initializeCreator machine device baseName) [.heap (alignHeapSize sizeBytes), .fence]
      [(baseName ++ ".fence", p.objects.length + 1), (baseName ++ ".memory", p.objects.length)]
      p.objects.length (p.objects.length + 1) := by
  have hspec : Steps p others (.ofNames allowed excused) _ _ _ := initializeCreator_spec device sizeBytes
    baseName (by simp [Terms.ofNames]) hmemory hfence hne hbound hadapter hfits
  refine hspec.consequence (fun s hs => hs) (fun _ s hs => ?_) fun s hs => hs.unmade
  obtain ⟨a, ha, hle, hs⟩ := hs
  have hsources := sources_eq_nil (hs.slot_none.mpr rfl) (hs.slot_none.mpr rfl)
  have hbalanced := hs.balanced
  rw [hsources] at hbalanced
  refine hs.made rfl rfl rfl (by simp) (by simp) ha ?_ hle hbalanced
  simp [Stage.fill, Stage.useFence, Stage.useHeap, Stage.bindTo, Stage.start]

theorem initializeOpener_makes (device : ℤ) (sizeBytes : UInt64) (baseName : String) {heap fence : ℕ}
    {bytes : UInt64} (hmemory : p.bound (baseName ++ ".memory") = some heap)
    (hfence : p.bound (baseName ++ ".fence") = some fence)
    (hobject : p.objects[heap]? = some (.heap bytes))
    (hadapter : (∀ a, ¬ machine.Matches device a) → excuse) (hfits : sizeBytes ≤ bytes ∨ excuse) :
    Makes p others (.ofNames allowed excused) device sizeBytes
      (initializeOpener machine device baseName) [] [] heap fence := by
  unfold initializeOpener
  have hbind : Steps p others (.ofNames allowed excused) (.start device sizeBytes) _ _ :=
    bindDevice_spec ⟨by simp [Stage.start], fun _ _ => rfl⟩ device hadapter
  refine Triple.bind (hbind.consequence (fun s hs => hs) (fun _ s hs => hs) fun s hs => hs.unmade) ?_
  intro _
  apply Triple.of_exists
  intro a
  apply Triple.of_and
  intro ha
  have hopen : Steps p others ⟨allowed, [], excuse, excused⟩ _ _ _ :=
    openPeerObjects_spec device sizeBytes baseName a rfl hmemory hfence hobject hfits
  apply Triple.bind (Triple.tryCatch hopen ?_)
  · intro _
    apply Triple.of_and
    intro hle
    apply Triple.modify
    intro s hs
    refine hs.made rfl rfl rfl (by simp) (by simp) ha ?_ hle (sources_released hs.balanced)
    simpa [Stage.fill, Stage.useFence, Stage.useHeap, Stage.bindTo, Stage.start] using hobject
  · intro error
    refine Triple.bind (Q := fun _ => Unmade p others (.ofNames allowed excused)) (Triple.modify ?_)
      fun _ => .throw fun s hs => hs
    intro s hs
    exact ⟨⟨hs.grown.objects, hs.grown.names, hs.grown.counter⟩, sources_released hs.balanced,
      hs.excused⟩

end
end MultiGpuTransport.Shim.Buffers
