import MultiGpuTransport.Shim.D3D12Calls
import MultiGpuTransport.Shim.Handles

/-!
# The calling thread's current device

The D3D12 transport selects devices on the thread that calls it: while it is created, in every
AllReduce, and while it is destroyed. The workers of the other dispatch are threads of their own, and
the real library leaves the current device as it is.
-/
namespace MultiGpuTransport.Shim
open Transition
open D3D12 (WacDataType HipCall wacD3d12Allreduce)

/-- What the transport does on the calling thread: it selects a device, makes a call that selects none,
or throws. -/
inductive ThreadCall
  | setDevice (device : ℤ)
  | other (operation : String)
  | throw (message : String)
  deriving DecidableEq, Repr

/-- Which of the calls on this thread succeed, and what a failure is reported as. -/
structure HipAnswers where
  succeeds : ℕ → Bool
  message : ℕ → String

/-- The current device, and the number of calls that have been made. -/
structure Hip where
  current : ℕ
  made : ℕ
  deriving DecidableEq, Repr

namespace Hip
variable (answers : HipAnswers)

/-- A selection that fails leaves the current device, and one of a negative number fails. -/
def call (hip : Hip) : ThreadCall → Bool × Hip
  | .setDevice device =>
    if answers.succeeds hip.made = true ∧ 0 ≤ device then (true, ⟨device.toNat, hip.made + 1⟩)
    else (false, ⟨hip.current, hip.made + 1⟩)
  | .other _ => (answers.succeeds hip.made, ⟨hip.current, hip.made + 1⟩)
  | .throw _ => (false, hip)

/-- Calls up to the first that fails. -/
def perform : List ThreadCall → Hip → Bool × Hip
  | [], hip => (true, hip)
  | c :: cs, hip =>
    let (ok, hip) := hip.call answers c
    if ok then perform cs hip else (false, hip)

/-- Calls whose results are ignored. -/
def performAll (calls : List ThreadCall) (hip : Hip) : Hip :=
  calls.foldl (fun hip c => (hip.call answers c).2) hip

end Hip

/-! ### The transport's life -/

def importHipObjects (device : ℤ) : List ThreadCall :=
  [.setDevice device, .other "hipImportExternalMemory(D3D12Heap)",
    .other "hipExternalMemoryGetMappedBuffer", .other "hipImportExternalSemaphore(D3D12Fence)"]

def initializeCreator (device : ℤ) : List ThreadCall :=
  [.other "bind_device", .other "ID3D12Device::CreateHeap(cross-adapter)",
    .other "ID3D12Device::CreatePlacedResource", .other "ID3D12Device::CreateSharedHandle(memory)",
    .other "ID3D12Device::CreateFence(cross-adapter)",
    .other "ID3D12Device::CreateSharedHandle(fence)"] ++ importHipObjects device

def initializeOpener (device : ℤ) : List ThreadCall :=
  [.other "bind_device", .other "ID3D12Device::OpenSharedHandleByName(memory)",
    .other "ID3D12Device::OpenSharedHandle(memory)", .other "ID3D12Device::CreatePlacedResource",
    .other "ID3D12Device::CreateSharedHandle(peer memory)",
    .other "ID3D12Device::OpenSharedHandleByName(fence)",
    .other "ID3D12Device::OpenSharedHandle(fence)",
    .other "ID3D12Device::CreateSharedHandle(peer fence)"] ++ importHipObjects device

/-- The destructor of a buffer; its releases select no device. -/
def destroyBuffer (device : ℤ) : List ThreadCall := if 0 ≤ device then [.setDevice device] else []

/-- The destructor of a transport, and those of its buffers, the last one made first. -/
def destroyTransport (zero one : ℤ) (buffers : List ℤ) : List ThreadCall :=
  [.setDevice zero, .other "hipDeviceSynchronize", .setDevice one, .other "hipDeviceSynchronize"] ++
    buffers.flatMap destroyBuffer

section
variable (answers : HipAnswers)

/-- The buffers still to be made; where one fails, the transport goes with those that are there. -/
def createBuffers (zero one : ℤ) : List ℤ → List (ℤ × List ThreadCall) → Hip → Bool × Hip
  | _, [], hip => (true, hip)
  | made, (device, calls) :: rest, hip =>
    let (ok, hip) := hip.perform answers calls
    if ok then createBuffers zero one (device :: made) rest hip
    else (false, hip.performAll answers (destroyTransport zero one (device :: made)))

def createTransport (zero one : ℤ) (maxSizeBytes : ℕ) (hip : Hip) : Bool × Hip :=
  if maxSizeBytes = 0 then (false, hip)
  else createBuffers answers zero one [] [(zero, initializeCreator zero),
    (one, initializeCreator one), (zero, initializeOpener zero), (one, initializeOpener one)] hip

end

def threadCall : HipCall → ThreadCall
  | .setDevice device => .setDevice device
  | .onStream operation _ _ _ => .other operation
  | .throw message => .throw message

/-- The calls of wac_d3d12_allreduce, which do not depend on the epoch and on what the buffers hold. -/
def allReduceCalls (clique : CliqueContext) (type : WacDataType) (zero one : PendingAllReduce) :
    List ThreadCall :=
  let device (rank : ℕ) := clique.devices.getD rank (-1)
  match wacD3d12Allreduce (wacD3d12Create (device 0) (device 1) clique.d3d12BufferBytes 0) type
    (rankCalls (zero.wacCall (device 0)) (one.wacCall (device 1)) fun _ => []) with
  | .ok (_, calls) => calls.map threadCall
  | .error _ => []

/-! ### Entry points -/

/-- The devices ncclCommInitAll creates a transport for. -/
def InitArgs.transportDevices (args : InitArgs) : Option (ℤ × ℤ) :=
  if args.commsNull = true ∨ args.ndev ≤ 0 ∨ args.config.mode = .rccl then none
  else
    match args.devices with
    | [zero, one] => some (zero, one)
    | _ => none

/-- The devices of the transport that goes with the last communicator of its clique. -/
def HandleState.releasedDevices (st : HandleState) (handle : ℕ) : Option (ℤ × ℤ) :=
  match st.asPluginComm handle with
  | none => none
  | some wrapper =>
    if wrapper.comm.clique.d3d12 = true ∧
        ∀ other ∈ st.live, other.id ≠ handle → other.comm.clique ≠ wrapper.comm.clique then
      some (wrapper.comm.clique.devices.getD 0 (-1), wrapper.comm.clique.devices.getD 1 (-1))
    else none

structure DeviceState where
  handles : HandleState
  hip : Hip

/-- What the transport answers. -/
def Env.withTransport (env : Env) (ok : Bool) (message : String) : Env :=
  { env with
    d3d12AllReduce := fun _ => if ok then .ok () else .error message
    d3d12Create := fun _ => if ok then .ok () else .error message }

section
variable (answers : HipAnswers)

/-- What the transport does in an entry point. -/
def HandleCall.transportPart (st : DeviceState) : HandleCall → Bool × Hip
  | groupEnd =>
    match st.handles.thread.group.d3d12Pair with
    | some (type, zero, one) => st.hip.perform answers (allReduceCalls zero.comm.clique type zero one)
    | none => (true, st.hip)
  | commInitAll args =>
    match args.transportDevices with
    | some (zero, one) => createTransport answers zero one args.config.d3d12BufferBytes st.hip
    | none => (true, st.hip)
  | commDestroy handle =>
    match st.handles.releasedDevices handle with
    | some (zero, one) =>
      (true, st.hip.performAll answers (destroyTransport zero one [one, zero, one, zero]))
    | none => (true, st.hip)
  | _ => (true, st.hip)

def HandleCall.execOnDevice (env : Env) (call : HandleCall) (st : DeviceState) :
    NcclResult × DeviceState :=
  let (ok, hip) := call.transportPart answers st
  let (result, handles) := call.exec (env.withTransport ok (answers.message hip.made)) st.handles
  (result, ⟨handles, hip⟩)

end

/-- The devices of the transport that an entry point uses, if it uses one. -/
def HandleCall.usesDevices (st : HandleState) : HandleCall → Option (ℤ × ℤ)
  | groupEnd => do
    let (_, zero, _) ← st.thread.group.d3d12Pair
    if zero.count = 0 then none
    else some (zero.comm.clique.devices.getD 0 (-1), zero.comm.clique.devices.getD 1 (-1))
  | commInitAll args => if args.config.d3d12BufferBytes = 0 then none else args.transportDevices
  | commDestroy handle => st.releasedDevices handle
  | _ => none

/-- The entry point uses no transport, or both devices of the one it uses are the current one. -/
def HandleCall.KeepsDevice (st : DeviceState) (call : HandleCall) : Prop :=
  ∀ pair ∈ call.usesDevices st.handles, pair.1 = st.hip.current ∧ pair.2 = st.hip.current

/-! ### Which devices are selected -/

namespace Hip
variable {answers : HipAnswers}

theorem call_current {hip : Hip} {c : ThreadCall} (h : ∀ d : ℤ, c = .setDevice d → d = hip.current) :
    (hip.call answers c).2.current = hip.current := by
  cases c with
  | setDevice d =>
    have hd := h d rfl
    rw [call]
    split_ifs
    · exact Int.toNat_natCast hip.current ▸ congrArg Int.toNat hd
    · rfl
  | other operation => rfl
  | throw message => rfl

/-- Calls that select only the current device leave it, wherever they fail. -/
theorem perform_current {calls : List ThreadCall} {hip : Hip}
    (h : ∀ d : ℤ, .setDevice d ∈ calls → d = hip.current) :
    (hip.perform answers calls).2.current = hip.current := by
  induction calls generalizing hip with
  | nil => rfl
  | cons c calls ih =>
    have hfirst : (hip.call answers c).2.current = hip.current :=
      call_current fun d hd => h d (hd ▸ List.mem_cons_self)
    rw [perform]
    dsimp only
    split_ifs
    · refine (ih fun d hd => ?_).trans hfirst
      rw [hfirst]
      exact h d (List.mem_cons_of_mem c hd)
    · exact hfirst

theorem performAll_current {calls : List ThreadCall} {hip : Hip}
    (h : ∀ d : ℤ, .setDevice d ∈ calls → d = hip.current) :
    (hip.performAll answers calls).current = hip.current := by
  induction calls generalizing hip with
  | nil => rfl
  | cons c calls ih =>
    have hfirst : (hip.call answers c).2.current = hip.current :=
      call_current fun d hd => h d (hd ▸ List.mem_cons_self)
    refine (ih fun d hd => ?_).trans hfirst
    rw [hfirst]
    exact h d (List.mem_cons_of_mem c hd)

end Hip

section
variable {answers : HipAnswers} {hip : Hip} {zero one : ℤ}

theorem destroyTransport_selects {buffers : List ℤ} {d : ℤ}
    (h : .setDevice d ∈ destroyTransport zero one buffers) : d = zero ∨ d = one ∨ d ∈ buffers := by
  simp only [destroyTransport, List.mem_append, List.mem_cons, ThreadCall.setDevice.injEq, reduceCtorEq,
    List.not_mem_nil, List.mem_flatMap, destroyBuffer, false_or, or_false] at h
  rcases h with (rfl | rfl) | ⟨buffer, hbuffer, h⟩
  · exact .inl rfl
  · exact .inr (.inl rfl)
  · split_ifs at h
    · simp only [List.mem_singleton, ThreadCall.setDevice.injEq] at h
      exact .inr (.inr (h ▸ hbuffer))
    · cases h

theorem createBuffers_current (hzero : zero = hip.current) (hone : one = hip.current)
    {made : List ℤ} {todo : List (ℤ × List ThreadCall)} (hmade : ∀ d ∈ made, d = hip.current)
    (htodo : ∀ buffer ∈ todo, buffer.1 = hip.current ∧
      ∀ d : ℤ, .setDevice d ∈ buffer.2 → d = hip.current) :
    (createBuffers answers zero one made todo hip).2.current = hip.current := by
  induction todo generalizing made hip with
  | nil => rfl
  | cons buffer todo ih =>
    obtain ⟨device, calls⟩ := buffer
    rw [List.forall_mem_cons] at htodo
    obtain ⟨⟨hdevice, hcalls⟩, htodo⟩ := htodo
    have hnext : (hip.perform answers calls).2.current = hip.current := Hip.perform_current hcalls
    have hmade' : ∀ d ∈ device :: made, d = hip.current := List.forall_mem_cons.mpr ⟨hdevice, hmade⟩
    rw [createBuffers]
    dsimp only
    split_ifs
    · rw [← hnext] at hzero hone hmade' htodo ⊢
      exact ih hzero hone hmade' htodo
    · refine (Hip.performAll_current fun d hd => ?_).trans hnext
      rw [hnext]
      rcases destroyTransport_selects hd with rfl | rfl | hd
      · exact hzero
      · exact hone
      · exact hmade' d hd

theorem createTransport_current (hzero : zero = hip.current) (hone : one = hip.current)
    (maxSizeBytes : ℕ) :
    (createTransport answers zero one maxSizeBytes hip).2.current = hip.current := by
  rw [createTransport]
  split_ifs
  · rfl
  · refine createBuffers_current hzero hone (List.forall_mem_nil _) ?_
    simp [initializeCreator, initializeOpener, importHipObjects, hzero, hone]

theorem destroyTransport_current (hzero : zero = hip.current) (hone : one = hip.current) :
    (hip.performAll answers (destroyTransport zero one [one, zero, one, zero])).current =
      hip.current := by
  refine Hip.performAll_current fun d hd => ?_
  rcases destroyTransport_selects hd with rfl | rfl | hd
  · exact hzero
  · exact hone
  · simp only [List.mem_cons, List.not_mem_nil, or_false] at hd
    rcases hd with rfl | rfl | rfl | rfl <;> assumption

end

theorem rankCalls_selects {transport : D3D12.Transport} {type : WacDataType} {epoch : ℕ} {rank : Rank}
    {call : D3D12.RankCall} {device : ℕ}
    (h : .setDevice device ∈ transport.rankCalls type epoch rank call) :
    device = transport.devices rank := by
  rw [D3D12.Transport.rankCalls] at h
  split_ifs at h with hdevice
  · simp at h
  · rcases List.mem_cons.mp h with heq | h
    · exact (HipCall.setDevice.inj heq).trans (not_not.mp hdevice)
    · rw [D3D12.enqueueRank] at h
      split_ifs at h
      · cases h
      · simpa using h

/-- A call of the transport selects the devices of its ranks, and none where there is no data. -/
theorem wacD3d12Allreduce_selects {transport next : D3D12.Transport} {type : WacDataType}
    {calls : Rank → D3D12.RankCall} {hip : List HipCall}
    (h : wacD3d12Allreduce transport type calls = .ok (next, hip)) {device : ℕ}
    (hmem : .setDevice device ∈ hip) :
    (calls .zero).count ≠ 0 ∧ ∃ rank, device = transport.devices rank := by
  simp only [wacD3d12Allreduce] at h
  split_ifs at h with hmatch hfits hcount
  · cases h
    cases hmem
  · cases h
    refine ⟨hcount, ?_⟩
    rcases List.mem_append.mp hmem with hmem | hmem
    · exact ⟨.zero, rankCalls_selects hmem⟩
    · exact ⟨.one, rankCalls_selects hmem⟩

theorem allReduceCalls_selects {clique : CliqueContext} {type : WacDataType}
    {zero one : PendingAllReduce} {d : ℤ} (h : .setDevice d ∈ allReduceCalls clique type zero one) :
    zero.count ≠ 0 ∧ ∃ rank : Rank, d = (clique.devices.getD rank.index (-1)).toNat := by
  rw [allReduceCalls] at h
  dsimp only at h
  split at h
  · rename_i next calls hcalls
    obtain ⟨c, hc, hd⟩ := List.mem_map.mp h
    cases c with
    | setDevice device =>
      obtain ⟨hcount, rank, hdevice⟩ := wacD3d12Allreduce_selects hcalls hc
      refine ⟨hcount, rank, (ThreadCall.setDevice.inj hd).symm.trans ?_⟩
      rw [hdevice]
      cases rank <;> rfl
    | onStream operation rank stream op => cases hd
    | throw message => cases hd
  · cases h

/-! ### The current device is kept -/

section
variable {answers : HipAnswers}

theorem transportPart_current {st : DeviceState} {call : HandleCall} (h : call.KeepsDevice st) :
    (call.transportPart answers st).2.current = st.hip.current := by
  cases call with
  | groupStart => rfl
  | allReduce args => rfl
  | groupEnd =>
    rw [HandleCall.transportPart]
    cases hpair : st.handles.thread.group.d3d12Pair with
    | none => rfl
    | some sent =>
      obtain ⟨type, zero, one⟩ := sent
      refine Hip.perform_current fun d hd => ?_
      obtain ⟨hcount, rank, rfl⟩ := allReduceCalls_selects hd
      have huses : HandleCall.groupEnd.usesDevices st.handles =
          some (zero.comm.clique.devices.getD 0 (-1), zero.comm.clique.devices.getD 1 (-1)) := by
        simp only [HandleCall.usesDevices, hpair, Option.bind_eq_bind, Option.bind_some, if_neg hcount]
      obtain ⟨hzero, hone⟩ := h _ huses
      have hdevice : zero.comm.clique.devices.getD rank.index (-1) = st.hip.current := by
        cases rank
        · exact hzero
        · exact hone
      rw [hdevice, Int.toNat_natCast]
  | commInitAll args =>
    rw [HandleCall.transportPart]
    cases hpair : args.transportDevices with
    | none => rfl
    | some pair =>
      obtain ⟨zero, one⟩ := pair
      by_cases hbytes : args.config.d3d12BufferBytes = 0
      · dsimp only
        rw [createTransport, if_pos hbytes]
      · have huses : (HandleCall.commInitAll args).usesDevices st.handles = some (zero, one) :=
          (if_neg hbytes).trans hpair
        obtain ⟨hzero, hone⟩ := h _ huses
        exact createTransport_current hzero hone _
  | commDestroy handle =>
    rw [HandleCall.transportPart]
    cases hpair : st.handles.releasedDevices handle with
    | none => rfl
    | some pair =>
      obtain ⟨hzero, hone⟩ := h pair hpair
      exact destroyTransport_current hzero hone

end

/-- Any calls of one thread that starts with this current device. -/
def deviceSystem (env : Env) (answers : HipAnswers) (device : ℕ) : System DeviceState where
  init st := (handleSystem env).init st.handles ∧ st.hip.current = device
  step st st' := ∃ call : HandleCall, st' = (call.execOnDevice answers env st).2

/-- The runs in which every entry point that uses a transport finds both of its devices current. -/
def keepingSystem (env : Env) (answers : HipAnswers) (device : ℕ) : System DeviceState :=
  (deviceSystem env answers device).restrict fun st st' =>
    ∃ call : HandleCall, st' = (call.execOnDevice answers env st).2 ∧ call.KeepsDevice st

/-- These runs leave the current device alone, whatever succeeds or fails in them. -/
theorem device_kept (env : Env) (answers : HipAnswers) (device : ℕ) {st : DeviceState}
    (h : (keepingSystem env answers device).Reachable st) : st.hip.current = device := by
  refine System.Reachable.invariant (I := fun st => st.hip.current = device)
    (fun st hinit => ?_) (fun st st' _ ih hstep => ?_) h
  · exact hinit.2
  · obtain ⟨-, call, rfl, hkeeps⟩ := hstep
    exact (transportPart_current hkeeps).trans ih

/-! ### The condition is exact -/

/-- Only the first n calls succeed. -/
def HipAnswers.upTo (n : ℕ) : HipAnswers := ⟨fun made => made < n, fun _ => ""⟩

/-- Only one call succeeds. -/
def HipAnswers.only (n : ℕ) : HipAnswers := ⟨fun made => made = n, fun _ => ""⟩

/-- A call that fails leaves the current device, and is the last of its row. -/
theorem Hip.perform_upTo_made (calls : List ThreadCall) (hip : Hip) :
    (hip.perform (.upTo hip.made) calls).2.current = hip.current := by
  cases calls with
  | nil => rfl
  | cons c calls => cases c <;> simp [Hip.perform, Hip.call, HipAnswers.upTo]

/-- Where all goes well up to a selection and nothing after it, the selected device stays current. -/
theorem Hip.perform_upTo (hip : Hip) {before : List ThreadCall} (after : List ThreadCall) {d : ℤ}
    (hd : 0 ≤ d)
    (hbefore : ∀ c ∈ before, (∀ message, c ≠ .throw message) ∧ ∀ d' : ℤ, c = .setDevice d' → 0 ≤ d') :
    (hip.perform (.upTo (hip.made + before.length + 1))
      (before ++ .setDevice d :: after)).2.current = d.toNat := by
  induction before generalizing hip with
  | nil =>
    have hselect : hip.call (.upTo (hip.made + 1)) (.setDevice d) = (true, ⟨d.toNat, hip.made + 1⟩) :=
      by simp [Hip.call, HipAnswers.upTo, hd]
    rw [List.nil_append, Hip.perform, List.length_nil, Nat.add_zero, hselect]
    exact Hip.perform_upTo_made after ⟨d.toNat, hip.made + 1⟩
  | cons c before ih =>
    obtain ⟨hc, hbefore⟩ := List.forall_mem_cons.mp hbefore
    have hmade : (HipAnswers.upTo (hip.made + (before.length + 1) + 1)).succeeds hip.made = true :=
      decide_eq_true (by omega)
    have hcall : ∃ device, hip.call (.upTo (hip.made + (before.length + 1) + 1)) c =
        (true, ⟨device, hip.made + 1⟩) := by
      cases c with
      | setDevice d' =>
        exact ⟨d'.toNat, if_pos ⟨hmade, hc.2 d' rfl⟩⟩
      | other operation => exact ⟨hip.current, by rw [Hip.call, hmade]⟩
      | throw message => exact absurd rfl (hc.1 message)
    obtain ⟨device, hcall⟩ := hcall
    have hlength : hip.made + (before.length + 1) + 1 = hip.made + 1 + before.length + 1 := by omega
    rw [List.cons_append, Hip.perform, List.length_cons, hcall, hlength]
    exact ih ⟨device, hip.made + 1⟩ hbefore

/-- Calls all of which fail leave the current device. -/
theorem Hip.performAll_only_past (calls : List ThreadCall) {n : ℕ} {hip : Hip} (h : n < hip.made) :
    (hip.performAll (.only n) calls).current = hip.current := by
  induction calls generalizing hip with
  | nil => rfl
  | cons c calls ih =>
    have hcall : (hip.call (.only n) c).2.current = hip.current ∧
        n < (hip.call (.only n) c).2.made := by
      cases c <;> simp [Hip.call, HipAnswers.only, h.ne'] <;> omega
    exact (ih hcall.2).trans hcall.1

/-- Where only a selection succeeds, the selected device stays current. -/
theorem Hip.performAll_only (hip : Hip) (before after : List ThreadCall) {d : ℤ} (hd : 0 ≤ d)
    (hbefore : ∀ message, .throw message ∉ before) :
    (hip.performAll (.only (hip.made + before.length)) (before ++ .setDevice d :: after)).current =
      d.toNat := by
  induction before generalizing hip with
  | nil =>
    have hselect : hip.call (.only hip.made) (.setDevice d) = (true, ⟨d.toNat, hip.made + 1⟩) := by
      simp [Hip.call, HipAnswers.only, hd]
    rw [List.length_nil, Nat.add_zero, List.nil_append, Hip.performAll, List.foldl_cons, hselect]
    exact Hip.performAll_only_past after (Nat.lt_succ_self _)
  | cons c before ih =>
    have hmade : hip.made ≠ hip.made + (before.length + 1) := by omega
    have hcall : hip.call (.only (hip.made + (before.length + 1))) c =
        (false, ⟨hip.current, hip.made + 1⟩) := by
      cases c with
      | setDevice d' => simp [Hip.call, HipAnswers.only]
      | other operation => simp [Hip.call, HipAnswers.only]
      | throw message => exact absurd List.mem_cons_self (hbefore message)
    have hlength : hip.made + (before.length + 1) = hip.made + 1 + before.length := by omega
    rw [List.cons_append, Hip.performAll, List.foldl_cons, List.length_cons, hcall, hlength]
    exact ih ⟨hip.current, hip.made + 1⟩ fun message hmem =>
      hbefore message (List.mem_cons_of_mem c hmem)

/-- The end of a transport selects both of its devices. -/
theorem destroyTransport_only {zero one : ℤ} (hzero : 0 ≤ zero) (hone : 0 ≤ one) (buffers : List ℤ)
    (hip : Hip) :
    (hip.performAll (.only hip.made) (destroyTransport zero one buffers)).current = zero.toNat ∧
    (hip.performAll (.only (hip.made + 2)) (destroyTransport zero one buffers)).current =
      one.toNat :=
  ⟨hip.performAll_only [] _ hzero fun _ => List.not_mem_nil,
    hip.performAll_only [.setDevice zero, .other "hipDeviceSynchronize"] _ hone (by simp)⟩

/-- A transport whose first buffer is not made ends at once. -/
theorem createTransport_fails (answers : HipAnswers) (hip : Hip)
    (h : answers.succeeds hip.made = false) {maxSizeBytes : ℕ} (hbytes : maxSizeBytes ≠ 0) (zero one : ℤ) :
    createTransport answers zero one maxSizeBytes hip = (false,
      (Hip.mk hip.current (hip.made + 1)).performAll answers (destroyTransport zero one [zero])) := by
  simp [createTransport, hbytes, createBuffers, initializeCreator, Hip.perform, Hip.call, h]

theorem rankCalls_head {transport : D3D12.Transport} {rank : Rank} {call : D3D12.RankCall}
    (h : call.device = transport.devices rank) (type : WacDataType) (epoch : ℕ) :
    ∃ rest, transport.rankCalls type epoch rank call = .setDevice call.device :: rest :=
  ⟨_, if_neg (not_not.mpr h)⟩

/-- A call the transport takes selects the device of rank zero first, and later that of rank one. -/
theorem wacD3d12Allreduce_calls {transport next : D3D12.Transport} {type : WacDataType}
    {calls : Rank → D3D12.RankCall} {hip : List HipCall}
    (h : wacD3d12Allreduce transport type calls = .ok (next, hip)) (hcount : (calls .zero).count ≠ 0)
    (hdevice : ∀ r, (calls r).device = transport.devices r) : ∃ before after,
      hip = .setDevice (calls .zero).device :: before ++ .setDevice (calls .one).device :: after := by
  obtain ⟨before, hbefore⟩ := rankCalls_head (hdevice .zero) type (transport.epoch + 1)
  obtain ⟨after, hafter⟩ := rankCalls_head (hdevice .one) type (transport.epoch + 1)
  simp only [wacD3d12Allreduce] at h
  split_ifs at h
  cases h
  exact ⟨before, after, by rw [hbefore, hafter]⟩

theorem allReduceCalls_eq {type : WacDataType} {zero one : PendingAllReduce} (h : Fits type zero one)
    (hzero : zero.send ≠ 0 ∧ zero.recv ≠ 0) (hone : one.send ≠ 0 ∧ one.recv ≠ 0)
    (hcount : zero.count ≠ 0) : ∃ before after,
      allReduceCalls zero.comm.clique type zero one =
        .setDevice zero.comm.device.toNat :: before ++ .setDevice one.comm.device.toNat :: after ∧
      ∀ c ∈ before, (∀ message, c ≠ .throw message) ∧ ∀ d : ℤ, c = .setDevice d → 0 ≤ d := by
  obtain ⟨hdevice, hdevice'⟩ := h.inOrder.getD_device h.transport (-1)
  obtain ⟨next, hip, hok, hthrow, -⟩ := h.transportAccepts hzero hone 0 fun _ => []
  have howns (r : Rank) : (rankCalls (zero.wacCall zero.comm.device) (one.wacCall one.comm.device)
      (fun _ => []) r).device = (wacD3d12Create zero.comm.device one.comm.device
        zero.comm.clique.d3d12BufferBytes 0).devices r := by
    cases r <;> rfl
  obtain ⟨before, after, rfl⟩ := wacD3d12Allreduce_calls hok hcount howns
  refine ⟨before.map threadCall, after.map threadCall, ?_, fun c hc => ?_⟩
  · rw [allReduceCalls]
    simp only [hdevice, hdevice', hok]
    rw [List.map_append, List.map_cons, List.map_cons]
    rfl
  · obtain ⟨call, hcall, rfl⟩ := List.mem_map.mp hc
    cases call with
    | setDevice device => simp [threadCall]
    | onStream operation rank stream op => simp [threadCall]
    | throw message =>
      exact absurd (List.mem_append_left _ (List.mem_cons_of_mem _ hcall)) (hthrow message)

/-- Every call that is kept in a run has its buffers. -/
theorem kept_buffers {env : Env} {answers : HipAnswers} {device : ℕ} {st : DeviceState}
    (h : (deviceSystem env answers device).Reachable st) :
    ∀ kept ∈ st.handles.thread.group.calls, kept.send ≠ 0 ∧ kept.recv ≠ 0 := by
  refine System.Reachable.invariant
    (I := fun st => ∀ kept ∈ st.handles.thread.group.calls, kept.send ≠ 0 ∧ kept.recv ≠ 0)
    (fun st hinit => ?_) (fun st st' _ ih hstep => ?_) h
  · rw [hinit.1.1]
    exact List.forall_mem_nil _
  · obtain ⟨call, rfl⟩ := hstep
    exact buffers_exec ih call

/-- In a run, an entry point leaves the current device alone, whatever is answered in it, only under
that condition. -/
theorem keepsDevice_iff {env : Env} {answers : HipAnswers} {device : ℕ} {st : DeviceState}
    (hst : (deviceSystem env answers device).Reachable st) {call : HandleCall}
    (hdevices : ∀ pair ∈ call.usesDevices st.handles, 0 ≤ pair.1 ∧ 0 ≤ pair.2) :
    (∀ answers, (call.execOnDevice answers env st).2.hip.current = st.hip.current) ↔
      call.KeepsDevice st := by
  have hkept := kept_buffers hst
  refine ⟨fun h pair hpair => ?_, fun h answers => transportPart_current h⟩
  replace h (answers : HipAnswers) :
    (call.transportPart answers st).2.current = st.hip.current := h answers
  obtain ⟨hzero, hone⟩ := hdevices pair hpair
  have hcast {d : ℤ} (hd : 0 ≤ d) (h : d.toNat = st.hip.current) : d = st.hip.current := by omega
  cases call with
  | groupStart => cases hpair
  | allReduce args => cases hpair
  | groupEnd =>
    cases hsent : st.handles.thread.group.d3d12Pair with
    | none => simp [HandleCall.usesDevices, hsent] at hpair
    | some sent =>
      obtain ⟨type, zero, one⟩ := sent
      simp only [HandleCall.usesDevices, hsent, Option.bind_eq_bind, Option.bind_some,
        Option.mem_def, Option.ite_none_left_eq_some, Option.some.injEq] at hpair
      obtain ⟨hcount, rfl⟩ := hpair
      have hpairs := d3d12Pair_eq_some.mp hsent
      have hfits := hpairs.fits
      obtain ⟨hmem, hmem'⟩ := hpairs.mem
      obtain ⟨hdevice, hdevice'⟩ := hfits.inOrder.getD_device hfits.transport (-1)
      obtain ⟨before, after, hcalls, hbefore⟩ :=
        allReduceCalls_eq hfits (hkept zero hmem) (hkept one hmem') hcount
      simp only [hdevice, hdevice'] at hzero hone ⊢
      rw [Int.toNat_of_nonneg hzero, Int.toNat_of_nonneg hone] at hcalls
      simp only [HandleCall.transportPart, hsent, hcalls] at h
      refine ⟨hcast hzero ?_, hcast hone ?_⟩
      · rw [← h (.upTo (st.hip.made + 1))]
        exact (st.hip.perform_upTo _ hzero (List.forall_mem_nil _)).symm
      · have hfirst : ∀ c ∈ .setDevice zero.comm.device :: before,
            (∀ message, c ≠ ThreadCall.throw message) ∧ ∀ d : ℤ, c = .setDevice d → 0 ≤ d :=
          List.forall_mem_cons.mpr ⟨by simp [hzero], hbefore⟩
        rw [← h (.upTo (st.hip.made + (before.length + 1) + 1))]
        exact (st.hip.perform_upTo after hone hfirst).symm
  | commInitAll args =>
    simp only [HandleCall.usesDevices, Option.mem_def, Option.ite_none_left_eq_some] at hpair
    obtain ⟨hbytes, hpair⟩ := hpair
    have hfails (n : ℕ) := createTransport_fails (.only (st.hip.made + 1 + n)) st.hip
      (decide_eq_false (by omega)) hbytes pair.1 pair.2
    simp only [HandleCall.transportPart, hpair] at h
    obtain ⟨hselectsZero, hselectsOne⟩ :=
      destroyTransport_only hzero hone [pair.1] ⟨st.hip.current, st.hip.made + 1⟩
    refine ⟨hcast hzero ?_, hcast hone ?_⟩
    · rw [← h (.only (st.hip.made + 1)), hfails 0]
      exact hselectsZero.symm
    · rw [← h (.only (st.hip.made + 1 + 2)), hfails 2]
      exact hselectsOne.symm
  | commDestroy handle =>
    have hreleased : st.handles.releasedDevices handle = some pair := hpair
    simp only [HandleCall.transportPart, hreleased] at h
    obtain ⟨hselectsZero, hselectsOne⟩ :=
      destroyTransport_only hzero hone [pair.2, pair.1, pair.2, pair.1] st.hip
    exact ⟨hcast hzero (hselectsZero.symm.trans (h _)), hcast hone (hselectsOne.symm.trans (h _))⟩

/-! ### A pair on devices 0 and 1 -/

def allSucceed : HipAnswers := ⟨fun _ => true, fun _ => ""⟩

/-- Both communicators, on a thread whose current device is the first one's. -/
def sampleOnDevice : DeviceState :=
  ⟨⟨.start, [⟨0, sampleComm .zero⟩, ⟨1, sampleComm .one⟩], [], 2⟩, ⟨0, 0⟩⟩

def sampleCalls : List HandleCall :=
  [.groupStart, .allReduce ⟨100, 200, 4, .float32, .sum, 0, 1⟩,
    .allReduce ⟨100, 200, 4, .float32, .sum, 1, 1⟩]

def afterCalls (calls : List HandleCall) : DeviceState :=
  calls.foldl (fun st call => (call.execOnDevice allSucceed sampleEnv st).2) sampleOnDevice

theorem sampleOnDevice_init : (deviceSystem sampleEnv allSucceed 0).init sampleOnDevice :=
  ⟨⟨rfl, rfl, by decide, by decide⟩, rfl⟩

/-- A clique whose two ranks are on the first device. -/
def sampleInitArgs : InitArgs where
  commsNull := false
  ndev := 2
  devlist := some fun _ => 0
  config := ⟨.hybrid, .threaded, true, 64, 0, 64⟩
  address := 2

/-- A group that is too large for the transport, and a clique from its start to its end. -/
def keepingCalls : List HandleCall :=
  [.groupStart, .allReduce ⟨100, 200, 32, .float32, .sum, 0, 1⟩,
    .allReduce ⟨100, 200, 32, .float32, .sum, 1, 1⟩, .groupEnd,
    .commInitAll sampleInitArgs, .commDestroy 2, .commDestroy 3]

theorem device_kept_sample : (afterCalls keepingCalls).hip.current = 0 ∧
    (afterCalls keepingCalls).hip.made = 52 ∧
    (afterCalls keepingCalls).handles.thread.issues.map Issue.backend =
      [.rcclThreaded, .rcclThreaded] ∧
    (afterCalls keepingCalls).handles.live = sampleOnDevice.handles.live := by
  have hkept : (afterCalls keepingCalls).hip.current = 0 := by
    refine device_kept sampleEnv allSucceed 0 (.step (.step (.step (.step (.step (.step (.step
      (.init sampleOnDevice_init)
      ⟨⟨.groupStart, rfl⟩, .groupStart, rfl, ?_⟩) ⟨⟨.allReduce _, rfl⟩, .allReduce _, rfl, ?_⟩)
      ⟨⟨.allReduce _, rfl⟩, .allReduce _, rfl, ?_⟩) ⟨⟨.groupEnd, rfl⟩, .groupEnd, rfl, ?_⟩)
      ⟨⟨.commInitAll _, rfl⟩, .commInitAll _, rfl, ?_⟩) ⟨⟨.commDestroy _, rfl⟩, .commDestroy _, rfl, ?_⟩)
      ⟨⟨.commDestroy _, rfl⟩, .commDestroy _, rfl, ?_⟩)
    all_goals
      intro pair hpair
      first
      | exact absurd hpair (Option.not_mem_none pair)
      | obtain rfl : ((0 : ℤ), (0 : ℤ)) = pair := Option.some.inj hpair
        exact ⟨rfl, rfl⟩
  exact ⟨hkept, rfl, rfl, rfl⟩

/-- Without a failure the end of this group leaves the second device current. -/
theorem ncclGroupEnd_changes_device :
    ∃ st, (deviceSystem sampleEnv allSucceed 0).Reachable st ∧ st.hip.current = 0 ∧
      (HandleCall.groupEnd.execOnDevice allSucceed sampleEnv st).1 = .success ∧
      (HandleCall.groupEnd.execOnDevice allSucceed sampleEnv st).2.hip.current = 1 := by
  refine ⟨afterCalls sampleCalls, ?_, rfl, rfl, rfl⟩
  exact .step (.step (.step (.init sampleOnDevice_init) ⟨.groupStart, rfl⟩) ⟨.allReduce _, rfl⟩)
    ⟨.allReduce _, rfl⟩

end MultiGpuTransport.Shim
