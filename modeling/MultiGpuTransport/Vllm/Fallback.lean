import MultiGpuTransport.Vllm.Routing
import MultiGpuTransport.Vllm.SharedMemorySteps

/-!
# Fallback of all_reduce

The router asks only the D3D12 transport whether it can handle a tensor. The tensor is then given to
RCCL or to the mapped-host transport, where one is constructed, whatever these check themselves, and to
the host-staged one only where there is neither.
-/
namespace MultiGpuTransport.Vllm
open Collectives Fallible Constructor D3D12 MappedHost

/-! What a backend's all_reduce raises when no native step of it fails: its own checks. -/

def d3d12Check (comm : D3D12AllReduce) (tensor : Tensor) : Except PyError Unit :=
  (comm.allReduce ⟨tensor, 0, none⟩ ⟨0, []⟩).1.map fun _ => ()

def sharedMemoryCheck (comm : SharedMemoryAllReduce) (tensor : Tensor) : Except PyError Unit :=
  (comm.allReduce ⟨tensor, 0, none⟩ .start).1.map fun _ => ()

def deviceCheck (device : ℕ) (tensor : Tensor) : Except PyError Unit :=
  if tensor.device ≠ device then
    .error (.valueError s!"tensor is on cuda:{tensor.device}, communicator is cuda:{device}")
  else .ok ()

/-- A group of one returns the tensor before RCCL prepares anything. -/
def rcclCheck (worldSize device : ℕ) (tensor : Tensor) : Except PyError Unit :=
  if worldSize = 1 then .ok ()
  else do
    deviceCheck device tensor
    if rcclDtype tensor.dtype = none then
      throw (.typeError s!"RCCL dtype is not supported: {tensor.dtype.name}")

/-- The transports of a rank in a group of some size. Those for two ranks are there in a group of two
only, and the mapped-host one only where neither RCCL nor D3D12 is. -/
structure Transports where
  worldSize : ℕ
  device : ℕ
  comm : WindowsAmdMultiGpuCommunicator
  ofPair : comm.d3d12.isSome = true ∨ comm.fastAllReduce.isSome = true → worldSize = 2
  fast_iff : worldSize = 2 →
    (comm.fastAllReduce.isSome = true ↔ comm.rccl = false ∧ comm.d3d12 = none)
  d3d12_eq : ∀ d3d12 ∈ comm.d3d12, d3d12.1.device = some device ∧
    d3d12.1.maxSizeBytes = d3d12.2.maxSizeBytes ∧ d3d12.1.ownOpen = true ∧ d3d12.1.peerOpen = true
  fast_eq : ∀ fast ∈ comm.fastAllReduce, fast.device = device ∧
    (fast.useStreamPath = true → fast.kernel = true)

namespace Transports
variable (transports : Transports) (tensor : Tensor)

/-- The backend is constructed and its own checks pass. -/
def accepts : Backend → Bool
  | .d3d12 => transports.comm.d3d12.any fun d3d12 => (d3d12Check d3d12.1 tensor).isOk
  | .rccl => transports.comm.rccl &&
      (rcclCheck transports.worldSize transports.device tensor).isOk
  | .mappedHost => transports.comm.fastAllReduce.any fun fast => (sharedMemoryCheck fast tensor).isOk
  | .glooHost => (deviceCheck transports.device tensor).isOk

/-- The backend that gives the result, or what all_reduce raises. -/
def allReduce : Except PyError Backend :=
  match transports.comm.d3d12.filter fun d3d12 => canHandle d3d12.2 tensor with
  | some d3d12 => (d3d12Check d3d12.1 tensor).map fun _ => .d3d12
  | none =>
    if transports.comm.rccl then
      (rcclCheck transports.worldSize transports.device tensor).map fun _ => .rccl
    else
      match transports.comm.fastAllReduce with
      | some fast => (sharedMemoryCheck fast tensor).map fun _ => .mappedHost
      | none => (deviceCheck transports.device tensor).map fun _ => .glooHost

/-- What all_reduce is to guarantee: it returns if some backend accepts the tensor, and the backend
it routes to is one that does. -/
def FallsBack : Prop :=
  (∃ backend, transports.accepts tensor backend = true) →
    ∃ backend, transports.allReduce tensor = .ok backend ∧
      transports.accepts tensor backend = true

/-- The checks of the backend that gets the tensor pass, or the tensor is on another device. -/
def Served : Prop :=
  tensor.device ≠ transports.device ∨
  (∃ d3d12 ∈ transports.comm.d3d12, canHandle d3d12.2 tensor = true) ∨
  if transports.comm.rccl then transports.worldSize = 1 ∨ rcclDtype tensor.dtype ≠ none
  else ∀ fast ∈ transports.comm.fastAllReduce, tensor.sizeBytes ≤ fast.maxSizeBytes

end Transports

theorem isOk_deviceCheck {device : ℕ} {tensor : Tensor} :
    (deviceCheck device tensor).isOk = true ↔ tensor.device = device := by
  unfold deviceCheck
  split_ifs with h <;> simp [h]
  exact not_not.mp h

theorem isOk_rcclCheck {worldSize device : ℕ} {tensor : Tensor} :
    (rcclCheck worldSize device tensor).isOk = true ↔
      worldSize = 1 ∨ tensor.device = device ∧ rcclDtype tensor.dtype ≠ none := by
  unfold rcclCheck
  by_cases hsize : worldSize = 1
  · simp [hsize]
  · rw [if_neg hsize]
    unfold deviceCheck
    by_cases hdevice : tensor.device = device <;>
      by_cases hdtype : rcclDtype tensor.dtype = none <;>
        simp [hsize, hdevice, hdtype, bind, Except.bind, pure, Except.pure, throw, throwThe,
          MonadExceptOf.throw]

/-- An all_reduce of the D3D12 transport none of whose native steps fails returns what it accepts. -/
theorem isOk_d3d12_allReduce (comm : D3D12AllReduce) (call : Call D3D12.NativeStep)
    (hfault : call.fault = none) (st : HostState (StreamId × D3D12.Op)) :
    (comm.allReduce call st).1.isOk = true ↔ comm.Accepts call.tensor := by
  constructor
  · intro h
    unfold D3D12AllReduce.allReduce at h
    dsimp only at h
    split_ifs at h with hclosed hdevice hdtype hempty hlarge
    all_goals try cases h
    all_goals simp only [Bool.or_eq_true, Bool.not_eq_true', not_or, Bool.not_eq_false] at hclosed
    · exact ⟨hclosed.1, hclosed.2, not_not.mp hdevice, by simpa using hdtype, by omega⟩
    · exact ⟨hclosed.1, hclosed.2, not_not.mp hdevice, by simpa using hdtype, by omega⟩
  · intro h
    by_cases hempty : call.tensor.sizeBytes = 0
    · rw [D3D12AllReduce.allReduce_empty h hempty]
      rfl
    · rw [(D3D12AllReduce.allReduce_result h hempty st _).mpr ⟨rfl, hfault⟩]
      rfl

/-- The same of the mapped-host transport, which must have its kernel and an epoch left. -/
theorem isOk_sharedMemory_allReduce (comm : SharedMemoryAllReduce) (call : Call MappedHost.NativeStep)
    (hfault : call.fault = none) (st : State) (hepoch : st.epoch < epochLimit)
    (hkernel : comm.useStreamPath = true → comm.kernel = true) :
    (comm.allReduce call st).1.isOk = true ↔
      call.tensor.device = comm.device ∧ call.tensor.sizeBytes ≤ comm.maxSizeBytes := by
  cases hroute : comm.route st.epoch call.tensor with
  | none =>
    obtain ⟨error, herror⟩ := (SharedMemoryAllReduce.allReduce_of_route_none hroute).1
    rw [herror]
    refine iff_of_false (by simp) fun h => ?_
    simp only [SharedMemoryAllReduce.route] at hroute
    split_ifs at hroute with hchecks hpath hlimit
    · rcases hchecks with hdevice | hsize
      · exact hdevice h.1
      · omega
    · simp only [Bool.and_eq_true] at hpath
      simp [hkernel hpath.1, Nat.not_le.mpr hepoch] at hlimit
  | some route =>
    rw [SharedMemoryAllReduce.allReduce_of_route hroute]
    have hok := (perform_ok MappedHost.nativeError call.fault
      (route.steps comm.rank st.calls call)).mpr (by simp [hfault])
    refine iff_of_true (by simp [hok, Except.map]) ?_
    simp only [SharedMemoryAllReduce.route] at hroute
    split_ifs at hroute with hchecks
    all_goals
      simp only [not_or, not_not, gt_iff_lt, not_lt] at hchecks
      exact hchecks

section
variable {transports : Transports} {tensor : Tensor}

theorem isOk_d3d12Check {d3d12 : D3D12AllReduce × PayloadRange}
    (h : d3d12 ∈ transports.comm.d3d12) : (d3d12Check d3d12.1 tensor).isOk = true ↔
      tensor.device = transports.device ∧ tensor.dtype.isNative = true ∧
        tensor.sizeBytes ≤ d3d12.2.maxSizeBytes := by
  obtain ⟨hdevice, hmax, hown, hpeer⟩ := transports.d3d12_eq d3d12 h
  rw [d3d12Check, isOk_map, isOk_d3d12_allReduce _ _ rfl]
  constructor
  · intro haccepts
    have hsame := hdevice.symm.trans haccepts.onDevice
    exact ⟨(Option.some.inj hsame).symm, haccepts.native, hmax ▸ haccepts.fits⟩
  · rintro ⟨hsame, hnative, hfits⟩
    exact ⟨hown, hpeer, hdevice.trans (congrArg some hsame.symm), hnative, hmax ▸ hfits⟩

theorem isOk_sharedMemoryCheck {fast : SharedMemoryAllReduce}
    (h : fast ∈ transports.comm.fastAllReduce) : (sharedMemoryCheck fast tensor).isOk = true ↔
      tensor.device = transports.device ∧ tensor.sizeBytes ≤ fast.maxSizeBytes := by
  obtain ⟨hdevice, hkernel⟩ := transports.fast_eq fast h
  rw [sharedMemoryCheck, isOk_map, isOk_sharedMemory_allReduce fast _ rfl _ (by decide) hkernel,
    hdevice]

/-- What the D3D12 transport can handle it accepts. -/
theorem isOk_of_canHandle {d3d12 : D3D12AllReduce × PayloadRange}
    (h : d3d12 ∈ transports.comm.d3d12) (hdevice : tensor.device = transports.device)
    (hhandle : canHandle d3d12.2 tensor = true) : (d3d12Check d3d12.1 tensor).isOk = true := by
  simp only [canHandle, Bool.and_eq_true, decide_eq_true_eq] at hhandle
  exact (isOk_d3d12Check h).mpr ⟨hdevice, hhandle.1.1, hhandle.2.2⟩

/-- The backend that all_reduce returns is the one selected for the tensor, and it accepts it. -/
theorem allReduce_eq_ok {backend : Backend} (h : transports.allReduce tensor = .ok backend) :
    backend = transports.comm.allReduceBackend tensor ∧
      transports.accepts tensor backend = true := by
  have hmap : ∀ {result : Except PyError Unit} {b : Backend},
      (result.map fun _ => b) = .ok backend → result.isOk = true ∧ backend = b := by
    intro result b hresult
    cases result with
    | error e => cases hresult
    | ok _ => exact ⟨rfl, (Except.ok.inj hresult).symm⟩
  unfold Transports.allReduce at h
  unfold WindowsAmdMultiGpuCommunicator.allReduceBackend
  split at h
  · rename_i d3d12 hfilter
    obtain ⟨hmem, hhandle⟩ := Option.filter_eq_some_iff.mp hfilter
    obtain ⟨hok, rfl⟩ := hmap h
    simp [Transports.accepts, hmem, hhandle, hok]
  · rename_i hfilter
    have hnone : (transports.comm.d3d12.any fun d3d12 => canHandle d3d12.2 tensor) = false := by
      cases hd3d12 : transports.comm.d3d12 with
      | none => rfl
      | some d3d12 =>
        rw [hd3d12] at hfilter
        simpa [Option.filter] using hfilter
    rw [hnone]
    split_ifs at h with hrccl
    · obtain ⟨hok, rfl⟩ := hmap h
      simp [Transports.accepts, hrccl, hok]
    · split at h
      · rename_i fast hfast
        obtain ⟨hok, rfl⟩ := hmap h
        simp [Transports.accepts, hrccl, hfast, hok]
      · rename_i hfast
        obtain ⟨hok, rfl⟩ := hmap h
        simp [Transports.accepts, hrccl, hfast, hok]

/-- When all_reduce returns, by the branches of the router. -/
theorem isOk_allReduce : (transports.allReduce tensor).isOk = true ↔
    (∃ d3d12 ∈ transports.comm.d3d12, canHandle d3d12.2 tensor = true ∧
      tensor.device = transports.device) ∨
    (∀ d3d12 ∈ transports.comm.d3d12, canHandle d3d12.2 tensor = false) ∧
      if transports.comm.rccl then transports.worldSize = 1 ∨
        tensor.device = transports.device ∧ rcclDtype tensor.dtype ≠ none
      else tensor.device = transports.device ∧
        ∀ fast ∈ transports.comm.fastAllReduce, tensor.sizeBytes ≤ fast.maxSizeBytes := by
  unfold Transports.allReduce
  split
  · rename_i d3d12 hfilter
    obtain ⟨hmem, hhandle⟩ := Option.filter_eq_some_iff.mp hfilter
    rw [isOk_map]
    constructor
    · exact fun hok => .inl ⟨d3d12, hmem, hhandle, ((isOk_d3d12Check hmem).mp hok).1⟩
    · rintro (⟨other, hother, -, hdevice⟩ | ⟨hnone, -⟩)
      · exact isOk_of_canHandle hmem hdevice hhandle
      · exact absurd (hnone d3d12 hmem) (by simp [hhandle])
  · rename_i hfilter
    have hnone : ∀ d3d12 ∈ transports.comm.d3d12, canHandle d3d12.2 tensor = false := by
      simpa [Option.filter_eq_none_iff] using hfilter
    have hnot : ¬ ∃ d3d12 ∈ transports.comm.d3d12, canHandle d3d12.2 tensor = true ∧
        tensor.device = transports.device := by
      rintro ⟨d3d12, hmem, hhandle, -⟩
      simp [hnone d3d12 hmem] at hhandle
    rw [or_iff_right hnot, and_iff_right hnone]
    by_cases hrccl : transports.comm.rccl = true
    · rw [if_pos hrccl, if_pos hrccl, isOk_map, isOk_rcclCheck]
    · rw [if_neg hrccl, if_neg hrccl]
      cases hfast : transports.comm.fastAllReduce with
      | none => simp [isOk_map, isOk_deviceCheck]
      | some fast => simp [isOk_map, isOk_sharedMemoryCheck hfast]

/-- A tensor on another device is accepted only by RCCL in a group of one. -/
theorem worldSize_of_accepts (hdevice : tensor.device ≠ transports.device) {backend : Backend}
    (h : transports.accepts tensor backend = true) :
    transports.comm.rccl = true ∧ transports.worldSize = 1 := by
  cases backend with
  | d3d12 =>
    obtain ⟨d3d12, hmem, hok⟩ := (Option.any_eq_true _ _).mp h
    exact (hdevice ((isOk_d3d12Check hmem).mp hok).1).elim
  | rccl =>
    simp only [Transports.accepts, Bool.and_eq_true, isOk_rcclCheck] at h
    exact ⟨h.1, h.2.resolve_right fun hsame => hdevice hsame.1⟩
  | mappedHost =>
    obtain ⟨fast, hmem, hok⟩ := (Option.any_eq_true _ _).mp h
    exact (hdevice ((isOk_sharedMemoryCheck hmem).mp hok).1).elim
  | glooHost => exact (hdevice (isOk_deviceCheck.mp h)).elim

/-- all_reduce falls back exactly when the backend that gets the tensor takes it: D3D12, which is
asked, RCCL, if it has the dtype, or the mapped-host transport, if the tensor fits its slots. -/
theorem allReduce_fallsBack_iff (transports : Transports) (tensor : Tensor) :
    transports.FallsBack tensor ↔ transports.Served tensor := by
  constructor
  · intro h
    by_cases hdevice : tensor.device = transports.device
    · obtain ⟨backend, hok, -⟩ := h ⟨.glooHost, isOk_deviceCheck.mpr hdevice⟩
      have hcases := isOk_allReduce.mp (by rw [hok]; rfl)
      rcases hcases with ⟨d3d12, hmem, hhandle, -⟩ | ⟨-, hrest⟩
      · exact .inr (.inl ⟨d3d12, hmem, hhandle⟩)
      · refine .inr (.inr ?_)
        split_ifs at hrest ⊢
        · exact hrest.imp_right And.right
        · exact hrest.2
    · exact .inl hdevice
  · rintro hserved ⟨backend, haccepts⟩
    have hok : (transports.allReduce tensor).isOk = true := by
      rw [isOk_allReduce]
      by_cases hdevice : tensor.device = transports.device
      · by_cases hhandle : ∃ d3d12 ∈ transports.comm.d3d12, canHandle d3d12.2 tensor = true
        · obtain ⟨d3d12, hmem, hhandle⟩ := hhandle
          exact .inl ⟨d3d12, hmem, hhandle, hdevice⟩
        · have hrest := (hserved.resolve_left (not_not.mpr hdevice)).resolve_left hhandle
          refine .inr ⟨fun d3d12 hmem => ?_, ?_⟩
          · exact Bool.not_eq_true _ ▸ fun h => hhandle ⟨d3d12, hmem, h⟩
          · split_ifs at hrest ⊢
            · exact hrest.imp_right fun hdtype => ⟨hdevice, hdtype⟩
            · exact ⟨hdevice, hrest⟩
      · obtain ⟨hrccl, hone⟩ := worldSize_of_accepts hdevice haccepts
        refine .inr ⟨fun d3d12 hmem => ?_, by simp [hrccl, hone]⟩
        have := transports.ofPair (.inl (Option.isSome_of_mem hmem))
        omega
    obtain ⟨backend', hbackend⟩ : ∃ backend', transports.allReduce tensor = .ok backend' := by
      cases hresult : transports.allReduce tensor with
      | error e => simp [hresult] at hok
      | ok backend' => exact ⟨backend', rfl⟩
    exact ⟨backend', hbackend, (allReduce_eq_ok hbackend).2⟩

end

/-! ### The transports of two constructed communicators -/

section
variable {rank : Rank}

theorem returns_d3d12_open {loc : Local} {h : InitHistory} :
    Returns processGroup rank (D3D12AllReduce.init rank loc)
      (fun d3d12 _ => d3d12.1 = ⟨rank, loc.device, d3d12.2.maxSizeBytes, true, true⟩) h := by
  refine .attempt_bind fun range _ => .attempt_bind fun _ _ =>
    (returns_true _ _).bind fun received _ _ => ?_
  match received with
  | none => exact returns_throw _
  | some base =>
    refine .attempt_bind fun _ _ => .attempt_bind fun _ _ => ?_
    exact (returns_true _ _).bind fun _ _ _ => (returns_true _ _).bind fun _ _ _ =>
      (returns_true _ _).bind fun _ _ _ => (returns_true _ _).bind fun _ _ _ => returns_pure.mpr rfl

/-- The stream path is used only where the own kernel is there. -/
theorem returns_sharedMemory_kernel {Act : Type} {loc : SharedMemoryLocal}
    {h : History Act GroupCollective} :
    Returns processGroup rank (SharedMemoryAllReduce.init rank loc)
      (fun fast _ => fast.device = loc.device ∧ (fast.useStreamPath = true → fast.kernel = true))
      h := by
  refine .attempt_bind fun _ _ => .attempt_bind fun maxSize _ => .attempt_bind fun _ _ =>
    (returns_true _ _).bind fun received h' _ => ?_
  match received with
  | none | some (.name _) | some (.uniqueId _) => exact returns_throw _
  | some (.mapping _ _ maxSizeBytes) =>
    dsimp only
    by_cases hsize : maxSizeBytes ≠ maxSize
    · rw [if_pos hsize]
      exact returns_throw _
    · rw [if_neg hsize]
      refine .attempt_bind fun _ _ => .attempt_bind fun _ _ => .attempt_bind fun _ _ =>
        .attempt_bind fun _ _ => .attempt_bind fun _ _ => .attempt_bind fun _ _ =>
        .attempt_bind fun path hpath => ?_
      obtain ⟨kernel, available⟩ := path
      have hmin : ∀ h : History Act GroupCollective, Returns processGroup rank
          (allReduceMin available) (fun useStreamPath _ => useStreamPath = true → available = true)
          h := by
        intro h
        simp [Fallible.Returns]
      refine (hmin _).bind fun useStreamPath _ hpathSet => (returns_true _ _).bind fun _ _ _ =>
        returns_pure.mpr ⟨rfl, fun hset => ?_⟩
      obtain rfl := hpathSet hset
      exact SharedMemoryLocal.kernel_of_streamPath hpath

theorem returns_init_transports {env : Environment} {h : InitHistory} :
    Returns processGroup rank (WindowsAmdMultiGpuCommunicator.init rank env)
      (fun comm _ =>
        (∀ d3d12 ∈ comm.d3d12,
          d3d12.1 = ⟨rank, env.d3d12.device, d3d12.2.maxSizeBytes, true, true⟩) ∧
        ∀ fast ∈ comm.fastAllReduce, fast.device = env.sharedMemory.device ∧
          (fast.useStreamPath = true → fast.kernel = true)) h := by
  have hd3d12 : ∀ h, Returns processGroup rank (constructD3D12 rank env) (fun d3d12 _ =>
      ∀ d ∈ d3d12, d.1 = ⟨rank, env.d3d12.device, d.2.maxSizeBytes, true, true⟩) h := by
    intro h
    unfold constructD3D12
    split_ifs
    · refine .attempt_bind fun _ _ => returns_d3d12_open.bind fun d3d12 _ hopen =>
        returns_pure.mpr ?_
      rintro _ ⟨⟩
      exact hopen
    · exact returns_pure.mpr (by simp)
  have hfast : ∀ other h, Returns processGroup rank (constructFastAllReduce rank env other)
      (fun fastAllReduce _ => ∀ fast ∈ fastAllReduce, fast.device = env.sharedMemory.device ∧
        (fast.useStreamPath = true → fast.kernel = true)) h := by
    intro other h
    unfold constructFastAllReduce
    split_ifs
    · refine returns_sharedMemory_kernel.bind fun fast _ hkernel => returns_pure.mpr ?_
      rintro _ ⟨⟩
      exact hkernel
    · exact returns_pure.mpr (by simp)
  exact .attempt_bind fun _ _ => .attempt_bind fun _ _ => .attempt_bind fun _ _ =>
    (hd3d12 _).bind fun _ _ hopen => (returns_true _ _).bind fun _ _ _ =>
    (hfast _ _).bind fun _ _ hkernel => returns_pure.mpr ⟨hopen, hkernel⟩

/-- What two constructors that return have constructed, for a rank whose transports are all given its
own device. -/
theorem exists_transports {env : Rank → Environment} {comm : Rank → WindowsAmdMultiGpuCommunicator}
    (h : Constructed env comm) (r : Rank) {device : ℕ}
    (hdevice : (env r).d3d12.device = some device)
    (hdevice' : (env r).sharedMemory.device = device) :
    ∃ transports : Transports, transports.worldSize = 2 ∧ transports.device = device ∧
      transports.comm = comm r := by
  obtain ⟨c, hc, hcomm⟩ := h
  obtain ⟨hd3d12, hfast⟩ := returns_init_transports.reachable
    (fun rank => WindowsAmdMultiGpuCommunicator.init rank (env rank)) hc (hcomm r)
  obtain ⟨-, hsome, hrccl, hfastSome, -⟩ := returns_init.reachable
    (fun rank => WindowsAmdMultiGpuCommunicator.init rank (env rank)) hc (hcomm r)
  refine ⟨⟨2, device, comm r, fun _ => rfl, fun _ => ?_, fun d3d12 hmem => ?_, fun fast hmem => ?_⟩,
    rfl, rfl, rfl⟩
  · rw [hfastSome, ← hsome, ← hrccl, Bool.not_eq_true', Bool.or_eq_false_iff,
      Option.isSome_eq_false_iff, Option.isNone_iff_eq_none]
  · rw [hd3d12 d3d12 hmem]
    exact ⟨hdevice, rfl, rfl, rfl⟩
  · exact hdevice' ▸ hfast fast hmem

end

/-- A group of two whose ranks have RCCL alone. -/
def rcclAlone : Transports where
  worldSize := 2
  device := 0
  comm := ⟨none, true, none⟩
  ofPair := by simp
  fast_iff := by simp
  d3d12_eq := by simp
  fast_eq := by simp

/-- One boolean. -/
def oneFlag : Tensor := ⟨.bool, [1], 0, [1], rfl⟩

/-- The host-staged transport accepts a tensor of booleans, and RCCL, which gets it, does not. -/
theorem rcclAlone_not_fallsBack : rcclAlone.accepts oneFlag .glooHost = true ∧
    ¬ rcclAlone.FallsBack oneFlag := by
  have hgloo : rcclAlone.accepts oneFlag .glooHost = true :=
    isOk_deviceCheck.mpr (rfl : oneFlag.device = rcclAlone.device)
  refine ⟨hgloo, fun h => ?_⟩
  obtain ⟨backend, hok, -⟩ := h ⟨_, hgloo⟩
  have hcases := isOk_allReduce.mp (by rw [hok]; rfl)
  simp [rcclAlone, oneFlag, rcclDtype] at hcases

end MultiGpuTransport.Vllm
