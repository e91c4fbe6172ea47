import MultiGpuTransport.Vllm.Communicator

/-!
# Routing of an all_reduce

Two constructors that both return have made the same collectives, and so the same transports. What
they have not compared is the payload range of the D3D12 transport: the ranks route alike exactly when
their ranges hold the same even sizes.
-/
namespace MultiGpuTransport.Vllm
open Collectives Fallible Constructor D3D12 MappedHost Transition

/-- The kinds of the collectives of a constructor with the given transports. -/
def transportKinds (d3d12 rccl : Bool) : List CollectiveKind :=
  (if d3d12 then [.broadcastObjectList, .allReduceMin, .allReduceMin] else []) ++
  (if rccl then [.broadcastObjectList, .commInitRank] else []) ++
  (if d3d12 || rccl then [] else [.broadcastObjectList, .allReduceMin, .barrierWait])

section
variable {Act : Type} {rank : Rank}

/-- The history goes on with collectives of these kinds. -/
def Extends (kinds : List CollectiveKind) (h h' : History Act GroupCollective) : Prop :=
  h'.contributed.map GroupCollective.kind = h.contributed.map GroupCollective.kind ++ kinds

theorem Extends.trans {kinds kinds' : List CollectiveKind} {h h' h'' : History Act GroupCollective}
    (hk : Extends kinds h h') (hk' : Extends kinds' h' h'') : Extends (kinds ++ kinds') h h'' := by
  rw [Extends, hk', hk, List.append_assoc]

theorem returns_broadcastObjectList {object : Option BroadcastObject}
    {h : History Act GroupCollective} :
    Returns processGroup rank (broadcastObjectList object)
      (fun _ h' => Extends [.broadcastObjectList] h h') h := by
  simp [Fallible.Returns, Extends]

theorem returns_allReduceMin {flag : Bool} {h : History Act GroupCollective} :
    Returns processGroup rank (allReduceMin flag)
      (fun _ h' => Extends [.allReduceMin] h h') h := by
  simp [Fallible.Returns, Extends]

theorem returns_exchangeUniqueId {bytes : Bytes} {h : History Act GroupCollective} :
    Returns processGroup rank (exchangeUniqueId bytes)
      (fun _ h' => Extends [.commInitRank] h h') h := by
  refine Returns.bind (returns_exchange.mpr fun y _ => ?_) fun y h' hE => returns_pure.mpr hE
  simp [Extends, GroupCollective.kind]

theorem returns_waitBarrier {h : History Act GroupCollective} :
    Returns processGroup rank waitBarrier (fun _ h' => Extends [.barrierWait] h h') h := by
  refine Returns.bind (returns_exchange.mpr fun y _ => ?_) fun y h' hE => returns_pure.mpr hE
  simp [Extends, GroupCollective.kind]

theorem returns_rccl {loc : RcclLocal} {h : History Act GroupCollective} :
    Returns processGroup rank (RcclCommunicator.init rank loc)
      (fun _ h' => Extends [.broadcastObjectList, .commInitRank] h h') h := by
  refine .attempt_bind fun _ _ => .attempt_bind fun _ _ => .attempt_bind fun _ _ =>
    .attempt_bind fun _ _ => returns_broadcastObjectList.bind fun received h' hE => ?_
  match received with
  | none | some (.name _) | some (.mapping _ _ _) => exact returns_throw _
  | some (.uniqueId bytes) =>
    dsimp only
    split_ifs
    · exact returns_throw _
    · exact returns_exchangeUniqueId.bind fun _ _ hE' =>
        returns_attempt.mpr fun _ _ => hE.trans hE'

theorem returns_sharedMemory {loc : SharedMemoryLocal} {h : History Act GroupCollective} :
    Returns processGroup rank (SharedMemoryAllReduce.init rank loc)
      (fun _ h' => Extends [.broadcastObjectList, .allReduceMin, .barrierWait] h h') h := by
  refine .attempt_bind fun _ _ => .attempt_bind fun maxSize _ => .attempt_bind fun _ _ =>
    returns_broadcastObjectList.bind fun received h' hE => ?_
  match received with
  | none | some (.name _) | some (.uniqueId _) => exact returns_throw _
  | some (.mapping _ _ maxSizeBytes) =>
    dsimp only
    by_cases hsize : maxSizeBytes ≠ maxSize
    · rw [if_pos hsize]
      exact returns_throw _
    · rw [if_neg hsize]
      refine .attempt_bind fun _ _ => .attempt_bind fun _ _ => .attempt_bind fun _ _ =>
        .attempt_bind fun _ _ => .attempt_bind fun _ _ => .attempt_bind fun _ _ =>
        .attempt_bind fun path _ => ?_
      exact returns_allReduceMin.bind fun _ _ hE' => returns_waitBarrier.bind fun _ _ hE'' =>
        returns_pure.mpr (hE.trans (hE'.trans hE''))

end

section
variable {rank : Rank}

theorem returns_agreeOrRaise {localError : Option PyError} {operation : String}
    {held : List Buffer} {h : InitHistory} :
    Returns processGroup rank (agreeOrRaise localError operation held)
      (fun _ h' => Extends [.allReduceMin] h h') h := by
  refine returns_allReduceMin.bind fun available h' hE => ?_
  dsimp only
  split_ifs
  · exact returns_pure.mpr hE
  · exact (returns_true _ _).bind fun _ _ _ => returns_throw _

/-- What is done to the buffers is no collective. -/
theorem returns_createOwn {loc : Local} {heap : HeapName} {h : InitHistory} :
    Returns processGroup rank (createOwn loc heap) (fun _ h' => Extends [] h h') h := by
  unfold createOwn
  cases loc.createHeap <;> simp [Fallible.Returns, Extends]

theorem returns_openPeer {loc : Local} {heap : HeapName} {h : InitHistory} :
    Returns processGroup rank (openPeer loc heap) (fun _ h' => Extends [] h h') h := by
  unfold openPeer
  cases loc.openHeap <;> simp [Fallible.Returns, Extends]

theorem returns_d3d12 {loc : Local} {h : InitHistory} :
    Returns processGroup rank (D3D12AllReduce.init rank loc)
      (fun d3d12 h' => Extends [.broadcastObjectList, .allReduceMin, .allReduceMin] h h' ∧
        loc.payloadRange = .ok d3d12.2) h := by
  refine .attempt_bind fun range hrange => .attempt_bind fun _ _ =>
    returns_broadcastObjectList.bind fun received h' hE => ?_
  match received with
  | none => exact returns_throw _
  | some base =>
    refine .attempt_bind fun _ _ => .attempt_bind fun _ _ =>
      returns_createOwn.bind fun _ _ hcreate => returns_agreeOrRaise.bind fun _ _ hagree =>
      returns_openPeer.bind fun _ _ hopen => returns_agreeOrRaise.bind fun _ _ hagree' =>
      returns_pure.mpr ⟨?_, hrange⟩
    exact hE.trans (hcreate.trans (hagree.trans (hopen.trans hagree')))

/-- The range a communicator has is the one its rank is configured with. -/
def HasRange (env : Environment) (d3d12 : Option (D3D12AllReduce × PayloadRange)) : Prop :=
  ∀ transport ∈ d3d12, env.d3d12.payloadRange = .ok transport.2

theorem returns_constructD3D12 {env : Environment} {h : InitHistory} :
    Returns processGroup rank (constructD3D12 rank env)
      (fun d3d12 h' => Extends (if d3d12.isSome then
          [.broadcastObjectList, .allReduceMin, .allReduceMin] else []) h h' ∧
        d3d12.isSome = env.d3d12Requested ∧ HasRange env d3d12) h := by
  unfold constructD3D12
  split_ifs with hrequested
  · refine .attempt_bind fun _ _ => returns_d3d12.bind fun d3d12 h' hE => returns_pure.mpr ?_
    refine ⟨hE.1, hrequested.symm, ?_⟩
    rintro _ ⟨⟩
    exact hE.2
  · refine returns_pure.mpr ⟨by simp [Extends], by simpa using hrequested, ?_⟩
    rintro _ ⟨⟩

theorem returns_constructRccl {env : Environment} {h : InitHistory} :
    Returns processGroup rank (constructRccl rank env)
      (fun rccl h' => Extends (if rccl then [.broadcastObjectList, .commInitRank] else []) h h' ∧
        rccl = env.rcclRequested) h := by
  unfold constructRccl
  split_ifs with hrequested
  · exact returns_rccl.bind fun _ h' hE => returns_pure.mpr ⟨hE, hrequested.symm⟩
  · exact returns_pure.mpr ⟨by simp [Extends], by simpa using hrequested⟩

theorem returns_constructFastAllReduce {env : Environment} {other : Bool} {h : InitHistory} :
    Returns processGroup rank (constructFastAllReduce rank env other)
      (fun fastAllReduce h' => Extends (if other then [] else
          [.broadcastObjectList, .allReduceMin, .barrierWait]) h h' ∧
        fastAllReduce.isSome = !other) h := by
  unfold constructFastAllReduce
  cases other
  · exact returns_sharedMemory.bind fun _ h' hE => returns_pure.mpr ⟨hE, rfl⟩
  · exact returns_pure.mpr ⟨by simp [Extends], rfl⟩

/-- A constructor that returns has made the collectives of the transports it has, and has those its
environment asks for. -/
theorem returns_init {env : Environment} {h : InitHistory} :
    Returns processGroup rank (WindowsAmdMultiGpuCommunicator.init rank env)
      (fun comm h' =>
        Extends (transportKinds env.d3d12Requested env.rcclRequested) h h' ∧
        comm.d3d12.isSome = env.d3d12Requested ∧ comm.rccl = env.rcclRequested ∧
        comm.fastAllReduce.isSome = !(env.rcclRequested || env.d3d12Requested) ∧
        HasRange env comm.d3d12) h := by
  refine .attempt_bind fun _ _ => .attempt_bind fun _ _ => .attempt_bind fun _ _ =>
    returns_constructD3D12.bind fun d3d12 _ hd3d12 => returns_constructRccl.bind fun rccl _ hrccl =>
    returns_constructFastAllReduce.bind fun fastAllReduce _ hfast => returns_pure.mpr ?_
  obtain ⟨hE, hsome, hrange⟩ := hd3d12
  obtain ⟨hE', rfl⟩ := hrccl
  obtain ⟨hE'', hfast⟩ := hfast
  rw [hsome] at hE hE'' hfast
  refine ⟨?_, hsome, rfl, hfast, hrange⟩
  rw [transportKinds, List.append_assoc, Bool.or_comm]
  exact hE.trans (hE'.trans hE'')

/-- Both ranks in the constructors of their communicators, at any interleaving. -/
def constructing (env : Rank → Environment) :
    System (Config BufferAction GroupCollective (Except PyError WindowsAmdMultiGpuCommunicator)) :=
  Collectives.system processGroup fun rank =>
    (WindowsAmdMultiGpuCommunicator.init rank (env rank)).run

/-- Both constructors have returned. -/
def Constructed (env : Rank → Environment) (comm : Rank → WindowsAmdMultiGpuCommunicator) : Prop :=
  ∃ c, (constructing env).Reachable c ∧ ∀ r, (c r).program = .ret (.ok (comm r))

/-- Where the collectives of one rank begin those of another, and the others are broadcasts only,
both have the same transports. -/
theorem transportKinds_injective {d3d12 rccl d3d12' rccl' : Bool}
    (hbegins : transportKinds d3d12 rccl <+: transportKinds d3d12' rccl')
    (hrest : ∀ (k : ℕ), (transportKinds d3d12' rccl')[k]? = some CollectiveKind.commInitRank →
      (transportKinds d3d12 rccl)[k]? = some CollectiveKind.commInitRank) :
    d3d12 = d3d12' ∧ rccl = rccl' := by
  cases d3d12 <;> cases rccl <;> cases d3d12' <;> cases rccl' <;>
    first
    | exact ⟨rfl, rfl⟩
    | exact absurd hbegins (by decide)
    | exact absurd (hrest 4 rfl) (by decide)

section
variable {env : Rank → Environment} {comm : Rank → WindowsAmdMultiGpuCommunicator}

/-- Two constructors that both return were asked for the same transports. -/
theorem requested_eq_of_constructed (h : Constructed env comm) :
    (env .one).d3d12Requested = (env .zero).d3d12Requested ∧
    (env .one).rcclRequested = (env .zero).rcclRequested := by
  obtain ⟨c, hc, hcomm⟩ := h
  have hkinds : ∀ r, (c r).history.contributed.map GroupCollective.kind =
      transportKinds (env r).d3d12Requested (env r).rcclRequested := by
    intro r
    have hE := (returns_init.reachable
      (fun rank => WindowsAmdMultiGpuCommunicator.init rank (env rank)) hc (hcomm r)).1
    simpa [Extends] using hE
  -- what a rank waits for in a collective is one of the same kind
  have hsame : ∀ (r : Rank) (k : ℕ) (kind : CollectiveKind),
      (r = .one ∨ kind ≠ CollectiveKind.broadcastObjectList) →
      ((c r).history.contributed.map GroupCollective.kind)[k]? = some kind →
      ((c r.peer).history.contributed.map GroupCollective.kind)[k]? = some kind := by
    intro r k kind hwaits hkind
    rw [List.getElem?_map, Option.map_eq_some_iff] at hkind
    obtain ⟨x, hx, rfl⟩ := hkind
    obtain ⟨y, hy, hagree⟩ := agree_of_finished hc ⟨_, hcomm r⟩ hx (by
      cases r <;> simp_all [processGroup])
    simp only [processGroup, beq_iff_eq] at hagree
    rw [List.getElem?_map, hy, hagree]
    rfl
  have hprefix : transportKinds (env .one).d3d12Requested (env .one).rcclRequested <+:
      transportKinds (env .zero).d3d12Requested (env .zero).rcclRequested := by
    rw [← hkinds .one, ← hkinds .zero, List.prefix_iff_getElem?]
    intro k hk
    exact hsame .one k _ (.inl rfl) (List.getElem?_eq_getElem hk)
  refine transportKinds_injective hprefix fun k hk => ?_
  rw [← hkinds .zero] at hk
  rw [← hkinds .one]
  exact hsame .zero k _ (.inr (by decide)) hk

end

end

/-- The least and the greatest m such that a tensor of 2 * m bytes is in the range. -/
def low (range : PayloadRange) : ℕ := (max range.minSizeBytes 1 + 1) / 2

def high (range : PayloadRange) : ℕ := range.maxSizeBytes / 2

/-- The even sizes in the range are the same, or there are none in either. -/
def SameSizes (range range' : PayloadRange) : Prop :=
  (low range = low range' ∧ high range = high range') ∨
  (high range < low range ∧ high range' < low range')

theorem even_sizeBytes {t : Tensor} (h : t.dtype.isNative = true) : ∃ m, t.sizeBytes = 2 * m := by
  have hsize : t.dtype.elementSize = 2 ∨ t.dtype.elementSize = 4 := by
    generalize t.dtype = d at h
    simp only [Dtype.isNative, List.mem_cons, List.not_mem_nil, or_false, decide_eq_true_eq] at h
    rcases h with rfl | rfl | rfl
    · exact .inl rfl
    · exact .inr rfl
    · exact .inl rfl
  rcases hsize with h2 | h4
  · exact ⟨t.numel, by rw [Tensor.sizeBytes, h2, Nat.mul_comm]⟩
  · exact ⟨2 * t.numel, by rw [Tensor.sizeBytes, h4]; omega⟩

/-- The supported tensors of a range are those of the even sizes between its ends. -/
theorem canHandle_iff {range : PayloadRange} {t : Tensor} {m : ℕ} (hm : t.sizeBytes = 2 * m) :
    canHandle range t = true ↔ t.dtype.isNative = true ∧ low range ≤ m ∧ m ≤ high range := by
  simp only [canHandle, hm, low, high, Bool.and_eq_true, decide_eq_true_eq, and_assoc]
  refine and_congr_right fun _ => ?_
  omega

/-- A float16 vector of m zeros. -/
def zeros (m : ℕ) : Tensor where
  dtype := .float16
  shape := [m]
  device := 0
  data := List.replicate (m * 2) 0
  size_eq := by simp [Dtype.elementSize]

@[simp] theorem zeros_sizeBytes (m : ℕ) : (zeros m).sizeBytes = 2 * m := by
  rw [Tensor.sizeBytes, Tensor.numel, zeros, List.prod_singleton, Dtype.elementSize, Nat.mul_comm]

theorem canHandle_zeros {range : PayloadRange} {m : ℕ} :
    canHandle range (zeros m) = true ↔ low range ≤ m ∧ m ≤ high range := by
  rw [canHandle_iff (zeros_sizeBytes m)]
  exact and_iff_right rfl

/-- Two ranges take the same tensors exactly when they hold the same even sizes. -/
theorem canHandle_eq_iff {range range' : PayloadRange} :
    (∀ t u : Tensor, t.SameShape u → canHandle range t = canHandle range' u) ↔
      SameSizes range range' := by
  constructor
  · intro h
    have hsame : ∀ m, (low range ≤ m ∧ m ≤ high range) ↔ (low range' ≤ m ∧ m ≤ high range') := by
      intro m
      rw [← canHandle_zeros, ← canHandle_zeros, h (zeros m) (zeros m) ⟨rfl, rfl⟩]
    unfold SameSizes
    have hlow := hsame (low range)
    have hhigh := hsame (high range)
    have hlow' := hsame (low range')
    have hhigh' := hsame (high range')
    omega
  · intro h t u htu
    by_cases hnative : t.dtype.isNative = true
    · obtain ⟨m, hm⟩ := even_sizeBytes hnative
      have hm' := htu.sizeBytes.symm.trans hm
      rw [Bool.eq_iff_iff, canHandle_iff hm, canHandle_iff hm', htu.1]
      refine and_congr_right fun _ => ?_
      unfold SameSizes at h
      omega
    · have hnative' : ¬ u.dtype.isNative = true := htu.1 ▸ hnative
      simp [canHandle, Bool.not_eq_true _ ▸ hnative, Bool.not_eq_true _ ▸ hnative']

section
variable {env : Rank → Environment} {comm : Rank → WindowsAmdMultiGpuCommunicator}

/-- What the constructors leave to the ranks: the transports are the same, the ranges are each
rank's own. -/
theorem transports_of_constructed (h : Constructed env comm) (r : Rank) :
    (comm r).d3d12.isSome = (env .zero).d3d12Requested ∧
    (comm r).rccl = (comm .zero).rccl ∧
    (comm r).fastAllReduce.isSome = (comm .zero).fastAllReduce.isSome ∧
    HasRange (env r) (comm r).d3d12 := by
  obtain ⟨hd3d12, hrccl⟩ := requested_eq_of_constructed h
  obtain ⟨c, hc, hcomm⟩ := h
  have hinit := fun r => (returns_init.reachable
    (fun rank => WindowsAmdMultiGpuCommunicator.init rank (env rank)) hc (hcomm r)).2
  obtain ⟨hsome, hrcclEq, hfast, hrange⟩ := hinit r
  obtain ⟨-, hrcclEq', hfast', -⟩ := hinit .zero
  have hreq : (env r).d3d12Requested = (env .zero).d3d12Requested ∧
      (env r).rcclRequested = (env .zero).rcclRequested := by
    cases r with
    | zero => exact ⟨rfl, rfl⟩
    | one => exact ⟨hd3d12, hrccl⟩
  exact ⟨by rw [hsome, hreq.1], by rw [hrcclEq, hrcclEq', hreq.2],
    by rw [hfast, hfast', hreq.1, hreq.2], hrange⟩

/-- Without the D3D12 transport, what is selected does not depend on the tensor. -/
theorem allReduceBackend_of_none {comm : WindowsAmdMultiGpuCommunicator} (h : comm.d3d12 = none)
    (t : Tensor) : comm.allReduceBackend t =
      if comm.rccl then .rccl else if comm.fastAllReduce.isSome then .mappedHost else .glooHost := by
  simp [WindowsAmdMultiGpuCommunicator.allReduceBackend, h]

theorem allReduceBackend_eq_d3d12 {comm : WindowsAmdMultiGpuCommunicator}
    {d3d12 : D3D12AllReduce × PayloadRange} (h : comm.d3d12 = some d3d12) (t : Tensor) :
    comm.allReduceBackend t = .d3d12 ↔ canHandle d3d12.2 t = true := by
  unfold WindowsAmdMultiGpuCommunicator.allReduceBackend
  rw [h, Option.any_some]
  split_ifs <;> simp_all

/-- Two ranks with the same transports select alike exactly when both or neither select D3D12. -/
theorem allReduceBackend_eq_iff {comm comm' : WindowsAmdMultiGpuCommunicator}
    {d3d12 d3d12' : D3D12AllReduce × PayloadRange} (h : comm.d3d12 = some d3d12)
    (h' : comm'.d3d12 = some d3d12') (hrccl : comm'.rccl = comm.rccl)
    (hfast : comm'.fastAllReduce.isSome = comm.fastAllReduce.isSome) (t u : Tensor) :
    comm.allReduceBackend t = comm'.allReduceBackend u ↔
      canHandle d3d12.2 t = canHandle d3d12'.2 u := by
  constructor
  · intro heq
    rw [Bool.eq_iff_iff, ← allReduceBackend_eq_d3d12 h, ← allReduceBackend_eq_d3d12 h', heq]
  · intro heq
    unfold WindowsAmdMultiGpuCommunicator.allReduceBackend
    rw [h, h', Option.any_some, Option.any_some, heq, hrccl, hfast]

/-- Where both constructors return, the ranks route every all_reduce alike exactly when D3D12 is not
asked for or both ranks' payload ranges hold the same even sizes. -/
theorem allReduce_sameBackend_iff (h : Constructed env comm) :
    (∀ t u : Tensor, t.SameShape u →
      (comm .zero).allReduceBackend t = (comm .one).allReduceBackend u) ↔
    ((env .zero).d3d12Requested = false ∨
      ∀ range range', (env .zero).d3d12.payloadRange = .ok range →
        (env .one).d3d12.payloadRange = .ok range' → SameSizes range range') := by
  obtain ⟨hsome, -, -, hrange⟩ := transports_of_constructed h .zero
  obtain ⟨hsome', hrccl, hfast, hrange'⟩ := transports_of_constructed h .one
  cases hrequested : (env .zero).d3d12Requested with
  | false =>
    rw [hrequested, Option.isSome_eq_false_iff, Option.isNone_iff_eq_none] at hsome hsome'
    refine iff_of_true (fun t u _ => ?_) (.inl rfl)
    rw [allReduceBackend_of_none hsome, allReduceBackend_of_none hsome', hrccl, hfast]
  | true =>
    rw [hrequested, Option.isSome_iff_exists] at hsome hsome'
    obtain ⟨d3d12, hd3d12⟩ := hsome
    obtain ⟨d3d12', hd3d12'⟩ := hsome'
    have hr := hrange d3d12 hd3d12
    have hr' := hrange' d3d12' hd3d12'
    simp only [allReduceBackend_eq_iff hd3d12 hd3d12' hrccl hfast, canHandle_eq_iff, hr, hr',
      Except.ok.injEq, reduceCtorEq, false_or]
    exact ⟨fun hsame _ _ hx hy => hx ▸ hy ▸ hsame, fun hall => hall _ _ rfl rfl⟩

end

/-- Both ranks ask for D3D12 alone and nothing fails; each has its own least payload. -/
def d3d12Environment (minBytes : Rank → IntVariable) (rank : Rank) : Environment where
  base := .ok ()
  useAll2all := false
  hostStaged := .ok ()
  useD3D12 := some "1"
  useRccl := none
  d3d12Checks := .ok ()
  d3d12 :=
    { maxBytesVariable := none
      minBytesVariable := minBytes rank
      maxSizeBytes := none
      minSizeBytes := none
      device := some rank.index
      objectName := "0"
      setDevice := .ok ()
      hipRuntime := .ok ()
      mappedPeerKernel := .ok ()
      createHeap := .ok ()
      openHeap := .ok () }
  rccl :=
    { checks := .ok ()
      setDevice := .ok ()
      loadLibrary := .ok ()
      uniqueId := .ok (List.replicate 128 0)
      commInitRank := .ok () }
  sharedMemory :=
    { checks := .ok ()
      maxBytesVariable := none
      maxSizeBytes := none
      device := rank.index
      createMapping := .ok "0"
      eventPrefix := "0"
      attachMapping := .ok ()
      hipRuntime := .ok ()
      hostRegister := .ok ()
      hostGetDevicePointer := .ok ()
      createBarrier := .ok ()
      localOutput := .ok ()
      mappedPeerKernel := .ok ()
      canUseStreamWaitValue := .ok true }

/-- The communicator of a rank with the D3D12 transport alone. -/
def d3d12Communicator (range : PayloadRange) (rank : Rank) : WindowsAmdMultiGpuCommunicator :=
  ⟨some (⟨rank, some rank.index, range.maxSizeBytes, true, true⟩, range), false, none⟩

def defaultRange : PayloadRange := ⟨32 * 1024, 64 * 1024 * 1024, by decide, by decide⟩

def raisedRange : PayloadRange := ⟨64 * 1024, 64 * 1024 * 1024, by decide, by decide⟩

/-- The ranks take turns until both constructors have returned. -/
def turnByTurn : List Rank := (List.replicate 9 [Rank.zero, Rank.one]).flatten

theorem constructed_of_turns {env : Rank → Environment}
    {comm : Rank → WindowsAmdMultiGpuCommunicator} (schedule : List Rank)
    (h : ∀ r, ((schedule.foldl (turn processGroup) fun rank =>
      ⟨(WindowsAmdMultiGpuCommunicator.init rank (env rank)).run, .start⟩) r).result =
        some (.ok (comm r))) : Constructed env comm :=
  ⟨_, reachable_turns (.init rfl) schedule, fun r => Party.result_eq_some.mp (h r)⟩

/-- Nobody sets a least payload. -/
def noMinBytes (_ : Rank) : IntVariable := none

theorem allReduce_sameBackend_sample :
    Constructed (d3d12Environment noMinBytes) (d3d12Communicator defaultRange) ∧
    ∀ t u : Tensor, t.SameShape u →
      (d3d12Communicator defaultRange .zero).allReduceBackend t =
        (d3d12Communicator defaultRange .one).allReduceBackend u := by
  have h : Constructed (d3d12Environment noMinBytes) (d3d12Communicator defaultRange) := by
    refine constructed_of_turns turnByTurn fun r => ?_
    cases r with
    | zero => decide +kernel
    | one => decide +kernel
  refine ⟨h, (allReduce_sameBackend_iff h).mpr (.inr fun range range' hr hr' => ?_)⟩
  cases hr
  cases hr'
  exact .inl ⟨rfl, rfl⟩

/-- Rank one alone sets its least payload, to 64 KiB. -/
def raisedMinBytes : Rank → IntVariable
  | .zero => none
  | .one => some (.ok (64 * 1024))

def raisedRanges : Rank → PayloadRange
  | .zero => defaultRange
  | .one => raisedRange

/-- For 32 KiB rank zero selects D3D12 and rank one the host. -/
theorem raisedMinBytes_differ :
    Constructed (d3d12Environment raisedMinBytes) (fun r => d3d12Communicator (raisedRanges r) r) ∧
    (d3d12Communicator (raisedRanges .zero) .zero).allReduceBackend (zeros 16384) = .d3d12 ∧
    (d3d12Communicator (raisedRanges .one) .one).allReduceBackend (zeros 16384) = .glooHost := by
  refine ⟨constructed_of_turns turnByTurn fun r => ?_, ?_, ?_⟩
  · cases r with
    | zero => decide +kernel
    | one => decide +kernel
  · exact (allReduceBackend_eq_d3d12 rfl _).mpr (canHandle_zeros.mpr (by decide))
  · have hrange : ¬ canHandle raisedRange (zeros 16384) = true := fun h =>
      absurd (canHandle_zeros.mp h) (by decide)
    simp [WindowsAmdMultiGpuCommunicator.allReduceBackend, d3d12Communicator, raisedRanges, hrange]

end MultiGpuTransport.Vllm
