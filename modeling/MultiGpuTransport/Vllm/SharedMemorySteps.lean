import MultiGpuTransport.Vllm.Communicator

/-!
# What a SharedMemoryAllReduce constructor does by itself

Whatever the peer contributes, a rank gets only as far as its own local steps let it, and rank one also
only as far as the broadcast size is its own. What it returns shows the flags of the agreement.
-/
namespace MultiGpuTransport.Vllm
open Collectives Fallible Constructor MappedHost Transition

/-- The rank gets to the broadcast. -/
def SharedMemoryLocal.Checked (rank : Rank) (loc : SharedMemoryLocal) : Prop :=
  loc.checks.isOk = true ∧ loc.maxSize.isOk = true ∧
    (rank = .zero → loc.createMapping.isOk = true)

/-- The rank gets from the broadcast of a size to the agreement. -/
def SharedMemoryLocal.Loaded (rank : Rank) (loc : SharedMemoryLocal) (maxSizeBytes : ℤ) : Prop :=
  loc.maxSize = .ok maxSizeBytes ∧ (rank = .one → loc.attachMapping.isOk = true) ∧
    loc.hipRuntime.isOk = true ∧ loc.hostRegister.isOk = true ∧
    loc.hostGetDevicePointer.isOk = true ∧ loc.createBarrier.isOk = true ∧
    loc.localOutput.isOk = true ∧ loc.streamPath.isOk = true

def constructionKinds : List CollectiveKind := [.broadcastObjectList, .allReduceMin, .barrierWait]

section
variable {Act : Type}

/-- What holds of a rank throughout its constructor. -/
structure SharedInv (rank : Rank) (loc : SharedMemoryLocal) (h : History Act GroupCollective) :
    Prop where
  kinds : h.contributed.map GroupCollective.kind <+: constructionKinds
  checked : h.contributed ≠ [] → loc.Checked rank
  descriptor : ∀ x, h.contributed[0]? = some x → ∃ maxSize object, loc.maxSize = .ok maxSize ∧
    loc.descriptor rank maxSize = .ok object ∧ x = .broadcastObjectList object
  loaded : 2 ≤ h.contributed.length → ∃ mappingName eventPrefix maxSizeBytes,
    h.received[0]? = some (.broadcastObjectList
      (some (.mapping mappingName eventPrefix maxSizeBytes))) ∧ loc.Loaded rank maxSizeBytes

/-- How a constructor ends: the collectives it has made show how far it got. -/
inductive SharedEnded (rank : Rank) (loc : SharedMemoryLocal) :
    Except PyError SharedMemoryAllReduce → History Act GroupCollective → Prop
  | unchecked {error : PyError} {h : History Act GroupCollective} (hloc : ¬ loc.Checked rank)
      (hlen : h.contributed.length = 0) : SharedEnded rank loc (.error error) h
  | unnamed {error : PyError} {h : History Act GroupCollective} {object : Option BroadcastObject}
      (hlen : h.contributed.length = 1)
      (hobject : h.received[0]? = some (.broadcastObjectList object))
      (hother : ∀ mappingName eventPrefix maxSizeBytes,
        object ≠ some (.mapping mappingName eventPrefix maxSizeBytes)) :
      SharedEnded rank loc (.error error) h
  | unloaded {error : PyError} {h : History Act GroupCollective} {mappingName eventPrefix : String}
      {maxSizeBytes : ℤ} (hlen : h.contributed.length = 1)
      (hmapping : h.received[0]? = some (.broadcastObjectList
        (some (.mapping mappingName eventPrefix maxSizeBytes))))
      (hloc : ¬ loc.Loaded rank maxSizeBytes) : SharedEnded rank loc (.error error) h
  | constructed {comm : SharedMemoryAllReduce} {h : History Act GroupCollective} {own peer : Bool}
      (hlen : h.contributed.length = 3) (hown : h.contributed[1]? = some (.allReduceMin own))
      (hpeer : h.received[1]? = some (.allReduceMin peer))
      (hpath : comm.useStreamPath = (own && peer)) (hkernel : own = true → comm.kernel = true) :
      SharedEnded rank loc (.ok comm) h

theorem SharedMemoryLocal.kernel_of_streamPath {loc : SharedMemoryLocal} {kernel : Bool}
    (h : loc.streamPath = .ok (kernel, true)) : kernel = true := by
  unfold streamPath at h
  dsimp only at h
  split at h
  · cases h
    rfl
  · cases h
  · cases h
  · cases h
  · cases h

/-- A rank has a descriptor to broadcast if it could create the mapping, where this is its task. -/
theorem SharedMemoryLocal.descriptor_isOk_iff (rank : Rank) (loc : SharedMemoryLocal)
    (maxSizeBytes : ℤ) : (loc.descriptor rank maxSizeBytes).isOk = true ↔
      (rank = .zero → loc.createMapping.isOk = true) := by
  unfold SharedMemoryLocal.descriptor
  by_cases hzero : rank = .zero
  · rw [if_pos hzero]
    cases loc.createMapping <;> simp [hzero, Except.map]
  · rw [if_neg hzero]
    simp [hzero]

section
variable {rank : Rank} {loc : SharedMemoryLocal}

/-- From the agreement on. -/
theorem ensures_streamPath (kernel : Bool) {available : Bool} {comm : Bool → SharedMemoryAllReduce}
    {mappingName eventPrefix : String} {maxSizeBytes : ℤ} {object : Option BroadcastObject}
    (hchecked : loc.Checked rank) (hloaded : loc.Loaded rank maxSizeBytes)
    (hdescriptor : loc.descriptor rank maxSizeBytes = .ok object)
    (hkernel : available = true → kernel = true)
    (hcomm : ∀ path, (comm path).kernel = kernel ∧ (comm path).useStreamPath = path) :
    Ensures processGroup rank (SharedInv rank loc : History Act GroupCollective → Prop)
      (do
        let useStreamPath ← allReduceMin available
        waitBarrier
        return comm useStreamPath)
      (SharedEnded rank loc)
      ⟨[], [.broadcastObjectList object],
        [.broadcastObjectList (some (.mapping mappingName eventPrefix maxSizeBytes))]⟩ := by
  have hnow : ∀ more received, (more.map GroupCollective.kind <+: [.allReduceMin, .barrierWait]) →
      SharedInv rank loc (⟨[], .broadcastObjectList object :: more,
        .broadcastObjectList (some (.mapping mappingName eventPrefix maxSizeBytes)) :: received⟩ :
          History Act GroupCollective) := by
    intro more received hmore
    constructor
    · simpa [constructionKinds] using hmore
    · exact fun _ => hchecked
    · rintro x hx
      exact ⟨maxSizeBytes, object, hloaded.1, hdescriptor, by simpa using hx.symm⟩
    · exact fun _ => ⟨_, _, _, rfl, hloaded⟩
  rw [ensures_bind, ensures_allReduceMin]
  refine ⟨hnow [] [] (by simp), hnow [.allReduceMin available] [] (by simp), fun peer => ?_⟩
  refine ⟨hnow [.allReduceMin available] [.allReduceMin peer] (by simp), ?_⟩
  simp only [waitBarrier, ensures_bind, ensures_exchange, ensures_pure]
  refine ⟨hnow [.allReduceMin available] [.allReduceMin peer] (by simp),
    hnow [.allReduceMin available, .barrierWait] [.allReduceMin peer] (by simp [GroupCollective.kind]),
    fun y _ => ?_⟩
  have hlast := hnow [.allReduceMin available, .barrierWait] [.allReduceMin peer, y]
    (by simp [GroupCollective.kind])
  refine ⟨hlast, hlast, hlast, ?_⟩
  exact .constructed rfl rfl rfl (hcomm _).2 fun h => (hcomm _).1.trans (hkernel h)

theorem sharedMemory_ensures (rank : Rank) (loc : SharedMemoryLocal) :
    Ensures processGroup rank (SharedInv rank loc : History Act GroupCollective → Prop)
      (SharedMemoryAllReduce.init rank loc) (SharedEnded rank loc) .start := by
  have hstart : SharedInv rank loc (.start : History Act GroupCollective) := by
    constructor <;> simp [constructionKinds]
  unfold SharedMemoryAllReduce.init
  refine .attempt_bind hstart (fun _ hchecks => ?_) fun e he => .unchecked ?_ rfl
  swap
  · simp [SharedMemoryLocal.Checked, he]
  refine .attempt_bind hstart (fun maxSize hsize => ?_) fun e he => .unchecked ?_ rfl
  swap
  · simp [SharedMemoryLocal.Checked, he]
  refine .attempt_bind hstart (fun object hobject => ?_) fun e he => .unchecked ?_ rfl
  swap
  · intro hchecked
    have hdescriptor := (loc.descriptor_isOk_iff rank maxSize).mpr hchecked.2.2
    simp [he] at hdescriptor
  have hchecked : loc.Checked rank := by
    refine ⟨by simp [hchecks],
      by simp [hsize], (loc.descriptor_isOk_iff rank maxSize).mp ?_⟩
    rw [hobject]
    rfl
  have hnamed : ∀ received, SharedInv rank loc
      (⟨[], [.broadcastObjectList object], received⟩ : History Act GroupCollective) := by
    intro received
    constructor
    · simp [constructionKinds]
    · exact fun _ => hchecked
    · rintro x hx
      exact ⟨maxSize, object, hsize, hobject, by simpa using hx.symm⟩
    · simp
  rw [ensures_bind, ensures_broadcastObjectList]
  refine ⟨hstart, hnamed _, fun received _ => ⟨hnamed _, ?_⟩⟩
  match received with
  | none | some (.name _) | some (.uniqueId _) =>
    exact ⟨hnamed _, .unnamed rfl rfl (by simp)⟩
  | some (.mapping mappingName eventPrefix maxSizeBytes) =>
    dsimp only
    by_cases hdiffer : maxSizeBytes ≠ maxSize
    · rw [if_pos hdiffer]
      refine ⟨hnamed _, .unloaded rfl rfl fun hloaded => hdiffer ?_⟩
      exact Except.ok.inj (hloaded.1.symm.trans hsize)
    · rw [if_neg hdiffer]
      obtain rfl : maxSizeBytes = maxSize := not_not.mp hdiffer
      refine .attempt_bind (hnamed _) (fun _ hattach => ?_) fun e he => .unloaded rfl rfl ?_
      swap
      · cases rank with
        | zero => simp at he
        | one =>
          simp [SharedMemoryLocal.Loaded, show loc.attachMapping = .error e by simpa using he]
      refine .attempt_bind (hnamed _) (fun _ hruntime => ?_) fun e he => .unloaded rfl rfl
        (by simp [SharedMemoryLocal.Loaded, he])
      refine .attempt_bind (hnamed _) (fun _ hregister => ?_) fun e he => .unloaded rfl rfl
        (by simp [SharedMemoryLocal.Loaded, he])
      refine .attempt_bind (hnamed _) (fun _ hpointer => ?_) fun e he => .unloaded rfl rfl
        (by simp [SharedMemoryLocal.Loaded, he])
      refine .attempt_bind (hnamed _) (fun _ hbarrier => ?_) fun e he => .unloaded rfl rfl
        (by simp [SharedMemoryLocal.Loaded, he])
      refine .attempt_bind (hnamed _) (fun _ houtput => ?_) fun e he => .unloaded rfl rfl
        (by simp [SharedMemoryLocal.Loaded, he])
      refine .attempt_bind (hnamed _) (fun path hpath => ?_) fun e he => .unloaded rfl rfl
        (by simp [SharedMemoryLocal.Loaded, he])
      obtain ⟨kernel, available⟩ := path
      refine ensures_streamPath kernel hchecked ⟨hsize, ?_, ?_⟩ hobject ?_
        fun path => ⟨rfl, rfl⟩
      · rintro rfl
        simpa using congrArg Except.isOk hattach
      · simp [hruntime, hregister, hpointer, hbarrier, houtput, hpath]
      · rintro rfl
        exact SharedMemoryLocal.kernel_of_streamPath hpath

end
end
end MultiGpuTransport.Vllm
