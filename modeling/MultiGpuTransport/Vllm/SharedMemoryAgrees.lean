import MultiGpuTransport.Vllm.SharedMemorySteps

/-!
# Agreement of the SharedMemoryAllReduce constructors

Rank zero creates the mapping and broadcasts its name and size; then the ranks agree on the stream
path and meet at the barrier. What fails between the broadcast and the agreement, the comparison of the
sizes included, raises on one rank alone. The constructors agree exactly when such failures come in
pairs.
-/
namespace MultiGpuTransport.Vllm
open Collectives Fallible MappedHost Transition

/-- Both ranks in their constructors, at any interleaving. -/
def sharedConstructors (loc : Rank → SharedMemoryLocal) :
    System (Config Empty GroupCollective (Except PyError SharedMemoryAllReduce)) :=
  Collectives.system processGroup fun rank => (SharedMemoryAllReduce.init rank (loc rank)).run

/-- What the constructors are to guarantee. -/
structure SharedMemoryAgrees (loc : Rank → SharedMemoryLocal) : Prop where
  neverStuck : (sharedConstructors loc).NeverStuck fun c => ∃ r, ¬ (c r).Finished
  sameCollectives : ∀ c, (sharedConstructors loc).Reachable c → (∀ r, (c r).Finished) →
    (c .zero).history.contributed.map GroupCollective.kind =
      (c .one).history.contributed.map GroupCollective.kind
  bothOrNeither : ∀ c (result : Rank → Except PyError SharedMemoryAllReduce),
    (sharedConstructors loc).Reachable c → (∀ r, (c r).program = .ret (result r)) →
    (result .zero).isOk = (result .one).isOk
  sameStreamPath : ∀ c (comm : Rank → SharedMemoryAllReduce),
    (sharedConstructors loc).Reachable c → (∀ r, (c r).program = .ret (.ok (comm r))) →
    (comm .zero).useStreamPath = (comm .one).useStreamPath ∧
      ∀ r, (comm r).useStreamPath = true → (comm r).kernel = true
  sameSize : ∀ c (comm : Rank → SharedMemoryAllReduce),
    (sharedConstructors loc).Reachable c → (∀ r, (c r).program = .ret (.ok (comm r))) →
    (loc .zero).maxSize = (loc .one).maxSize

/-- The failures of the two ranks that no agreement follows come in pairs. -/
structure SharedPaired (loc : Rank → SharedMemoryLocal) : Prop where
  checked : (loc .zero).Checked .zero ↔ (loc .one).Checked .one
  loaded : ∀ maxSizeBytes, (loc .zero).maxSize = .ok maxSizeBytes → (loc .zero).Checked .zero →
    ((loc .zero).Loaded .zero maxSizeBytes ↔ (loc .one).Loaded .one maxSizeBytes)

section
variable {loc : Rank → SharedMemoryLocal}
  {c : Config Empty GroupCollective (Except PyError SharedMemoryAllReduce)}

theorem reachable_meets_shared (hc : (sharedConstructors loc).Reachable c) (r : Rank) :
    (c r).Meets processGroup r (SharedInv r (loc r)) (SharedEnded r (loc r)) :=
  reachable_meets (fun rank => (SharedMemoryAllReduce.init rank (loc rank)).run)
    (sharedMemory_ensures r (loc r)) hc

theorem reachable_sharedInv (hc : (sharedConstructors loc).Reachable c) (r : Rank) :
    SharedInv r (loc r) (c r).history := (reachable_meets_shared hc r).now

theorem reachable_sharedEnded (hc : (sharedConstructors loc).Reachable c) {r : Rank}
    {result : Except PyError SharedMemoryAllReduce} (hresult : (c r).program = .ret result) :
    SharedEnded r (loc r) result (c r).history :=
  ((reachable_meets_shared hc r).finished hresult).1

theorem reachable_keepsTo (hc : (sharedConstructors loc).Reachable c) :
    KeepsTo constructionKinds c := fun r => (reachable_sharedInv hc r).kinds

theorem SharedPaired.of_peer (h : SharedPaired loc) (r : Rank) :
    ((loc r.peer).Checked r.peer → (loc r).Checked r) ∧
    ∀ maxSizeBytes, (loc .zero).maxSize = .ok maxSizeBytes → (loc r.peer).Checked r.peer →
      (loc r.peer).Loaded r.peer maxSizeBytes → (loc r).Loaded r maxSizeBytes := by
  cases r with
  | zero => exact ⟨h.checked.mpr, fun size hsize hc => (h.loaded size hsize (h.checked.mpr hc)).mpr⟩
  | one => exact ⟨h.checked.mp, fun size hsize hc => (h.loaded size hsize hc).mp⟩

/-- The size that is broadcast is that of rank zero. -/
theorem maxSize_of_received (hc : (sharedConstructors loc).Reachable c) {r : Rank}
    {object : Option BroadcastObject}
    (h : (c r).history.received[0]? = some (.broadcastObjectList object)) :
    ∃ mappingName eventPrefix maxSizeBytes, object =
      some (.mapping mappingName eventPrefix maxSizeBytes) ∧
      (loc .zero).maxSize = .ok maxSizeBytes := by
  obtain ⟨maxSize, sent, hsize, hdescriptor, hsent⟩ :=
    (reachable_sharedInv hc .zero).descriptor _ (broadcast_of_received hc h)
  cases hsent
  unfold SharedMemoryLocal.descriptor at hdescriptor
  rw [if_pos rfl] at hdescriptor
  cases hcreate : (loc .zero).createMapping with
  | error e => simp [hcreate, Except.map] at hdescriptor
  | ok name =>
    simp only [hcreate, Except.map, Except.ok.injEq] at hdescriptor
    exact ⟨_, _, maxSize, hdescriptor.symm, hsize⟩

/-- A rank that has come to its second collective has passed all that comes before it. -/
theorem loaded_of_length (hc : (sharedConstructors loc).Reachable c) {r : Rank}
    (hlen : 2 ≤ (c r).history.contributed.length) :
    ∃ maxSizeBytes, (loc .zero).maxSize = .ok maxSizeBytes ∧ (loc r).Loaded r maxSizeBytes := by
  obtain ⟨_, _, size, hreceived, hloaded⟩ := (reachable_sharedInv hc r).loaded hlen
  obtain ⟨_, _, size', hsame, hsize⟩ := maxSize_of_received hc hreceived
  cases hsame
  exact ⟨size, hsize, hloaded⟩

/-- A rank that has finished has made every collective that its peer has come to. -/
theorem shared_length_le (h : SharedPaired loc) (hc : (sharedConstructors loc).Reachable c)
    (r : Rank) (hfin : (c r).Finished) :
    (c r.peer).history.contributed.length ≤ (c r).history.contributed.length := by
  obtain ⟨result, hresult⟩ := hfin
  have hpeer := reachable_sharedInv hc r.peer
  have hlast : (c r.peer).history.contributed.length ≤ 3 := by
    simpa [constructionKinds] using hpeer.kinds.length_le
  by_contra hlt
  have hne : (c r.peer).history.contributed ≠ [] := by
    rintro hnil
    simp [hnil] at hlt
  have hchecked := hpeer.checked hne
  cases reachable_sharedEnded hc hresult with
  | unchecked hloc _ => exact hloc ((h.of_peer r).1 hchecked)
  | unnamed _ hobject hother =>
    obtain ⟨_, _, _, hmapping, _⟩ := maxSize_of_received hc hobject
    exact hother _ _ _ hmapping
  | unloaded hlen hmapping hloc =>
    obtain ⟨_, _, size, hsame, hsize⟩ := maxSize_of_received hc hmapping
    cases hsame
    obtain ⟨size', hsize', hloaded⟩ := loaded_of_length hc (r := r.peer) (by omega)
    cases hsize.symm.trans hsize'
    exact hloc ((h.of_peer r).2 _ hsize hchecked hloaded)
  | constructed hlen _ _ _ _ => omega

/-- Of the ranks that have finished, those have returned that have made all collectives. -/
theorem isOk_iff_length (hc : (sharedConstructors loc).Reachable c) {r : Rank}
    {result : Except PyError SharedMemoryAllReduce} (hresult : (c r).program = .ret result) :
    result.isOk = true ↔ (c r).history.contributed.length = 3 := by
  cases reachable_sharedEnded hc hresult with
  | unchecked _ hlen => simp [hlen]
  | unnamed hlen _ _ => simp [hlen]
  | unloaded hlen _ _ => simp [hlen]
  | constructed hlen _ _ _ _ => simp [hlen]

/-- A rank that has made no collective has failed before the broadcast, and one that has made one has
failed before the agreement. -/
theorem shared_not_loaded (hc : (sharedConstructors loc).Reachable c) {r : Rank}
    (hfin : (c r).Finished) :
    ((c r).history.contributed.length = 0 → ¬ (loc r).Checked r) ∧
    ∀ maxSizeBytes, (loc .zero).maxSize = .ok maxSizeBytes →
      (c r).history.contributed.length ≤ 1 → (loc r).Checked r →
      ¬ (loc r).Loaded r maxSizeBytes := by
  obtain ⟨result, hresult⟩ := hfin
  cases reachable_sharedEnded hc hresult with
  | unchecked hloc hlen => exact ⟨fun _ => hloc, fun _ _ _ hchecked => (hloc hchecked).elim⟩
  | unnamed hlen hobject hother =>
    obtain ⟨_, _, _, hmapping, _⟩ := maxSize_of_received hc hobject
    exact (hother _ _ _ hmapping).elim
  | unloaded hlen hmapping hloc =>
    obtain ⟨_, _, size, hsame, hsize⟩ := maxSize_of_received hc hmapping
    cases hsame
    refine ⟨by omega, fun size' hsize' _ _ => ?_⟩
    cases hsize.symm.trans hsize'
    exact hloc
  | constructed hlen _ _ _ _ => exact ⟨by omega, by omega⟩

theorem sameStreamPath_of_constructed (hc : (sharedConstructors loc).Reachable c)
    {comm : Rank → SharedMemoryAllReduce} (hcomm : ∀ r, (c r).program = .ret (.ok (comm r))) :
    (comm .zero).useStreamPath = (comm .one).useStreamPath ∧
      ∀ r, (comm r).useStreamPath = true → (comm r).kernel = true := by
  have hflags : ∀ r, ∃ own peer, (c r).history.contributed[1]? = some (.allReduceMin own) ∧
      (c r.peer).history.contributed[1]? = some (.allReduceMin peer) ∧
      (comm r).useStreamPath = (own && peer) ∧ (own = true → (comm r).kernel = true) := by
    intro r
    cases reachable_sharedEnded hc (hcomm r) with
    | constructed _ hown hpeer hpath hkernel =>
      exact ⟨_, _, hown, contributed_of_received hc hpeer, hpath, hkernel⟩
  refine ⟨?_, fun r hr => ?_⟩
  · obtain ⟨own, peer, hown, hpeer, hpath, -⟩ := hflags .zero
    obtain ⟨own', peer', hown', hpeer', hpath', -⟩ := hflags .one
    cases hpeer.symm.trans hown'
    cases hpeer'.symm.trans hown
    rw [hpath, hpath', Bool.and_comm]
  · obtain ⟨own, peer, -, -, hpath, hkernel⟩ := hflags r
    rw [hpath, Bool.and_eq_true] at hr
    exact hkernel hr.1

/-- Two ranks that have both returned have passed the comparison of the sizes. -/
theorem sameSize_of_constructed (hc : (sharedConstructors loc).Reachable c)
    {comm : Rank → SharedMemoryAllReduce} (hcomm : ∀ r, (c r).program = .ret (.ok (comm r))) :
    (loc .zero).maxSize = (loc .one).maxSize := by
  have hlen := (isOk_iff_length hc (hcomm .one)).mp rfl
  obtain ⟨size, hsize, hloaded⟩ := loaded_of_length hc (r := .one) (by omega)
  rw [hsize, hloaded.1]

theorem sharedAgrees_of_paired (h : SharedPaired loc) : SharedMemoryAgrees loc := by
  have hlen : ∀ c, (sharedConstructors loc).Reachable c → (∀ r, (c r).Finished) →
      (c .zero).history.contributed.length = (c .one).history.contributed.length :=
    fun c hc hfin => Nat.le_antisymm (shared_length_le h hc .one (hfin .one))
      (shared_length_le h hc .zero (hfin .zero))
  refine ⟨?_, fun c hc hfin => (reachable_keepsTo hc).kinds_eq (hlen c hc hfin), ?_,
    fun c comm hc hcomm => sameStreamPath_of_constructed hc hcomm,
    fun c comm hc hcomm => sameSize_of_constructed hc hcomm⟩
  · exact neverStuck_of_length_le (fun c hc => reachable_keepsTo hc)
      fun c hc r hfin => shared_length_le h hc r hfin
  · intro c result hc hresult
    rw [Bool.eq_iff_iff, isOk_iff_length hc (hresult .zero), isOk_iff_length hc (hresult .one),
      hlen c hc fun r => ⟨_, hresult r⟩]

/-- Every run that is never stuck ends with both ranks finished, after equally many collectives. -/
theorem sharedPaired_of_agrees (h : SharedMemoryAgrees loc) : SharedPaired loc := by
  obtain ⟨c, hc, hfin⟩ := exists_finished h.neverStuck
  have hlen : ∀ r, (c r).history.contributed.length = (c r.peer).history.contributed.length := by
    have hkinds := congrArg List.length (h.sameCollectives c hc hfin)
    simp only [List.length_map] at hkinds
    exact fun r => by cases r <;> simp [Rank.peer, hkinds]
  have hchecked : ∀ r, (loc r).Checked r → (loc r.peer).Checked r.peer := by
    intro r hr
    refine (reachable_sharedInv hc r.peer).checked fun hnil => ?_
    exact (shared_not_loaded hc (hfin r)).1 (by rw [hlen r, hnil]; rfl) hr
  have hloaded : ∀ r size, (loc .zero).maxSize = .ok size → (loc r).Checked r →
      (loc r).Loaded r size → (loc r.peer).Loaded r.peer size := by
    intro r size hsize hr hl
    obtain ⟨size', hsize', hpeer⟩ : ∃ size', (loc .zero).maxSize = .ok size' ∧
        (loc r.peer).Loaded r.peer size' := by
      refine loaded_of_length hc ?_
      by_contra hlt
      exact (shared_not_loaded hc (hfin r)).2 size hsize (by rw [hlen r]; omega) hr hl
    cases hsize.symm.trans hsize'
    exact hpeer
  exact ⟨⟨hchecked .zero, hchecked .one⟩, fun size hsize hr =>
    ⟨hloaded .zero size hsize hr, hloaded .one size hsize (hchecked .zero hr)⟩⟩

end

/-- The two constructors agree exactly when the failures that no agreement follows, before the
broadcast and between it and the agreement, come in pairs. -/
theorem sharedMemory_agrees_iff (loc : Rank → SharedMemoryLocal) :
    SharedMemoryAgrees loc ↔ ((loc .zero).Checked .zero ↔ (loc .one).Checked .one) ∧
      ∀ maxSizeBytes, (loc .zero).maxSize = .ok maxSizeBytes → (loc .zero).Checked .zero →
        ((loc .zero).Loaded .zero maxSizeBytes ↔ (loc .one).Loaded .one maxSizeBytes) := by
  constructor
  · intro h
    exact ⟨(sharedPaired_of_agrees h).checked, (sharedPaired_of_agrees h).loaded⟩
  · exact fun h => sharedAgrees_of_paired ⟨h.1, h.2⟩

/-- The ranks are given different sizes; nothing fails on either of them. -/
def differingSizes (rank : Rank) : SharedMemoryLocal where
  checks := .ok ()
  maxBytesVariable := none
  maxSizeBytes := some (if rank = .zero then 4096 else 8192)
  device := rank.index
  createMapping := .ok "0"
  eventPrefix := "0"
  attachMapping := .ok ()
  hipRuntime := .ok ()
  hostRegister := .ok ()
  hostGetDevicePointer := .ok ()
  createBarrier := .ok ()
  localOutput := .ok ()
  mappedPeerKernel := .ok ()
  canUseStreamWaitValue := .ok true

/-- Rank one raises at the comparison; rank zero waits for it in the agreement. -/
theorem differingSizes_disagree : ¬ SharedMemoryAgrees differingSizes := by
  intro h
  have hloaded := (sharedPaired_of_agrees h).loaded 4096 rfl ⟨rfl, rfl, fun _ => rfl⟩
  have hone := (hloaded.mp ⟨rfl, by simp, rfl, rfl, rfl, rfl, rfl, rfl⟩).1
  exact absurd (Except.ok.inj hone) (by decide)

end MultiGpuTransport.Vllm
