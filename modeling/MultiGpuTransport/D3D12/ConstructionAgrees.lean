import MultiGpuTransport.D3D12.ConstructionSteps

/-!
# Agreement of the two constructors

A rank that raises before or after the broadcast, but not in a step that an agreement follows, leaves
its peer waiting. The two constructors agree exactly when such failures come in pairs.
-/
namespace MultiGpuTransport.D3D12
open Collectives Transition

/-- Both ranks in their constructors, at any interleaving. -/
def constructors (loc : Rank → Local) :
    System (Config BufferAction GroupCollective
      (Except PyError (D3D12AllReduce × PayloadRange))) :=
  Collectives.system processGroup fun rank => (D3D12AllReduce.init rank (loc rank)).run

/-- What the constructors are to guarantee. -/
structure ConstructionAgrees (loc : Rank → Local) : Prop where
  neverStuck : (constructors loc).NeverStuck fun c => ∃ r, ¬ (c r).Finished
  sameCollectives : ∀ c, (constructors loc).Reachable c → (∀ r, (c r).Finished) →
    (c .zero).history.contributed.map GroupCollective.kind =
      (c .one).history.contributed.map GroupCollective.kind
  bothOrNeither : ∀ c (result : Rank → Except PyError (D3D12AllReduce × PayloadRange)),
    (constructors loc).Reachable c → (∀ r, (c r).program = .ret (result r)) →
    (result .zero).isOk = (result .one).isOk
  createdFirst : ∀ c, (constructors loc).Reachable c → ∀ r heap,
    .opening heap ∈ (c r).history.actions → .created heap ∈ (c r.peer).history.actions
  raisedHoldsNone : ∀ c, (constructors loc).Reachable c → ∀ r error,
    (c r).program = .ret (.error error) → openBuffers (c r).history.actions = []

section
variable {loc : Rank → Local}
  {c : Config BufferAction GroupCollective (Except PyError (D3D12AllReduce × PayloadRange))}

theorem reachable_meets_init (hc : (constructors loc).Reachable c) (r : Rank) :
    (c r).Meets processGroup r (InitInv r (loc r)) (Ended (loc r)) :=
  reachable_meets (fun rank => (D3D12AllReduce.init rank (loc rank)).run)
    (init_ensures r (loc r)) hc

theorem reachable_initInv (hc : (constructors loc).Reachable c) (r : Rank) :
    InitInv r (loc r) (c r).history := (reachable_meets_init hc r).now

theorem reachable_keepsTo (hc : (constructors loc).Reachable c) :
    KeepsTo [.broadcastObjectList, .allReduceMin, .allReduceMin] c :=
  fun r => (reachable_initInv hc r).kinds

theorem reachable_ended (hc : (constructors loc).Reachable c) {r : Rank}
    {result : Except PyError (D3D12AllReduce × PayloadRange)}
    (hresult : (c r).program = .ret result) : Ended (loc r) result (c r).history :=
  ((reachable_meets_init hc r).finished hresult).1

/-- Both ranks have the name that rank 0 chose. -/
theorem received_name (hc : (constructors loc).Reachable c) {r : Rank} {x : GroupCollective}
    (h : (c r).history.received[0]? = some x) :
    x = .broadcastObjectList ((loc .zero).descriptor .zero) := by
  obtain ⟨own, hown, hanswer⟩ := reachable_answered hc r 0 _ h
  have hkind := (reachable_initInv hc r).name own hown
  subst hkind
  cases r with
  | zero => simpa [Rules.answer, processGroup] using hanswer.symm
  | one =>
    have hpeer : (c .zero).history.contributed[0]? = some x := by
      exact (Rules.answer_awaits hanswer (by simp [processGroup])).1
    exact (reachable_initInv hc .zero).name x hpeer

theorem descriptor_zero_ne_none (l : Local) : l.descriptor .zero ≠ none := by
  simp [Local.descriptor]

/-- No rank is left without the name. -/
theorem received_name_ne_none (hc : (constructors loc).Reachable c) (r : Rank) :
    (c r).history.received[0]? ≠ some (.broadcastObjectList none) := by
  intro h
  have := received_name hc h
  simp only [GroupCollective.broadcastObjectList.injEq] at this
  exact descriptor_zero_ne_none _ this.symm

/-- A rank opens its peer's heap only when that is created, under the name it opens. -/
theorem created_of_opening (hc : (constructors loc).Reachable c) {r : Rank} {heap : HeapName}
    (h : .opening heap ∈ (c r).history.actions) :
    .created heap ∈ (c r.peer).history.actions := by
  obtain ⟨base, rfl, hbase, hflag⟩ := (reachable_initInv hc r).opening heap h
  obtain ⟨base', hbase', hcreated⟩ :=
    (reachable_initInv hc r.peer).created (contributed_of_received hc hflag)
  have hname := received_name hc hbase
  rw [← received_name hc hbase'] at hname
  cases hname
  exact hcreated

theorem Ended.openBuffers_eq_nil {l : Local} {h : InitHistory} {error : PyError}
    (hended : Ended l (.error error) h) : openBuffers h.actions = [] := by
  cases hended with
  | unchecked _ _ hheld => exact hheld
  | unloaded _ _ hheld => exact hheld
  | unnamed _ _ hheld => exact hheld
  | notCreated _ _ _ _ hheld => exact hheld
  | agreed _ _ _ _ hheld => exact hheld rfl

/-- The failures of the two ranks that no agreement follows come in pairs. -/
structure Paired (loc : Rank → Local) : Prop where
  checked : (loc .zero).Checked ↔ (loc .one).Checked
  loaded : (loc .zero).Checked → ((loc .zero).Loaded ↔ (loc .one).Loaded)

theorem Paired.of_peer (h : Paired loc) (r : Rank) :
    ((loc r.peer).Checked → (loc r).Checked) ∧
    ((loc r.peer).Checked → (loc r.peer).Loaded → (loc r).Loaded) := by
  cases r with
  | zero => exact ⟨h.checked.mpr, fun hc => (h.loaded (h.checked.mpr hc)).mpr⟩
  | one => exact ⟨h.checked.mp, fun hc => (h.loaded hc).mp⟩

/-- A rank that has finished has made every collective that its peer has come to. -/
theorem length_le_of_finished (h : Paired loc) (hc : (constructors loc).Reachable c) {r : Rank}
    {result : Except PyError (D3D12AllReduce × PayloadRange)}
    (hresult : (c r).program = .ret result) :
    (c r.peer).history.contributed.length ≤ (c r).history.contributed.length := by
  have hpeer := reachable_initInv hc r.peer
  have hlast : (c r.peer).history.contributed.length ≤ 3 := by
    simpa using hpeer.kinds.length_le
  by_contra hlt
  have hne : (c r.peer).history.contributed ≠ [] := by
    rintro hnil
    simp [hnil] at hlt
  have hchecked := hpeer.checked hne
  cases reachable_ended hc hresult with
  | unchecked hloc _ _ => exact hloc ((h.of_peer r).1 hchecked)
  | unloaded hloc hlen _ => exact hloc ((h.of_peer r).2 hchecked (hpeer.loaded (by omega)))
  | unnamed _ hname _ => exact received_name_ne_none hc r hname
  | notCreated hlen hown hflag hboth _ =>
    -- the peer has gone on, so both flags were set
    obtain ⟨htrue, htrue'⟩ := hpeer.agreed (by omega)
    have hown' := contributed_of_received hc htrue'
    rw [Rank.peer_peer, hown] at hown'
    have hflag' := contributed_of_received hc hflag
    rw [htrue] at hflag'
    cases hown'
    cases hflag'
    simp at hboth
  | agreed hlen _ _ _ _ => omega

/-- Two ranks that have finished after equally many collectives both return or both raise. -/
theorem isOk_eq_of_length (hc : (constructors loc).Reachable c)
    {result : Rank → Except PyError (D3D12AllReduce × PayloadRange)}
    (hresult : ∀ r, (c r).program = .ret (result r))
    (hlen : (c .zero).history.contributed.length = (c .one).history.contributed.length) :
    (result .zero).isOk = (result .one).isOk := by
  have hshort : ∀ r, (c r).history.contributed.length ≠ 3 → (result r).isOk = false := by
    intro r hne
    have hended := reachable_ended hc (hresult r)
    generalize result r = res at hended
    cases hended with
    | agreed hlen _ _ _ _ => exact (hne hlen).elim
    | _ => rfl
  by_cases hthree : (c .zero).history.contributed.length = 3
  · have hended := reachable_ended hc (hresult .zero)
    have hended' := reachable_ended hc (hresult .one)
    have hthree' := hlen.symm.trans hthree
    generalize result .zero = res at hended
    generalize result .one = res' at hended'
    cases hended with
    | agreed _ hown hflag hboth _ =>
      cases hended' with
      | agreed _ hown' hflag' hboth' _ =>
        have hsame := contributed_of_received hc hflag
        have hsame' := contributed_of_received hc hflag'
        rw [show Rank.zero.peer = Rank.one from rfl, hown'] at hsame
        rw [show Rank.one.peer = Rank.zero from rfl, hown] at hsame'
        cases hsame
        cases hsame'
        rw [hboth, hboth', Bool.and_comm]
      | _ => omega
    | _ => omega
  · rw [hshort .zero hthree, hshort .one (hlen ▸ hthree)]

theorem length_eq_of_finished (h : Paired loc) (hc : (constructors loc).Reachable c)
    (hfin : ∀ r, (c r).Finished) :
    (c .zero).history.contributed.length = (c .one).history.contributed.length := by
  obtain ⟨result, hresult⟩ := hfin .zero
  obtain ⟨result', hresult'⟩ := hfin .one
  exact Nat.le_antisymm (length_le_of_finished h hc hresult')
    (length_le_of_finished h hc hresult)

theorem agrees_of_paired (h : Paired loc) : ConstructionAgrees loc where
  neverStuck := by
    refine neverStuck_of_length_le (fun c hc => reachable_keepsTo hc) fun c hc r hfin => ?_
    obtain ⟨result, hresult⟩ := hfin
    exact length_le_of_finished h hc hresult
  sameCollectives c hc hfin :=
    (reachable_keepsTo hc).kinds_eq (length_eq_of_finished h hc hfin)
  bothOrNeither c result hc hresult :=
    isOk_eq_of_length hc hresult (length_eq_of_finished h hc fun r => ⟨_, hresult r⟩)
  createdFirst c hc r heap := created_of_opening hc
  raisedHoldsNone c hc r error herror := (reachable_ended hc herror).openBuffers_eq_nil

/-- A rank that has made no collective has failed before the broadcast, and one that has made one has
failed before its first agreement. -/
theorem not_loaded_of_length (hc : (constructors loc).Reachable c) {r : Rank}
    (hfin : (c r).Finished) :
    ((c r).history.contributed.length = 0 → ¬ (loc r).Checked) ∧
    ((c r).history.contributed.length ≤ 1 → (loc r).Checked → ¬ (loc r).Loaded) := by
  obtain ⟨result, hresult⟩ := hfin
  cases reachable_ended hc hresult with
  | unchecked hloc hlen _ => exact ⟨fun _ => hloc, fun _ hchecked => (hloc hchecked).elim⟩
  | unloaded hloc hlen _ => exact ⟨by omega, fun _ _ => hloc⟩
  | unnamed hlen hname _ => exact (received_name_ne_none hc r hname).elim
  | notCreated hlen _ _ _ _ => exact ⟨by omega, by omega⟩
  | agreed hlen _ _ _ _ => exact ⟨by omega, by omega⟩

/-- Every run that is never stuck ends with both ranks finished, after equally many collectives. -/
theorem paired_of_agrees (h : ConstructionAgrees loc) : Paired loc := by
  obtain ⟨c, hc, hfin⟩ := exists_finished h.neverStuck
  have hlen : ∀ r, (c r).history.contributed.length = (c r.peer).history.contributed.length := by
    have hkinds := congrArg List.length (h.sameCollectives c hc hfin)
    simp only [List.length_map] at hkinds
    exact fun r => by cases r <;> simp [Rank.peer, hkinds]
  have hchecked : ∀ r, (loc r).Checked → (loc r.peer).Checked := by
    intro r hr
    refine (reachable_initInv hc r.peer).checked fun hnil => ?_
    exact (not_loaded_of_length hc (hfin r)).1 (by rw [hlen r, hnil]; rfl) hr
  have hloaded : ∀ r, (loc r).Checked → (loc r).Loaded → (loc r.peer).Loaded := by
    intro r hr hl
    refine (reachable_initInv hc r.peer).loaded ?_
    by_contra hlt
    exact (not_loaded_of_length hc (hfin r)).2 (by rw [hlen r]; omega) hr hl
  exact ⟨⟨hchecked .zero, hchecked .one⟩,
    fun hr => ⟨hloaded .zero hr, hloaded .one (hchecked .zero hr)⟩⟩

end

/-- The two constructors agree exactly when the failures that no agreement follows, before the
broadcast and between it and the first agreement, come in pairs. -/
theorem init_agrees_iff (loc : Rank → Local) :
    ConstructionAgrees loc ↔ ((loc .zero).Checked ↔ (loc .one).Checked) ∧
      ((loc .zero).Checked → ((loc .zero).Loaded ↔ (loc .one).Loaded)) := by
  constructor
  · intro h
    exact ⟨(paired_of_agrees h).checked, (paired_of_agrees h).loaded⟩
  · exact fun h => agrees_of_paired ⟨h.1, h.2⟩

/-- Rank one has no kernel library; nothing else fails on either rank. -/
def kernelMissing (rank : Rank) : Local where
  maxBytesVariable := none
  minBytesVariable := none
  maxSizeBytes := none
  minSizeBytes := none
  device := some rank.index
  objectName := "0"
  setDevice := .ok ()
  hipRuntime := .ok ()
  mappedPeerKernel := if rank = .one then .error (.osError "native HIP kernel was not found")
    else .ok ()
  createHeap := .ok ()
  openHeap := .ok ()

/-- Rank zero waits in the first agreement for a rank that has raised. -/
theorem kernelMissing_disagrees : ¬ ConstructionAgrees kernelMissing := by
  intro h
  have hloaded := (paired_of_agrees h).loaded ⟨by decide, by decide⟩
  exact absurd (hloaded.mp ⟨by decide, by decide⟩).2 (by decide)

end MultiGpuTransport.D3D12
