import MultiGpuTransport.D3D12.Construction

/-!
# What a constructor does by itself

Whatever the peer contributes, a rank gets only as far as its own local steps let it, it creates its
heap before it says so, it opens its peer's heap only when both have said so, and it holds nothing
when it raises.
-/
namespace MultiGpuTransport.D3D12
open Collectives Fallible Constructor

/-- The rank gets to the broadcast. -/
def Local.Checked (loc : Local) : Prop := loc.payloadRange.isOk = true ∧ loc.setDevice.isOk = true

/-- The rank gets from the broadcast to its first agreement. -/
def Local.Loaded (loc : Local) : Prop :=
  loc.hipRuntime.isOk = true ∧ loc.mappedPeerKernel.isOk = true

/-- What holds of a rank throughout its constructor. -/
structure InitInv (rank : Rank) (loc : Local) (h : InitHistory) : Prop where
  kinds : h.contributed.map GroupCollective.kind <+:
    [.broadcastObjectList, .allReduceMin, .allReduceMin]
  checked : h.contributed ≠ [] → loc.Checked
  loaded : 2 ≤ h.contributed.length → loc.Loaded
  name : ∀ x, h.contributed[0]? = some x → x = .broadcastObjectList (loc.descriptor rank)
  created : h.contributed[1]? = some (.allReduceMin true) → ∃ base,
    h.received[0]? = some (.broadcastObjectList (some base)) ∧ .created ⟨base, rank⟩ ∈ h.actions
  agreed : 3 ≤ h.contributed.length → h.contributed[1]? = some (.allReduceMin true) ∧
    h.received[1]? = some (.allReduceMin true)
  opening : ∀ heap, .opening heap ∈ h.actions → ∃ base, heap = ⟨base, rank.peer⟩ ∧
    h.received[0]? = some (.broadcastObjectList (some base)) ∧
    h.received[1]? = some (.allReduceMin true)

/-- How a constructor ends: the collectives it has made show how far it got. -/
inductive Ended (loc : Local) : Except PyError (D3D12AllReduce × PayloadRange) → InitHistory → Prop
  | unchecked {error : PyError} {h : InitHistory} (hloc : ¬ loc.Checked)
      (hlen : h.contributed.length = 0) (hheld : openBuffers h.actions = []) :
      Ended loc (.error error) h
  | unloaded {error : PyError} {h : InitHistory} (hloc : ¬ loc.Loaded)
      (hlen : h.contributed.length = 1) (hheld : openBuffers h.actions = []) :
      Ended loc (.error error) h
  | unnamed {error : PyError} {h : InitHistory} (hlen : h.contributed.length = 1)
      (hname : h.received[0]? = some (.broadcastObjectList none))
      (hheld : openBuffers h.actions = []) : Ended loc (.error error) h
  | notCreated {error : PyError} {h : InitHistory} {own peer : Bool}
      (hlen : h.contributed.length = 2) (hown : h.contributed[1]? = some (.allReduceMin own))
      (hpeer : h.received[1]? = some (.allReduceMin peer)) (hboth : (own && peer) = false)
      (hheld : openBuffers h.actions = []) : Ended loc (.error error) h
  | agreed {result : Except PyError (D3D12AllReduce × PayloadRange)} {h : InitHistory}
      {own peer : Bool} (hlen : h.contributed.length = 3)
      (hown : h.contributed[2]? = some (.allReduceMin own))
      (hpeer : h.received[2]? = some (.allReduceMin peer)) (hboth : result.isOk = (own && peer))
      (hheld : result.isOk = false → openBuffers h.actions = []) : Ended loc result h

theorem not_checked_of_range {loc : Local} {e : PyError} (h : loc.payloadRange = .error e) :
    ¬ loc.Checked := by
  simp [Local.Checked, h]

theorem not_checked_of_device {loc : Local} {e : PyError} (h : loc.setDevice = .error e) :
    ¬ loc.Checked := by
  simp [Local.Checked, h]

theorem not_loaded_of_runtime {loc : Local} {e : PyError} (h : loc.hipRuntime = .error e) :
    ¬ loc.Loaded := by
  simp [Local.Loaded, h]

theorem not_loaded_of_kernel {loc : Local} {e : PyError} (h : loc.mappedPeerKernel = .error e) :
    ¬ loc.Loaded := by
  simp [Local.Loaded, h]

section
variable {rank : Rank} {loc : Local}

/-- Closing a buffer changes nothing the invariant speaks of. -/
theorem InitInv.closed {h : InitHistory} (inv : InitInv rank loc h) (buffer : Buffer) :
    InitInv rank loc (h.act (.closed buffer)) where
  kinds := inv.kinds
  checked := inv.checked
  loaded := inv.loaded
  name := inv.name
  created hone := by
    obtain ⟨base, hbase, hmem⟩ := inv.created hone
    exact ⟨base, hbase, List.mem_append_left _ hmem⟩
  agreed := inv.agreed
  opening heap hheap := inv.opening heap (by simpa using hheap)

theorem ensures_closeBuffers {held : List Buffer} {E : Except PyError Unit → InitHistory → Prop}
    {h : InitHistory} (inv : InitInv rank loc h)
    (hend : InitInv rank loc { h with actions := h.actions ++ held.map .closed } →
      E (.ok ()) { h with actions := h.actions ++ held.map .closed }) :
    Ensures processGroup rank (InitInv rank loc) (closeBuffers held) E h := by
  induction held generalizing h with
  | nil => exact ⟨inv, by simpa [inv] using hend⟩
  | cons buffer held ih =>
    rw [closeBuffers, ensures_bind, ensures_act]
    have hclosed := inv.closed buffer
    exact ⟨inv, hclosed, ih hclosed (by simpa [History.act] using hend)⟩

/-- The rank goes on if both have succeeded, and otherwise closes what it holds and raises. -/
theorem ensures_agreeOrRaise {localError : Option PyError} {operation : String}
    {held : List Buffer} {E : Except PyError Unit → InitHistory → Prop} {h : InitHistory}
    (inv : InitInv rank loc h)
    (hcontribute : InitInv rank loc (h.contribute (.allReduceMin localError.isNone)))
    (hreceive : ∀ peer, InitInv rank loc
      ((h.contribute (.allReduceMin localError.isNone)).receive (.allReduceMin peer)))
    (hok : localError = none →
      E (.ok ()) ((h.contribute (.allReduceMin localError.isNone)).receive (.allReduceMin true)))
    (herror : ∀ peer e, (localError.isNone && peer) = false → E (.error e)
      { (h.contribute (.allReduceMin localError.isNone)).receive (.allReduceMin peer) with
        actions := h.actions ++ held.map .closed }) :
    Ensures processGroup rank (InitInv rank loc) (agreeOrRaise localError operation held) E h := by
  unfold agreeOrRaise
  rw [ensures_bind, ensures_allReduceMin]
  refine ⟨inv, hcontribute, fun peer => ⟨hreceive peer, ?_⟩⟩
  dsimp only
  by_cases hboth : (localError.isNone && peer) = true
  · rw [if_pos hboth]
    obtain ⟨hnone, rfl⟩ : localError = none ∧ peer = true := by simpa using hboth
    exact ⟨hreceive true, hok hnone⟩
  · rw [if_neg hboth, ensures_bind]
    exact ensures_closeBuffers (hreceive peer) fun hclosed =>
      ⟨hclosed, herror peer _ (by simpa using hboth)⟩

/-- From the first agreement on: both heaps are created. -/
theorem ensures_openPeer {base : BroadcastObject} {range : PayloadRange} (hchecked : loc.Checked)
    (hloaded : loc.Loaded) :
    Ensures processGroup rank (InitInv rank loc)
      (do
        let localError ← openPeer loc ⟨base, rank.peer⟩
        agreeOrRaise localError "open peer D3D12 cross-adapter heap"
          (if localError.isNone then [.peer, .own] else [.own])
        return (⟨rank, loc.device, range.maxSizeBytes, true, true⟩, range))
      (Ended loc)
      ⟨[.created ⟨base, rank⟩],
       [.broadcastObjectList (loc.descriptor rank), .allReduceMin true],
       [.broadcastObjectList (some base), .allReduceMin true]⟩ := by
  have hopening : ∀ actions, .created ⟨base, rank⟩ ∈ actions →
      (∀ heap, .opening heap ∈ actions → heap = ⟨base, rank.peer⟩) → InitInv rank loc
      ⟨actions, [.broadcastObjectList (loc.descriptor rank), .allReduceMin true],
       [.broadcastObjectList (some base), .allReduceMin true]⟩ := by
    intro actions hcreated hopening
    constructor <;> simp [hchecked, hloaded, hcreated]
    exact hopening
  have hagreeing : ∀ actions own received, .created ⟨base, rank⟩ ∈ actions →
      (∀ heap, .opening heap ∈ actions → heap = ⟨base, rank.peer⟩) → InitInv rank loc
      ⟨actions, [.broadcastObjectList (loc.descriptor rank), .allReduceMin true, .allReduceMin own],
       [.broadcastObjectList (some base), .allReduceMin true] ++ received⟩ := by
    intro actions own received hcreated hopening
    constructor <;> simp [hchecked, hloaded, hcreated]
    exact hopening
  unfold openPeer
  simp only [ensures_bind, ensures_act]
  refine ⟨hopening _ (by simp) (by simp), hopening _ (by simp) (by simp), ?_⟩
  cases hopen : loc.openHeap with
  | error error =>
    refine ⟨hopening _ (by simp) (by simp), ?_⟩
    refine ensures_agreeOrRaise (hopening _ (by simp) (by simp))
      (hagreeing _ _ [] (by simp) (by simp)) (fun peer => hagreeing _ _ [_] (by simp) (by simp))
      (by simp) fun peer e _ => ?_
    exact ⟨hagreeing _ _ [_] (by simp) (by simp), .agreed rfl rfl rfl rfl fun _ => rfl⟩
  | ok _ =>
    simp only [ensures_bind, ensures_act, ensures_pure]
    refine ⟨hopening _ (by simp) (by simp), hopening _ (by simp) (by simp),
      hopening _ (by simp) (by simp), ?_⟩
    refine ensures_agreeOrRaise (hopening _ (by simp) (by simp))
      (hagreeing _ _ [] (by simp) (by simp)) (fun peer => hagreeing _ _ [_] (by simp) (by simp))
      (fun _ => ?_) fun peer e hboth => ?_
    · exact ⟨hagreeing _ _ [_] (by simp) (by simp), .agreed rfl rfl rfl rfl (by simp)⟩
    · exact ⟨hagreeing _ _ [_] (by simp) (by simp), .agreed rfl rfl rfl hboth.symm fun _ => rfl⟩

/-- From the broadcast on, once the libraries are loaded. -/
theorem ensures_createOwn {base : BroadcastObject} {range : PayloadRange} (hchecked : loc.Checked)
    (hloaded : loc.Loaded) :
    Ensures processGroup rank (InitInv rank loc)
      (do
        let localError ← createOwn loc ⟨base, rank⟩
        agreeOrRaise localError "create D3D12 cross-adapter heap"
          (if localError.isNone then [.own] else [])
        let localError ← openPeer loc ⟨base, rank.peer⟩
        agreeOrRaise localError "open peer D3D12 cross-adapter heap"
          (if localError.isNone then [.peer, .own] else [.own])
        return (⟨rank, loc.device, range.maxSizeBytes, true, true⟩, range))
      (Ended loc)
      ⟨[], [.broadcastObjectList (loc.descriptor rank)], [.broadcastObjectList (some base)]⟩ := by
  have hcreating : ∀ actions, (∀ heap, .opening heap ∉ actions) → InitInv rank loc
      ⟨actions, [.broadcastObjectList (loc.descriptor rank)],
       [.broadcastObjectList (some base)]⟩ := by
    intro actions hopening
    constructor <;> simp [hchecked, hopening]
  have hagreeing : ∀ actions own received, (∀ heap, .opening heap ∉ actions) →
      (own = true → .created ⟨base, rank⟩ ∈ actions) → InitInv rank loc
      ⟨actions, [.broadcastObjectList (loc.descriptor rank), .allReduceMin own],
       [.broadcastObjectList (some base)] ++ received⟩ := by
    intro actions own received hopening hcreated
    constructor <;> simp [hchecked, hloaded, hopening]
    exact hcreated
  rw [ensures_bind]
  unfold createOwn
  cases hcreate : loc.createHeap with
  | error error =>
    simp only [ensures_pure]
    refine ⟨hcreating _ (by simp), ?_⟩
    rw [ensures_bind]
    refine ensures_agreeOrRaise (hcreating _ (by simp)) (hagreeing _ _ [] (by simp) (by simp))
      (fun peer => hagreeing _ _ [_] (by simp) (by simp)) (by simp)
      fun peer e hboth => ?_
    exact ⟨hagreeing _ _ [_] (by simp) (by simp), .notCreated rfl rfl rfl hboth rfl⟩
  | ok _ =>
    rw [ensures_bind, ensures_act]
    refine ⟨hcreating _ (by simp), hcreating _ (by simp), hcreating _ (by simp), ?_⟩
    dsimp only
    rw [ensures_bind]
    refine ensures_agreeOrRaise (hcreating _ (by simp)) (hagreeing _ _ [] (by simp) (by simp))
      (fun peer => hagreeing _ _ [_] (by simp) (by simp)) (fun _ => ?_) fun peer e hboth => ?_
    · exact ensures_openPeer hchecked hloaded
    · exact ⟨hagreeing _ _ [_] (by simp) (by simp), .notCreated rfl rfl rfl hboth rfl⟩

/-- Whatever the peer contributes, the invariant holds throughout, and the end is one of the
possible ends. -/
theorem init_ensures (rank : Rank) (loc : Local) :
    Ensures processGroup rank (InitInv rank loc) (D3D12AllReduce.init rank loc) (Ended loc)
      .start := by
  have hstart : InitInv rank loc .start := by
    constructor <;> simp
  unfold D3D12AllReduce.init
  refine .attempt_bind hstart (fun range hrange => ?_) fun e he =>
    .unchecked (not_checked_of_range he) rfl rfl
  refine .attempt_bind hstart (fun _ hset => ?_) fun e he =>
    .unchecked (not_checked_of_device he) rfl rfl
  have hchecked : loc.Checked := by
    simp [Local.Checked, hrange, hset]
  have hnamed : ∀ received, InitInv rank loc
      ⟨[], [.broadcastObjectList (loc.descriptor rank)], received⟩ := by
    intro received
    constructor <;> simp [hchecked]
  rw [ensures_bind, ensures_broadcastObjectList]
  refine ⟨hstart, hnamed _, fun received _ => ⟨hnamed _, ?_⟩⟩
  cases received with
  | none => exact ⟨hnamed _, .unnamed rfl rfl rfl⟩
  | some base =>
    refine .attempt_bind (hnamed _) (fun _ hruntime => ?_) fun e he =>
      .unloaded (not_loaded_of_runtime he) rfl rfl
    refine .attempt_bind (hnamed _) (fun _ hkernel => ?_) fun e he =>
      .unloaded (not_loaded_of_kernel he) rfl rfl
    refine ensures_createOwn hchecked ?_
    simp [Local.Loaded, hruntime, hkernel]

end
end MultiGpuTransport.D3D12
