import MultiGpuTransport.D3D12.AllReduceCorrect
import MultiGpuTransport.Shim.D3D12Calls

/-!
# What the calls of the API come to

From the ncclCommInitAll that makes a clique on, whatever else the thread calls: what reaches the
clique's transport are the pairs that the thread's groups keep for it, in the order of the ends of the
groups, and the transport takes them. So the streams of both ranks run the protocol, and the outputs
are the sums.
-/
namespace MultiGpuTransport.Shim
open D3D12 (WacDataType RankCall ShimCollective)

/-- A call of the transport. -/
structure D3D12Call where
  type : WacDataType
  zero : WacRankCall
  one : WacRankCall
  deriving DecidableEq

/-- A call as the transport of its clique is to get it: its own buffers, count and stream, for its own
device. -/
def PendingAllReduce.half (call : PendingAllReduce) : WacRankCall where
  send := call.send
  recv := call.recv
  count := call.count
  device := call.comm.device
  stream := call.stream

namespace D3D12Call

def ofPair (pair : WacDataType × PendingAllReduce × PendingAllReduce) : D3D12Call :=
  ⟨pair.1, pair.2.1.half, pair.2.2.half⟩

def half (call : D3D12Call) : Rank → WacRankCall
  | .zero => call.zero
  | .one => call.one

/-- What the kernels of a rank read at send. -/
def payload (call : D3D12Call) (memory : Rank → ℕ → UInt8) (rank : Rank) : Bytes :=
  (List.range ((call.half rank).count * call.type.elementSize)).map fun i =>
    memory rank ((call.half rank).send + i)

def arguments (call : D3D12Call) (memory : Rank → ℕ → UInt8) : WacDataType × (Rank → RankCall) :=
  (call.type, rankCalls call.zero call.one (call.payload memory))

end D3D12Call

/-- Whether a communicator of the clique is destroyed, or its address is given to another clique. -/
def ApiCall.ends (clique : CliqueContext) : ApiCall → Bool
  | commInitAll args => args.address = clique.address
  | commDestroy comm => comm.any fun comm => comm.clique = clique
  | _ => false

/-- The calls the transport of a clique gets in a run, as long as all of the clique is there. -/
def transportCalls (env : Env) (clique : CliqueContext) :
    List ApiCall → ThreadState → List D3D12Call
  | [], _ => []
  | next :: calls, st =>
    if next.ends clique then []
    else
      let after := (next.exec env st).2
      let sent :=
        if st.group.calls.any fun call => call.comm.clique = clique then
          after.d3d12Calls.drop st.d3d12Calls.length
        else []
      sent.map (fun call => ⟨call.1, call.2.1, call.2.2⟩) ++ transportCalls env clique calls after

/-- The pairs that the groups of a run keep for the clique, as long as all of it is there. -/
def groupPairs (env : Env) (clique : CliqueContext) : List ApiCall → ThreadState →
    List (WacDataType × PendingAllReduce × PendingAllReduce)
  | [], _ => []
  | next :: calls, st =>
    if next.ends clique then []
    else
      ((next.pair st).filter fun pair => pair.2.1.comm.clique = clique).toList ++
        groupPairs env clique calls (next.exec env st).2

/-- Two accepted calls of the clique that fit together. -/
structure PairFor (clique : CliqueContext) (pair : WacDataType × PendingAllReduce × PendingAllReduce) :
    Prop where
  clique_eq : pair.2.1.comm.clique = clique
  fits : Fits pair.1 pair.2.1 pair.2.2
  accepted_zero : Accepted pair.2.1
  accepted_one : Accepted pair.2.2

section
variable (env : Env) (clique : CliqueContext)

/-- A group with a pair has calls of the clique if the pair is of the clique. -/
theorem SendsPair.any_clique {group : GroupState} {type : WacDataType} {zero one : PendingAllReduce}
    (h : SendsPair group type zero one) :
    (group.calls.any fun call => call.comm.clique = clique) =
      decide (zero.comm.clique = clique) := by
  rw [h.calls.any_eq]
  simp [← h.inOrder.clique_eq]

/-- The transport gets the pairs of the groups, and nothing else. -/
theorem transportCalls_eq (calls : List ApiCall) (st : ThreadState) :
    transportCalls env clique calls st = (groupPairs env clique calls st).map .ofPair := by
  induction calls generalizing st with
  | nil => rfl
  | cons next calls ih =>
    rw [transportCalls, groupPairs]
    by_cases hends : next.ends clique = true
    · rw [if_pos hends, if_pos hends]
      rfl
    · rw [if_neg hends, if_neg hends]
      dsimp only
      rw [ih, List.map_append, exec_sends, List.drop_left]
      congr 1
      cases hpair : next.pair st with
      | none => split_ifs <;> rfl
      | some pair =>
        obtain ⟨type, zero, one⟩ := pair
        have hpairs := (ApiCall.pair_eq_some.mp hpair).2
        rw [hpairs.any_clique clique, Option.map_some, Option.toList_some, hpairs.sent]
        by_cases hclique : zero.comm.clique = clique
        · simp only [hclique, decide_true, if_true, List.map_cons, List.map_nil, Option.filter_some,
            Option.toList_some]
          rfl
        · simp [hclique]

/-- Whatever is called, the pairs are of accepted calls. -/
theorem groupPairs_accepted (calls : List ApiCall) (hmade : ∀ call ∈ calls, call.OnMade)
    (st : ThreadState) (haccepted : ∀ call ∈ st.group.calls, Accepted call) :
    ∀ pair ∈ groupPairs env clique calls st, PairFor clique pair := by
  induction calls generalizing st with
  | nil => exact List.forall_mem_nil _
  | cons next calls ih =>
    obtain ⟨hnext, hcalls⟩ := List.forall_mem_cons.mp hmade
    intro pair hpair
    rw [groupPairs] at hpair
    split_ifs at hpair with hends
    · cases hpair
    · rcases List.mem_append.mp hpair with hsent | hlater
      · obtain ⟨type, zero, one⟩ := pair
        rw [Option.mem_toList, Option.filter_eq_some_iff] at hsent
        have hpairs := (ApiCall.pair_eq_some.mp hsent.1).2
        obtain ⟨hzero, hone⟩ := hpairs.mem
        exact ⟨of_decide_eq_true hsent.2, hpairs.fits, haccepted _ hzero, haccepted _ hone⟩
      · exact ih hcalls _ (exec_accepted env haccepted hnext) pair hlater

end

/-- The transport of the clique takes such a pair. -/
theorem PairFor.takes {clique : CliqueContext}
    {pair : WacDataType × PendingAllReduce × PendingAllReduce} (h : PairFor clique pair)
    {zero one : ℤ} (hdevices : clique.devices = [zero, one]) (memory : Rank → ℕ → UInt8) :
    ∃ col : ShimCollective (wacD3d12Create zero one clique.d3d12BufferBytes 0).devices
      clique.d3d12BufferBytes,
      (col.type, col.call) = (D3D12Call.ofPair pair).arguments memory := by
  obtain ⟨type, first, second⟩ := pair
  obtain ⟨rfl, hfits, ⟨hfirst, -⟩, ⟨hsecond, -⟩⟩ := h
  dsimp only at hfits hfirst hsecond
  have hdevice := hfits.inOrder.getD_device hfits.transport 0
  rw [hdevices, List.getD_cons_succ, List.getD_cons_zero, List.getD_cons_zero] at hdevice
  obtain ⟨rfl, rfl⟩ := hdevice
  have hpositive : 0 < type.elementSize := by
    unfold WacDataType.elementSize
    split_ifs <;> decide
  refine ⟨{
    type := type
    call := ((D3D12Call.ofPair (type, first, second)).arguments memory).2
    nonnull := ?_
    count_eq := ?_
    device_eq := ?_
    payload_length := ?_
    fits := (Nat.le_div_iff_mul_le hpositive).mpr hfits.fits }, rfl⟩
  · intro r
    cases r with
    | zero => exact hfirst
    | one => exact hsecond
  · intro r
    cases r with
    | zero => exact hfits.count_eq
    | one => exact hfits.count_eq.symm
  · intro r
    cases r <;> rfl
  · intro r
    cases r with
    | zero => exact (List.length_map _).trans List.length_range
    | one => exact (List.length_map _).trans List.length_range

section
variable (env : Env)

/-- If the transport does not fail, dispatching a pair to it succeeds. -/
theorem dispatchPair_success (hok : ∀ n, env.d3d12AllReduce n = .ok ()) (zero one : PendingAllReduce)
    (st : ThreadState) (hsent : (dispatchPair env zero one st).2.d3d12Calls ≠ st.d3d12Calls) :
    (dispatchPair env zero one st).1 = .success := by
  unfold dispatchPair at hsent ⊢
  cases hroute : d3d12Route zero one with
  | some type => simp [hok]
  | none =>
    simp only [hroute] at hsent
    split_ifs at hsent
    · exact absurd rfl hsent
    · exact absurd (dispatchRealNative_d3d12Calls env _ st) hsent
    · exact absurd (dispatchRealThreaded_d3d12Calls env zero one st) hsent

theorem dispatchGroup_success (hok : ∀ n, env.d3d12AllReduce n = .ok ()) (st : ThreadState)
    (hsent : (dispatchGroup env st).2.d3d12Calls ≠ st.d3d12Calls) :
    (dispatchGroup env st).1 = .success := by
  unfold dispatchGroup at hsent ⊢
  by_cases herror : st.group.error = .success
  · simp only [herror, ne_eq, not_true_eq_false, if_false] at hsent ⊢
    rcases hcalls : st.group.calls with _ | ⟨first, _ | ⟨second, _ | ⟨third, rest⟩⟩⟩
    · rfl
    · simp only [hcalls] at hsent
      exact absurd (dispatchRealNative_d3d12Calls env _ st) hsent
    · simp only [hcalls] at hsent ⊢
      split_ifs at hsent ⊢
      · exact absurd (dispatchRealNative_d3d12Calls env _ st) hsent
      · exact dispatchPair_success env hok second first st hsent
      · exact dispatchPair_success env hok first second st hsent
    · simp only [hcalls] at hsent
      exact absurd (dispatchRealNative_d3d12Calls env _ st) hsent
  · simp [herror] at hsent

/-- A call that sends something to a transport succeeds. -/
theorem exec_success (hok : ∀ n, env.d3d12AllReduce n = .ok ()) (call : ApiCall) (st : ThreadState)
    (hsent : (call.exec env st).2.d3d12Calls ≠ st.d3d12Calls) :
    (call.exec env st).1 = .success := by
  cases call with
  | groupStart => exact absurd (ncclGroupStart_d3d12Calls st) hsent
  | allReduce args => exact absurd (ncclAllReduce_d3d12Calls env args st) hsent
  | groupEnd =>
    simp only [ApiCall.exec, ncclGroupEnd] at hsent ⊢
    split_ifs at hsent ⊢
    · exact absurd rfl hsent
    · rfl
    · exact dispatchGroup_success env hok
        { st with group := { st.group with depth := st.group.depth - 1 } } hsent
  | commInitAll args => exact absurd (ncclCommInitAll_d3d12Calls env args st) hsent
  | commDestroy comm => exact absurd (ncclCommDestroy_d3d12Calls env comm st) hsent

end

/-- A call of the API sends exactly the pair of its group, and succeeds if it sends one. -/
theorem exec_sendsPair (env : Env) (hok : ∀ n, env.d3d12AllReduce n = .ok ()) (next : ApiCall)
    (st : ThreadState) :
    (∀ type zero one, next = .groupEnd → SendsPair st.group type zero one →
      (next.exec env st).2.d3d12Calls = st.d3d12Calls ++ [(type, zero.half, one.half)] ∧
      (next.exec env st).1 = .success) ∧
    ((next.exec env st).2.d3d12Calls ≠ st.d3d12Calls → next = .groupEnd ∧
      ∃ type zero one, SendsPair st.group type zero one) := by
  have hsends := exec_sends env next st
  constructor
  · intro type zero one hnext hpairs
    rw [ApiCall.pair_eq_some.mpr ⟨hnext, hpairs⟩, Option.map_some, Option.toList_some,
      hpairs.sent] at hsends
    refine ⟨hsends, exec_success env hok next st ?_⟩
    rw [hsends]
    simp
  · intro hsent
    cases hpair : next.pair st with
    | none =>
      rw [hpair, Option.map_none, Option.toList_none, List.append_nil] at hsends
      exact absurd hsends hsent
    | some pair =>
      obtain ⟨type, zero, one⟩ := pair
      obtain ⟨hnext, hpairs⟩ := ApiCall.pair_eq_some.mp hpair
      exact ⟨hnext, type, zero, one, hpairs⟩

/-- Each half of every call is on the stream of its rank. -/
def OnStreams (streams : Rank → StreamId) (calls : List D3D12Call) : Prop :=
  ∀ call ∈ calls, ∀ rank, (call.half rank).stream = streams rank

theorem singleStream_of_onStreams {devices : Rank → ℕ} {maxSizeBytes : ℕ}
    {cs : List (ShimCollective devices maxSizeBytes)} {calls : List D3D12Call}
    {memory : ℕ → Rank → ℕ → UInt8} {streams : Rank → StreamId} (h : OnStreams streams calls)
    (hcs : ShimCollective.arguments cs = calls.mapIdx fun i call => call.arguments (memory i)) :
    D3D12.SingleStream (ShimCollective.toCollectives cs) := by
  have hstream : ∀ col ∈ cs, ∀ rank, (col.call rank).stream = streams rank := by
    intro col hcol rank
    have hmem : (col.type, col.call) ∈ ShimCollective.arguments cs := List.mem_map_of_mem hcol
    rw [hcs, List.mem_mapIdx] at hmem
    obtain ⟨i, hi, heq⟩ := hmem
    have hcall := congrArg (fun args => (args.2 rank).stream) heq
    rw [← hcall, ← h _ (List.getElem_mem hi) rank]
    cases rank <;> rfl
  intro rank col hcol col' hcol'
  obtain ⟨shim, hshim, rfl⟩ := List.mem_map.mp (List.mem_of_mem_filter hcol)
  obtain ⟨shim', hshim', rfl⟩ := List.mem_map.mp (List.mem_of_mem_filter hcol')
  exact (hstream shim hshim rank).trans (hstream shim' hshim' rank).symm

/-- Pairs are calls the transport takes, one after the other. -/
theorem exists_collectives {clique : CliqueContext} {zero one : ℤ}
    (hdevices : clique.devices = [zero, one])
    (pairs : List (WacDataType × PendingAllReduce × PendingAllReduce))
    (hpairs : ∀ pair ∈ pairs, PairFor clique pair) (memory : ℕ → Rank → ℕ → UInt8) :
    ∃ cs : List (ShimCollective (wacD3d12Create zero one clique.d3d12BufferBytes 0).devices
        clique.d3d12BufferBytes),
      ShimCollective.arguments cs =
        (pairs.map D3D12Call.ofPair).mapIdx fun i call => call.arguments (memory i) := by
  induction pairs generalizing memory with
  | nil => exact ⟨[], rfl⟩
  | cons pair pairs ih =>
    obtain ⟨hpair, hrest⟩ := List.forall_mem_cons.mp hpairs
    obtain ⟨col, hcol⟩ := hpair.takes hdevices (memory 0)
    obtain ⟨cs, hcs⟩ := ih hrest fun i => memory (i + 1)
    refine ⟨col :: cs, ?_⟩
    rw [List.map_cons, List.mapIdx_cons, ← hcs, ← hcol]
    rfl

/-- From the ncclCommInitAll that makes a clique with a transport on, whatever else is called: the end
of a group sends the transport exactly the pair the group keeps for it, if there is one, and no other
call sends anything; if no call of the transport fails, such an end succeeds. So what the clique's
transport gets are the pairs of the groups, in order. It takes them, and with one stream for each rank
both ranks' streams come to their ends, however they interleave, and each output is the sum of the
buffers of its own pair. -/
theorem apiCalls_sum (env : Env) (hok : ∀ n, env.d3d12AllReduce n = .ok ())
    (before calls : List ApiCall) (args : InitArgs)
    (hbefore : ∀ call ∈ before, call.OnMade) (hcalls : ∀ call ∈ calls, call.OnMade) :
    let made := ncclCommInitAll env args (run env before .start).2
    ∀ comm ∈ made.1.2, comm.clique.d3d12 = true →
    let pairs := groupPairs env comm.clique calls made.2
    let sent := transportCalls env comm.clique calls made.2
    (∀ done next rest, calls = done ++ next :: rest →
      let st := (run env done made.2).2
      let after := (next.exec env st).2
      (∀ type zero one, next = .groupEnd → SendsPair st.group type zero one →
        after.d3d12Calls = st.d3d12Calls ++ [(type, zero.half, one.half)] ∧
        (next.exec env st).1 = .success) ∧
      (after.d3d12Calls ≠ st.d3d12Calls → next = .groupEnd ∧
        ∃ type zero one, SendsPair st.group type zero one)) ∧
    sent = pairs.map .ofPair ∧ (∀ pair ∈ pairs, PairFor comm.clique pair) ∧
    ∃ zero one maxSizeBytes, Event.d3d12Create zero one maxSizeBytes ∈ made.2.log ∧
      comm.clique.devices = [zero, one] ∧
      ∀ memory : ℕ → Rank → ℕ → UInt8,
        ∃ cs : List (ShimCollective (wacD3d12Create zero one maxSizeBytes 0).devices maxSizeBytes),
          ShimCollective.arguments cs = (sent.mapIdx fun i call => call.arguments (memory i)) ∧
          ∀ streams, OnStreams streams sent → ∀ addValues heap,
            D3D12.Correct addValues (ShimCollective.toCollectives cs) (D3D12.shimReturns cs)
              (ShimCollective.system addValues cs heap) := by
  intro made comm hcomm hd3d12 pairs sent
  obtain ⟨hdevices, hbytes, htransport, hlog⟩ := ncclCommInitAll_spec env hcomm
  have haccepted : ∀ call ∈ made.2.group.calls, Accepted call := by
    rw [(ncclCommInitAll_frame env args _).1]
    exact run_accepted env (by simp [ThreadState.start]) hbefore
  have hpairs : ∀ pair ∈ pairs, PairFor comm.clique pair :=
    groupPairs_accepted env comm.clique calls hcalls made.2 haccepted
  have hsent : sent = pairs.map .ofPair := transportCalls_eq env comm.clique calls made.2
  refine ⟨fun done next rest _ => exec_sendsPair env hok next _, hsent, hpairs, ?_⟩
  obtain ⟨zero, one, hpair, hcreate⟩ := createEvents_of_created env (htransport ▸ hd3d12)
  rw [hpair] at hdevices
  refine ⟨zero, one, comm.clique.d3d12BufferBytes, ?_, hdevices, fun memory => ?_⟩
  · rw [hlog, hcreate, hbytes]
    simp
  · obtain ⟨cs, hcs⟩ := exists_collectives hdevices pairs hpairs memory
    rw [← hsent] at hcs
    exact ⟨cs, hcs, fun streams hstreams addValues heap =>
      D3D12.shim_correct (singleStream_of_onStreams hstreams hcs) heap⟩

/-- The pair of the sample from the making of its clique to its sum. -/
def sampleSession : List ApiCall := unwrappedCalls ++ [.groupEnd]

theorem apiCalls_sum_sample :
    let made := ncclCommInitAll sampleEnv sampleInit .start
    transportCalls sampleEnv (unwrappedComm .zero).clique sampleSession made.2 =
      [⟨.f32, ⟨100, 200, 4, 0, 1⟩, ⟨100, 200, 4, 1, 1⟩⟩] ∧
    ∃ cs : List (ShimCollective (wacD3d12Create 0 1 64 0).devices 64),
      cs.map (fun col => (col.call .one).payload) = [List.replicate 16 7] ∧
      D3D12.Correct addBytes (ShimCollective.toCollectives cs) (D3D12.shimReturns cs)
        (ShimCollective.system addBytes cs fun _ => []) := by
  have hmade : ∀ call ∈ sampleSession, call.OnMade := by
    simp only [sampleSession, unwrappedCalls, List.cons_append, List.nil_append,
      List.forall_mem_cons, ApiCall.OnMade, Option.some.injEq, List.not_mem_nil, false_imp_iff,
      implies_true, and_true, true_and]
    exact ⟨fun _ h => h ▸ made_unwrappedComm .one, fun _ h => h ▸ made_unwrappedComm .zero⟩
  have hsent : transportCalls sampleEnv (unwrappedComm .zero).clique sampleSession
      (ncclCommInitAll sampleEnv sampleInit .start).2 =
        [⟨.f32, ⟨100, 200, 4, 0, 1⟩, ⟨100, 200, 4, 1, 1⟩⟩] := by decide
  obtain ⟨-, -, -, zero, one, maxSizeBytes, hcreate, -, hsums⟩ :=
    apiCalls_sum sampleEnv (fun _ => rfl) [] sampleSession sampleInit (by simp) hmade
      (unwrappedComm .zero) (by decide) rfl
  have hlog : (ncclCommInitAll sampleEnv sampleInit .start).2.log = [.d3d12Create 0 1 64] := by
    decide
  rw [run, hlog, List.mem_singleton, Event.d3d12Create.injEq] at hcreate
  obtain ⟨rfl, rfl, rfl⟩ := hcreate
  obtain ⟨cs, hcs, hcorrect⟩ := hsums fun _ _ _ => 7
  rw [run, hsent] at hcs hcorrect
  refine ⟨hsent, cs, ?_, hcorrect (fun _ => 1) ?_ _ _⟩
  · have hpayload := congrArg (List.map fun args => (args.2 Rank.one).payload) hcs
    rw [ShimCollective.arguments, List.map_map] at hpayload
    exact hpayload.trans (by decide)
  · intro call hcall rank
    rw [List.mem_singleton] at hcall
    subst hcall
    cases rank <;> rfl

end MultiGpuTransport.Shim
