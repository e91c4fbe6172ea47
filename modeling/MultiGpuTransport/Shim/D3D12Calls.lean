import Mathlib.Data.List.Permutation
import MultiGpuTransport.Shim.Group

/-!
# What the shim sends to the D3D12 transport

The shim checks a pair of calls before it sends them to the D3D12 transport, and the transport checks
them again. `Fits` is what holds of every pair that is sent; the transport of the pair's clique then
rejects nothing, and its kernels stay within their heaps.
-/
namespace MultiGpuTransport.Shim
open D3D12 (WacDataType Transport RankCall HipCall Op enqueueRank wacD3d12Allreduce)

/-- The transport wac_d3d12_create makes of two devices, after a number of calls. -/
def wacD3d12Create (zero one : ℤ) (maxSizeBytes epoch : ℕ) : Transport where
  devices
    | .zero => zero.toNat
    | .one => one.toNat
  maxSizeBytes := maxSizeBytes
  epoch := epoch

/-- The call as the transport reads it, with what is in the buffer at send. -/
def WacRankCall.rankCall (call : WacRankCall) (payload : Bytes) : RankCall :=
  ⟨call.send, payload, call.recv, call.count, call.device.toNat, call.stream⟩

/-- The two halves of a call of the transport. -/
def rankCalls (zero one : WacRankCall) (payload : Rank → Bytes) : Rank → RankCall
  | .zero => zero.rankCall (payload .zero)
  | .one => one.rankCall (payload .one)

/-- The transport rejects nothing, and what its kernels copy to a heap fits there. -/
def TransportAccepts (transport : Transport) (type : WacDataType) (calls : Rank → RankCall) : Prop :=
  ∃ next hip, wacD3d12Allreduce transport type calls = .ok (next, hip) ∧
    (∀ message, .throw message ∉ hip) ∧
    ∀ operation rank stream heap epoch source,
      .onStream operation rank stream (.copy heap epoch source) ∈ hip →
        source.length ≤ transport.maxSizeBytes

/-- A pair of calls the transport takes, in the order of its ranks. -/
structure Fits (type : WacDataType) (zero one : PendingAllReduce) : Prop where
  clique_eq : zero.comm.clique = one.comm.clique
  transport : zero.comm.clique.d3d12 = true
  pair : zero.comm.clique.devices.length = 2
  rank_zero : zero.comm.rank = 0
  rank_one : one.comm.rank = 1
  count_eq : zero.count = one.count
  datatype_eq : zero.datatype = one.datatype
  supported : datatypeInfo zero.datatype = some (type.elementSize, type)
  sum : zero.op = .sum ∧ one.op = .sum
  noOverflow : zero.count * type.elementSize ≤ sizeMax
  fits : zero.count * type.elementSize ≤ zero.comm.clique.d3d12BufferBytes

theorem Fits.inOrder {type : WacDataType} {zero one : PendingAllReduce} (h : Fits type zero one) :
    InOrder zero one := by
  refine ⟨h.clique_eq, ?_⟩
  rw [h.rank_zero, h.rank_one]
  exact Nat.one_pos

theorem elementSize_of_datatypeInfo {datatype : NcclDataType} {size : ℕ} {type : WacDataType}
    (h : datatypeInfo datatype = some (size, type)) : size = type.elementSize := by
  cases datatype <;> simp only [datatypeInfo, Option.some.injEq, Prod.mk.injEq, reduceCtorEq] at h
  all_goals
    obtain ⟨rfl, rfl⟩ := h
    rfl

/-- The route of a pair in the order of its ranks decides all that the transport asks for. -/
theorem InOrder.fits {zero one : PendingAllReduce} (h : InOrder zero one) {type : WacDataType}
    (hroute : d3d12Route zero one = some type) : Fits type zero one := by
  obtain ⟨hd3d12, hcount, hdatatype, hop, hop', htype⟩ := d3d12Route_eq_some hroute
  obtain ⟨hzero, hone⟩ := h.ranks hd3d12
  obtain ⟨⟨size, type'⟩, hinfo, rfl⟩ := Option.map_eq_some_iff.mp htype
  have hsize := elementSize_of_datatypeInfo hinfo
  simp only [d3d12Route, Option.ite_none_right_eq_some, hinfo, Option.map_some,
    Option.getD_some] at hroute
  obtain ⟨⟨-, -, hvalid, hbytes, -⟩, -⟩ := hroute
  rw [if_pos hvalid] at hbytes
  exact {
    clique_eq := h.clique_eq
    transport := hd3d12
    pair := zero.comm.clique.d3d12_pair hd3d12
    rank_zero := hzero
    rank_one := hone
    count_eq := hcount
    datatype_eq := hdatatype
    supported := hsize ▸ hinfo
    sum := ⟨hop, hop'⟩
    noOverflow := hsize ▸ Nat.mul_le_of_le_div _ _ _ hvalid.2
    fits := hsize ▸ hbytes }

/-- A call of the D3D12 transport that was made, if the event is one. -/
def Event.d3d12Call : Event → Option (WacDataType × WacRankCall × WacRankCall)
  | d3d12AllReduce type zero one => some (type, zero, one)
  | _ => none

namespace ThreadState

/-- The calls of the D3D12 transport so far. -/
def d3d12Calls (st : ThreadState) : List (WacDataType × WacRankCall × WacRankCall) :=
  st.log.filterMap Event.d3d12Call

section
variable {α : Type} (st : ThreadState) (answer : ℕ → α) (event : Event)

@[simp] theorem call_d3d12Calls : (st.call answer event).2.d3d12Calls =
    st.d3d12Calls ++ event.d3d12Call.toList := by
  cases h : event.d3d12Call <;> simp [d3d12Calls, h]

@[simp] theorem d3d12Calls_setGroup (group : GroupState) :
    ({ st with group := group } : ThreadState).d3d12Calls = st.d3d12Calls := rfl

@[simp] theorem d3d12Calls_setError (error : String) :
    ({ st with lastError := error } : ThreadState).d3d12Calls = st.d3d12Calls := rfl

end
end ThreadState

section
variable (env : Env)

theorem realNativeLoop_d3d12Calls (calls : List PendingAllReduce) (st : ThreadState) :
    (realNativeLoop env calls st).2.d3d12Calls = st.d3d12Calls := by
  induction calls generalizing st with
  | nil => rfl
  | cons call calls ih =>
    rw [realNativeLoop]
    cases call.realArgs with
    | none => rfl
    | some args =>
      dsimp only
      split_ifs
      · simp [Event.d3d12Call]
      · rw [ih]
        simp [Event.d3d12Call]

theorem dispatchRealNative_d3d12Calls (calls : List PendingAllReduce) (st : ThreadState) :
    (dispatchRealNative env calls st).2.d3d12Calls = st.d3d12Calls := by
  unfold dispatchRealNative
  cases env.realError with
  | some error => rfl
  | none =>
    dsimp only
    split_ifs
    · simp [Event.d3d12Call]
    · simp [Event.d3d12Call, realNativeLoop_d3d12Calls]
    · simp [Event.d3d12Call, realNativeLoop_d3d12Calls]

theorem realWorker_d3d12Calls (call : PendingAllReduce) (args : RealArgs) (st : ThreadState) :
    (realWorker env call args st).2.d3d12Calls = st.d3d12Calls := by
  unfold realWorker
  cases hset : env.setDevice st.log.length <;> simp [hset, Event.d3d12Call]

theorem dispatchRealThreaded_d3d12Calls (zero one : PendingAllReduce) (st : ThreadState) :
    (dispatchRealThreaded env zero one st).2.d3d12Calls = st.d3d12Calls := by
  unfold dispatchRealThreaded
  cases env.realError with
  | some error => rfl
  | none =>
    cases zero.realArgs with
    | none => rfl
    | some argsZero =>
      cases one.realArgs with
      | none => rfl
      | some argsOne =>
        dsimp only
        split_ifs <;> simp [realWorker_d3d12Calls]

/-- The pair that the end of the outermost group sends to the D3D12 transport. -/
def GroupState.d3d12Pair (group : GroupState) :
    Option (WacDataType × PendingAllReduce × PendingAllReduce) :=
  match group.calls with
  | [first, second] =>
    if group.depth ≠ 1 ∨ group.error ≠ .success ∨ first.comm.clique ≠ second.comm.clique ∨
        first.comm.rank = second.comm.rank then none
    else if first.comm.rank > second.comm.rank then
      (d3d12Route second first).map fun type => (type, second, first)
    else (d3d12Route first second).map fun type => (type, first, second)
  | _ => none

/-- What the transport gets for such a pair. -/
def d3d12Sent (sent : WacDataType × PendingAllReduce × PendingAllReduce) :
    WacDataType × WacRankCall × WacRankCall :=
  let clique := sent.2.1.comm.clique
  (sent.1, sent.2.1.wacCall (clique.devices.getD 0 (-1)),
    sent.2.2.wacCall (clique.devices.getD 1 (-1)))

/-- The group keeps these two calls and no others, and its end sends them to the transport of their
clique. -/
structure SendsPair (group : GroupState) (type : WacDataType) (zero one : PendingAllReduce) :
    Prop where
  depth : group.depth = 1
  error : group.error = .success
  calls : group.calls.Perm [zero, one]
  inOrder : InOrder zero one
  route : d3d12Route zero one = some type

theorem d3d12Pair_eq_some {group : GroupState} {type : WacDataType} {zero one : PendingAllReduce} :
    group.d3d12Pair = some (type, zero, one) ↔ SendsPair group type zero one := by
  constructor
  · intro h
    unfold GroupState.d3d12Pair at h
    split at h
    · rename_i first second hcalls
      split_ifs at h with hother horder
      · push Not at hother
        obtain ⟨type, hroute, heq⟩ := Option.map_eq_some_iff.mp h
        cases heq
        exact ⟨hother.1, hother.2.1, hcalls ▸ List.Perm.swap _ _ _, ⟨hother.2.2.1.symm, horder⟩, hroute⟩
      · push Not at hother
        obtain ⟨type, hroute, heq⟩ := Option.map_eq_some_iff.mp h
        cases heq
        exact ⟨hother.1, hother.2.1, hcalls ▸ .refl _, ⟨hother.2.2.1, by omega⟩, hroute⟩
    · cases h
  · rintro ⟨hdepth, herror, hcalls, ⟨hclique, hrank⟩, hroute⟩
    rcases List.perm_pair.mp hcalls with h | h
    · simp [GroupState.d3d12Pair, h, hdepth, herror, hclique, hrank.ne, hrank.le, hroute]
    · simp [GroupState.d3d12Pair, h, hdepth, herror, hclique, hrank, hrank.ne', hroute]

namespace SendsPair
variable {group : GroupState} {type : WacDataType} {zero one : PendingAllReduce}

/-- What the end of a group sends fits. -/
theorem fits (h : SendsPair group type zero one) : Fits type zero one := h.inOrder.fits h.route

theorem mem (h : SendsPair group type zero one) : zero ∈ group.calls ∧ one ∈ group.calls :=
  ⟨h.calls.mem_iff.mpr (by simp), h.calls.mem_iff.mpr (by simp)⟩

theorem sent (h : SendsPair group type zero one) : d3d12Sent (type, zero, one) =
    (type, zero.wacCall zero.comm.device, one.wacCall one.comm.device) := by
  obtain ⟨hdevice, hdevice'⟩ := h.inOrder.getD_device h.fits.transport (-1)
  simp only [d3d12Sent, hdevice, hdevice']

end SendsPair

theorem dispatchPair_sends (zero one : PendingAllReduce) (st : ThreadState) :
    (dispatchPair env zero one st).2.d3d12Calls = st.d3d12Calls ++
      ((d3d12Route zero one).map fun type => d3d12Sent (type, zero, one)).toList := by
  unfold dispatchPair
  cases hroute : d3d12Route zero one with
  | some type =>
    dsimp only
    cases hresult : env.d3d12AllReduce st.log.length with
    | error error => simp [hresult, ThreadState.d3d12Calls, Event.d3d12Call, d3d12Sent]
    | ok _ => simp [hresult, Event.d3d12Call, d3d12Sent]
  | none =>
    dsimp only
    rw [Option.map_none, Option.toList_none, List.append_nil]
    split_ifs
    · rfl
    · exact dispatchRealNative_d3d12Calls env _ st
    · exact dispatchRealThreaded_d3d12Calls env zero one st

theorem dispatchGroup_sends (st : ThreadState) :
    (dispatchGroup env st).2.d3d12Calls = st.d3d12Calls ++
      (({ st.group with depth := 1 } : GroupState).d3d12Pair.map d3d12Sent).toList := by
  have hnone : ∀ after : ThreadState, after.d3d12Calls = st.d3d12Calls →
      after.d3d12Calls = st.d3d12Calls ++
        ((none : Option (WacDataType × PendingAllReduce × PendingAllReduce)).map d3d12Sent).toList :=
    fun after h => h.trans (List.append_nil _).symm
  unfold dispatchGroup GroupState.d3d12Pair
  by_cases herror : st.group.error = .success
  · simp only [herror, ne_eq, not_true_eq_false, if_false, false_or]
    rcases hcalls : st.group.calls with _ | ⟨first, _ | ⟨second, _ | ⟨third, rest⟩⟩⟩
    · exact hnone st rfl
    · exact hnone _ (dispatchRealNative_d3d12Calls env _ st)
    · dsimp only
      split_ifs
      · exact hnone _ (dispatchRealNative_d3d12Calls env _ st)
      · rw [Option.map_map]
        exact dispatchPair_sends env second first st
      · rw [Option.map_map]
        exact dispatchPair_sends env first second st
    · exact hnone _ (dispatchRealNative_d3d12Calls env _ st)
  · simp only [ne_eq, herror, not_false_eq_true, if_true, true_or, or_true]
    split <;> exact hnone st rfl

/-- The end of a group sends that pair and nothing else. -/
theorem ncclGroupEnd_sends (st : ThreadState) : (ncclGroupEnd env st).2.d3d12Calls =
    st.d3d12Calls ++ (st.group.d3d12Pair.map d3d12Sent).toList := by
  by_cases hdepth : st.group.depth = 1
  · have hgroup : ({ st.group with depth := 1 } : GroupState) = st.group := by rw [← hdepth]
    have hsends := dispatchGroup_sends env { st with group := { st.group with depth := 0 } }
    rw [hgroup] at hsends
    simp only [ncclGroupEnd, hdepth, Nat.sub_self]
    exact hsends
  · have hnone : st.group.d3d12Pair = none := by
      unfold GroupState.d3d12Pair
      split
      · rw [if_pos (.inl hdepth)]
      · rfl
    rw [hnone, Option.map_none, Option.toList_none, List.append_nil, ncclGroupEnd]
    dsimp only
    split_ifs
    · rfl
    · rfl
    · omega

/-- What creating a clique asks the D3D12 transport for. -/
def createEvents (args : InitArgs) : List Event :=
  match args.devices with
  | [zero, one] =>
    if args.config.mode ≠ .rccl then [.d3d12Create zero one args.config.d3d12BufferBytes] else []
  | _ => []

theorem initD3D12_log (args : InitArgs) (st : ThreadState) :
    (initD3D12 env args st).2.log = st.log ++ createEvents args := by
  unfold initD3D12 createEvents
  rcases args.devices with _ | ⟨zero, _ | ⟨one, _ | ⟨two, rest⟩⟩⟩
  · simp
  · simp
  · dsimp only
    split_ifs
    · cases hcreate : env.d3d12Create st.log.length <;> simp [hcreate]
    · simp
  · simp

theorem initReal_log (args : InitArgs) (st : ThreadState) :
    ∃ new, (initReal env args st).2.log = st.log ++ new ∧
      ∀ event ∈ new, event = .commInitAll args.devices := by
  unfold initReal
  split_ifs
  · cases env.realError with
    | none => exact ⟨[.commInitAll args.devices], rfl, by simp⟩
    | some error => exact ⟨[], by simp, by simp⟩
  · exact ⟨[], by simp, by simp⟩
  · exact ⟨[], by simp, by simp⟩

/-- A transport is there only when it was asked for. -/
theorem createEvents_of_created {args : InitArgs} {st : ThreadState}
    (h : (initD3D12 env args st).1.1 = true) : ∃ zero one, args.devices = [zero, one] ∧
      createEvents args = [.d3d12Create zero one args.config.d3d12BufferBytes] := by
  unfold initD3D12 at h
  split at h
  · rename_i zero one hdevices
    split_ifs at h with hmode
    exact ⟨zero, one, hdevices, by simp only [createEvents, hdevices, if_pos hmode]⟩
  · simp at h

/-- The clique of a communicator that ncclCommInitAll made, and what it logged for it. -/
theorem ncclCommInitAll_spec {args : InitArgs} {st : ThreadState} {comm : PluginComm}
    (h : comm ∈ (ncclCommInitAll env args st).1.2) :
    comm.clique.devices = args.devices ∧
    comm.clique.d3d12BufferBytes = args.config.d3d12BufferBytes ∧
    comm.clique.d3d12 = (initD3D12 env args (initReal env args st).2).1.1 ∧
    (ncclCommInitAll env args st).2.log =
      (initReal env args st).2.log ++ createEvents args := by
  rw [← initD3D12_log env]
  unfold ncclCommInitAll at h ⊢
  dsimp only at h ⊢
  split_ifs at h ⊢
  all_goals first
    | exact absurd h List.not_mem_nil
    | obtain ⟨rank, -, rfl⟩ := List.mem_map.mp h
      exact ⟨rfl, rfl, rfl, rfl⟩

theorem ncclCommInitAll_d3d12Calls (args : InitArgs) (st : ThreadState) :
    (ncclCommInitAll env args st).2.d3d12Calls = st.d3d12Calls := by
  have hreal : (initReal env args st).2.d3d12Calls = st.d3d12Calls := by
    obtain ⟨new, hlog, hnew⟩ := initReal_log env args st
    have : new.filterMap Event.d3d12Call = [] :=
      List.filterMap_eq_nil_iff.mpr fun event hevent => by rw [hnew event hevent]; rfl
    simp [ThreadState.d3d12Calls, hlog, this]
  have hcreate : (initD3D12 env args (initReal env args st).2).2.d3d12Calls = st.d3d12Calls := by
    rw [← hreal, ThreadState.d3d12Calls, initD3D12_log, List.filterMap_append]
    have : (createEvents args).filterMap Event.d3d12Call = [] := by
      unfold createEvents
      split
      · split_ifs <;> rfl
      · rfl
    rw [this, List.append_nil]
    rfl
  unfold ncclCommInitAll
  dsimp only
  split_ifs
  · rfl
  all_goals exact hcreate

theorem ncclCommDestroy_d3d12Calls (comm : Option PluginComm) (st : ThreadState) :
    (ncclCommDestroy env comm st).2.d3d12Calls = st.d3d12Calls := by
  unfold ncclCommDestroy
  split
  · rfl
  · split
    · rfl
    · cases env.realError <;> simp [Event.d3d12Call]

theorem ncclAllReduce_d3d12Calls (args : AllReduceArgs) (st : ThreadState) :
    (ncclAllReduce env args st).2.d3d12Calls = st.d3d12Calls := by
  unfold ncclAllReduce
  split
  · rfl
  · split_ifs
    · rfl
    · split
      · rfl
      · cases env.realError <;> simp [Event.d3d12Call]

theorem ncclGroupStart_d3d12Calls (st : ThreadState) :
    (ncclGroupStart st).2.d3d12Calls = st.d3d12Calls := by
  unfold ncclGroupStart
  dsimp only
  split_ifs <;> rfl

/-- The pair a call of the API sends to the D3D12 transport. -/
def ApiCall.pair (st : ThreadState) :
    ApiCall → Option (WacDataType × PendingAllReduce × PendingAllReduce)
  | groupEnd => st.group.d3d12Pair
  | _ => none

theorem exec_sends (call : ApiCall) (st : ThreadState) : (call.exec env st).2.d3d12Calls =
    st.d3d12Calls ++ ((call.pair st).map d3d12Sent).toList := by
  cases call with
  | groupStart => exact (ncclGroupStart_d3d12Calls st).trans (List.append_nil _).symm
  | allReduce args => exact (ncclAllReduce_d3d12Calls env args st).trans (List.append_nil _).symm
  | groupEnd => exact ncclGroupEnd_sends env st
  | commInitAll args => exact (ncclCommInitAll_d3d12Calls env args st).trans (List.append_nil _).symm
  | commDestroy comm => exact (ncclCommDestroy_d3d12Calls env comm st).trans (List.append_nil _).symm

theorem ApiCall.pair_eq_some {call : ApiCall} {st : ThreadState} {type : WacDataType}
    {zero one : PendingAllReduce} : call.pair st = some (type, zero, one) ↔
      call = .groupEnd ∧ SendsPair st.group type zero one := by
  cases call with
  | groupEnd => simp [pair, d3d12Pair_eq_some]
  | _ => simp [pair]

/-- The transport is called, if at all, once and for a pair that fits. -/
def SendsWhatFits (st after : ThreadState) : Prop :=
  after.d3d12Calls = st.d3d12Calls ∨
  ∃ type zero one, st.group.calls.Perm [zero, one] ∧ Fits type zero one ∧
    after.d3d12Calls =
      st.d3d12Calls ++ [(type, zero.wacCall zero.comm.device, one.wacCall one.comm.device)]

theorem exec_d3d12Calls (call : ApiCall) (st : ThreadState) :
    SendsWhatFits st (call.exec env st).2 := by
  have hsends := exec_sends env call st
  cases hpair : call.pair st with
  | none =>
    rw [hpair, Option.map_none, Option.toList_none, List.append_nil] at hsends
    exact .inl hsends
  | some sent =>
    obtain ⟨type, zero, one⟩ := sent
    have hpairs := (ApiCall.pair_eq_some.mp hpair).2
    rw [hpair, Option.map_some, Option.toList_some, hpairs.sent] at hsends
    exact .inr ⟨type, zero, one, hpairs.calls, hpairs.fits, hsends⟩

end

/-- A communicator that some ncclCommInitAll makes. -/
def Made (comm : PluginComm) : Prop :=
  ∃ (env : Env) (args : InitArgs) (st : ThreadState), comm ∈ (ncclCommInitAll env args st).1.2

/-- The ncclCommInitAll that makes a clique creates its transport from these. -/
def CreatedFor (clique : CliqueContext) (zero one : ℤ) (maxSizeBytes : ℕ) : Prop :=
  ∃ (env : Env) (args : InitArgs) (st : ThreadState) (new : List Event),
    (∃ comm ∈ (ncclCommInitAll env args st).1.2, comm.clique = clique) ∧
    (ncclCommInitAll env args st).2.log = st.log ++ new ∧
    .d3d12Create zero one maxSizeBytes ∈ new

theorem CreatedFor.eq {clique : CliqueContext} {zero one : ℤ} {maxSizeBytes : ℕ}
    (h : CreatedFor clique zero one maxSizeBytes) :
    clique.devices = [zero, one] ∧ clique.d3d12BufferBytes = maxSizeBytes := by
  obtain ⟨env, args, st, new, ⟨comm, hcomm, rfl⟩, hlog, hcreate⟩ := h
  obtain ⟨hdevices, hbytes, -, hlog'⟩ := ncclCommInitAll_spec env hcomm
  obtain ⟨real, hreal, hevents⟩ := initReal_log env args st
  rw [hlog', hreal, List.append_assoc, List.append_cancel_left_eq] at hlog
  rw [← hlog, List.mem_append] at hcreate
  rcases hcreate with hcreate | hcreate
  · exact absurd (hevents _ hcreate) (by simp)
  · rw [hdevices, hbytes]
    unfold createEvents at hcreate
    split at hcreate
    · rename_i zero' one' hargs
      split_ifs at hcreate
      · simp only [List.mem_singleton, Event.d3d12Create.injEq] at hcreate
        obtain ⟨rfl, rfl, rfl⟩ := hcreate
        exact ⟨hargs, rfl⟩
      · exact absurd hcreate List.not_mem_nil
    · exact absurd hcreate List.not_mem_nil

/-- A clique that has a transport had it created. -/
theorem Made.createdFor {comm : PluginComm} (h : Made comm) (hd3d12 : comm.clique.d3d12 = true) :
    ∃ zero one maxSizeBytes, CreatedFor comm.clique zero one maxSizeBytes := by
  obtain ⟨env, args, st, hcomm⟩ := h
  obtain ⟨-, -, htransport, hlog⟩ := ncclCommInitAll_spec env hcomm
  obtain ⟨real, hreal, -⟩ := initReal_log env args st
  obtain ⟨zero, one, -, hcreate⟩ := createEvents_of_created env (htransport ▸ hd3d12)
  rw [hreal, List.append_assoc] at hlog
  refine ⟨zero, one, args.config.d3d12BufferBytes, env, args, st, _, ⟨comm, hcomm, rfl⟩, hlog, ?_⟩
  simp [hcreate]

/-- A rank's part of a call whose device is the transport's own throws nothing, and copies no more
than the count says. -/
theorem rankCalls_within {transport : Transport} {type : WacDataType} {epoch : ℕ} {rank : Rank}
    {call : RankCall} (hdevice : call.device = transport.devices rank) :
    ∀ hip ∈ transport.rankCalls type epoch rank call, (∀ message, hip ≠ .throw message) ∧
      ∀ operation rank stream heap epoch source,
        hip = .onStream operation rank stream (.copy heap epoch source) →
          source.length ≤ call.count * type.elementSize := by
  intro hip hmem
  simp only [Transport.rankCalls, hdevice, ne_eq, not_true_eq_false, if_false, enqueueRank,
    List.mem_cons] at hmem
  rcases hmem with rfl | hmem
  · simp
  · split_ifs at hmem
    · exact absurd hmem List.not_mem_nil
    · simp only [List.mem_cons, List.not_mem_nil, or_false] at hmem
      rcases hmem with rfl | rfl | rfl | rfl | rfl | rfl | rfl | rfl | rfl | rfl
      case inl =>
        simp only [ne_eq, reduceCtorEq, not_false_eq_true, implies_true, HipCall.onStream.injEq,
          Op.copy.injEq, true_and]
        rintro _ _ _ _ _ _ ⟨-, -, -, -, -, rfl⟩
        rw [List.length_take]
        exact Nat.min_le_left _ _
      all_goals simp

theorem transportAccepts {transport : Transport} {type : WacDataType} {calls : Rank → RankCall}
    (hnonnull : ∀ r, (calls r).send ≠ 0 ∧ (calls r).recv ≠ 0)
    (hcount : ∀ r, (calls r).count * type.elementSize ≤ transport.maxSizeBytes)
    (hequal : (calls .zero).count = (calls .one).count)
    (hdevice : ∀ r, (calls r).device = transport.devices r) :
    TransportAccepts transport type calls := by
  have hpositive : 0 < type.elementSize := by
    unfold WacDataType.elementSize
    split_ifs <;> decide
  have hfits : ¬ (calls .zero).count > transport.maxSizeBytes / type.elementSize :=
    Nat.not_lt.mpr ((Nat.le_div_iff_mul_le hpositive).mpr (hcount .zero))
  have hchecks : ¬ ((calls .zero).send = 0 ∨ (calls .zero).recv = 0 ∨ (calls .one).send = 0 ∨
      (calls .one).recv = 0 ∨ (calls .zero).count ≠ (calls .one).count) := by
    simp [hnonnull, hequal]
  unfold TransportAccepts wacD3d12Allreduce
  dsimp only
  rw [if_neg hchecks, if_neg hfits]
  split_ifs
  · exact ⟨transport, [], rfl, by simp, by simp⟩
  · refine ⟨_, _, rfl, ?_, ?_⟩
    · intro message hmem
      rcases List.mem_append.mp hmem with hmem | hmem
      · exact (rankCalls_within (hdevice .zero) _ hmem).1 message rfl
      · exact (rankCalls_within (hdevice .one) _ hmem).1 message rfl
    · intro operation rank stream heap epoch source hmem
      rcases List.mem_append.mp hmem with hmem | hmem
      · exact ((rankCalls_within (hdevice .zero) _ hmem).2 _ _ _ _ _ _ rfl).trans (hcount .zero)
      · exact ((rankCalls_within (hdevice .one) _ hmem).2 _ _ _ _ _ _ rfl).trans (hcount .one)

/-- The transport of the clique takes a pair that fits, whatever it did before. -/
theorem Fits.transportAccepts {type : WacDataType} {zero one : PendingAllReduce}
    (h : Fits type zero one) (hzero : zero.send ≠ 0 ∧ zero.recv ≠ 0)
    (hone : one.send ≠ 0 ∧ one.recv ≠ 0) (epoch : ℕ) (payload : Rank → Bytes) :
    TransportAccepts
      (wacD3d12Create zero.comm.device one.comm.device zero.comm.clique.d3d12BufferBytes epoch) type
      (rankCalls (zero.wacCall zero.comm.device) (one.wacCall one.comm.device) payload) := by
  apply Shim.transportAccepts
  · intro r
    cases r
    · exact hzero
    · exact hone
  · intro r
    cases r
    · exact h.fits
    · have hfits := h.fits
      rw [h.count_eq] at hfits
      exact hfits
  · exact h.count_eq
  · intro r
    cases r <;> rfl

/-- The call is on a communicator that was made, if it is on any. -/
def ApiCall.OnMade : ApiCall → Prop
  | allReduce args => ∀ comm, args.comm = some comm → Made comm
  | _ => True

/-- A call that ncclAllReduce accepts has its buffers, and a communicator that was made. -/
def Accepted (call : PendingAllReduce) : Prop :=
  (call.send ≠ 0 ∧ call.recv ≠ 0) ∧ Made call.comm

theorem accepted_of_pending {next : ApiCall} (hmade : next.OnMade) {call : PendingAllReduce}
    (h : next.pending = some call) : Accepted call := by
  refine ⟨next.buffers_of_pending h, ?_⟩
  cases next with
  | allReduce args =>
    simp only [ApiCall.pending, AllReduceArgs.checked] at h
    split at h
    · cases h
    · rename_i comm hcomm
      split_ifs at h
      cases h
      exact hmade comm hcomm
  | _ => cases h

theorem exec_accepted (env : Env) {st : ThreadState} (h : ∀ call ∈ st.group.calls, Accepted call)
    {next : ApiCall} (hmade : next.OnMade) :
    ∀ call ∈ (next.exec env st).2.group.calls, Accepted call := by
  intro call hcall
  rcases exec_calls env hcall with hcall | hpending
  · exact h call hcall
  · exact accepted_of_pending hmade hpending

theorem run_accepted (env : Env) {st : ThreadState} (h : ∀ call ∈ st.group.calls, Accepted call)
    {calls : List ApiCall} (hmade : ∀ call ∈ calls, call.OnMade) :
    ∀ call ∈ (run env calls st).2.group.calls, Accepted call := by
  induction calls generalizing st with
  | nil => exact h
  | cons next calls ih =>
    obtain ⟨hnext, hcalls⟩ := List.forall_mem_cons.mp hmade
    exact ih (exec_accepted env h hnext) hcalls

/-- In any run, and whatever is called next: the D3D12 transport gets at most a pair that fits, and
then the transport its clique was created with rejects nothing and stays within its heaps; a pair of
one clique that does not fit does not get there. -/
theorem d3d12Calls_accepted (env : Env) (calls : List ApiCall)
    (hmade : ∀ call ∈ calls, call.OnMade) (next : ApiCall) :
    let st := (run env calls .start).2
    let after := (next.exec env st).2
    (after.d3d12Calls = st.d3d12Calls ∨
      ∃ type zero one, st.group.calls.Perm [zero, one] ∧ Fits type zero one ∧
        after.d3d12Calls =
          st.d3d12Calls ++ [(type, zero.wacCall zero.comm.device, one.wacCall one.comm.device)] ∧
        (∃ deviceZero deviceOne maxSizeBytes,
          CreatedFor zero.comm.clique deviceZero deviceOne maxSizeBytes) ∧
        ∀ deviceZero deviceOne maxSizeBytes,
          CreatedFor zero.comm.clique deviceZero deviceOne maxSizeBytes →
          zero.comm.device = deviceZero ∧ one.comm.device = deviceOne ∧
          ∀ epoch payload, TransportAccepts (wacD3d12Create deviceZero deviceOne maxSizeBytes epoch)
            type (rankCalls (zero.wacCall zero.comm.device) (one.wacCall one.comm.device)
              payload)) ∧
    (∀ first second, st.group.calls = [first, second] → first.comm.clique = second.comm.clique →
      first.comm.rank ≠ second.comm.rank →
      (∀ type, ¬ Fits type first second ∧ ¬ Fits type second first) →
      after.d3d12Calls = st.d3d12Calls) := by
  intro st after
  have haccepted : ∀ call ∈ st.group.calls, Accepted call :=
    run_accepted env (by simp [ThreadState.start]) hmade
  have hsends : SendsWhatFits st after := exec_d3d12Calls env next st
  refine ⟨hsends.imp_right ?_, ?_⟩
  · rintro ⟨type, zero, one, hperm, hfits, hsent⟩
    obtain ⟨hzero, hzeroMade⟩ := haccepted zero (hperm.mem_iff.mpr (by simp))
    obtain ⟨hone, -⟩ := haccepted one (hperm.mem_iff.mpr (by simp))
    refine ⟨type, zero, one, hperm, hfits, hsent, hzeroMade.createdFor hfits.transport, ?_⟩
    intro deviceZero deviceOne maxSizeBytes hcreated
    obtain ⟨hdevices, rfl⟩ := hcreated.eq
    have hdevice := hfits.inOrder.getD_device hfits.transport 0
    rw [hdevices, List.getD_cons_succ, List.getD_cons_zero, List.getD_cons_zero] at hdevice
    obtain ⟨rfl, rfl⟩ := hdevice
    exact ⟨rfl, rfl, hfits.transportAccepts hzero hone⟩
  · intro first second hcalls _ _ hunfit
    refine hsends.resolve_right ?_
    rintro ⟨type, zero, one, hperm, hfits, -⟩
    rw [hcalls] at hperm
    rcases List.perm_pair.mp hperm with heq | heq <;> cases heq
    · exact (hunfit type).1 hfits
    · exact (hunfit type).2 hfits

/-- A pair of devices with a transport for 64 bytes. -/
def sampleInit : InitArgs where
  commsNull := false
  ndev := 2
  devlist := none
  config := ⟨.hybrid, .threaded, false, 64, 0, 64⟩
  address := 1

/-- The communicator of a rank, without a real one. -/
def unwrappedComm (rank : Rank) : PluginComm := { sampleComm rank with realComm := none }

theorem made_unwrappedComm (rank : Rank) : Made (unwrappedComm rank) := by
  refine ⟨sampleEnv, sampleInit, .start, ?_⟩
  cases rank <;> decide

/-- Both ranks' calls of four floats, the one of rank one first. -/
def unwrappedCalls : List ApiCall :=
  [.groupStart,
   .allReduce { sampleAllReduce .one 100 with comm := some (unwrappedComm .one) },
   .allReduce { sampleAllReduce .zero 100 with comm := some (unwrappedComm .zero) }]

theorem d3d12Calls_accepted_sample :
    ∃ type zero one, Fits type zero one ∧
      ((ncclGroupEnd sampleEnv (run sampleEnv unwrappedCalls .start).2).2.d3d12Calls =
        [(type, zero.wacCall zero.comm.device, one.wacCall one.comm.device)]) := by
  have hmade : ∀ call ∈ unwrappedCalls, call.OnMade := by
    simp only [unwrappedCalls, List.forall_mem_cons, ApiCall.OnMade, Option.some.injEq,
      List.not_mem_nil, false_imp_iff, implies_true, and_true, true_and]
    exact ⟨fun _ h => h ▸ made_unwrappedComm .one, fun _ h => h ▸ made_unwrappedComm .zero⟩
  obtain ⟨hsame | ⟨type, zero, one, -, hfits, hsent, -⟩, -⟩ :=
    d3d12Calls_accepted sampleEnv unwrappedCalls hmade .groupEnd
  · exact absurd hsame (by decide)
  · exact ⟨type, zero, one, hfits, hsent⟩

end MultiGpuTransport.Shim
