import Mathlib.Data.List.Forall2
import Mathlib.Data.List.Perm.Subperm
import MultiGpuTransport.Shim.Api

/-!
# Dispatching a group

The outermost end of a group hands the kept calls to the D3D12 transport, when they are a pair it can
take, or to the real library: grouped, or from one thread a rank. `Dispatched` says what any of these
ways does with the calls.
-/
namespace MultiGpuTransport.Shim
open D3D12 (WacDataType)

section
variable (env : Env)

/-- The loop of dispatch_real_native: it ends at the first call that has no real communicator or
fails. -/
def realNativeLoop : List PendingAllReduce → ThreadState → NcclResult × ThreadState
  | [], st => (.success, st)
  | call :: calls, st =>
    match call.realArgs with
    | none => (.invalidUsage, st)
    | some args =>
      let (result, st) := st.call env.allReduce (.allReduce .rcclGrouped args)
      if result ≠ .success then (result, st) else realNativeLoop calls st

def dispatchRealNative (calls : List PendingAllReduce) (st : ThreadState) :
    NcclResult × ThreadState :=
  match env.realError with
  | some error => (.systemError, { st with lastError := error })
  | none =>
    let (result, st) := st.call env.groupStart .groupStart
    if result ≠ .success then (result, st)
    else
      let (operationResult, st) := realNativeLoop env calls st
      let (endResult, st) := st.call env.groupEnd .groupEnd
      (if operationResult ≠ .success then operationResult else endResult, st)

/-- One worker of dispatch_real_threaded. -/
def realWorker (call : PendingAllReduce) (args : RealArgs) (st : ThreadState) :
    NcclResult × ThreadState :=
  let (selected, st) := st.call env.setDevice (.setDevice call.comm.device)
  if selected then st.call env.allReduce (.allReduce .rcclThreaded args)
  else (.unhandledCudaError, st)

/-- The two workers run at once. Each makes its two calls in order, and only the order of the
workers' calls to the library is of interest. -/
def dispatchRealThreaded (zero one : PendingAllReduce) (st : ThreadState) :
    NcclResult × ThreadState :=
  match env.realError with
  | some error => (.systemError, { st with lastError := error })
  | none =>
    match zero.realArgs, one.realArgs with
    | some argsZero, some argsOne =>
      if env.rankOneFirst st.log.length then
        let (resultOne, st) := realWorker env one argsOne st
        let (resultZero, st) := realWorker env zero argsZero st
        (if resultZero ≠ .success then resultZero else resultOne, st)
      else
        let (resultZero, st) := realWorker env zero argsZero st
        let (resultOne, st) := realWorker env one argsOne st
        (if resultZero ≠ .success then resultZero else resultOne, st)
    | _, _ => (.invalidUsage, st)

/-- Whether a pair of calls, in the order of their ranks, goes to the D3D12 transport, and as what
type. -/
def d3d12Route (zero one : PendingAllReduce) : Option WacDataType :=
  let clique := zero.comm.clique
  let info := datatypeInfo zero.datatype
  let elementSize := (info.map Prod.fst).getD 0
  let matching := zero.count = one.count ∧ zero.datatype = one.datatype ∧ zero.op = .sum ∧
    one.op = .sum
  let sizeValid := elementSize ≠ 0 ∧ zero.count ≤ sizeMax / elementSize
  let bytes := if sizeValid then zero.count * elementSize else 0
  let inHybridRange := clique.d3d12RouteMinBytes ≤ bytes ∧ bytes ≤ clique.d3d12RouteMaxBytes
  if clique.d3d12 = true ∧ matching ∧ sizeValid ∧ bytes ≤ clique.d3d12BufferBytes ∧
      (clique.mode = .d3d12 ∨ inHybridRange) then
    info.map Prod.snd
  else none

def d3d12DisabledError : String :=
  "Direct-RCCL is disabled for llama.cpp's same-process ncclCommInitAll path; " ++
    "increase WAC_D3D12_BUFFER_BYTES or set WAC_LLAMA_RCCL_EXPERIMENTAL=1"

/-- The rest of dispatch_group for a pair of one clique, in the order of its ranks. -/
def dispatchPair (zero one : PendingAllReduce) (st : ThreadState) : NcclResult × ThreadState :=
  let clique := zero.comm.clique
  match d3d12Route zero one with
  | some type =>
    let (result, st) := st.call env.d3d12AllReduce
      (.d3d12AllReduce type (zero.wacCall (clique.devices.getD 0 (-1)))
        (one.wacCall (clique.devices.getD 1 (-1))))
    match result with
    | .error error => (.unhandledCudaError, { st with lastError := error })
    | .ok () => (.success, st)
  | none =>
    if zero.comm.realComm = none ∨ one.comm.realComm = none then
      (.invalidUsage, { st with lastError := d3d12DisabledError })
    else if clique.rcclDispatch = .nativeGroup then dispatchRealNative env st.group.calls st
    else dispatchRealThreaded env zero one st

def dispatchGroup (st : ThreadState) : NcclResult × ThreadState :=
  if st.group.error ≠ .success then (st.group.error, st)
  else
    match st.group.calls with
    | [] => (.success, st)
    | [first, second] =>
      if first.comm.clique ≠ second.comm.clique ∨ first.comm.rank = second.comm.rank then
        dispatchRealNative env st.group.calls st
      else if first.comm.rank > second.comm.rank then dispatchPair env second first st
      else dispatchPair env first second st
    | calls => dispatchRealNative env calls st

end

/-- The backend gets the call's own buffers, count, type, operation and stream, for its rank. -/
def Carries (call : PendingAllReduce) : Issue → Prop
  | .real _ args => call.realArgs = some args
  | .d3d12 type rank args => call.wacCall call.comm.device = args ∧
      (datatypeInfo call.datatype).map Prod.snd = some type ∧ call.op = .sum ∧
      call.comm.rank = rank.index

/-- One backend gets some of the calls, each at most once, and all of them if the result is
success. -/
def Issued (calls : List PendingAllReduce) (st : ThreadState) (out : NcclResult × ThreadState) :
    Prop :=
  ∃ (done : List PendingAllReduce) (issues : List Issue) (backend : Backend),
    out.2.issues = st.issues ++ issues ∧ done.Subperm calls ∧ List.Forall₂ Carries done issues ∧
    backend ≠ .rcclDirect ∧ (∀ i ∈ issues, i.backend = backend) ∧
    (out.1 = .success → done.Perm calls)

/-- What dispatching does: it issues the calls and leaves the group as it is. -/
structure Dispatched (calls : List PendingAllReduce) (st : ThreadState)
    (out : NcclResult × ThreadState) : Prop where
  group : out.2.group = st.group
  issued : Issued calls st out

theorem Dispatched.nothing {calls : List PendingAllReduce} {st : ThreadState}
    {out : NcclResult × ThreadState} (hgroup : out.2.group = st.group)
    (hissues : out.2.issues = st.issues) (hresult : out.1 = .success → calls = []) :
    Dispatched calls st out where
  group := hgroup
  issued := ⟨[], [], .d3d12, by simp [hissues], List.nil_subperm, .nil, by simp, by simp,
    fun h => by simp [hresult h]⟩

/-- The order of the calls does not matter. -/
theorem Dispatched.perm {calls calls' : List PendingAllReduce} {st : ThreadState}
    {out : NcclResult × ThreadState} (h : Dispatched calls st out) (hp : calls.Perm calls') :
    Dispatched calls' st out where
  group := h.group
  issued := by
    obtain ⟨done, issues, backend, hissues, hdone, hcarries, hbackend, hall, hsuccess⟩ := h.issued
    exact ⟨done, issues, backend, hissues, hp.subperm_left.mp hdone, hcarries, hbackend, hall,
      fun hr => (hsuccess hr).trans hp⟩

section
variable (env : Env)

/-- The loop issues a first part of the calls, and all of them if it succeeds. -/
theorem realNativeLoop_spec (calls : List PendingAllReduce) (st : ThreadState) :
    (realNativeLoop env calls st).2.group = st.group ∧
    ∃ done issues, (realNativeLoop env calls st).2.issues = st.issues ++ issues ∧
      done <+: calls ∧ List.Forall₂ Carries done issues ∧
      (∀ i ∈ issues, i.backend = .rcclGrouped) ∧
      ((realNativeLoop env calls st).1 = .success → done = calls) := by
  induction calls generalizing st with
  | nil => exact ⟨rfl, [], [], by simp [realNativeLoop], List.prefix_rfl, .nil, by simp, fun _ => rfl⟩
  | cons call calls ih =>
    rw [realNativeLoop]
    cases hargs : call.realArgs with
    | none => exact ⟨rfl, [], [], by simp, List.nil_prefix, .nil, by simp, by simp⟩
    | some args =>
      have hfirst : Carries call (.real .rcclGrouped args) := hargs
      by_cases hr : env.allReduce st.log.length = .success
      · obtain ⟨hgroup, done, issues, hissues, hdone, hcarries, hbackend, hsuccess⟩ :=
          ih (st.call env.allReduce (.allReduce .rcclGrouped args)).2
        simp only [ThreadState.call_fst, hr, ne_eq, not_true_eq_false, if_false]
        refine ⟨hgroup, call :: done, .real .rcclGrouped args :: issues, ?_, ?_,
          .cons hfirst hcarries, ?_, fun h => by rw [hsuccess h]⟩
        · simpa [Event.issues] using hissues
        · simpa using hdone
        · simpa [Issue.backend] using hbackend
      · simp only [ThreadState.call_fst, ne_eq, hr, not_false_eq_true, if_true]
        exact ⟨rfl, [call], [.real .rcclGrouped args], by simp [Event.issues], by simp,
          .cons hfirst .nil, by simp [Issue.backend], False.elim⟩

theorem dispatchRealNative_spec (calls : List PendingAllReduce) (st : ThreadState) :
    Dispatched calls st (dispatchRealNative env calls st) := by
  unfold dispatchRealNative
  cases env.realError with
  | some error => exact .nothing rfl (by simp) (by simp)
  | none =>
    by_cases hr : env.groupStart st.log.length = .success
    · obtain ⟨hgroup, done, issues, hissues, hdone, hcarries, hbackend, hsuccess⟩ :=
        realNativeLoop_spec env calls (st.call env.groupStart .groupStart).2
      simp only [ThreadState.call_fst, hr, ne_eq, not_true_eq_false, if_false]
      refine ⟨hgroup, done, issues, .rcclGrouped, ?_, hdone.sublist.subperm, hcarries, by simp,
        hbackend, fun h => ?_⟩
      · simpa [Event.issues] using hissues
      · refine .of_eq (hsuccess ?_)
        by_contra hne
        simp [hne] at h
    · simp only [ThreadState.call_fst, ne_eq, hr, not_false_eq_true, if_true]
      exact .nothing rfl (by simp [Event.issues]) fun h => (hr h).elim

/-- A worker issues its call or fails. -/
theorem realWorker_spec (call : PendingAllReduce) (args : RealArgs) (st : ThreadState) :
    (realWorker env call args st).2.group = st.group ∧
    ((realWorker env call args st).2.issues = st.issues ++ [.real .rcclThreaded args] ∨
     (realWorker env call args st).2.issues = st.issues ∧
      (realWorker env call args st).1 ≠ .success) := by
  unfold realWorker
  cases hset : env.setDevice st.log.length <;> simp [hset, Event.issues]

/-- Two workers one after the other; a result of success is one of both. -/
theorem workers_spec {first second : PendingAllReduce} {argsFirst argsSecond : RealArgs}
    (hfirst : first.realArgs = some argsFirst) (hsecond : second.realArgs = some argsSecond)
    (st : ThreadState) {result : NcclResult}
    (hresult : result = .success → (realWorker env first argsFirst st).1 = .success ∧
      (realWorker env second argsSecond (realWorker env first argsFirst st).2).1 = .success) :
    Dispatched [first, second] st
      (result, (realWorker env second argsSecond (realWorker env first argsFirst st).2).2) := by
  obtain ⟨hgroup, hissues⟩ := realWorker_spec env first argsFirst st
  obtain ⟨hgroup', hissues'⟩ :=
    realWorker_spec env second argsSecond (realWorker env first argsFirst st).2
  refine ⟨hgroup'.trans hgroup, ?_⟩
  have carriesFirst : Carries first (.real .rcclThreaded argsFirst) := hfirst
  have carriesSecond : Carries second (.real .rcclThreaded argsSecond) := hsecond
  rcases hissues with hissues | ⟨hissues, hfail⟩ <;>
    rcases hissues' with hissues' | ⟨hissues', hfail'⟩
  · exact ⟨[first, second], [.real .rcclThreaded argsFirst, .real .rcclThreaded argsSecond],
      .rcclThreaded, by simp [hissues, hissues'], List.Subperm.refl _,
      .cons carriesFirst (.cons carriesSecond .nil), by simp, by simp [Issue.backend],
      fun _ => .refl _⟩
  · exact ⟨[first], [.real .rcclThreaded argsFirst], .rcclThreaded, by simp [hissues, hissues'],
      (List.sublist_append_left [first] [second]).subperm, .cons carriesFirst .nil, by simp,
      by simp [Issue.backend], fun h => (hfail' (hresult h).2).elim⟩
  · exact ⟨[second], [.real .rcclThreaded argsSecond], .rcclThreaded, by simp [hissues, hissues'],
      (List.sublist_append_right [first] [second]).subperm, .cons carriesSecond .nil, by simp,
      by simp [Issue.backend], fun h => (hfail (hresult h).1).elim⟩
  · exact ⟨[], [], .rcclThreaded, by simp [hissues, hissues'], List.nil_subperm, .nil, by simp,
      by simp, fun h => (hfail (hresult h).1).elim⟩

theorem dispatchRealThreaded_spec (zero one : PendingAllReduce) (st : ThreadState) :
    Dispatched [zero, one] st (dispatchRealThreaded env zero one st) := by
  unfold dispatchRealThreaded
  cases env.realError with
  | some error => exact .nothing rfl (by simp) (by simp)
  | none =>
    cases hzero : zero.realArgs with
    | none => exact .nothing rfl rfl (by simp)
    | some argsZero =>
      cases hone : one.realArgs with
      | none => exact .nothing rfl rfl (by simp)
      | some argsOne =>
        by_cases horder : env.rankOneFirst st.log.length = true
        · simp only [horder, if_true]
          refine (workers_spec env hone hzero st fun h => ?_).perm (List.Perm.swap _ _ _)
          split_ifs at h with hr
          · exact (hr h).elim
          · exact ⟨h, not_not.mp hr⟩
        · simp only [horder, Bool.false_eq_true, if_false]
          refine workers_spec env hzero hone st fun h => ?_
          split_ifs at h with hr
          · exact (hr h).elim
          · exact ⟨not_not.mp hr, h⟩

/-- What it takes for a pair to go to the D3D12 transport. -/
theorem d3d12Route_eq_some {zero one : PendingAllReduce} {type : WacDataType}
    (h : d3d12Route zero one = some type) :
    zero.comm.clique.d3d12 = true ∧ zero.count = one.count ∧ zero.datatype = one.datatype ∧
      zero.op = .sum ∧ one.op = .sum ∧ (datatypeInfo zero.datatype).map Prod.snd = some type := by
  simp only [d3d12Route, Option.ite_none_right_eq_some] at h
  obtain ⟨⟨hd3d12, ⟨hcount, hdatatype, hop, hop'⟩, -⟩, htype⟩ := h
  exact ⟨hd3d12, hcount, hdatatype, hop, hop', htype⟩

/-- A pair of one clique in the order of its ranks. -/
structure InOrder (zero one : PendingAllReduce) : Prop where
  clique_eq : zero.comm.clique = one.comm.clique
  rank_lt : zero.comm.rank < one.comm.rank

/-- A clique with a D3D12 transport has two ranks, so a pair in order has them both. -/
theorem InOrder.ranks {zero one : PendingAllReduce} (h : InOrder zero one)
    (hd3d12 : zero.comm.clique.d3d12 = true) : zero.comm.rank = 0 ∧ one.comm.rank = 1 := by
  have hlen := zero.comm.clique.d3d12_pair hd3d12
  have hone := one.comm.rank_lt
  rw [← h.clique_eq, hlen] at hone
  have := h.rank_lt
  omega

theorem PluginComm.getD_device (comm : PluginComm) (fallback : ℤ) :
    comm.clique.devices.getD comm.rank fallback = comm.device := by
  simp [PluginComm.device, List.getD_eq_getElem?_getD, comm.rank_lt]

/-- The devices of the clique are those of the two. -/
theorem InOrder.getD_device {zero one : PendingAllReduce} (h : InOrder zero one)
    (hd3d12 : zero.comm.clique.d3d12 = true) (fallback : ℤ) :
    zero.comm.clique.devices.getD 0 fallback = zero.comm.device ∧
      zero.comm.clique.devices.getD 1 fallback = one.comm.device := by
  obtain ⟨hzero, hone⟩ := h.ranks hd3d12
  have hdevice := zero.comm.getD_device fallback
  have hdevice' := one.comm.getD_device fallback
  rw [hzero] at hdevice
  rw [hone, ← h.clique_eq] at hdevice'
  exact ⟨hdevice, hdevice'⟩

theorem dispatchPair_spec {zero one : PendingAllReduce} (h : InOrder zero one) (st : ThreadState)
    (hcalls : st.group.calls.Perm [zero, one]) :
    Dispatched [zero, one] st (dispatchPair env zero one st) := by
  unfold dispatchPair
  cases hroute : d3d12Route zero one with
  | some type =>
    obtain ⟨hd3d12, -, hdatatype, hop, hop', htype⟩ := d3d12Route_eq_some hroute
    obtain ⟨hzero, hone⟩ := h.ranks hd3d12
    obtain ⟨hdevice, hdevice'⟩ := h.getD_device hd3d12 (-1)
    have carriesZero : Carries zero (.d3d12 type .zero (zero.wacCall zero.comm.device)) :=
      ⟨rfl, htype, hop, hzero⟩
    have carriesOne : Carries one (.d3d12 type .one (one.wacCall one.comm.device)) :=
      ⟨rfl, hdatatype ▸ htype, hop', hone⟩
    simp only [hdevice, hdevice']
    have hboth : ∀ out : NcclResult × ThreadState, out.2.group = st.group →
        out.2.issues = st.issues ++ [.d3d12 type .zero (zero.wacCall zero.comm.device),
          .d3d12 type .one (one.wacCall one.comm.device)] → Dispatched [zero, one] st out :=
      fun out hgroup hissues => ⟨hgroup, [zero, one], _, .d3d12, hissues, List.Subperm.refl _,
        .cons carriesZero (.cons carriesOne .nil), by simp, by simp [Issue.backend],
        fun _ => .refl _⟩
    cases hresult : env.d3d12AllReduce st.log.length with
    | error error =>
      exact hboth _ (by simp [hresult]) (by simp [hresult, ThreadState.issues, Event.issues])
    | ok _ => exact hboth _ (by simp [hresult]) (by simp [hresult, Event.issues])
  | none =>
    dsimp only
    split_ifs with hreal hmode
    · exact .nothing rfl (by simp) (by simp)
    · exact (dispatchRealNative_spec env st.group.calls st).perm hcalls
    · exact dispatchRealThreaded_spec env zero one st

/-- Whatever the kept calls are, at most one backend gets them. -/
theorem dispatchGroup_spec (st : ThreadState) :
    Dispatched st.group.calls st (dispatchGroup env st) := by
  unfold dispatchGroup
  by_cases herror : st.group.error = .success
  · simp only [herror, ne_eq, not_true_eq_false, if_false]
    match hcalls : st.group.calls with
    | [] => exact .nothing rfl rfl fun _ => rfl
    | [first] => exact dispatchRealNative_spec env _ st
    | [first, second] =>
      dsimp only
      split_ifs with hother horder
      · exact hcalls ▸ dispatchRealNative_spec env _ st
      · push Not at hother
        exact (dispatchPair_spec env ⟨hother.1.symm, horder⟩ st
          (hcalls ▸ List.Perm.swap _ _ _)).perm (List.Perm.swap _ _ _)
      · push Not at hother
        exact dispatchPair_spec env ⟨hother.1, by omega⟩ st (hcalls ▸ .refl _)
    | first :: second :: third :: rest => exact dispatchRealNative_spec env _ st
  · simp only [ne_eq, herror, not_false_eq_true, if_true]
    exact .nothing rfl rfl fun h => (herror h).elim

end
end MultiGpuTransport.Shim
