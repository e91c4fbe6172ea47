import MultiGpuTransport.Shim.Comm
import MultiGpuTransport.Shim.Dispatch

/-!
# Groups

The API calls of one thread, and what a group of them does: nothing reaches a backend before the
group ends, its end hands every kept call to one backend, and nothing is left for a later group.
-/
namespace MultiGpuTransport.Shim

/-- The arguments of ncclAllReduce. A handle that is null or not one of the shim's is none, and
address 0 is null. -/
structure AllReduceArgs where
  send : ℕ
  recv : ℕ
  count : ℕ
  datatype : NcclDataType
  op : NcclRedOp
  comm : Option PluginComm
  stream : StreamId
  deriving DecidableEq

/-- What is kept of a call that passes the checks. -/
def AllReduceArgs.checked (args : AllReduceArgs) : Option PendingAllReduce :=
  match args.comm with
  | none => none
  | some comm =>
    if args.send = 0 ∨ args.recv = 0 then none
    else some ⟨args.send, args.recv, args.count, args.datatype, args.op, comm, args.stream⟩

def pairedGroupError : String :=
  "D3D12 interception requires paired ncclGroupStart/ncclGroupEnd calls"

def ncclGroupStart (st : ThreadState) : NcclResult × ThreadState :=
  let st := if st.group.depth = 0 then { st with group := ⟨0, .success, []⟩, lastError := "" } else st
  (.success, { st with group := { st.group with depth := st.group.depth + 1 } })

section
variable (env : Env)

def ncclAllReduce (args : AllReduceArgs) (st : ThreadState) : NcclResult × ThreadState :=
  match args.checked with
  | none => (.invalidArgument, st)
  | some call =>
    if st.group.depth > 0 then
      (.success, { st with group := { st.group with calls := st.group.calls ++ [call] } })
    else
      match call.realArgs with
      | none => (.invalidUsage, { st with lastError := pairedGroupError })
      | some realArgs =>
        match env.realError with
        | some error => (.systemError, { st with lastError := error })
        | none => st.call env.allReduce (.allReduce .rcclDirect realArgs)

def ncclGroupEnd (st : ThreadState) : NcclResult × ThreadState :=
  if st.group.depth ≤ 0 then (.invalidUsage, st)
  else
    let st := { st with group := { st.group with depth := st.group.depth - 1 } }
    if st.group.depth > 0 then (.success, st)
    else
      let (result, st) := dispatchGroup env st
      (result, { st with group := { st.group with calls := [], error := .success } })

/-- The calls that can change something; ncclGetErrorString reads the last error only. -/
inductive ApiCall
  | groupStart
  | allReduce (args : AllReduceArgs)
  | groupEnd
  | commInitAll (args : InitArgs)
  | commDestroy (comm : Option PluginComm)

def ApiCall.exec : ApiCall → ThreadState → NcclResult × ThreadState
  | groupStart, st => ncclGroupStart st
  | allReduce args, st => ncclAllReduce env args st
  | groupEnd, st => ncclGroupEnd env st
  | commInitAll args, st => ((ncclCommInitAll env args st).1.1, (ncclCommInitAll env args st).2)
  | commDestroy comm, st => ncclCommDestroy env comm st

/-- The results of a sequence of calls, and the state it leaves. -/
def run : List ApiCall → ThreadState → List NcclResult × ThreadState
  | [], st => ([], st)
  | call :: calls, st =>
    let (result, st) := call.exec env st
    let (results, st) := run calls st
    (result :: results, st)

end

/-- How many groups are open in the outermost one after a part of its body, if the body does not end
the outermost one itself. -/
def nest : ℕ → List ApiCall → Option ℕ
  | depth, [] => some depth
  | depth, .groupStart :: calls => nest (depth + 1) calls
  | 0, .groupEnd :: _ => none
  | depth + 1, .groupEnd :: calls => nest depth calls
  | depth, _ :: calls => nest depth calls

def ApiCall.pending : ApiCall → Option PendingAllReduce
  | allReduce args => args.checked
  | _ => none

/-- The AllReduces among the calls that returned success. -/
def accepted (calls : List ApiCall) (results : List NcclResult) : List PendingAllReduce :=
  (calls.zip results).filterMap fun p => if p.2 = .success then p.1.pending else none

section
variable {env : Env}

@[simp] theorem ncclGroupStart_inside {st : ThreadState} {depth : ℕ}
    (h : st.group.depth = depth + 1) : ncclGroupStart st =
      (.success, { st with group := { st.group with depth := depth + 2 } }) := by
  simp [ncclGroupStart, h]

/-- An end that is not the outermost one only counts. -/
theorem ncclGroupEnd_nested {st : ThreadState} {depth : ℕ} (h : st.group.depth = depth + 2) :
    ncclGroupEnd env st =
      (.success, { st with group := { st.group with depth := depth + 1 } }) := by
  simp [ncclGroupEnd, h]

/-- Inside a group an AllReduce is kept if it passes its checks, and nothing else happens. -/
theorem ncclAllReduce_inside {args : AllReduceArgs} {st : ThreadState} {depth : ℕ}
    (h : st.group.depth = depth + 1) : ncclAllReduce env args st =
      match args.checked with
      | none => (.invalidArgument, st)
      | some call =>
        (.success, { st with group := { st.group with calls := st.group.calls ++ [call] } }) := by
  unfold ncclAllReduce
  cases args.checked <;> simp [h]

theorem ncclAllReduce_calls (env : Env) (args : AllReduceArgs) (st : ThreadState) :
    (ncclAllReduce env args st).2.group.calls =
      if st.group.depth > 0 then st.group.calls ++ args.checked.toList else st.group.calls := by
  unfold ncclAllReduce
  cases args.checked with
  | none => simp
  | some call =>
    dsimp only
    split_ifs
    · rfl
    · cases call.realArgs with
      | none => rfl
      | some realArgs => cases env.realError <;> rfl

theorem ncclGroupEnd_calls (env : Env) (st : ThreadState) :
    (ncclGroupEnd env st).2.group.calls = if st.group.depth = 1 then [] else st.group.calls := by
  unfold ncclGroupEnd
  dsimp only
  split_ifs <;> first | rfl | omega

/-- A call keeps what is kept, adds what passes its checks or forgets all. -/
theorem exec_calls (env : Env) {next : ApiCall} {st : ThreadState} {call : PendingAllReduce}
    (h : call ∈ (next.exec env st).2.group.calls) :
    call ∈ st.group.calls ∨ next.pending = some call := by
  cases next with
  | groupStart =>
    simp only [ApiCall.exec, ncclGroupStart] at h
    split_ifs at h
    · cases h
    · exact .inl h
  | allReduce args =>
    simp only [ApiCall.exec, ncclAllReduce_calls] at h
    split_ifs at h
    · exact (List.mem_append.mp h).imp_right Option.mem_toList.mp
    · exact .inl h
  | groupEnd =>
    simp only [ApiCall.exec, ncclGroupEnd_calls] at h
    split_ifs at h
    · cases h
    · exact .inl h
  | commInitAll args =>
    rw [ApiCall.exec, (ncclCommInitAll_frame env args st).1] at h
    exact .inl h
  | commDestroy comm =>
    rw [ApiCall.exec, (ncclCommDestroy_frame env comm st).1] at h
    exact .inl h

/-- A call that is kept has its buffers. -/
theorem AllReduceArgs.buffers_of_checked {args : AllReduceArgs} {call : PendingAllReduce}
    (h : args.checked = some call) : call.send ≠ 0 ∧ call.recv ≠ 0 := by
  unfold AllReduceArgs.checked at h
  split at h
  · cases h
  · split_ifs at h with hnull
    cases h
    push Not at hnull
    exact hnull

theorem ApiCall.buffers_of_pending {next : ApiCall} {call : PendingAllReduce}
    (h : next.pending = some call) : call.send ≠ 0 ∧ call.recv ≠ 0 := by
  cases next with
  | allReduce args => exact args.buffers_of_checked h
  | _ => cases h

/-- A call inside a group keeps what it accepts; nothing is issued, and the error is not touched. -/
theorem exec_inside (env : Env) {st : ThreadState} {depth : ℕ} (h : st.group.depth = depth + 1)
    {call : ApiCall} {depth' : ℕ} (hnest : nest depth [call] = some depth') :
    (call.exec env st).2.group = ⟨depth' + 1, st.group.error,
      st.group.calls ++ accepted [call] [(call.exec env st).1]⟩ ∧
    (call.exec env st).2.issues = st.issues := by
  cases call with
  | groupStart =>
    cases hnest
    simp [ApiCall.exec, ncclGroupStart_inside h, accepted, ApiCall.pending]
  | groupEnd =>
    match depth, hnest with
    | depth + 1, rfl =>
      simp [ApiCall.exec, ncclGroupEnd_nested h, accepted, ApiCall.pending]
  | allReduce args =>
    cases hnest
    cases hchecked : args.checked with
    | none =>
      simp [ApiCall.exec, ncclAllReduce_inside h, hchecked, accepted, ← h]
    | some pending =>
      simp [ApiCall.exec, ncclAllReduce_inside h, hchecked, accepted, ApiCall.pending, h]
  | commInitAll args =>
    cases hnest
    obtain ⟨hgroup, hissues⟩ := ncclCommInitAll_frame env args st
    exact ⟨by simp [ApiCall.exec, hgroup, accepted, ApiCall.pending, ← h], hissues⟩
  | commDestroy comm =>
    cases hnest
    obtain ⟨hgroup, hissues⟩ := ncclCommDestroy_frame env comm st
    exact ⟨by simp [ApiCall.exec, hgroup, accepted, ApiCall.pending, ← h], hissues⟩

theorem nest_cons (depth : ℕ) (call : ApiCall) (calls : List ApiCall) :
    nest depth (call :: calls) = (nest depth [call]).bind fun depth' => nest depth' calls := by
  cases call with
  | groupEnd => cases depth <;> rfl
  | _ => rfl

theorem accepted_cons (call : ApiCall) (calls : List ApiCall) (result : NcclResult)
    (results : List NcclResult) : accepted (call :: calls) (result :: results) =
      accepted [call] [result] ++ accepted calls results := by
  simp [accepted, List.filterMap_cons]
  split <;> rfl

/-- The same of any number of calls that do not end the outermost group. -/
theorem run_inside (env : Env) {st : ThreadState} {depth : ℕ} (h : st.group.depth = depth + 1)
    {calls : List ApiCall} {depth' : ℕ} (hnest : nest depth calls = some depth') :
    (run env calls st).2.group = ⟨depth' + 1, st.group.error,
      st.group.calls ++ accepted calls (run env calls st).1⟩ ∧
    (run env calls st).2.issues = st.issues := by
  induction calls generalizing st depth with
  | nil =>
    cases hnest
    simp [run, accepted, ← h]
  | cons call calls ih =>
    rw [nest_cons] at hnest
    obtain ⟨between, hfirst, hrest⟩ := Option.bind_eq_some_iff.mp hnest
    obtain ⟨hgroup, hissues⟩ := exec_inside env h hfirst
    obtain ⟨hgroup', hissues'⟩ := @ih (call.exec env st).2 _ (by rw [hgroup]) hrest
    refine ⟨?_, hissues'.trans hissues⟩
    simp only [run, hgroup', hgroup]
    rw [accepted_cons call calls, List.append_assoc]

/-- Starting the outermost group forgets the calls and the error of the last one. -/
theorem ncclGroupStart_outermost {st : ThreadState} (h : st.group.depth = 0) :
    (ncclGroupStart st).2.group = ⟨1, .success, []⟩ ∧ (ncclGroupStart st).2.issues = st.issues := by
  simp [ncclGroupStart, h, ThreadState.issues]

/-- Ending the outermost group dispatches what is kept, and forgets it. -/
theorem ncclGroupEnd_outermost (env : Env) (st : ThreadState) (h : st.group.depth = 1) :
    (ncclGroupEnd env st).2.group = ⟨0, .success, []⟩ ∧
    Issued st.group.calls st (ncclGroupEnd env st) := by
  have hdispatch :=
    dispatchGroup_spec env { st with group := { st.group with depth := st.group.depth - 1 } }
  simp only [ncclGroupEnd, h, Nat.sub_self] at hdispatch ⊢
  exact ⟨by simp [hdispatch.group], hdispatch.issued⟩

end

/-- A pair with a D3D12 transport and with real communicators. -/
def sampleClique : CliqueContext where
  address := 1
  devices := [0, 1]
  d3d12 := true
  mode := .hybrid
  rcclDispatch := .threaded
  d3d12BufferBytes := 64
  d3d12RouteMinBytes := 0
  d3d12RouteMaxBytes := 64
  d3d12_pair _ := rfl

def sampleComm (rank : Rank) : PluginComm where
  clique := sampleClique
  realComm := some (rank.index + 1)
  rank := rank.index
  rank_lt := by cases rank <;> decide

/-- An AllReduce of four floats on the communicator of a rank. -/
def sampleAllReduce (rank : Rank) (send : ℕ) : AllReduceArgs :=
  ⟨send, 200, 4, .float32, .sum, some (sampleComm rank), 1⟩

/-- Every call outside the shim succeeds. -/
def sampleEnv : Env where
  realError := none
  groupStart _ := .success
  groupEnd _ := .success
  allReduce _ := .success
  setDevice _ := true
  d3d12AllReduce _ := .ok ()
  rankOneFirst _ := false
  commInitAll _ := (.success, fun _ => none)
  commDestroy _ := .success
  d3d12Create _ := .ok ()

/-- Both ranks' calls, in a group inside the group. -/
def sampleBody : List ApiCall :=
  [.groupStart, .allReduce (sampleAllReduce .one 100), .allReduce (sampleAllReduce .zero 100),
   .groupEnd]

end MultiGpuTransport.Shim
