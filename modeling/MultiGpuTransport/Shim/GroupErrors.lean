import MultiGpuTransport.Shim.Group

/-!
# Errors inside a group

dispatch_group returns an error the group recorded and dispatches nothing, but no AllReduce that
fails records one: the outermost end dispatches the calls that were accepted as if there had been no
other. So a failure shows at the end only where the backend refuses those calls anyway.
-/
namespace MultiGpuTransport.Shim

section
variable (env : Env)

/-- The real library takes none of the calls as a group. -/
def NativeRefuses (calls : List PendingAllReduce) (made : ℕ) : Prop :=
  env.realError ≠ none ∨ env.groupStart made ≠ .success ∨
    ∀ call ∈ calls.head?, call.comm.realComm = none

/-- Neither worker gets to the real library. -/
def ThreadedRefuses (zero one : PendingAllReduce) (made : ℕ) : Prop :=
  env.realError ≠ none ∨ zero.comm.realComm = none ∨ one.comm.realComm = none ∨
    env.setDevice made = false ∧ env.setDevice (made + 1) = false

def PairRefuses (zero one : PendingAllReduce) (calls : List PendingAllReduce) (made : ℕ) : Prop :=
  d3d12Route zero one = none ∧
    (zero.comm.realComm = none ∨ one.comm.realComm = none ∨
      if zero.comm.clique.rcclDispatch = .nativeGroup then NativeRefuses env calls made
      else ThreadedRefuses env zero one made)

/-- No backend takes any of the calls, and the end of the group says so; made is the number of calls
the shim has made before. -/
def Refuses (calls : List PendingAllReduce) (made : ℕ) : Prop :=
  match calls with
  | [] => False
  | [first, second] =>
    if first.comm.clique ≠ second.comm.clique ∨ first.comm.rank = second.comm.rank then
      NativeRefuses env calls made
    else if first.comm.rank > second.comm.rank then PairRefuses env second first calls made
    else PairRefuses env first second calls made
  | _ => NativeRefuses env calls made

end

/-- An error without anything given to a backend. -/
def Refused (st : ThreadState) (out : NcclResult × ThreadState) : Prop :=
  out.1 ≠ .success ∧ out.2.issues = st.issues

theorem realArgs_eq_none {call : PendingAllReduce} :
    call.realArgs = none ↔ call.comm.realComm = none := by
  simp [PendingAllReduce.realArgs]

/-- What has been issued is not taken back. -/
theorem not_refused_of_issued {st : ThreadState} {out : NcclResult × ThreadState} (issue : Issue)
    (issues : List Issue) (h : out.2.issues = st.issues ++ issue :: issues) : ¬ Refused st out := by
  rintro ⟨-, hsame⟩
  simpa using h.symm.trans hsame

section
variable {env : Env}

theorem dispatchRealNative_refused {calls : List PendingAllReduce} (hne : calls ≠ [])
    (st : ThreadState) :
    Refused st (dispatchRealNative env calls st) ↔ NativeRefuses env calls st.log.length := by
  obtain ⟨call, calls, rfl⟩ := List.exists_cons_of_ne_nil hne
  unfold dispatchRealNative NativeRefuses
  cases hreal : env.realError with
  | some error => simp [Refused]
  | none =>
    by_cases hstart : env.groupStart st.log.length = .success
    · cases hargs : call.realArgs with
      | none =>
        have hcomm := realArgs_eq_none.mp hargs
        simp [realNativeLoop, hstart, hargs, hcomm, Refused, Event.issues]
      | some args =>
        have hcomm : call.comm.realComm ≠ none := fun h => by
          simp [realArgs_eq_none.mpr h] at hargs
        simp only [ThreadState.call_fst, hstart, ne_eq, not_true_eq_false, if_false,
          List.head?_cons, Option.mem_def, Option.some.injEq, forall_eq', hcomm, or_false,
          iff_false]
        -- the first call is issued, whatever comes of it
        by_cases hfirst : env.allReduce (st.log.length + 1) = .success
        · obtain ⟨-, done, issues, hissues, -⟩ := realNativeLoop_spec env calls
            ((st.call env.groupStart .groupStart).2.call env.allReduce
              (.allReduce .rcclGrouped args)).2
          refine not_refused_of_issued (.real .rcclGrouped args) issues ?_
          simpa [realNativeLoop, hargs, hfirst, Event.issues] using hissues
        · refine not_refused_of_issued (.real .rcclGrouped args) [] ?_
          simp [realNativeLoop, hargs, hfirst, Event.issues]
    · simp [hstart, Refused, Event.issues]

/-- Of two workers, neither gets to the library exactly when neither can select its device. -/
theorem workers_refused (first second : PendingAllReduce) (argsFirst argsSecond : RealArgs)
    (st : ThreadState) (result : NcclResult)
    (hresult : (realWorker env first argsFirst st).1 ≠ .success →
      (realWorker env second argsSecond (realWorker env first argsFirst st).2).1 ≠ .success →
      result ≠ .success) :
    Refused st
      (result, (realWorker env second argsSecond (realWorker env first argsFirst st).2).2) ↔
      env.setDevice st.log.length = false ∧ env.setDevice (st.log.length + 1) = false := by
  cases hfirst : env.setDevice st.log.length with
  | true =>
    obtain ⟨-, hissues⟩ :=
      realWorker_spec env second argsSecond (realWorker env first argsFirst st).2
    have hbegin : (realWorker env first argsFirst st).2.issues =
        st.issues ++ [.real .rcclThreaded argsFirst] := by
      simp [realWorker, hfirst, Event.issues]
    simp only [Bool.true_eq_false, false_and, iff_false]
    rcases hissues with hissues | ⟨hissues, -⟩
    · exact not_refused_of_issued _ _ (by rw [hissues, hbegin, List.append_assoc]; rfl)
    · exact not_refused_of_issued _ _ (by rw [hissues, hbegin])
  | false =>
    cases hsecond : env.setDevice (st.log.length + 1) with
    | true =>
      simp only [Bool.true_eq_false, and_false, iff_false]
      exact not_refused_of_issued (.real .rcclThreaded argsSecond) []
        (by simp [realWorker, hfirst, hsecond, Event.issues])
    | false =>
      simp only [and_self, iff_true]
      refine ⟨hresult ?_ ?_, ?_⟩ <;> simp [realWorker, hfirst, hsecond, Event.issues]

theorem dispatchRealThreaded_refused (zero one : PendingAllReduce) (st : ThreadState) :
    Refused st (dispatchRealThreaded env zero one st) ↔
      ThreadedRefuses env zero one st.log.length := by
  unfold dispatchRealThreaded ThreadedRefuses
  cases hreal : env.realError with
  | some error => simp [Refused]
  | none =>
    rw [← realArgs_eq_none, ← realArgs_eq_none]
    cases hzero : zero.realArgs with
    | none => simp [Refused]
    | some argsZero =>
      cases hone : one.realArgs with
      | none => simp [Refused]
      | some argsOne =>
        simp only [ne_eq, not_true_eq_false, reduceCtorEq, false_or]
        by_cases horder : env.rankOneFirst st.log.length = true
        · simp only [horder, if_true]
          exact workers_refused one zero argsOne argsZero st _ fun _ hr => by simp [hr]
        · simp only [horder, Bool.false_eq_true, if_false]
          exact workers_refused zero one argsZero argsOne st _ fun hr _ => by simp [hr]

theorem dispatchPair_refused (zero one : PendingAllReduce) {st : ThreadState}
    (hne : st.group.calls ≠ []) : Refused st (dispatchPair env zero one st) ↔
      PairRefuses env zero one st.group.calls st.log.length := by
  unfold dispatchPair PairRefuses
  cases hroute : d3d12Route zero one with
  | some type =>
    simp only [reduceCtorEq, false_and, iff_false]
    cases hresult : env.d3d12AllReduce st.log.length <;>
      simp [hresult, Refused, ThreadState.issues, Event.issues]
  | none =>
    dsimp only
    by_cases hzero : zero.comm.realComm = none
    · simp [hzero, Refused]
    by_cases hone : one.comm.realComm = none
    · simp [hone, Refused]
    simp only [hzero, hone, or_self, if_false, true_and, false_or]
    split_ifs
    · exact dispatchRealNative_refused hne st
    · exact dispatchRealThreaded_refused zero one st

/-- The end of a group without an error recorded refuses exactly the calls it should. -/
theorem dispatchGroup_refused (env : Env) (st : ThreadState) (herror : st.group.error = .success) :
    Refused st (dispatchGroup env st) ↔ Refuses env st.group.calls st.log.length := by
  unfold dispatchGroup Refuses
  simp only [herror, ne_eq, not_true_eq_false, if_false]
  rcases hcalls : st.group.calls with _ | ⟨first, _ | ⟨second, _ | ⟨third, rest⟩⟩⟩
  · simp [Refused]
  · exact dispatchRealNative_refused (by simp) st
  · have hne : st.group.calls ≠ [] := by simp [hcalls]
    dsimp only
    split_ifs
    · exact hcalls ▸ dispatchRealNative_refused hne st
    · exact hcalls ▸ dispatchPair_refused second first hne
    · exact hcalls ▸ dispatchPair_refused first second hne
  · exact dispatchRealNative_refused (by simp) st

theorem ncclGroupEnd_refused (env : Env) (st : ThreadState) (hdepth : st.group.depth = 1)
    (herror : st.group.error = .success) :
    Refused st (ncclGroupEnd env st) ↔ Refuses env st.group.calls st.log.length := by
  have hdispatch := dispatchGroup_refused env
    { st with group := { st.group with depth := st.group.depth - 1 } } herror
  simp only [ncclGroupEnd, hdepth] at hdispatch ⊢
  exact hdispatch

/-- Inside a group an AllReduce succeeds exactly when it passes its checks. -/
theorem results_inside (env : Env) {st : ThreadState} {depth : ℕ} (h : st.group.depth = depth + 1)
    {calls : List ApiCall} {depth' : ℕ} (hnest : nest depth calls = some depth') :
    List.Forall₂ (fun call result => ∀ args, call = .allReduce args →
      (result = .success ↔ args.checked ≠ none)) calls (run env calls st).1 := by
  induction calls generalizing st depth with
  | nil => exact .nil
  | cons call calls ih =>
    rw [nest_cons] at hnest
    obtain ⟨between, hfirst, hrest⟩ := Option.bind_eq_some_iff.mp hnest
    have hgroup := (exec_inside env h hfirst).1
    refine .cons ?_ (@ih (call.exec env st).2 _ (by rw [hgroup]) hrest)
    rintro args rfl
    cases hchecked : args.checked <;> simp [ncclAllReduce_inside h, hchecked]

end

/-- One of the calls is an AllReduce that returned an error. -/
def AnyFailed (calls : List ApiCall) (results : List NcclResult) : Prop :=
  ∃ p ∈ calls.zip results, (∃ args, p.1 = .allReduce args) ∧ p.2 ≠ .success

/-- Every AllReduce among the calls has a communicator and buffers. -/
def AllValid (calls : List ApiCall) : Prop :=
  ∀ args, .allReduce args ∈ calls → args.checked ≠ none

section
variable {calls : List ApiCall} {results : List NcclResult}
  (h : List.Forall₂ (fun call result => ∀ args, call = .allReduce args →
    (result = .success ↔ args.checked ≠ none)) calls results)
include h

theorem anyFailed_iff : AnyFailed calls results ↔ ¬ AllValid calls := by
  induction h with
  | nil => simp [AnyFailed, AllValid]
  | @cons call result calls results hcall _ ih =>
    have hsplit : AnyFailed (call :: calls) (result :: results) ↔
        ((∃ args, call = .allReduce args) ∧ result ≠ .success) ∨ AnyFailed calls results := by
      simp [AnyFailed]
    have hsplit' : AllValid (call :: calls) ↔
        (∀ args, call = .allReduce args → args.checked ≠ none) ∧ AllValid calls := by
      simp only [AllValid, List.mem_cons, or_imp, forall_and]
      simp only [eq_comm]
    rw [hsplit, hsplit', ih, not_and_or]
    refine or_congr_left ?_
    constructor
    · rintro ⟨⟨args, rfl⟩, hfail⟩ hvalid
      exact hfail ((hcall args rfl).mpr (hvalid args rfl))
    · intro hinvalid
      push Not at hinvalid
      obtain ⟨args, rfl, hnone⟩ := hinvalid
      exact ⟨⟨args, rfl⟩, fun hsuccess => (hcall args rfl).mp hsuccess hnone⟩

/-- What is accepted can be read off the arguments. -/
theorem accepted_eq : accepted calls results = calls.filterMap ApiCall.pending := by
  induction h with
  | nil => rfl
  | @cons call result calls results hcall _ ih =>
    rw [accepted_cons call calls, ih]
    have hhead : accepted [call] [result] = [call].filterMap ApiCall.pending := by
      cases call with
      | allReduce args =>
        cases hchecked : args.checked with
        | none => simp [accepted, ApiCall.pending, hchecked]
        | some pending =>
          have : result = .success := (hcall args rfl).mpr (by simp [hchecked])
          simp [accepted, ApiCall.pending, hchecked, this]
      | _ => simp [accepted, ApiCall.pending]
    rw [hhead, ← List.filterMap_append]
    rfl

end

/-- If an AllReduce of a group failed, its outermost end returns an error and issues nothing; the
next group starts without an error. -/
structure ErrorSticky (env : Env) (calls body : List ApiCall) : Prop where
  refused : AnyFailed body (run env body (ncclGroupStart (run env calls .start).2).2).1 →
    Refused (run env body (ncclGroupStart (run env calls .start).2).2).2
      (ncclGroupEnd env (run env body (ncclGroupStart (run env calls .start).2).2).2)
  cleared : (ncclGroupStart (ncclGroupEnd env
    (run env body (ncclGroupStart (run env calls .start).2).2).2).2).2.group.error = .success

/-- The error of an AllReduce is not sticky: the end of its group fails without issuing anything
exactly when the backend of the calls that were accepted takes none of them. -/
theorem groupError_sticky_iff (env : Env) (calls body : List ApiCall)
    (hcalls : (run env calls .start).2.group.depth = 0) (hbody : nest 0 body = some 0) :
    ErrorSticky env calls body ↔ AllValid body ∨ Refuses env (body.filterMap ApiCall.pending)
      (run env body (ncclGroupStart (run env calls .start).2).2).2.log.length := by
  obtain ⟨hstart, -⟩ := ncclGroupStart_outermost hcalls
  have hdepth : (ncclGroupStart (run env calls .start).2).2.group.depth = 0 + 1 := by rw [hstart]
  have hresults := results_inside env hdepth hbody
  obtain ⟨hgroup, -⟩ := run_inside env hdepth hbody
  rw [hstart, List.nil_append, accepted_eq hresults] at hgroup
  have hend := ncclGroupEnd_refused env
    (run env body (ncclGroupStart (run env calls .start).2).2).2 (by rw [hgroup])
    (by rw [hgroup])
  have hcleared := (ncclGroupEnd_outermost env
    (run env body (ncclGroupStart (run env calls .start).2).2).2 (by rw [hgroup])).1
  rw [show _ = body.filterMap ApiCall.pending from congrArg GroupState.calls hgroup] at hend
  rw [← hend]
  constructor
  · rintro ⟨hrefused, -⟩
    rw [anyFailed_iff hresults] at hrefused
    exact or_iff_not_imp_left.mpr hrefused
  · intro hor
    refine ⟨fun hfailed => hor.resolve_left ((anyFailed_iff hresults).mp hfailed), ?_⟩
    rw [(ncclGroupStart_outermost (by rw [hcleared])).1]

/-- Rank one's send buffer is null. -/
def halfBody : List ApiCall :=
  [.allReduce (sampleAllReduce .zero 100), .allReduce (sampleAllReduce .one 0)]

/-- Rank zero's half of the collective goes to the real library, and the group ends well. -/
theorem halfBody_not_sticky : ¬ ErrorSticky sampleEnv [] halfBody := by
  intro hsticky
  refine (hsticky.refused ⟨(.allReduce (sampleAllReduce .one 0), .invalidArgument), ?_, ⟨_, rfl⟩,
    by decide⟩).1 rfl
  simp [halfBody, run, ApiCall.exec, ncclAllReduce, ncclGroupStart, AllReduceArgs.checked,
    sampleAllReduce, ThreadState.start]

/-- Without real communicators nothing is issued for rank zero alone. -/
def unwrappedBody : List ApiCall :=
  [.allReduce { sampleAllReduce .zero 100 with
      comm := some { sampleComm .zero with realComm := none } },
   .allReduce (sampleAllReduce .one 0)]

theorem groupError_sticky_sample : ErrorSticky sampleEnv [] unwrappedBody :=
  (groupError_sticky_iff sampleEnv [] unwrappedBody rfl rfl).mpr
    (.inr (.inr (.inr (by rintro call ⟨⟩; rfl))))

end MultiGpuTransport.Shim
