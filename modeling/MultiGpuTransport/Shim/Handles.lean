import MultiGpuTransport.Lib.Transition
import MultiGpuTransport.Shim.Group

/-!
# Handles of the shim

A handle of a communicator is a pointer to its wrapper, which ncclCommDestroy deletes. A kept AllReduce
holds such a pointer as well. The check of a wrapper's magic number is made when the call is kept and
not when it is dispatched, so the wrapper may be gone by then.
-/
namespace MultiGpuTransport.Shim
open Transition

/-- A wrapper that ncclCommInitAll has allocated; no two have the same identity. -/
structure Wrapper where
  id : ℕ
  comm : PluginComm
  deriving DecidableEq

/-- One thread with the wrappers that are alive, and those that the calls in g_group.calls point to. -/
structure HandleState where
  thread : ThreadState
  live : List Wrapper
  queued : List Wrapper
  nextId : ℕ

/-- The arguments of ncclAllReduce with the handle as the caller has it. -/
structure HandleArgs where
  send : ℕ
  recv : ℕ
  count : ℕ
  datatype : NcclDataType
  op : NcclRedOp
  handle : ℕ
  stream : StreamId

def HandleArgs.resolve (args : HandleArgs) (comm : Option PluginComm) : AllReduceArgs :=
  ⟨args.send, args.recv, args.count, args.datatype, args.op, comm, args.stream⟩

inductive HandleCall
  | groupStart
  | allReduce (args : HandleArgs)
  | groupEnd
  | commInitAll (args : InitArgs)
  | commDestroy (handle : ℕ)

namespace HandleState
variable (env : Env)

/-- Deleting a wrapper clears its magic number, so a handle is good while its wrapper is alive. -/
def asPluginComm (st : HandleState) (handle : ℕ) : Option Wrapper :=
  st.live.find? fun wrapper => wrapper.id = handle

def ncclGroupStart (st : HandleState) : NcclResult × HandleState :=
  let (result, thread) := Shim.ncclGroupStart st.thread
  (result, { st with
    thread := thread
    queued := if st.thread.group.depth = 0 then [] else st.queued })

def ncclAllReduce (args : HandleArgs) (st : HandleState) : NcclResult × HandleState :=
  let wrapper := st.asPluginComm args.handle
  let resolved := args.resolve (wrapper.map Wrapper.comm)
  let (result, thread) := Shim.ncclAllReduce env resolved st.thread
  let kept := resolved.checked.isSome ∧ st.thread.group.depth > 0
  (result, { st with
    thread := thread
    queued := if kept then st.queued ++ wrapper.toList else st.queued })

def ncclGroupEnd (st : HandleState) : NcclResult × HandleState :=
  let (result, thread) := Shim.ncclGroupEnd env st.thread
  (result, { st with
    thread := thread
    queued := if st.thread.group.depth = 1 then [] else st.queued })

def ncclCommInitAll (args : InitArgs) (st : HandleState) : NcclResult × HandleState :=
  let ((result, comms), thread) := Shim.ncclCommInitAll env args st.thread
  (result, { st with
    thread := thread
    live := st.live ++ comms.mapIdx fun rank comm => ⟨st.nextId + rank, comm⟩
    nextId := st.nextId + comms.length })

def ncclCommDestroy (handle : ℕ) (st : HandleState) : NcclResult × HandleState :=
  let (result, thread) :=
    Shim.ncclCommDestroy env ((st.asPluginComm handle).map Wrapper.comm) st.thread
  (result, { st with
    thread := thread
    live := st.live.filter fun wrapper => wrapper.id ≠ handle })

end HandleState

def HandleCall.exec (env : Env) : HandleCall → HandleState → NcclResult × HandleState
  | groupStart, st => st.ncclGroupStart
  | allReduce args, st => st.ncclAllReduce env args
  | groupEnd, st => st.ncclGroupEnd env
  | commInitAll args, st => st.ncclCommInitAll env args
  | commDestroy handle, st => st.ncclCommDestroy env handle

/-- The call with the communicator its handle points to. -/
def HandleCall.resolve (st : HandleState) : HandleCall → ApiCall
  | groupStart => .groupStart
  | allReduce args => .allReduce (args.resolve ((st.asPluginComm args.handle).map Wrapper.comm))
  | groupEnd => .groupEnd
  | commInitAll args => .commInitAll args
  | commDestroy handle => .commDestroy ((st.asPluginComm handle).map Wrapper.comm)

/-- Any calls of one thread, with communicators that were made before and no group open. -/
def handleSystem (env : Env) : System HandleState where
  init st := st.thread = .start ∧ st.queued = [] ∧ (st.live.map Wrapper.id).Nodup ∧
    ∀ wrapper ∈ st.live, wrapper.id < st.nextId
  step st st' := ∃ call : HandleCall, st' = (call.exec env st).2

/-- The kept calls and the wrappers they point to go together. -/
def Tracks (st : HandleState) : Prop :=
  st.queued.map Wrapper.comm = st.thread.group.calls.map PendingAllReduce.comm

/-- No kept call points to a wrapper that is gone. -/
def QueuedAlive (st : HandleState) : Prop := ∀ wrapper ∈ st.queued, wrapper ∈ st.live

/-- The step does not destroy a communicator that a kept call points to. -/
def HandleCall.SparesQueued (st : HandleState) : HandleCall → Prop
  | commDestroy handle => ∀ wrapper ∈ st.queued, wrapper.id ≠ handle
  | _ => True

section
variable {env : Env}

/-- To the thread, a call is the one with its handle resolved. -/
theorem exec_resolve (env : Env) (call : HandleCall) (st : HandleState) :
    ((call.exec env st).1, (call.exec env st).2.thread) = (call.resolve st).exec env st.thread := by
  cases call <;> rfl

/-- A call that passes its checks has the communicator its handle points to. -/
theorem exists_wrapper {args : HandleArgs} {wrapper : Option Wrapper} {call : PendingAllReduce}
    (h : (args.resolve (wrapper.map Wrapper.comm)).checked = some call) :
    ∃ w, wrapper = some w ∧ call.comm = w.comm := by
  cases wrapper with
  | none => cases h
  | some w =>
    have hcall := (Option.ite_none_left_eq_some.mp h).2
    exact ⟨w, rfl, by rw [← Option.some.inj hcall]⟩

theorem asPluginComm_mem {st : HandleState} {handle : ℕ} {wrapper : Wrapper}
    (h : st.asPluginComm handle = some wrapper) : wrapper ∈ st.live :=
  List.mem_of_find?_eq_some h

/-- What the calls do to the kept calls, they do to the wrappers these point to. -/
theorem tracks_exec {st : HandleState} (h : Tracks st) (call : HandleCall) :
    Tracks (call.exec env st).2 := by
  rw [Tracks] at h ⊢
  cases call with
  | groupStart =>
    simp only [HandleCall.exec, HandleState.ncclGroupStart, ncclGroupStart]
    split_ifs
    · rfl
    · exact h
  | allReduce args =>
    simp only [HandleCall.exec, HandleState.ncclAllReduce, ncclAllReduce_calls]
    cases hchecked : (args.resolve ((st.asPluginComm args.handle).map Wrapper.comm)).checked with
    | none => simp [h]
    | some call =>
      obtain ⟨wrapper, hwrapper, hcomm⟩ := exists_wrapper hchecked
      split_ifs with hdepth
      · simp [h, hwrapper, hcomm]
      · simp_all
      · simp_all
      · exact h
  | groupEnd =>
    simp only [HandleCall.exec, HandleState.ncclGroupEnd, ncclGroupEnd_calls]
    split_ifs
    · rfl
    · exact h
  | commInitAll args =>
    refine h.trans (congrArg (List.map _ ∘ GroupState.calls) ?_)
    exact (ncclCommInitAll_frame env args st.thread).1.symm
  | commDestroy handle =>
    refine h.trans (congrArg (List.map _ ∘ GroupState.calls) ?_)
    exact (ncclCommDestroy_frame env _ st.thread).1.symm

/-- A wrapper that is queued after a step was queued before, or the step has found it alive. -/
theorem queued_exec {st : HandleState} {call : HandleCall} {wrapper : Wrapper}
    (h : wrapper ∈ (call.exec env st).2.queued) : wrapper ∈ st.queued ∨
      ∃ args, call = .allReduce args ∧ wrapper ∈ st.live := by
  cases call with
  | groupStart =>
    simp only [HandleCall.exec, HandleState.ncclGroupStart] at h
    split_ifs at h
    · cases h
    · exact .inl h
  | allReduce args =>
    simp only [HandleCall.exec, HandleState.ncclAllReduce] at h
    split_ifs at h
    · refine (List.mem_append.mp h).imp_right fun hmem => ⟨args, rfl, ?_⟩
      exact asPluginComm_mem (Option.mem_toList.mp hmem)
    · exact .inl h
  | groupEnd =>
    simp only [HandleCall.exec, HandleState.ncclGroupEnd] at h
    split_ifs at h
    · cases h
    · exact .inl h
  | commInitAll args => exact .inl h
  | commDestroy handle => exact .inl h

/-- A wrapper that was alive still is, unless the step destroys it. -/
theorem live_exec {st : HandleState} {call : HandleCall} {wrapper : Wrapper} (h : wrapper ∈ st.live)
    (hspared : ∀ handle, call = .commDestroy handle → wrapper.id ≠ handle) :
    wrapper ∈ (call.exec env st).2.live := by
  cases call with
  | commInitAll args => exact List.mem_append_left _ h
  | commDestroy handle => exact List.mem_filter.mpr ⟨h, by simpa using hspared handle rfl⟩
  | _ => exact h

/-- Every call that is kept has its buffers. -/
theorem buffers_exec {st : HandleState}
    (h : ∀ kept ∈ st.thread.group.calls, kept.send ≠ 0 ∧ kept.recv ≠ 0) (call : HandleCall) :
    ∀ kept ∈ (call.exec env st).2.thread.group.calls, kept.send ≠ 0 ∧ kept.recv ≠ 0 := by
  intro kept hkept
  have hthread : (call.exec env st).2.thread = ((call.resolve st).exec env st.thread).2 :=
    congrArg Prod.snd (exec_resolve env call st)
  rw [hthread] at hkept
  exact (exec_calls env hkept).elim (h kept) ApiCall.buffers_of_pending

theorem queuedAlive_exec {st : HandleState} (h : QueuedAlive st) {call : HandleCall}
    (hspares : call.SparesQueued st) : QueuedAlive (call.exec env st).2 := by
  intro wrapper hqueued
  rcases queued_exec hqueued with hqueued | ⟨args, rfl, hlive⟩
  · refine live_exec (h wrapper hqueued) ?_
    rintro handle rfl
    exact hspares wrapper hqueued
  · exact live_exec hlive nofun

/-- No other step keeps the queued wrappers alive. -/
theorem queuedAlive_exec_iff {st : HandleState} (h : QueuedAlive st) (call : HandleCall) :
    QueuedAlive (call.exec env st).2 ↔ call.SparesQueued st := by
  refine ⟨fun hafter => ?_, queuedAlive_exec h⟩
  cases call with
  | commDestroy handle =>
    intro wrapper hqueued
    simpa using (List.mem_filter.mp (hafter wrapper hqueued)).2
  | _ => trivial

end

/-- The runs that destroy no communicator a kept call points to. -/
def sparingSystem (env : Env) : System HandleState :=
  (handleSystem env).restrict fun st st' =>
    ∃ call : HandleCall, st' = (call.exec env st).2 ∧ call.SparesQueued st

/-- In a run that destroys no communicator a kept call points to, no kept call ever points to a
destroyed one. -/
theorem queued_alive (env : Env) {st : HandleState}
    (h : (sparingSystem env).Reachable st) : Tracks st ∧ QueuedAlive st := by
  refine System.Reachable.invariant (I := fun st => Tracks st ∧ QueuedAlive st)
    (fun st hinit => ?_) (fun st st' _ ih hstep => ?_) h
  · obtain ⟨hthread, hqueued, -⟩ := hinit
    rw [Tracks, QueuedAlive, hqueued, hthread]
    exact ⟨rfl, List.forall_mem_nil _⟩
  · obtain ⟨-, call, rfl, hspares⟩ := hstep
    exact ⟨tracks_exec ih.1 call, queuedAlive_exec ih.2 hspares⟩

/-! ### Two communicators -/

def sampleWrapper : Wrapper := ⟨0, sampleComm .zero⟩

def sampleHandles : HandleState := ⟨.start, [sampleWrapper, ⟨1, sampleComm .one⟩], [], 2⟩

def sampleHandleArgs : HandleArgs := ⟨100, 200, 4, .float32, .sum, 0, 1⟩

def keptState : HandleState :=
  ((HandleCall.allReduce sampleHandleArgs).exec sampleEnv
    (HandleCall.groupStart.exec sampleEnv sampleHandles).2).2

def sparedState : HandleState := ((HandleCall.commDestroy 1).exec sampleEnv keptState).2

theorem sampleHandles_init : (handleSystem sampleEnv).init sampleHandles :=
  ⟨rfl, rfl, by decide, by decide⟩

theorem queued_alive_sample : sparedState.queued = [sampleWrapper] ∧
    sparedState.live = [sampleWrapper] ∧ Tracks sparedState ∧ QueuedAlive sparedState :=
  ⟨rfl, rfl, queued_alive sampleEnv (.step (.step (.step (.init sampleHandles_init)
    ⟨⟨.groupStart, rfl⟩, .groupStart, rfl, trivial⟩)
    ⟨⟨.allReduce sampleHandleArgs, rfl⟩, .allReduce sampleHandleArgs, rfl, trivial⟩)
    ⟨⟨.commDestroy 1, rfl⟩, .commDestroy 1, rfl, List.forall_mem_singleton.mpr Nat.zero_ne_one⟩)⟩

/-- A communicator that is destroyed while a call on it is kept is gone when the call is dispatched. -/
theorem destroyed_while_queued :
    ∃ st, (handleSystem sampleEnv).Reachable st ∧ st.thread.group.depth = 1 ∧
      st.queued = [sampleWrapper] ∧ sampleWrapper ∉ st.live := by
  refine ⟨((HandleCall.commDestroy 0).exec sampleEnv keptState).2, ?_, rfl, rfl, by decide⟩
  exact .step (.step (.step (.init sampleHandles_init) ⟨.groupStart, rfl⟩)
    ⟨.allReduce sampleHandleArgs, rfl⟩) ⟨.commDestroy 0, rfl⟩

end MultiGpuTransport.Shim
