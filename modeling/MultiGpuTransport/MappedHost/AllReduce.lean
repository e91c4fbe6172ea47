import MultiGpuTransport.Host
import MultiGpuTransport.Lib.Progress
import MultiGpuTransport.MappedHost.Transport

/-!
# SharedMemoryAllReduce.all_reduce

The host side of the fallback transport. A call takes the stream path, on which the native library
enqueues everything, or the barrier path, on which the host copies and adds itself between two
waits at the barrier.
-/
namespace MultiGpuTransport.MappedHost
open Streams

/-- The steps of a call that may raise, in order: those of the stream path, then those of the
barrier path. -/
inductive NativeStep
  | emptyLike
  | waitConsumed | copyAsync | writeReady | waitReady | addAsync | writeConsumed
  | memcpyToHost | firstSet | firstWait | torchAdd | memcpyToDevice | secondSet | secondWait
  deriving DecidableEq, Repr

def nativeError (fault : Fault NativeStep) : PyError :=
  match fault.step with
  | .emptyLike | .torchAdd => .runtimeError fault.detail
  | .waitConsumed | .copyAsync | .writeReady | .waitReady | .addAsync | .writeConsumed =>
    .runtimeError ("native all-reduce enqueue failed with HIP error " ++ fault.detail)
  | .memcpyToHost | .memcpyToDevice => .runtimeError ("hipMemcpy failed: " ++ fault.detail)
  | .firstSet | .secondSet => .osError fault.detail
  | .firstWait | .secondWait =>
    -- A wait that times out has no detail, one that fails has.
    if fault.detail = "" then .timeoutError "the peer did not reach the Windows event barrier"
    else .osError fault.detail

/-- The constructed communicator of one rank. -/
structure SharedMemoryAllReduce where
  rank : Rank
  device : ℕ
  maxSizeBytes : ℕ
  kernel : Bool
  useStreamPath : Bool
  deriving DecidableEq, Repr

/-- Instructions of one rank for its streams. -/
abbrev HostInstr := Instr (Rank × StreamId) Op

def launchAdd (rank : Rank) (number : ℕ) (tensor : Tensor) (stream : StreamId) :
    List (NativeStep × List HostInstr) :=
  if tensor.numel = 0 then []
  else [(.addAsync, [.enqueue (rank, stream)
    (.addPeer rank number tensor.dtype tensor.numel tensor.data rank.peer)])]

def enqueueAllReduce (rank : Rank) (number : ℕ) (tensor : Tensor) (epoch : ℕ) (stream : StreamId) :
    List (NativeStep × List HostInstr) :=
  (if 1 < epoch then
    [(.waitConsumed, [.enqueue (rank, stream) (.waitValue .consumed rank (epoch - 1))])] else []) ++
  [(.copyAsync, [.enqueue (rank, stream) (.copyToSlot rank tensor.data)]),
   (.writeReady, [.enqueue (rank, stream) (.writeValue .ready rank epoch)]),
   (.waitReady, [.enqueue (rank, stream) (.waitValue .ready rank.peer epoch)])] ++
  launchAdd rank number tensor stream ++
  [(.writeConsumed, [.enqueue (rank, stream) (.writeValue .consumed rank.peer epoch)])]

/-- One wait at the barrier, made by the host. -/
def barrierWait (rank : Rank) (stream : StreamId) (set wait : NativeStep) :
    List (NativeStep × List HostInstr) :=
  List.zipWith (fun step op => (step, [.call (rank, stream) false (.event op)])) [set, wait]
    (Win32PairBarrier.wait rank)

def barrierSteps (rank : Rank) (number : ℕ) (tensor : Tensor) (stream : StreamId) :
    List (NativeStep × List HostInstr) :=
  [(.emptyLike, []),
   (.memcpyToHost, [.call (rank, stream) true (.copyToSlot rank tensor.data)])] ++
  barrierWait rank stream .firstSet .firstWait ++
  [(.torchAdd, [.call (rank, stream) false (.addSlots rank tensor.dtype tensor.numel)]),
   (.memcpyToDevice, [.call (rank, stream) true (.copyOutput rank number tensor.sizeBytes)])] ++
  barrierWait rank stream .secondSet .secondWait

/-- A communicator's epoch, how many calls were made on it, and what its host was told to do. -/
structure State where
  epoch : ℕ
  calls : ℕ
  instrs : List HostInstr

def State.start : State := ⟨0, 0, []⟩

/-- A ctypes c_uint32 holds the number modulo 2^32. -/
def cUint32 (n : ℕ) : ℕ := n % 2 ^ 32

/-- The epoch from which the communicator has to be recreated. -/
def epochLimit : ℕ := 0xFFFFFF00

theorem cUint32_epoch {epoch : ℕ} (h : epoch < epochLimit) : cUint32 (epoch + 1) = epoch + 1 :=
  Nat.mod_eq_of_lt (by unfold epochLimit at h; omega)

def outputRef (number : ℕ) (tensor : Tensor) : TensorRef :=
  if tensor.numel = 0 then .empty else .output number

def SharedMemoryAllReduce.streamAllReduce (comm : SharedMemoryAllReduce) (number : ℕ)
    (call : Call NativeStep) (st : State) : Except PyError TensorRef × State :=
  if !comm.kernel then (.error (.runtimeError "mapped-peer kernel was not initialized"), st)
  else if st.epoch ≥ epochLimit then
    (.error (.runtimeError "stream epoch is near uint32 wrap; recreate communicator"), st)
  else
    let epoch := st.epoch + 1
    let (result, instrs) := perform nativeError call.fault ((.emptyLike, []) ::
      enqueueAllReduce comm.rank number call.tensor (cUint32 epoch) call.stream)
    (result.map fun _ => outputRef number call.tensor,
      { st with epoch := epoch, instrs := st.instrs ++ instrs })

def SharedMemoryAllReduce.allReduce (comm : SharedMemoryAllReduce) (call : Call NativeStep)
    (st : State) : Except PyError TensorRef × State :=
  let tensor := call.tensor
  let number := st.calls
  let st := { st with calls := number + 1 }
  if tensor.device ≠ comm.device then
    (.error (.valueError s!"tensor is on cuda:{tensor.device}, communicator is cuda:{comm.device}"),
      st)
  else if tensor.sizeBytes > comm.maxSizeBytes then
    (.error (.valueError
      s!"collective payload {tensor.sizeBytes} exceeds {comm.maxSizeBytes} bytes"), st)
  else if comm.useStreamPath && tensor.dtype.isNative then comm.streamAllReduce number call st
  else
    let (result, instrs) := perform nativeError call.fault
      (barrierSteps comm.rank number tensor call.stream)
    (result.map fun _ => outputRef number tensor, { st with instrs := st.instrs ++ instrs })

/-- The path a call takes once it is past its checks. -/
inductive Route
  | stream (epoch : ℕ)
  | barrier
  deriving DecidableEq, Repr

/-- The path of a call made at an epoch, none if it raises first. -/
def SharedMemoryAllReduce.route (comm : SharedMemoryAllReduce) (epoch : ℕ) (tensor : Tensor) :
    Option Route :=
  if tensor.device ≠ comm.device ∨ tensor.sizeBytes > comm.maxSizeBytes then none
  else if comm.useStreamPath && tensor.dtype.isNative then
    if !comm.kernel || epochLimit ≤ epoch then none else some (.stream (epoch + 1))
  else some .barrier

namespace Route

def steps (rank : Rank) (number : ℕ) (call : Call NativeStep) :
    Route → List (NativeStep × List HostInstr)
  | stream epoch => (.emptyLike, []) :: enqueueAllReduce rank number call.tensor epoch call.stream
  | barrier => barrierSteps rank number call.tensor call.stream

def epochAfter (epoch : ℕ) : Route → ℕ
  | stream e => e
  | barrier => epoch

end Route

/-- A call that got past its checks, with its number and its path. -/
structure Planned where
  number : ℕ
  route : Route
  call : Call NativeStep

/-- What the call tells the host to do before it returns or raises. -/
def Planned.instrs (rank : Rank) (pl : Planned) : List HostInstr :=
  (before pl.call.fault (pl.route.steps rank pl.number pl.call)).flatMap Prod.snd

section
variable {comm : SharedMemoryAllReduce} {call : Call NativeStep} {st : State}

theorem SharedMemoryAllReduce.allReduce_of_route_none
    (h : comm.route st.epoch call.tensor = none) :
    (∃ error, (comm.allReduce call st).1 = .error error) ∧
      (comm.allReduce call st).2 = { st with calls := st.calls + 1 } := by
  simp only [route] at h
  split_ifs at h with h1 h2 h3
  · rcases h1 with h1 | h1
    · simp [allReduce, h1]
    · by_cases hd : call.tensor.device = comm.device <;> simp [allReduce, hd, h1]
  · simp only [not_or, not_not] at h1
    have hstream : comm.allReduce call st =
        comm.streamAllReduce st.calls call { st with calls := st.calls + 1 } := by
      simp [allReduce, h1, h2]
    rw [hstream]
    by_cases hk : comm.kernel
    · have he : epochLimit ≤ st.epoch := by simpa [hk] using h3
      simp [streamAllReduce, hk, he]
    · simp [streamAllReduce, hk]

/-- A call with a path makes the steps of the path up to the one that fails. -/
theorem SharedMemoryAllReduce.allReduce_of_route {route : Route}
    (h : comm.route st.epoch call.tensor = some route) :
    comm.allReduce call st =
      ((perform nativeError call.fault (route.steps comm.rank st.calls call)).1.map
          fun _ => outputRef st.calls call.tensor,
        ⟨route.epochAfter st.epoch, st.calls + 1,
          st.instrs ++ Planned.instrs comm.rank ⟨st.calls, route, call⟩⟩) := by
  simp only [SharedMemoryAllReduce.route] at h
  split_ifs at h with h1 h2 h3
  · simp only [not_or, not_not] at h1
    obtain ⟨hk, he⟩ : comm.kernel = true ∧ ¬ epochLimit ≤ st.epoch := by simpa using h3
    cases h
    simp [allReduce, streamAllReduce, h1, h2, hk, he, perform_enqueued, Route.steps,
      Route.epochAfter, Planned.instrs, cUint32_epoch (Nat.lt_of_not_le he)]
  · simp only [not_or, not_not] at h1
    cases h
    simp [allReduce, h1, h2, perform_enqueued, Route.steps, Route.epochAfter, Planned.instrs]

end

/-- The calls of a sequence that get past their checks, from an epoch and a number of calls on. -/
def planFrom (comm : SharedMemoryAllReduce) : ℕ → ℕ → List (Call NativeStep) → List Planned
  | _, _, [] => []
  | epoch, number, call :: calls =>
    match comm.route epoch call.tensor with
    | none => planFrom comm epoch (number + 1) calls
    | some route =>
      ⟨number, route, call⟩ :: planFrom comm (route.epochAfter epoch) (number + 1) calls

theorem makeCalls_instrs (comm : SharedMemoryAllReduce) (calls : List (Call NativeStep))
    (st : State) : (makeCalls comm.allReduce calls st).2.instrs =
      st.instrs ++ (planFrom comm st.epoch st.calls calls).flatMap (Planned.instrs comm.rank) := by
  induction calls generalizing st with
  | nil => simp [makeCalls, planFrom]
  | cons call calls ih =>
    cases h : comm.route st.epoch call.tensor with
    | none =>
      simp [makeCalls, planFrom, h, ih, (SharedMemoryAllReduce.allReduce_of_route_none h).2]
    | some route => simp [makeCalls, planFrom, h, ih, SharedMemoryAllReduce.allReduce_of_route h]

/-- What a call returns: the output of its own number, once past its checks. -/
theorem makeCalls_result (comm : SharedMemoryAllReduce) (calls : List (Call NativeStep))
    (st : State) (i : ℕ) (ref : TensorRef)
    (h : (makeCalls comm.allReduce calls st).1[i]? = some (.ok ref)) :
    ∃ pl ∈ planFrom comm st.epoch st.calls calls, pl.number = st.calls + i ∧
      calls[i]? = some pl.call ∧ ref = outputRef (st.calls + i) pl.call.tensor ∧
      ∀ f ∈ pl.call.fault, f.step ∉ (pl.route.steps comm.rank pl.number pl.call).map Prod.fst := by
  induction calls generalizing st i with
  | nil => simp [makeCalls] at h
  | cons call calls ih =>
    rw [planFrom]
    cases hroute : comm.route st.epoch call.tensor with
    | none =>
      obtain ⟨⟨error, herror⟩, hstate⟩ := SharedMemoryAllReduce.allReduce_of_route_none hroute
      cases i with
      | zero => simp [makeCalls, herror] at h
      | succ i =>
        obtain ⟨pl, hpl, hnum, hcall, href, hfault⟩ := ih _ i (by simpa [makeCalls] using h)
        rw [hstate] at hpl hnum href
        exact ⟨pl, hpl, by simpa [Nat.add_comm, Nat.add_left_comm] using hnum, by simpa using hcall,
          by simpa [Nat.add_comm, Nat.add_left_comm] using href, hfault⟩
    | some route =>
      have hcallEq := SharedMemoryAllReduce.allReduce_of_route hroute
      cases i with
      | zero =>
        refine ⟨_, List.mem_cons_self, rfl, rfl, ?_, ?_⟩
        · simp only [makeCalls, hcallEq, List.getElem?_cons_zero, Option.some.injEq] at h
          cases hres : (perform nativeError call.fault
            (route.steps comm.rank st.calls call)).1 <;> simp_all [Except.map]
        · refine (perform_ok nativeError call.fault _).mp ?_
          simp only [makeCalls, hcallEq, List.getElem?_cons_zero, Option.some.injEq] at h
          cases hres : (perform nativeError call.fault
            (route.steps comm.rank st.calls call)).1 <;> simp_all [Except.map]
      | succ i =>
        obtain ⟨pl, hpl, hnum, hcall, href, hfault⟩ := ih _ i (by simpa [makeCalls] using h)
        rw [hcallEq] at hpl hnum href
        exact ⟨pl, List.mem_cons_of_mem _ hpl, by simpa [Nat.add_comm, Nat.add_left_comm] using hnum,
          by simpa using hcall, by simpa [Nat.add_comm, Nat.add_left_comm] using href, hfault⟩

/-- A call past its checks none of whose steps fails returns. -/
theorem makeCalls_returns (comm : SharedMemoryAllReduce) (calls : List (Call NativeStep))
    (st : State) (pl : Planned) (hpl : pl ∈ planFrom comm st.epoch st.calls calls)
    (hfault : pl.call.fault = none) :
    ∃ i, pl.number = st.calls + i ∧ (makeCalls comm.allReduce calls st).1[i]? =
      some (.ok (outputRef pl.number pl.call.tensor)) := by
  induction calls generalizing st with
  | nil => simp [planFrom] at hpl
  | cons call calls ih =>
    rw [planFrom] at hpl
    cases hroute : comm.route st.epoch call.tensor with
    | none =>
      rw [hroute] at hpl
      have hstate := (SharedMemoryAllReduce.allReduce_of_route_none hroute).2
      obtain ⟨i, hi, hres⟩ := ih (comm.allReduce call st).2 (by simpa [hstate] using hpl)
      rw [hstate] at hi
      exact ⟨i + 1, by simp only at hi; omega, by simpa [makeCalls] using hres⟩
    | some route =>
      rw [hroute] at hpl
      have hcallEq := SharedMemoryAllReduce.allReduce_of_route hroute
      rcases List.mem_cons.mp hpl with rfl | hpl
      · refine ⟨0, rfl, ?_⟩
        have hok := (perform_ok nativeError call.fault (route.steps comm.rank st.calls call)).mpr
          (by simp [show call.fault = none from hfault])
        simp [makeCalls, hcallEq, hok, Except.map]
      · obtain ⟨i, hi, hres⟩ := ih (comm.allReduce call st).2 (by simpa [hcallEq] using hpl)
        rw [hcallEq] at hi
        exact ⟨i + 1, by simp only at hi; omega, by simpa [makeCalls] using hres⟩

/-- The two communicators of a pair. Which path they use was agreed on, the stream path only where
both have the kernel; the mapping was made for one size. -/
structure Pair where
  device : Rank → ℕ
  maxSizeBytes : ℕ
  kernel : Rank → Bool
  useStreamPath : Bool
  kernel_present : useStreamPath = true → ∀ r, kernel r = true

def Pair.comm (pair : Pair) (r : Rank) : SharedMemoryAllReduce where
  rank := r
  device := pair.device r
  maxSizeBytes := pair.maxSizeBytes
  kernel := pair.kernel r
  useStreamPath := pair.useStreamPath

/-- The calls of rank r that get past their checks. -/
def plan (pair : Pair) (calls : Rank → List (Call NativeStep)) (r : Rank) : List Planned :=
  planFrom (pair.comm r) 0 0 (calls r)

def hostRun (pair : Pair) (calls : Rank → List (Call NativeStep)) (r : Rank) :
    List (Except PyError TensorRef) × State :=
  makeCalls (pair.comm r).allReduce (calls r) .start

/-- The instructions of the two hosts. -/
def program (pair : Pair) (calls : Rank → List (Call NativeStep)) (r : Rank) : List HostInstr :=
  (hostRun pair calls r).2.instrs

/-- The operations of a call, in order. -/
def Planned.job (rank : Rank) (pl : Planned) : Job StreamId Op :=
  ⟨pl.call.stream, (pl.instrs rank).map Instr.op⟩

def jobs (pair : Pair) (calls : Rank → List (Call NativeStep)) (r : Rank) : List (Job StreamId Op) :=
  (plan pair calls r).map (Planned.job r)

theorem Route.steps_stream (rank : Rank) (number : ℕ) (call : Call NativeStep) (route : Route) :
    ∀ i ∈ (route.steps rank number call).flatMap Prod.snd, i.stream = (rank, call.stream) := by
  cases route with
  | stream epoch =>
    by_cases he : 1 < epoch <;> by_cases ht : call.tensor.numel = 0 <;>
      simp [steps, enqueueAllReduce, launchAdd, he, ht, Instr.stream]
  | barrier => simp [steps, barrierSteps, barrierWait, Win32PairBarrier.wait, Instr.stream]

theorem Route.steps_isEnqueue (rank : Rank) (number epoch : ℕ) (call : Call NativeStep) :
    ∀ i ∈ ((stream epoch).steps rank number call).flatMap Prod.snd, i.IsEnqueue := by
  by_cases he : 1 < epoch <;> by_cases ht : call.tensor.numel = 0 <;>
    simp [steps, enqueueAllReduce, launchAdd, he, ht, Instr.IsEnqueue]

theorem Route.steps_ordered (rank : Rank) (number : ℕ) (call : Call NativeStep) (route : Route) :
    Instr.Ordered (fun _ => True) ((route.steps rank number call).flatMap Prod.snd) := by
  cases route with
  | stream epoch => exact Instr.ordered_of_enqueue (steps_isEnqueue rank number epoch call) _
  | barrier =>
    simp [steps, barrierSteps, barrierWait, Win32PairBarrier.wait, Instr.Ordered]

/-- The instructions of a call are the first of its path's. -/
theorem Planned.instrs_append (rank : Rank) (pl : Planned) :
    ∃ rest, pl.instrs rank ++ rest = (pl.route.steps rank pl.number pl.call).flatMap Prod.snd := by
  obtain ⟨rest, hrest⟩ := before_prefix pl.call.fault (pl.route.steps rank pl.number pl.call)
  exact ⟨rest.flatMap Prod.snd, by rw [← hrest, List.flatMap_append]; rfl⟩

theorem program_eq (pair : Pair) (calls : Rank → List (Call NativeStep)) (r : Rank) :
    program pair calls r = (plan pair calls r).flatMap (Planned.instrs r) := by
  simp [program, hostRun, makeCalls_instrs, State.start, plan, Pair.comm]

theorem program_realizes (pair : Pair) (calls : Rank → List (Call NativeStep)) :
    Realizes Prod.fst (program pair calls) (jobs pair calls) := by
  rw [funext (program_eq pair calls)]
  refine realizes_blocks (plan pair calls) (fun pl => pl.call.stream) Planned.instrs ?_ ?_
  · intro r pl _ i hi
    obtain ⟨rest, hrest⟩ := pl.instrs_append r
    exact pl.route.steps_stream r pl.number pl.call i (hrest ▸ List.mem_append_left _ hi)
  · intro r pl _
    obtain ⟨rest, hrest⟩ := pl.instrs_append r
    exact Instr.Ordered.of_append (hrest ▸ pl.route.steps_ordered r pl.number pl.call)

/-- The two ranks' hosts and streams, from where both are through the wait that ends their constructors. -/
def system (addValues : AddValues) (pair : Pair) (calls : Rank → List (Call NativeStep))
    (slot localOutput : Rank → Bytes) :
    Transition.System (HostConfig Rank (Rank × StreamId) Op Mem) :=
  hostSystem (device addValues) (HostConfig.start (program pair calls) (.start slot localOutput))

/-- One collective: the calls the two ranks make for it, with tensors of one dtype and shape that
pass the checks. -/
structure Collective (pair : Pair) where
  call : Rank → Call NativeStep
  onDevice : ∀ r, (call r).tensor.device = pair.device r
  fits : ∀ r, (call r).tensor.sizeBytes ≤ pair.maxSizeBytes
  sameShape : ∀ r, (call r).tensor.SameShape (call r.peer).tensor

/-- The calls a rank makes for a sequence of collectives. -/
def callsOf {pair : Pair} (cs : List (Collective pair)) (r : Rank) : List (Call NativeStep) :=
  cs.map fun col => col.call r

/-- The bytes of a returned tensor, once its operations have filled it. -/
def readOutput (m : Mem) (r : Rank) : TensorRef → Option Bytes
  | .empty => some []
  | .output number => m.output r number

end MultiGpuTransport.MappedHost
