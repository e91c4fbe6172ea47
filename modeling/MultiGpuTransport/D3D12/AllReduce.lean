import MultiGpuTransport.D3D12.Transport
import MultiGpuTransport.Host
import MultiGpuTransport.Lib.Progress

/-!
# D3D12AllReduce.all_reduce

The host side of the transport in Python: what one call checks, and which operations it puts on
the current stream.
-/
namespace MultiGpuTransport.D3D12
open Streams

/-- The steps of a call that may raise after it has taken its epoch, in order. -/
inductive NativeStep
  | setDevice | emptyLike | copyAsync | signalReady | waitReady | addAsync | signalConsumed
  | waitConsumed
  deriving DecidableEq, Repr

def nativeError (fault : Fault NativeStep) : PyError :=
  match fault.step with
  | .setDevice => .runtimeError ("hipSetDevice failed: " ++ fault.detail)
  | .emptyLike => .runtimeError fault.detail
  | .copyAsync => .runtimeError ("mapped-peer copy failed with HIP error " ++ fault.detail)
  | .signalReady | .signalConsumed =>
    .runtimeError ("D3D12 transport signal failed: " ++ fault.detail)
  | .waitReady | .waitConsumed => .runtimeError ("D3D12 transport wait failed: " ++ fault.detail)
  | .addAsync => .runtimeError ("mapped-peer add failed with HIP error " ++ fault.detail)

/-- The constructed communicator of one rank. -/
structure D3D12AllReduce where
  rank : Rank
  device : Option ℕ
  maxSizeBytes : ℕ
  ownOpen : Bool
  peerOpen : Bool
  deriving DecidableEq, Repr

/-- The native steps of a call with what each of them enqueues. -/
def nativeSteps (rank : Rank) (epoch : ℕ) (tensor : Tensor) (stream : StreamId) :
    List (NativeStep × List (StreamId × Op)) :=
  let readyValue := epoch * 2 - 1
  let consumedValue := readyValue + 1
  [(.setDevice, []),
   (.emptyLike, []),
   (.copyAsync, [(stream, .copy rank epoch tensor.data)]),
   (.signalReady, [(stream, .signal rank readyValue)]),
   (.waitReady, [(stream, .wait rank.peer readyValue)]),
   (.addAsync, [(stream, .add rank epoch tensor.dtype tensor.numel tensor.data rank.peer)]),
   (.signalConsumed, [(stream, .signal rank.peer consumedValue)]),
   (.waitConsumed, [(stream, .wait rank consumedValue)])]

def D3D12AllReduce.allReduce (comm : D3D12AllReduce) (call : Call NativeStep)
    (st : HostState (StreamId × Op)) : Except PyError TensorRef × HostState (StreamId × Op) :=
  let tensor := call.tensor
  if !comm.ownOpen || !comm.peerOpen then
    (.error (.runtimeError "D3D12 all-reduce is closed"), st)
  else if comm.device ≠ some tensor.device then
    (.error (.valueError (s!"tensor is on {cudaName (some tensor.device)}, " ++
      s!"communicator is {cudaName comm.device}")), st)
  else if !tensor.dtype.isNative then
    (.error (.typeError s!"D3D12 all-reduce does not support {tensor.dtype.name}"), st)
  else if tensor.sizeBytes = 0 then
    (.ok .empty, st)
  else if tensor.sizeBytes > comm.maxSizeBytes then
    (.error (.valueError (s!"collective payload {tensor.sizeBytes} exceeds " ++
      s!"WAVMG_D3D12_MAX_BYTES={comm.maxSizeBytes}")), st)
  else
    let epoch := st.epoch + 1
    let (result, ops) := perform nativeError call.fault
      (nativeSteps comm.rank epoch tensor call.stream)
    (result.map fun _ => .output epoch, ⟨epoch, st.enqueued ++ ops⟩)

/-- The call passes the checks made before it takes an epoch. -/
structure D3D12AllReduce.Accepts (comm : D3D12AllReduce) (tensor : Tensor) : Prop where
  ownOpen : comm.ownOpen = true
  peerOpen : comm.peerOpen = true
  onDevice : comm.device = some tensor.device
  native : tensor.dtype.isNative = true
  fits : tensor.sizeBytes ≤ comm.maxSizeBytes

/-- The six operations of one call. -/
def sixSteps (rank : Rank) (epoch : ℕ) (tensor : Tensor) : List Op :=
  [.copy rank epoch tensor.data,
   .signal rank (epoch * 2 - 1),
   .wait rank.peer (epoch * 2 - 1),
   .add rank epoch tensor.dtype tensor.numel tensor.data rank.peer,
   .signal rank.peer (epoch * 2),
   .wait rank (epoch * 2)]

/-- How many of the six operations are enqueued before the step fails. -/
def NativeStep.enqueuedBefore : NativeStep → ℕ
  | setDevice | emptyLike | copyAsync => 0
  | signalReady => 1
  | waitReady => 2
  | addAsync => 3
  | signalConsumed => 4
  | waitConsumed => 5

/-- How many of the six operations a call enqueues. -/
def enqueuedBy (fault : Option (Fault NativeStep)) : ℕ :=
  fault.elim 6 fun f => f.step.enqueuedBefore

/-- What the call leaves on the streams when it takes an epoch. -/
def job (rank : Rank) (epoch : ℕ) (call : Call NativeStep) : Job StreamId Op where
  stream := call.stream
  ops := (sixSteps rank epoch call.tensor).take (enqueuedBy call.fault)

theorem before_nativeSteps (rank : Rank) (epoch : ℕ) (call : Call NativeStep) (he : 0 < epoch) :
    (before call.fault (nativeSteps rank epoch call.tensor call.stream)).flatMap Prod.snd =
      (job rank epoch call).ops.map (call.stream, ·) := by
  obtain ⟨tensor, stream, fault⟩ := call
  have hv : epoch * 2 - 1 + 1 = epoch * 2 := by omega
  rcases fault with _ | ⟨step, detail⟩
  · simp [before, nativeSteps, job, sixSteps, enqueuedBy, hv]
  · cases step <;>
      simp [before, nativeSteps, job, sixSteps, enqueuedBy, NativeStep.enqueuedBefore, hv]

section
variable {comm : D3D12AllReduce} {call : Call NativeStep}

/-- An accepted empty tensor comes back at once. -/
theorem D3D12AllReduce.allReduce_empty (h : comm.Accepts call.tensor)
    (hsize : call.tensor.sizeBytes = 0) (st : HostState (StreamId × Op)) :
    comm.allReduce call st = (.ok .empty, st) := by
  simp [allReduce, h.ownOpen, h.peerOpen, h.onDevice, h.native, hsize]

/-- Any other accepted call takes an epoch and enqueues its job. -/
theorem D3D12AllReduce.allReduce_state (h : comm.Accepts call.tensor)
    (hsize : call.tensor.sizeBytes ≠ 0) (st : HostState (StreamId × Op)) :
    (comm.allReduce call st).2 = ⟨st.epoch + 1, st.enqueued ++
      (job comm.rank (st.epoch + 1) call).ops.map (call.stream, ·)⟩ := by
  rw [← before_nativeSteps _ _ _ (Nat.succ_pos _)]
  simp [allReduce, h.ownOpen, h.peerOpen, h.onDevice, h.native, hsize, Nat.not_lt.mpr h.fits,
    perform_enqueued]

/-- It returns exactly when no step failed, and then the output of its epoch. -/
theorem D3D12AllReduce.allReduce_result (h : comm.Accepts call.tensor)
    (hsize : call.tensor.sizeBytes ≠ 0) (st : HostState (StreamId × Op)) (ref : TensorRef) :
    (comm.allReduce call st).1 = .ok ref ↔ ref = .output (st.epoch + 1) ∧ call.fault = none := by
  have hall : ∀ step : NativeStep, step ∈ (nativeSteps comm.rank (st.epoch + 1) call.tensor
      call.stream).map Prod.fst := by
    intro step
    cases step <;> simp [nativeSteps]
  have hok := perform_ok nativeError call.fault (nativeSteps comm.rank (st.epoch + 1) call.tensor
    call.stream)
  simp only [hall, not_true_eq_false] at hok
  have hfault : (∀ f ∈ call.fault, False) ↔ call.fault = none := by
    cases call.fault <;> simp
  rw [hfault] at hok
  have hres : (comm.allReduce call st).1 = (perform nativeError call.fault
      (nativeSteps comm.rank (st.epoch + 1) call.tensor call.stream)).1.map
        fun _ => .output (st.epoch + 1) := by
    simp [allReduce, h.ownOpen, h.peerOpen, h.onDevice, h.native, hsize, Nat.not_lt.mpr h.fits]
  rw [hres, ← hok]
  cases (perform nativeError call.fault (nativeSteps comm.rank (st.epoch + 1) call.tensor
    call.stream)).1 <;> simp [Except.map, eq_comm]

end

/-- The jobs of a sequence of calls that all move bytes, after e epochs. -/
def jobsFrom (rank : Rank) : ℕ → List (Call NativeStep) → List (Job StreamId Op)
  | _, [] => []
  | e, call :: calls => job rank (e + 1) call :: jobsFrom rank (e + 1) calls

theorem getElem?_jobsFrom (rank : Rank) (e k : ℕ) (calls : List (Call NativeStep)) :
    (jobsFrom rank e calls)[k]? = calls[k]?.map (job rank (e + k + 1)) := by
  induction calls generalizing e k with
  | nil => rfl
  | cons call calls ih =>
    cases k with
    | zero => rfl
    | succ k =>
      simp only [jobsFrom, List.getElem?_cons_succ, ih, Nat.add_assoc, Nat.add_comm 1 k]

/-- The two communicators of a pair, open on both sides. -/
structure Pair where
  device : Rank → ℕ
  maxSizeBytes : Rank → ℕ

def Pair.comm (pair : Pair) (r : Rank) : D3D12AllReduce where
  rank := r
  device := some (pair.device r)
  maxSizeBytes := pair.maxSizeBytes r
  ownOpen := true
  peerOpen := true

/-- One collective: the calls the two ranks make for it, with tensors of one dtype and shape that
their communicators accept. -/
structure Collective (pair : Pair) where
  call : Rank → Call NativeStep
  accepted : ∀ r, (pair.comm r).Accepts (call r).tensor
  sameShape : ∀ r, (call r).tensor.SameShape (call r.peer).tensor

namespace Collective
variable {pair : Pair}

/-- The collective has bytes to move, on both ranks or on neither. -/
def moves (col : Collective pair) : Bool := (col.call .zero).tensor.sizeBytes ≠ 0

theorem moves_iff (col : Collective pair) (r : Rank) :
    col.moves = true ↔ (col.call r).tensor.sizeBytes ≠ 0 := by
  cases r with
  | zero => simp [moves]
  | one => simp [moves, (col.sameShape .zero).sizeBytes, Rank.peer]

/-- The sum a rank is to get: its own payload plus its peer's, element by element. -/
def sum (addValues : AddValues) (col : Collective pair) (r : Rank) : Bytes :=
  (col.call r).tensor.sum addValues (col.call r.peer).tensor

end Collective

/-- What rank r's calls of the collectives return and leave on its host. -/
def hostRun (pair : Pair) (cs : List (Collective pair)) (r : Rank) :
    List (Except PyError TensorRef) × HostState (StreamId × Op) :=
  makeCalls (pair.comm r).allReduce (cs.map fun col => col.call r) ⟨0, []⟩

/-- The calls of rank r that take an epoch. -/
def movingCalls {pair : Pair} (cs : List (Collective pair)) (r : Rank) : List (Call NativeStep) :=
  (cs.filter Collective.moves).map fun col => col.call r

def jobs {pair : Pair} (cs : List (Collective pair)) (r : Rank) : List (Job StreamId Op) :=
  jobsFrom r 0 (movingCalls cs r)

section
variable {pair : Pair}

theorem makeCalls_enqueued (cs : List (Collective pair)) (r : Rank) (st : HostState (StreamId × Op)) :
    (makeCalls (pair.comm r).allReduce (cs.map fun col => col.call r) st).2.enqueued =
      st.enqueued ++ flatten (jobsFrom r st.epoch (movingCalls cs r)) := by
  induction cs generalizing st with
  | nil => simp [makeCalls, movingCalls, jobsFrom, flatten]
  | cons col cs ih =>
    by_cases hm : col.moves
    · have hsize := (col.moves_iff r).mp hm
      have hj : jobsFrom r st.epoch (movingCalls (col :: cs) r) = job r (st.epoch + 1) (col.call r) ::
          jobsFrom r (st.epoch + 1) (movingCalls cs r) := by simp [movingCalls, hm, jobsFrom]
      simp only [List.map_cons, makeCalls, ih, hj,
        D3D12AllReduce.allReduce_state (col.accepted r) hsize]
      simp [flatten, job, Pair.comm]
    · have hsize : (col.call r).tensor.sizeBytes = 0 := by
        simpa using mt (col.moves_iff r).mpr hm
      have hj : movingCalls (col :: cs) r = movingCalls cs r := by simp [movingCalls, hm]
      simp only [List.map_cons, makeCalls, ih, hj,
        D3D12AllReduce.allReduce_empty (col.accepted r) hsize]

/-- What a call returns: an empty tensor if there is nothing to move, else the output of its own
epoch, and that only if no step of it failed. -/
theorem makeCalls_result (cs : List (Collective pair)) (r : Rank) (st : HostState (StreamId × Op)) (i : ℕ)
    (ref : TensorRef)
    (h : (makeCalls (pair.comm r).allReduce (cs.map fun col => col.call r) st).1[i]? =
      some (.ok ref)) :
    ∃ col, cs[i]? = some col ∧ (col.moves = false ∧ ref = .empty ∨
      ∃ k, ref = .output (st.epoch + k + 1) ∧ (cs.filter Collective.moves)[k]? = some col ∧
        (col.call r).fault = none) := by
  induction cs generalizing st i with
  | nil => simp [makeCalls] at h
  | cons col cs ih =>
    by_cases hm : col.moves
    · have hsize := (col.moves_iff r).mp hm
      have hstate := D3D12AllReduce.allReduce_state (col.accepted r) hsize st
      cases i with
      | zero =>
        obtain ⟨rfl, hfault⟩ :=
          (D3D12AllReduce.allReduce_result (col.accepted r) hsize st ref).mp (by simpa [makeCalls] using h)
        exact ⟨col, rfl, .inr ⟨0, rfl, by simp [hm], hfault⟩⟩
      | succ i =>
        obtain ⟨col', hc, hcase⟩ := ih _ i (by simpa [makeCalls] using h)
        refine ⟨col', by simpa using hc, hcase.imp_right ?_⟩
        rintro ⟨k, rfl, hk, hfault⟩
        refine ⟨k + 1, ?_, by simpa [hm] using hk, hfault⟩
        rw [hstate, show st.epoch + (k + 1) + 1 = st.epoch + 1 + k + 1 by omega]
    · have hsize : (col.call r).tensor.sizeBytes = 0 := by
        simpa using mt (col.moves_iff r).mpr hm
      have hempty := D3D12AllReduce.allReduce_empty (col.accepted r) hsize st
      cases i with
      | zero =>
        refine ⟨col, rfl, .inl ⟨by simpa using hm, ?_⟩⟩
        simpa [makeCalls, hempty, eq_comm] using h
      | succ i =>
        obtain ⟨col', hc, hcase⟩ := ih st i (by simpa [makeCalls, hempty] using h)
        exact ⟨col', by simpa using hc, by simpa [hm] using hcase⟩

/-- A call returns if there is nothing to move or none of its steps fails. -/
theorem makeCalls_returns (cs : List (Collective pair)) (r : Rank) (st : HostState (StreamId × Op)) (i : ℕ)
    (col : Collective pair) (hcol : cs[i]? = some col)
    (hfault : col.moves = true → (col.call r).fault = none) :
    ∃ ref, (makeCalls (pair.comm r).allReduce (cs.map fun col => col.call r) st).1[i]? =
      some (.ok ref) := by
  induction cs generalizing st i with
  | nil => simp at hcol
  | cons col' cs ih =>
    cases i with
    | zero =>
      obtain rfl : col' = col := by simpa using hcol
      by_cases hm : col'.moves
      · refine ⟨.output (st.epoch + 1), ?_⟩
        simpa [makeCalls] using (D3D12AllReduce.allReduce_result (col'.accepted r)
          ((col'.moves_iff r).mp hm) st _).mpr ⟨rfl, hfault hm⟩
      · refine ⟨.empty, ?_⟩
        have hsize : (col'.call r).tensor.sizeBytes = 0 := by
          simpa using mt (col'.moves_iff r).mpr hm
        simp [makeCalls, D3D12AllReduce.allReduce_empty (col'.accepted r) hsize st]
    | succ i => simpa [makeCalls] using ih _ i (by simpa using hcol)

end

/-- The instructions of the two Python hosts, one per rank. -/
def program (pair : Pair) (cs : List (Collective pair)) (r : Rank) :
    List (Instr (Rank × StreamId) Op) :=
  enqueues r (hostRun pair cs r).2.enqueued

theorem program_eq (pair : Pair) (cs : List (Collective pair)) :
    program pair cs = fun r => enqueues r (flatten (jobs cs r)) := by
  funext r
  simp [program, hostRun, makeCalls_enqueued, jobs]

theorem program_realizes (pair : Pair) (cs : List (Collective pair)) :
    Realizes Prod.fst (program pair cs) (jobs cs) := by
  rw [program_eq]
  exact realizes_flatten _

theorem program_isEnqueue (pair : Pair) (cs : List (Collective pair)) :
    ∀ r, ∀ i ∈ program pair cs r, i.IsEnqueue :=
  fun r => enqueues_isEnqueue r _

/-- The two ranks' hosts and streams, from heaps with any contents. -/
def pythonSystem (addValues : AddValues) (pair : Pair) (cs : List (Collective pair))
    (heap : Rank → Bytes) :
    Transition.System (HostConfig Rank (Rank × StreamId) Op Mem) :=
  hostSystem (device addValues) (HostConfig.start (program pair cs) (.start heap))

end MultiGpuTransport.D3D12
