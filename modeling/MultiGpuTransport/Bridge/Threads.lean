import MultiGpuTransport.Bridge.StreamChange
import MultiGpuTransport.Lib.Runs

/-!
# Threads that share a bridge

Any number of threads call transfer and close. A transfer checks its argument and allocates its
destination without the lock, and takes its epoch and enqueues with it; close drains both devices and
closes the buffers with it. `Threads.Inv` says that what reaches the streams is what one thread would
put there that made the calls in the order in which they got through.
-/
namespace MultiGpuTransport.Bridge
open Streams Transition

inductive Request
  | transfer (call : Call NativeStep)
  | close

/-- Where close is once it has the lock. -/
inductive ClosePoint
  | syncSource
  | syncDestination
  | closeOpener
  | closeCreator
  | unlock
  deriving DecidableEq, Repr

/-- Where a thread is. A transfer that has the lock knows its place in the order, what it has still
to enqueue and what it is to return. -/
inductive Stage
  | idle
  | checked (call : Call NativeStep)
  | transferring (index : ℕ) (items : List Item) (result : Except PyError TensorRef)
  | toClose
  | closing (point : ClosePoint)

def Stage.items : Stage → List Item
  | .transferring _ items _ => items
  | _ => []

/-- The thread has the lock. -/
def Stage.Inside : Stage → Prop
  | .transferring _ _ _ | .closing _ => True
  | _ => False

/-- Why a transfer failed because of a close. -/
inductive Refusal
  | runtimeError (message : String)
  | attributeError (message : String)
  deriving DecidableEq, Repr

/-- What a call does before it takes the lock; it may be over then. -/
def D3D12TensorBridge.beforeLock (bridge : D3D12TensorBridge) (call : Call NativeStep) :
    Option (Except PyError TensorRef) :=
  let tensor := call.tensor
  if tensor.device ≠ bridge.sourceDevice then
    some (.error (.valueError (s!"tensor is on cuda:{tensor.device}, " ++
      s!"bridge source is cuda:{bridge.sourceDevice}")))
  else if tensor.sizeBytes > bridge.maxSizeBytes then
    some (.error (.valueError (s!"transfer payload {tensor.sizeBytes} exceeds " ++
      s!"WAVMG_D3D12_MAX_BYTES={bridge.maxSizeBytes}")))
  else
    match (perform nativeError call.fault [(NativeStep.emptyLike, ([] : List Item))]).1 with
    | .error error => some (.error error)
    | .ok () => if tensor.sizeBytes = 0 then some (.ok .empty) else none

/-- What it returns and enqueues with the lock, in its epoch. -/
def withLock (call : Call NativeStep) (epoch : ℕ) : Except PyError TensorRef × List Item :=
  let (result, items) := perform nativeError call.fault (nativeSteps epoch call.tensor call.stream)
  (result.map fun _ => .output epoch, items)

theorem D3D12TensorBridge.transfer_eq {bridge : D3D12TensorBridge}
    (hcreator : bridge.creatorOpen = true) (hopener : bridge.openerOpen = true)
    (call : Call NativeStep) (st : HostState Item) :
    bridge.transfer call st =
      match bridge.beforeLock call with
      | some result => (result, st)
      | none => ((withLock call (st.epoch + 1)).1,
          ⟨st.epoch + 1, st.enqueued ++ (withLock call (st.epoch + 1)).2⟩) := by
  simp only [transfer, beforeLock, hcreator, hopener, Bool.not_true, Bool.or_self,
    Bool.false_eq_true, if_false]
  split_ifs with hdevice hsize hempty
  · rfl
  · rfl
  all_goals
    cases (perform nativeError call.fault [(NativeStep.emptyLike, ([] : List Item))]).1 <;> rfl

/-- The threads and the bridge they share. The order lists the calls that found the bridge open,
each from where it was over or took the lock. -/
structure Threads (τ : Type) where
  requests : τ → List Request
  stage : τ → Stage
  holder : Option τ
  epoch : ℕ
  creatorOpen : Bool
  openerOpen : Bool
  queue : Side × StreamId → List Op
  mem : Mem
  order : List (Call NativeStep)
  results : ℕ → Option (Except PyError TensorRef)
  refused : List Refusal

namespace Threads
variable {τ : Type} [DecidableEq τ]

def start (requests : τ → List Request) (heap : Bytes) : Threads τ where
  requests := requests
  stage _ := .idle
  holder := none
  epoch := 0
  creatorOpen := true
  openerOpen := true
  queue _ := []
  mem := .start heap
  order := []
  results _ := none
  refused := []

def moveTo (t : Threads τ) (k : τ) (stage : Stage) : Threads τ :=
  { t with stage := Function.update t.stage k stage }

/-- The call is over, with this result. -/
def record (t : Threads τ) (call : Call NativeStep) (result : Except PyError TensorRef) :
    Threads τ :=
  { t with
    order := t.order ++ [call]
    results := Function.update t.results t.order.length (some result) }

/-- The first part of a request. -/
def begin (bridge : D3D12TensorBridge) (t : Threads τ) (k : τ) : Request → Threads τ
  | .close => if !t.creatorOpen && !t.openerOpen then t else t.moveTo k .toClose
  | .transfer call =>
    if !t.creatorOpen || !t.openerOpen then
      { t with refused := t.refused ++ [.runtimeError "D3D12 tensor bridge is closed"] }
    else
      match bridge.beforeLock call with
      | some result => t.record call result
      | none => t.moveTo k (.checked call)

/-- A transfer that has taken the lock. A bridge closed in the meantime has no creator any more. -/
def lockTransfer (t : Threads τ) (k : τ) (call : Call NativeStep) : Threads τ :=
  if t.creatorOpen then
    let (result, items) := withLock call (t.epoch + 1)
    { t with
      stage := Function.update t.stage k (.transferring t.order.length items result)
      holder := some k
      epoch := t.epoch + 1
      order := t.order ++ [call] }
  else
    { t.moveTo k .idle with
      epoch := t.epoch + 1
      refused := t.refused ++
        [.attributeError "'NoneType' object has no attribute 'device_pointer'"] }

def unlock (t : Threads τ) (k : τ) : Threads τ := { t.moveTo k .idle with holder := none }

/-- The next step of a close that has the lock. -/
def closeStep (t : Threads τ) (k : τ) : ClosePoint → Threads τ
  | .syncSource => t.moveTo k (.closing .syncDestination)
  | .syncDestination => t.moveTo k (.closing .closeOpener)
  | .closeOpener => { t.moveTo k (.closing .closeCreator) with openerOpen := false }
  | .closeCreator => { t.moveTo k (.closing .unlock) with creatorOpen := false }
  | .unlock => t.unlock k

/-- The next step of thread k, if it has one. -/
def act (bridge : D3D12TensorBridge) (t : Threads τ) (k : τ) : Option (Threads τ) :=
  match t.stage k with
  | .idle =>
    match t.requests k with
    | [] => none
    | request :: rest =>
      some ({ t with requests := Function.update t.requests k rest }.begin bridge k request)
  | .checked call => if t.holder.isSome then none else some (t.lockTransfer k call)
  | .transferring index (item :: items) result =>
    some { t.moveTo k (.transferring index items result) with
      queue := Function.update t.queue item.1 (t.queue item.1 ++ [item.2]) }
  | .transferring index [] result =>
    some { t.unlock k with results := Function.update t.results index (some result) }
  | .toClose =>
    if t.holder.isSome then none
    else some { t.moveTo k (.closing .syncSource) with holder := some k }
  | .closing point => some (t.closeStep k point)

/-- No stream of the device has anything left. -/
def Quiet (t : Threads τ) (side : Side) : Prop := ∀ s, t.queue (side, s) = []

/-- Synchronizing waits for the device. -/
def Ready (t : Threads τ) : Stage → Prop
  | .closing .syncSource => t.Quiet .creator
  | .closing .syncDestination => t.Quiet .opener
  | _ => True

inductive Step (bridge : D3D12TensorBridge) : Threads τ → Threads τ → Prop
  | act {t t' : Threads τ} {k : τ} (hr : t.Ready (t.stage k)) (ha : t.act bridge k = some t') :
      Step bridge t t'
  | execute {t : Threads τ} {s : Side × StreamId} {op : Op} {rest : List Op}
      (hq : t.queue s = op :: rest) (hr : op.ready t.mem) :
      Step bridge t { t with queue := Function.update t.queue s rest, mem := op.run t.mem }

def threads (bridge : D3D12TensorBridge) (requests : τ → List Request) (heap : Bytes) :
    System (Threads τ) where
  init t := t = start requests heap
  step := Step bridge

/-- What a thread can do, by where it is. -/
inductive Acts (bridge : D3D12TensorBridge) (t : Threads τ) (k : τ) : Threads τ → Prop
  | begin {request : Request} {rest : List Request} (hk : t.stage k = .idle)
      (hrequests : t.requests k = request :: rest) :
      Acts bridge t k ({ t with requests := Function.update t.requests k rest }.begin bridge k request)
  | lockTransfer {call : Call NativeStep} (hk : t.stage k = .checked call) (hfree : t.holder = none) :
      Acts bridge t k (t.lockTransfer k call)
  | enqueue {index : ℕ} {item : Item} {items : List Item} {result : Except PyError TensorRef}
      (hk : t.stage k = .transferring index (item :: items) result) :
      Acts bridge t k { t.moveTo k (.transferring index items result) with
        queue := Function.update t.queue item.1 (t.queue item.1 ++ [item.2]) }
  | finish {index : ℕ} {result : Except PyError TensorRef}
      (hk : t.stage k = .transferring index [] result) :
      Acts bridge t k { t.unlock k with results := Function.update t.results index (some result) }
  | lockClose (hk : t.stage k = .toClose) (hfree : t.holder = none) :
      Acts bridge t k { t.moveTo k (.closing .syncSource) with holder := some k }
  | closeStep {point : ClosePoint} (hk : t.stage k = .closing point) :
      Acts bridge t k (t.closeStep k point)

theorem acts_of_act {bridge : D3D12TensorBridge} {t t' : Threads τ} {k : τ}
    (ha : t.act bridge k = some t') : Acts bridge t k t' := by
  unfold Threads.act at ha
  cases hk : t.stage k with
  | idle =>
    cases hrequests : t.requests k with
    | nil => simp [hk, hrequests] at ha
    | cons request rest =>
      simp only [hk, hrequests, Option.some.injEq] at ha
      exact ha ▸ .begin hk hrequests
  | checked call =>
    simp only [hk] at ha
    split_ifs at ha with hfree
    cases ha
    exact .lockTransfer hk (Option.not_isSome_iff_eq_none.mp hfree)
  | transferring index items result =>
    cases items with
    | nil =>
      simp only [hk, Option.some.injEq] at ha
      exact ha ▸ .finish hk
    | cons item items =>
      simp only [hk, Option.some.injEq] at ha
      exact ha ▸ .enqueue hk
  | toClose =>
    simp only [hk] at ha
    split_ifs at ha with hfree
    cases ha
    exact .lockClose hk (Option.not_isSome_iff_eq_none.mp hfree)
  | closing point =>
    simp only [hk, Option.some.injEq] at ha
    exact ha ▸ .closeStep hk

/-! ### One thread after the other -/

/-- Where the holder of the lock is. -/
def current (t : Threads τ) : Stage := t.holder.elim .idle t.stage

/-- The state of a single host that makes the calls in their order. -/
def sequential (t : Threads τ) : HostConfig Unit (Side × StreamId) Op Mem :=
  ⟨fun _ => t.current.items.map fun e => .enqueue e.1 e.2, t.queue, t.mem⟩

/-- One thread at most is inside, and who waits for the lock is past its checks. -/
structure Locked (bridge : D3D12TensorBridge) (t : Threads τ) : Prop where
  holder_iff : ∀ k, (t.stage k).Inside ↔ t.holder = some k
  checked : ∀ k call, t.stage k = .checked call → bridge.beforeLock call = none

/-- What the threads have done to the bridge is what a single host would have done. -/
structure Serial (bridge : D3D12TensorBridge) (heap : Bytes) (t : Threads τ) : Prop where
  reachable : (system bridge t.order heap).Reachable t.sequential
  epoch : t.creatorOpen = true → t.epoch = (hostRun bridge t.order).2.epoch
  results : ∀ i r, t.results i = some r → (hostRun bridge t.order).1[i]? = some r
  transferring : ∀ i items r, t.current = .transferring i items r →
    (hostRun bridge t.order).1[i]? = some r

/-- The buffers go one after the other, once nothing uses them any more. -/
structure Closes (t : Threads τ) : Prop where
  openerFirst : t.creatorOpen = false → t.openerOpen = false
  openerClosed : t.current = .closing .closeCreator → t.openerOpen = false
  bothOpen : t.creatorOpen = true → t.current ≠ .closing .closeCreator → t.openerOpen = true
  closed : t.openerOpen = false → t.current.items = [] ∧ ∀ s, t.queue s = []
  sourceDrained : t.current = .closing .syncDestination → t.Quiet .creator
  drained : t.current = .closing .closeOpener → ∀ s, t.queue s = []

structure Inv (bridge : D3D12TensorBridge) (heap : Bytes) (t : Threads τ) : Prop where
  locked : Locked bridge t
  serial : Serial bridge heap t
  closes : Closes t

variable {bridge : D3D12TensorBridge} {heap : Bytes} {t t' : Threads τ} {k : τ}

omit [DecidableEq τ] in
theorem Inv.start (requests : τ → List Request) (heap : Bytes) :
    Inv bridge heap (start requests heap) := by
  refine ⟨⟨fun k => ?_, ?_⟩, ⟨.init rfl, fun _ => rfl, ?_, ?_⟩, ?_⟩
  · simp [Threads.start, Stage.Inside]
  · simp [Threads.start]
  · simp [Threads.start]
  · simp [Threads.start, current]
  · constructor <;> simp [Threads.start, current]

/-- Who moves outside changes nothing that is shared. -/
theorem Locked.current_moveTo (h : Locked bridge t) (hk : ¬ (t.stage k).Inside) (stage : Stage) :
    (t.moveTo k stage).current = t.current := by
  cases hh : t.holder with
  | none => simp [current, moveTo, hh]
  | some g =>
    have hne : g ≠ k := by
      rintro rfl
      exact hk ((h.holder_iff g).mpr hh)
    simp [current, moveTo, hh, hne]

theorem Locked.moveTo (h : Locked bridge t) (hk : ¬ (t.stage k).Inside) (stage : Stage)
    (hstage : ¬ stage.Inside) (hcall : ∀ call, stage = .checked call → bridge.beforeLock call = none) :
    Locked bridge (t.moveTo k stage) := by
  refine ⟨fun g => ?_, fun g call hg => ?_⟩
  · by_cases hgk : g = k
    · subst hgk
      simpa [Threads.moveTo, hstage] using mt (h.holder_iff g).mpr hk
    · simpa [Threads.moveTo, hgk] using h.holder_iff g
  · by_cases hgk : g = k
    · subst hgk
      exact hcall call (by simpa [Threads.moveTo] using hg)
    · exact h.checked g call (by simpa [Threads.moveTo, hgk] using hg)

/-- The holder of the lock, or who takes it, moves on, and keeps the lock as long as it is inside. -/
theorem Locked.moveInside (h : Locked bridge t) (hk : ∀ g, t.holder = some g → g = k)
    (t' : Threads τ) (stage : Stage) (hstage : ∀ call, stage ≠ .checked call) (hnew : t'.stage =
      Function.update t.stage k stage)
    (hholder : stage.Inside ∧ t'.holder = some k ∨ ¬ stage.Inside ∧ t'.holder = none) :
    Locked bridge t' ∧ t'.current = if t'.holder = none then .idle else stage := by
  have hother : ∀ g, g ≠ k → ¬ (t.stage g).Inside := fun g hg hin =>
    hg (hk g ((h.holder_iff g).mp hin))
  refine ⟨⟨fun g => ?_, fun g call hg => ?_⟩, ?_⟩
  · by_cases hgk : g = k
    · subst hgk
      rcases hholder with ⟨hin, hholder⟩ | ⟨hin, hholder⟩ <;> simp [hnew, hin, hholder]
    · rcases hholder with ⟨hin, hholder⟩ | ⟨hin, hholder⟩ <;>
        simp [hnew, hholder, hgk, Ne.symm hgk, hother]
  · by_cases hgk : g = k
    · subst hgk
      exact absurd (by simpa [hnew] using hg) (hstage call)
    · exact h.checked g call (by simpa [hnew, hgk] using hg)
  · rcases hholder with ⟨-, hholder⟩ | ⟨-, hholder⟩ <;> simp [current, hholder, hnew]

omit [DecidableEq τ] in
/-- Nothing shared changes but for the flags, which a close clears. -/
theorem Serial.frame (h : Serial bridge heap t) (horder : t'.order = t.order)
    (hresults : t'.results = t.results) (hitems : t'.current.items = t.current.items)
    (hcurrent : ∀ i items r, t'.current = .transferring i items r → t'.current = t.current)
    (hqueue : t'.queue = t.queue) (hmem : t'.mem = t.mem)
    (hepoch : t'.creatorOpen = true → t.creatorOpen = true ∧ t'.epoch = t.epoch) :
    Serial bridge heap t' := by
  refine ⟨?_, fun hopen => ?_, ?_, fun i items r hk => ?_⟩
  · rw [horder, sequential, hitems, hqueue, hmem]
    exact h.reachable
  · rw [(hepoch hopen).2, horder]
    exact h.epoch (hepoch hopen).1
  · rw [hresults, horder]
    exact h.results
  · rw [horder]
    exact h.transferring i items r (hcurrent i items r hk ▸ hk)

/-- The calls in order, and one more. -/
theorem hostRun_concat (order : List (Call NativeStep)) (call : Call NativeStep) :
    hostRun bridge (order ++ [call]) =
      ((hostRun bridge order).1 ++ [(bridge.transfer call (hostRun bridge order).2).1],
        (bridge.transfer call (hostRun bridge order).2).2) :=
  makeCalls_concat ..

theorem results_concat {order : List (Call NativeStep)} (call : Call NativeStep) {i : ℕ}
    {r : Except PyError TensorRef} (h : (hostRun bridge order).1[i]? = some r) :
    (hostRun bridge (order ++ [call])).1[i]? = some r := by
  rw [hostRun_concat, List.getElem?_append_left (List.getElem?_eq_some_iff.mp h).1]
  exact h

theorem result_last (order : List (Call NativeStep)) (call : Call NativeStep) :
    (hostRun bridge (order ++ [call])).1[order.length]? =
      some (bridge.transfer call (hostRun bridge order).2).1 := by
  have hlength : (hostRun bridge order).1.length = order.length := length_makeCalls ..
  simp [hostRun_concat, ← hlength]

/-- One more call adds its items to what the host has to do. -/
theorem reachable_concat {order : List (Call NativeStep)} (call : Call NativeStep)
    {items : List Item} (new : List Item) {queue : Side × StreamId → List Op} {m : Mem}
    (hnew : (bridge.transfer call (hostRun bridge order).2).2.enqueued =
      (hostRun bridge order).2.enqueued ++ new)
    (hc : (system bridge order heap).Reachable
      ⟨fun _ => items.map fun e => .enqueue e.1 e.2, queue, m⟩) :
    (system bridge (order ++ [call]) heap).Reachable
      ⟨fun _ => (items ++ new).map fun e => .enqueue e.1 e.2, queue, m⟩ := by
  have hprogram : program bridge (order ++ [call]) =
      program bridge order ++ new.map fun e => .enqueue e.1 e.2 := by
    simp [program, hostRun_concat, hnew]
  have hext := reachable_extend (fun _ => new.map fun e => .enqueue e.1 e.2) hc
  simpa [system, hprogram] using hext

omit [DecidableEq τ] in
/-- A call that is over before the lock. -/
theorem Serial.record (h : Serial bridge heap t) (hcreator : bridge.creatorOpen = true)
    (hopener : bridge.openerOpen = true) {call : Call NativeStep}
    {result : Except PyError TensorRef} (hover : bridge.beforeLock call = some result) :
    Serial bridge heap (t.record call result) := by
  have htransfer : bridge.transfer call (hostRun bridge t.order).2 =
      (result, (hostRun bridge t.order).2) := by
    rw [D3D12TensorBridge.transfer_eq hcreator hopener, hover]
  have hreach := reachable_concat call [] (by simp [htransfer]) h.reachable
  rw [List.append_nil] at hreach
  have horder : (t.record call result).order = t.order ++ [call] := rfl
  refine ⟨hreach, fun hopen => ?_, fun i r hi => ?_,
    fun i items r hk => results_concat call (h.transferring i items r hk)⟩
  · rw [horder, hostRun_concat, htransfer]
    exact h.epoch hopen
  · by_cases hlast : i = t.order.length
    · subst hlast
      simp only [Threads.record, Function.update_self, Option.some.injEq] at hi
      rw [horder, result_last, htransfer, hi]
    · exact results_concat call (h.results i r (by simpa [Threads.record, hlast] using hi))

omit [DecidableEq τ] in
/-- A transfer that takes the free lock of an open bridge. -/
theorem Serial.lock (h : Serial bridge heap t) (hopen : t.creatorOpen = true)
    (hcreator : bridge.creatorOpen = true) (hopener : bridge.openerOpen = true)
    {call : Call NativeStep} (hover : bridge.beforeLock call = none) (hfree : t.current = .idle)
    (hcurrent : t'.current = .transferring t.order.length (withLock call (t.epoch + 1)).2
      (withLock call (t.epoch + 1)).1)
    (horder : t'.order = t.order ++ [call]) (hepoch : t'.epoch = t.epoch + 1)
    (hresults : t'.results = t.results) (hqueue : t'.queue = t.queue) (hmem : t'.mem = t.mem) :
    Serial bridge heap t' := by
  have htransfer : bridge.transfer call (hostRun bridge t.order).2 =
      ((withLock call (t.epoch + 1)).1, ⟨t.epoch + 1,
        (hostRun bridge t.order).2.enqueued ++ (withLock call (t.epoch + 1)).2⟩) := by
    rw [D3D12TensorBridge.transfer_eq hcreator hopener, hover, h.epoch hopen]
  have hreach := reachable_concat call _ (by rw [htransfer]) h.reachable
  rw [hfree, show Stage.idle.items = [] from rfl, List.nil_append] at hreach
  refine ⟨?_, fun _ => ?_, fun i r hi => ?_, fun i items r hk => ?_⟩
  · rw [horder, sequential, hcurrent, hqueue, hmem]
    exact hreach
  · rw [horder, hostRun_concat, htransfer, hepoch]
  · rw [hresults] at hi
    exact horder ▸ results_concat call (h.results i r hi)
  · obtain ⟨rfl, rfl, rfl⟩ := Stage.transferring.inj (hcurrent.symm.trans hk)
    rw [horder, result_last, htransfer]

omit [DecidableEq τ] in
/-- Nothing depends on what threads are still to ask for or were refused. -/
theorem Inv.bookkeeping (inv : Inv bridge heap t) (requests : τ → List Request)
    (refused : List Refusal) : Inv bridge heap { t with requests, refused } :=
  ⟨⟨inv.locked.1, inv.locked.2⟩, inv.serial.frame rfl rfl rfl (fun _ _ _ _ => rfl) rfl rfl
    fun hopen => ⟨hopen, rfl⟩, ⟨inv.closes.1, inv.closes.2, inv.closes.3, inv.closes.4,
      inv.closes.5, inv.closes.6⟩⟩

theorem Inv.begin (inv : Inv bridge heap t) (hcreator : bridge.creatorOpen = true)
    (hopener : bridge.openerOpen = true) (hk : t.stage k = .idle) (request : Request) :
    Inv bridge heap (t.begin bridge k request) := by
  have hout : ¬ (t.stage k).Inside := by simp [hk, Stage.Inside]
  have hmove : ∀ stage : Stage, ¬ stage.Inside →
      (∀ call, stage = .checked call → bridge.beforeLock call = none) →
        Inv bridge heap (t.moveTo k stage) := by
    intro stage hstage hcall
    have hcurrent := inv.locked.current_moveTo hout stage
    refine ⟨inv.locked.moveTo hout stage hstage hcall, inv.serial.frame rfl rfl (by rw [hcurrent])
      (fun _ _ _ _ => hcurrent) rfl rfl fun hopen => ⟨hopen, rfl⟩, ?_⟩
    obtain ⟨hfirst, hopener, hboth, hclosed, hsource, hdrained⟩ := inv.closes
    rw [← hcurrent] at hopener hboth hclosed hsource hdrained
    exact ⟨hfirst, hopener, hboth, hclosed, hsource, hdrained⟩
  cases request with
  | close =>
    simp only [Threads.begin]
    split_ifs
    · exact inv
    · exact hmove .toClose (by simp [Stage.Inside]) (by simp)
  | transfer call =>
    simp only [Threads.begin]
    split_ifs
    · exact inv.bookkeeping t.requests _
    · cases hover : bridge.beforeLock call with
      | some result =>
        exact ⟨⟨inv.locked.1, inv.locked.2⟩, inv.serial.record hcreator hopener hover,
          ⟨inv.closes.1, inv.closes.2, inv.closes.3, inv.closes.4, inv.closes.5, inv.closes.6⟩⟩
      | none =>
        refine hmove (.checked call) (by simp [Stage.Inside]) ?_
        rintro _ ⟨rfl⟩
        exact hover

theorem Inv.lockTransfer (inv : Inv bridge heap t) (hcreator : bridge.creatorOpen = true)
    (hopener : bridge.openerOpen = true) {call : Call NativeStep} (hk : t.stage k = .checked call)
    (hfree : t.holder = none) : Inv bridge heap (t.lockTransfer k call) := by
  have hout : ¬ (t.stage k).Inside := by simp [hk, Stage.Inside]
  have hidle : t.current = .idle := by simp [current, hfree]
  by_cases hopen : t.creatorOpen = true
  · have hlock : t.lockTransfer k call = { t with
        stage := Function.update t.stage k (.transferring t.order.length
          (withLock call (t.epoch + 1)).2 (withLock call (t.epoch + 1)).1)
        holder := some k
        epoch := t.epoch + 1
        order := t.order ++ [call] } := by
      simp [Threads.lockTransfer, hopen]
    obtain ⟨hlocked, hcurrent⟩ := inv.locked.moveInside (k := k) (by simp [hfree])
      (t.lockTransfer k call) (.transferring t.order.length (withLock call (t.epoch + 1)).2
        (withLock call (t.epoch + 1)).1) (by simp) (by rw [hlock]) (.inl ⟨trivial, by rw [hlock]⟩)
    rw [if_neg (by simp [hlock])] at hcurrent
    have hboth := inv.closes.bothOpen hopen (by simp [hidle])
    refine ⟨hlocked, inv.serial.lock hopen hcreator hopener (inv.locked.checked k call hk) hidle
      hcurrent (by rw [hlock]) (by rw [hlock]) (by rw [hlock]) (by rw [hlock]) (by rw [hlock]), ?_⟩
    constructor <;> simp [hlock, hopen, hboth, current]
  · have hlock : t.lockTransfer k call = { t.moveTo k .idle with
        epoch := t.epoch + 1
        refused := t.refused ++
          [.attributeError "'NoneType' object has no attribute 'device_pointer'"] } := by
      simp [Threads.lockTransfer, hopen]
    have hmoved := inv.locked.moveTo hout .idle (by simp [Stage.Inside]) (by simp)
    have hcurrent := inv.locked.current_moveTo hout .idle
    obtain ⟨hfirst, hopened, hboth, hclosed, hsource, hdrained⟩ := inv.closes
    rw [← hcurrent] at hopened hboth hclosed hsource hdrained
    rw [hlock]
    exact ⟨⟨hmoved.1, hmoved.2⟩, inv.serial.frame rfl rfl (congrArg Stage.items hcurrent)
      (fun _ _ _ _ => hcurrent) rfl rfl fun hopen' => absurd hopen' hopen,
      ⟨hfirst, hopened, hboth, hclosed, hsource, hdrained⟩⟩

/-- The holder of the lock enqueues the next operation. -/
theorem Inv.enqueue (inv : Inv bridge heap t) {index : ℕ} {item : Item} {items : List Item}
    {result : Except PyError TensorRef} (hk : t.stage k = .transferring index (item :: items) result) :
    Inv bridge heap { t.moveTo k (.transferring index items result) with
      queue := Function.update t.queue item.1 (t.queue item.1 ++ [item.2]) } := by
  have hholder : t.holder = some k := (inv.locked.holder_iff k).mp (by simp [hk, Stage.Inside])
  have hold : t.current = .transferring index (item :: items) result := by simp [current, hholder, hk]
  have hopen : t.openerOpen = true := by
    by_contra hclosed
    have hnone := (inv.closes.closed (Bool.eq_false_of_not_eq_true hclosed)).1
    simp [hold, Stage.items] at hnone
  have hcreator : t.creatorOpen = true := by
    by_contra hclosed
    exact absurd (inv.closes.openerFirst (Bool.eq_false_of_not_eq_true hclosed)) (by simp [hopen])
  obtain ⟨hlocked, hcurrent⟩ := inv.locked.moveInside (k := k) (by simp [hholder])
    { t.moveTo k (.transferring index items result) with
      queue := Function.update t.queue item.1 (t.queue item.1 ++ [item.2]) }
    (.transferring index items result) (by simp) rfl (.inl ⟨trivial, hholder⟩)
  rw [if_neg (by simp [Threads.moveTo, hholder])] at hcurrent
  refine ⟨hlocked, ⟨?_, inv.serial.epoch, inv.serial.results, fun i is r hi => ?_⟩, ?_⟩
  · have hpending : t.sequential.pending () =
        .enqueue item.1 item.2 :: items.map fun e => .enqueue e.1 e.2 := by
      simp [sequential, hold, Stage.items]
    have hstep : HostStep device t.sequential _ := .enqueue hpending
    have hreach := System.Reachable.step inv.serial.reachable hstep
    rw [show Function.update t.sequential.pending () _ = fun _ => _ from
      funext fun _ => Function.update_self ..] at hreach
    rw [sequential, hcurrent]
    exact hreach
  · obtain ⟨rfl, rfl, rfl⟩ := Stage.transferring.inj (hcurrent.symm.trans hi)
    exact inv.serial.transferring _ _ _ hold
  · constructor <;> simp [Threads.moveTo, hopen, hcreator, current, hholder]

theorem Inv.finish (inv : Inv bridge heap t) {index : ℕ} {result : Except PyError TensorRef}
    (hk : t.stage k = .transferring index [] result) :
    Inv bridge heap { t.unlock k with results := Function.update t.results index (some result) } := by
  have hholder : t.holder = some k := (inv.locked.holder_iff k).mp (by simp [hk, Stage.Inside])
  have hold : t.current = .transferring index [] result := by simp [current, hholder, hk]
  obtain ⟨hlocked, hcurrent⟩ := inv.locked.moveInside (k := k) (by simp [hholder])
    { t.unlock k with results := Function.update t.results index (some result) } .idle (by simp) rfl
    (.inr ⟨by simp [Stage.Inside], rfl⟩)
  rw [ite_self] at hcurrent
  refine ⟨hlocked, ⟨?_, inv.serial.epoch, fun i r hi => ?_, fun i is r hi => ?_⟩,
    ⟨inv.closes.openerFirst, ?_, fun hopen _ => inv.closes.bothOpen hopen (by simp [hold]),
      fun hc => ⟨?_, (inv.closes.closed hc).2⟩, ?_, ?_⟩⟩
  · have hreach := inv.serial.reachable
    rw [sequential, hold] at hreach
    rw [sequential, hcurrent]
    exact hreach
  · by_cases hindex : i = index
    · subst hindex
      simp only [Function.update_self, Option.some.injEq] at hi
      exact hi ▸ inv.serial.transferring i [] result hold
    · exact inv.serial.results i r (by simpa [hindex, unlock, Threads.moveTo] using hi)
  · simp [hcurrent] at hi
  · simp [hcurrent]
  · rw [hcurrent]
    rfl
  · simp [hcurrent]
  · simp [hcurrent]

theorem Inv.lockClose (inv : Inv bridge heap t) (hfree : t.holder = none) :
    Inv bridge heap { t.moveTo k (.closing .syncSource) with holder := some k } := by
  have hidle : t.current = .idle := by simp [current, hfree]
  obtain ⟨hlocked, hcurrent⟩ := inv.locked.moveInside (k := k) (by simp [hfree])
    { t.moveTo k (.closing .syncSource) with holder := some k } (.closing .syncSource) (by simp) rfl
    (.inl ⟨trivial, rfl⟩)
  rw [if_neg (by simp)] at hcurrent
  refine ⟨hlocked, inv.serial.frame rfl rfl (by rw [hcurrent, hidle]; rfl)
    (fun i is r hi => by simp [hcurrent] at hi) rfl rfl fun hopen => ⟨hopen, rfl⟩,
    ⟨inv.closes.openerFirst, by simp [hcurrent],
      fun hopen _ => inv.closes.bothOpen hopen (by simp [hidle]),
      fun hc => ⟨by rw [hcurrent]; rfl, (inv.closes.closed hc).2⟩,
      by simp [hcurrent], by simp [hcurrent]⟩⟩

/-- Where a close is after its next step. -/
def ClosePoint.next : ClosePoint → Stage
  | .syncSource => .closing .syncDestination
  | .syncDestination => .closing .closeOpener
  | .closeOpener => .closing .closeCreator
  | .closeCreator => .closing .unlock
  | .unlock => .idle

/-- A close goes on: what it drains stays so, since nobody else has the lock. -/
theorem Inv.closeStep (inv : Inv bridge heap t) {point : ClosePoint}
    (hk : t.stage k = .closing point) (hr : t.Ready (t.stage k)) :
    Inv bridge heap (t.closeStep k point) := by
  have hholder : t.holder = some k := (inv.locked.holder_iff k).mp (by simp [hk, Stage.Inside])
  have hold : t.current = .closing point := by simp [current, hholder, hk]
  obtain ⟨hlocked, hcurrent⟩ := inv.locked.moveInside (k := k) (by simp [hholder])
    (t.closeStep k point) (ClosePoint.next point)
    (by cases point <;> simp [ClosePoint.next]) (by cases point <;> rfl) (by
      cases point <;> simp [ClosePoint.next, Stage.Inside, Threads.closeStep, Threads.moveTo,
        unlock, hholder])
  have hnext : (t.closeStep k point).current = ClosePoint.next point := by
    rw [hcurrent]
    cases point <;> simp [ClosePoint.next, Threads.closeStep, Threads.moveTo, unlock, hholder]
  have hitems : (t.closeStep k point).current.items = [] := by
    rw [hnext]
    cases point <;> rfl
  refine ⟨hlocked, inv.serial.frame (by cases point <;> rfl) (by cases point <;> rfl)
    (by rw [hitems, hold]; rfl) (fun i is r hi => ?_) (by cases point <;> rfl)
    (by cases point <;> rfl) (by cases point <;> simp [Threads.closeStep, Threads.moveTo, unlock]), ?_⟩
  · rw [hnext] at hi
    cases point <;> simp [ClosePoint.next] at hi
  · obtain ⟨hfirst, hopener, hboth, hclosed, hsource, hdrained⟩ := inv.closes
    rw [hold] at hopener hboth hsource hdrained
    rw [hk] at hr
    cases point with
    | syncSource =>
      exact ⟨hfirst, by simp [hnext, ClosePoint.next], fun hopen _ => hboth hopen (by simp),
        fun hc => ⟨hitems, (hclosed hc).2⟩, fun _ => hr, by simp [hnext, ClosePoint.next]⟩
    | syncDestination =>
      refine ⟨hfirst, by simp [hnext, ClosePoint.next], fun hopen _ => hboth hopen (by simp),
        fun hc => ⟨hitems, (hclosed hc).2⟩, by simp [hnext, ClosePoint.next], fun _ => ?_⟩
      rintro ⟨side, s⟩
      cases side with
      | creator => exact hsource rfl s
      | opener => exact hr s
    | closeOpener =>
      exact ⟨fun _ => rfl, fun _ => rfl, fun _ hne => absurd hnext hne,
        fun _ => ⟨hitems, hdrained rfl⟩, by simp [hnext, ClosePoint.next],
        by simp [hnext, ClosePoint.next]⟩
    | closeCreator =>
      exact ⟨fun _ => hopener rfl, by simp [hnext, ClosePoint.next],
        by simp [Threads.closeStep], fun hc => ⟨hitems, (hclosed hc).2⟩,
        by simp [hnext, ClosePoint.next], by simp [hnext, ClosePoint.next]⟩
    | unlock =>
      exact ⟨hfirst, by simp [hnext, ClosePoint.next], fun hopen _ => hboth hopen (by simp),
        fun hc => ⟨hitems, (hclosed hc).2⟩, by simp [hnext, ClosePoint.next],
        by simp [hnext, ClosePoint.next]⟩

omit [DecidableEq τ] in
/-- Streams run what is queued, which a close that waits for them cannot make worse. -/
theorem Inv.execute (inv : Inv bridge heap t) {s : Side × StreamId} {op : Op} {rest : List Op}
    (hq : t.queue s = op :: rest) (hr : op.ready t.mem) :
    Inv bridge heap { t with queue := Function.update t.queue s rest, mem := op.run t.mem } := by
  have hempty : ∀ s', t.queue s' = [] → Function.update t.queue s rest s' = [] := by
    intro s' hs'
    have hne : s' ≠ s := by
      rintro rfl
      simp [hs'] at hq
    simpa [hne] using hs'
  refine ⟨⟨inv.locked.1, inv.locked.2⟩, ⟨?_, inv.serial.epoch, inv.serial.results,
    inv.serial.transferring⟩, ⟨inv.closes.openerFirst, inv.closes.openerClosed, inv.closes.bothOpen,
      fun hc => ⟨(inv.closes.closed hc).1, fun s' => hempty s' ((inv.closes.closed hc).2 s')⟩,
      fun hc s' => hempty _ (inv.closes.sourceDrained hc s'),
      fun hc s' => hempty _ (inv.closes.drained hc s')⟩⟩
  exact .step inv.serial.reachable (.execute (c := t.sequential) hq hr)

theorem Inv.step (inv : Inv bridge heap t) (hcreator : bridge.creatorOpen = true)
    (hopener : bridge.openerOpen = true) (hst : Step bridge t t') : Inv bridge heap t' := by
  cases hst with
  | execute hq hr => exact inv.execute hq hr
  | act hr ha =>
    cases acts_of_act ha with
    | begin hk =>
      refine Inv.begin (inv.bookkeeping _ _) hcreator hopener ?_ _
      exact hk
    | lockTransfer hk hfree => exact inv.lockTransfer hcreator hopener hk hfree
    | enqueue hk => exact inv.enqueue hk
    | finish hk => exact inv.finish hk
    | lockClose _ hfree => exact inv.lockClose hfree
    | closeStep hk => exact inv.closeStep hk hr

theorem reachable_inv {requests : τ → List Request} (hcreator : bridge.creatorOpen = true)
    (hopener : bridge.openerOpen = true) (ht : (threads bridge requests heap).Reachable t) :
    Inv bridge heap t := by
  refine System.Reachable.invariant ?_ (fun _ _ _ inv hst => inv.step hcreator hopener hst) ht
  rintro _ rfl
  exact .start requests heap

end Threads
end MultiGpuTransport.Bridge
