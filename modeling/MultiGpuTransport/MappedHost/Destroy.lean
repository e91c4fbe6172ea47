import MultiGpuTransport.Lib.Teardown
import MultiGpuTransport.MappedHost.SharedCalls

/-!
# SharedMemoryAllReduce.destroy

The constructor ends with a crossing of the events' barrier, and the calls come after it. In the end
each rank waits for its device, crosses the barrier once more, and then unregisters and closes the
mapping. The barrier gives up after a while, and the mapping goes all the same: what a rank releases
then is no longer used by its own streams, but its peer may still be at work.
-/
namespace MultiGpuTransport.MappedHost
open Streams Transition

/-- What a communicator holds of the shared mapping. -/
inductive Held
  | barrierHandles
  | registration
  | slots
  | mapping
  | mappingName
  deriving DecidableEq, Repr

/-- The rank that created the mapping unlinks its name. -/
def SharedMemoryAllReduce.ownsMapping (comm : SharedMemoryAllReduce) : Bool := comm.rank = .zero

/-- What is released, in order. -/
def SharedMemoryAllReduce.held (comm : SharedMemoryAllReduce) : List Held :=
  [.barrierHandles, .registration, .slots, .mapping] ++
    if comm.ownsMapping then [.mappingName] else []

/-- The steps of a communicator that still has its mapping. The two in the middle are one wait at
the barrier. -/
def SharedMemoryAllReduce.destroy (comm : SharedMemoryAllReduce) : List (Shutdown Held) :=
  .synchronize :: .arrive :: .pass :: comm.held.map .release

/-- The events as a barrier. With timeouts a rank may go on whether its peer has set its event or
not; without, only when it has. -/
def pairBarrier (timeouts : Bool) : Barrier Rank Mem where
  arrive r m := { m with events := (EventOp.set r).run m.events }
  ready r _ m := timeouts = true ∨ (EventOp.wait r.peer).ready m.events
  pass r m := { m with events := (EventOp.wait r.peer).run m.events }

/-- The wait at the end of __init__; where it raises, there is no communicator. -/
def SharedMemoryAllReduce.initWait (comm : SharedMemoryAllReduce) : List HostInstr :=
  (Win32PairBarrier.wait comm.rank).map fun op => .call (comm.rank, 0) false (.event op)

section
variable (addValues : AddValues) (pair : Pair) (timeouts : Bool)

/-- What the host of a rank does until it calls destroy. -/
def lifetime (calls : Rank → List (Call NativeStep)) (r : Rank) : List HostInstr :=
  (pair.comm r).initWait ++ program pair calls r

/-- The two ranks, each of which calls destroy after its last call. -/
def destroySystem (calls : Rank → List (Call NativeStep)) (slot localOutput : Rank → Bytes) :
    System (Closing Rank (Rank × StreamId) Op Mem Held) :=
  closing (device addValues) (pairBarrier timeouts) Prod.fst
    (HostConfig.start (lifetime pair calls) (.start slot localOutput)) fun r =>
      (pair.comm r).destroy

/-- Rank r has released what it held. -/
def Released (c : Closing Rank (Rank × StreamId) Op Mem Held) (r : Rank) (x : Held) : Prop :=
  c.Released (fun r => (pair.comm r).held) r x

end

/-! ### Sets and waits -/

namespace EventOp
variable {sets waits sets' waits' : Rank → ℕ} {events : Events}

/-- Each set that is made or still to come has a wait to come for it. -/
def Covered (sets waits : Rank → ℕ) (events : Events) : Prop :=
  ∀ r, sets r + (if events r = true then 1 else 0) ≤ waits r

/-- No wait is left without a set. -/
def Met (sets waits : Rank → ℕ) (events : Events) : Prop :=
  ∀ r, sets r + (if events r = true then 1 else 0) = waits r

/-- A set of an event that is set is lost; a wait takes a set with it. -/
theorem run_balance (eop : EventOp) (hready : eop.ready events)
    (hsets : ∀ r, sets' r + (if eop = .set r then 1 else 0) = sets r)
    (hwaits : ∀ r, waits' r + (if eop = .wait r then 1 else 0) = waits r) (r : Rank) :
    (waits' r = waits r ∧ sets' r + (if eop.run events r = true then 1 else 0) =
      sets r + if events r = true then 1 else 0) ∨
    (waits' r + 1 = waits r ∧ sets' r + (if eop.run events r = true then 1 else 0) + 1 =
      sets r + if events r = true then 1 else 0) ∨
    (eop = .set r ∧ events r = true ∧ waits' r = waits r ∧ sets' r < sets r ∧
      eop.run events r = true) := by
  have hset := hsets r
  have hwait := hwaits r
  cases eop with
  | set e =>
    by_cases he : e = r
    · subst he
      cases hevent : events e <;> simp [EventOp.run] at hset hwait ⊢ <;> omega
    · refine .inl ?_
      simp [EventOp.run, he, Ne.symm he] at hset hwait ⊢
      omega
  | wait e =>
    by_cases he : e = r
    · subst he
      have hevent : events e = true := hready
      refine .inr (.inl ?_)
      simp [EventOp.run, hevent] at hset hwait ⊢
      omega
    · refine .inl ?_
      simp [EventOp.run, he, Ne.symm he] at hset hwait ⊢
      omega

theorem Covered.run (h : Covered sets waits events) (eop : EventOp) (hready : eop.ready events)
    (hsets : ∀ r, sets' r + (if eop = .set r then 1 else 0) = sets r)
    (hwaits : ∀ r, waits' r + (if eop = .wait r then 1 else 0) = waits r) :
    Covered sets' waits' (eop.run events) := by
  intro r
  have hr := h r
  obtain hbalance | hbalance | ⟨-, hset, hbalance⟩ := run_balance eop hready hsets hwaits r
  · omega
  · omega
  · simp only [hset, hbalance, if_true] at hr ⊢
    omega

theorem Met.run (h : Met sets waits events) (eop : EventOp) (hready : eop.ready events)
    (hclear : ∀ r, eop = .set r → events r = false)
    (hsets : ∀ r, sets' r + (if eop = .set r then 1 else 0) = sets r)
    (hwaits : ∀ r, waits' r + (if eop = .wait r then 1 else 0) = waits r) :
    Met sets' waits' (eop.run events) := by
  intro r
  have hr := h r
  obtain hbalance | hbalance | ⟨hset, hevent, -⟩ := run_balance eop hready hsets hwaits r
  · omega
  · omega
  · rw [hclear r hset] at hevent
    cases hevent

end EventOp

section
variable {addValues : AddValues} {pair : Pair} {timeouts : Bool}
  {c c' : Closing Rank (Rank × StreamId) Op Mem Held}

def setsEvent (r : Rank) (i : HostInstr) : Bool := isSet r i.op
def waitsEvent (r : Rank) (i : HostInstr) : Bool := isWait r i.op

/-- How often rank r still sets its event. -/
def setsToCome (pending : Rank → List HostInstr) (left : Rank → List (Shutdown Held)) (r : Rank) : ℕ :=
  (pending r).countP (setsEvent r) + (left r).countP (· = .arrive)

/-- How often the peer of rank r still waits for it. -/
def waitsToCome (pending : Rank → List HostInstr) (left : Rank → List (Shutdown Held)) (r : Rank) : ℕ :=
  (pending r.peer).countP (waitsEvent r) + (left r.peer).countP (· = .pass)

/-- A rank uses events from its host only: it sets its own and waits for its peer's. -/
def UsesOwnEvents (r : Rank) (i : HostInstr) : Prop :=
  ∀ eop, i.op = .event eop → ¬ i.IsEnqueue ∧ (eop = .set r ∨ eop = .wait r.peer)

/-- No stream has an event to handle, and for each set there is still a wait to come. -/
structure Balanced (c : Closing Rank (Rank × StreamId) Op Mem Held) : Prop where
  queued : ∀ s, ∀ op ∈ c.work.queue s, ∀ eop, op ≠ .event eop
  pending : ∀ r, ∀ i ∈ c.work.pending r, UsesOwnEvents r i
  covered : EventOp.Covered (setsToCome c.work.pending c.left) (waitsToCome c.work.pending c.left)
    c.work.mem.events

theorem run_events_of_ne {op : Op} (h : ∀ eop, op ≠ .event eop) (m : Mem) :
    ((device addValues).run op m).events = m.events := by
  cases op with
  | event eop => exact absurd rfl (h eop)
  | _ => rfl

/-- What a list loses when its head is dropped. -/
theorem countP_update {α : Type} {f : Rank → List α} {q : Rank} {a : α} {l : List α}
    (h : f q = a :: l) (p : α → Bool) (r : Rank) :
    (Function.update f q l r).countP p + (if r = q ∧ p a = true then 1 else 0) =
      (f r).countP p := by
  by_cases hr : r = q
  · subst hr
    by_cases hp : p a = true <;> simp [h, hp]
  · simp [hr]

section
variable (pending : Rank → List HostInstr) (left : Rank → List (Shutdown Held)) {h : Rank}
  {i : HostInstr} {is : List HostInstr} {x : Shutdown Held} {rest : List (Shutdown Held)}

theorem setsToCome_instr (hp : pending h = i :: is) (r : Rank) :
    setsToCome (Function.update pending h is) left r +
      (if r = h ∧ setsEvent r i = true then 1 else 0) = setsToCome pending left r := by
  have := countP_update hp (setsEvent r) r
  simp only [setsToCome]
  omega

theorem waitsToCome_instr (hp : pending h = i :: is) (r : Rank) :
    waitsToCome (Function.update pending h is) left r +
      (if r.peer = h ∧ waitsEvent r i = true then 1 else 0) = waitsToCome pending left r := by
  have := countP_update hp (waitsEvent r) r.peer
  simp only [waitsToCome]
  omega

theorem setsToCome_shutdown (hl : left h = x :: rest) (r : Rank) :
    setsToCome pending (Function.update left h rest) r +
      (if r = h ∧ x = .arrive then 1 else 0) = setsToCome pending left r := by
  have := countP_update hl (· = .arrive) r
  simp only [decide_eq_true_eq] at this
  simp only [setsToCome]
  omega

theorem waitsToCome_shutdown (hl : left h = x :: rest) (r : Rank) :
    waitsToCome pending (Function.update left h rest) r +
      (if r.peer = h ∧ x = .pass then 1 else 0) = waitsToCome pending left r := by
  have := countP_update hl (· = .pass) r.peer
  simp only [decide_eq_true_eq] at this
  simp only [waitsToCome]
  omega

theorem toCome_arrive (hl : left h = .arrive :: rest) :
    (∀ r, setsToCome pending (Function.update left h rest) r +
      (if EventOp.set h = .set r then 1 else 0) = setsToCome pending left r) ∧
    ∀ r, waitsToCome pending (Function.update left h rest) r +
      (if EventOp.set h = .wait r then 1 else 0) = waitsToCome pending left r := by
  constructor
  · intro r
    simpa [eq_comm] using setsToCome_shutdown pending left hl r
  · intro r
    simpa using waitsToCome_shutdown pending left hl r

theorem toCome_pass (hl : left h = .pass :: rest) :
    (∀ r, setsToCome pending (Function.update left h rest) r +
      (if EventOp.wait h.peer = .set r then 1 else 0) = setsToCome pending left r) ∧
    ∀ r, waitsToCome pending (Function.update left h rest) r +
      (if EventOp.wait h.peer = .wait r then 1 else 0) = waitsToCome pending left r := by
  constructor
  · intro r
    simpa using setsToCome_shutdown pending left hl r
  · intro r
    simpa [Rank.peer_eq_comm (q := h)] using waitsToCome_shutdown pending left hl r

theorem toCome_shutdown (hl : left h = x :: rest) (harrive : x ≠ .arrive) (hpass : x ≠ .pass) :
    setsToCome pending (Function.update left h rest) = setsToCome pending left ∧
      waitsToCome pending (Function.update left h rest) = waitsToCome pending left := by
  constructor
  · funext r
    simpa [harrive] using setsToCome_shutdown pending left hl r
  · funext r
    simpa [hpass] using waitsToCome_shutdown pending left hl r

/-- An instruction that does not use events changes nothing about them. -/
theorem toCome_instr (hp : pending h = i :: is) (hi : ∀ eop, i.op ≠ .event eop) :
    setsToCome (Function.update pending h is) left = setsToCome pending left ∧
      waitsToCome (Function.update pending h is) left = waitsToCome pending left := by
  constructor
  · funext r
    simpa [setsEvent, isSet, hi] using setsToCome_instr _ left hp r
  · funext r
    simpa [waitsEvent, isWait, hi] using waitsToCome_instr _ left hp r

end

theorem Balanced.setsToCome_event (hb : Balanced c) {h : Rank} {s : Rank × StreamId} {b : Bool}
    {eop : EventOp} {is : List HostInstr} (hp : c.work.pending h = .call s b (.event eop) :: is)
    (r : Rank) : setsToCome (Function.update c.work.pending h is) c.left r +
      (if eop = .set r then 1 else 0) = setsToCome c.work.pending c.left r := by
  have hown := (hb.pending h (.call s b (.event eop)) (by simp [hp]) eop rfl).2
  rw [← setsToCome_instr _ _ hp r]
  by_cases hrh : r = h
  · subst hrh
    rcases hown with rfl | rfl <;> simp [setsEvent, isSet, Instr.op]
  · rcases hown with rfl | rfl <;> simp [hrh, Ne.symm hrh]

theorem Balanced.waitsToCome_event (hb : Balanced c) {h : Rank} {s : Rank × StreamId} {b : Bool}
    {eop : EventOp} {is : List HostInstr} (hp : c.work.pending h = .call s b (.event eop) :: is)
    (r : Rank) : waitsToCome (Function.update c.work.pending h is) c.left r +
      (if eop = .wait r then 1 else 0) = waitsToCome c.work.pending c.left r := by
  have hown := (hb.pending h (.call s b (.event eop)) (by simp [hp]) eop rfl).2
  rw [← waitsToCome_instr _ _ hp r]
  by_cases hrh : r.peer = h
  · subst hrh
    rcases hown with rfl | rfl <;> simp [waitsEvent, isWait, Instr.op]
  · rcases hown with rfl | rfl <;> simp [hrh, mt Rank.peer_eq_comm.mp hrh]

theorem Balanced.work (hb : Balanced c) {w : HostConfig Rank (Rank × StreamId) Op Mem}
    (hst : HostStep (device addValues) c.work w) : Balanced ⟨w, c.left⟩ := by
  cases hst with
  | @enqueue h s op is hp =>
    have hop : ∀ eop, op ≠ .event eop := fun eop he =>
      (hb.pending h (.enqueue s op) (by simp [hp]) eop he).1 trivial
    obtain ⟨hsets, hwaits⟩ := toCome_instr _ c.left hp hop
    refine ⟨fun t o ho => ?_, fun r j hj => hb.pending r j (mem_of_mem_update hp hj), ?_⟩
    · rcases mem_update_concat ho with ho | rfl
      · exact hb.queued t o ho
      · exact hop
    · rw [hsets, hwaits]
      exact hb.covered
  | @call h s b op is hp _ hr =>
    refine ⟨hb.queued, fun r j hj => hb.pending r j (mem_of_mem_update hp hj), ?_⟩
    by_cases hop : ∃ eop, op = .event eop
    · obtain ⟨eop, rfl⟩ := hop
      exact hb.covered.run eop hr (hb.setsToCome_event hp) (hb.waitsToCome_event hp)
    · push Not at hop
      obtain ⟨hsets, hwaits⟩ := toCome_instr _ c.left hp hop
      rw [hsets, hwaits, run_events_of_ne hop]
      exact hb.covered
  | @execute s op rest hq hr =>
    have hop := hb.queued s op (by simp [hq])
    refine ⟨fun t o ho => hb.queued t o (mem_of_mem_update hq ho), hb.pending, ?_⟩
    have hcovered := hb.covered
    rwa [← run_events_of_ne hop] at hcovered

/-- Every step keeps the balance, as long as no wait gives up. -/
theorem Balanced.step (hb : Balanced c)
    (hst : CloseStep (device addValues) (pairBarrier false) Prod.fst c c') : Balanced c' := by
  cases hst with
  | work hst => exact hb.work hst
  | @shutdown h x rest hp hl hr =>
    refine ⟨hb.queued, hb.pending, ?_⟩
    cases x with
    | synchronize | release r =>
      obtain ⟨hsets, hwaits⟩ := toCome_shutdown c.work.pending c.left hl (by simp) (by simp)
      rw [hsets, hwaits]
      exact hb.covered
    | arrive =>
      obtain ⟨hsets, hwaits⟩ := toCome_arrive c.work.pending c.left hl
      exact hb.covered.run (.set h) trivial hsets hwaits
    | pass =>
      obtain ⟨hsets, hwaits⟩ := toCome_pass c.work.pending c.left hl
      exact hb.covered.run (.wait h.peer) (hr.resolve_left (by simp)) hsets hwaits

/-! ### What a release says -/

/-- The instructions of a path use the rank's own events, from the host. -/
theorem Route.steps_usesOwnEvents (rank : Rank) (number : ℕ) (call : Call NativeStep)
    (route : Route) :
    ∀ i ∈ (route.steps rank number call).flatMap Prod.snd, UsesOwnEvents rank i := by
  cases route with
  | stream epoch =>
    by_cases he : 1 < epoch <;> by_cases ht : call.tensor.numel = 0 <;>
      simp [steps, enqueueAllReduce, launchAdd, he, ht, UsesOwnEvents, Instr.op]
  | barrier =>
    simp [steps, barrierSteps, barrierWait, Win32PairBarrier.wait, UsesOwnEvents, Instr.op,
      Instr.IsEnqueue]

theorem program_usesOwnEvents (calls : Rank → List (Call NativeStep)) (r : Rank) :
    ∀ i ∈ program pair calls r, UsesOwnEvents r i := by
  rw [program_eq]
  intro i hi
  obtain ⟨pl, -, hi⟩ := List.mem_flatMap.mp hi
  obtain ⟨rest, hrest⟩ := pl.instrs_append r
  exact pl.route.steps_usesOwnEvents r pl.number pl.call i (hrest ▸ List.mem_append_left _ hi)

theorem program_owned (calls : Rank → List (Call NativeStep)) (r : Rank) :
    ∀ i ∈ program pair calls r, i.stream.1 = r := by
  rw [program_eq]
  intro i hi
  obtain ⟨pl, -, hi⟩ := List.mem_flatMap.mp hi
  obtain ⟨rest, hrest⟩ := pl.instrs_append r
  rw [pl.route.steps_stream r pl.number pl.call i (hrest ▸ List.mem_append_left _ hi)]

theorem initWait_usesOwnEvents (r : Rank) : ∀ i ∈ (pair.comm r).initWait, UsesOwnEvents r i := by
  simp [SharedMemoryAllReduce.initWait, Pair.comm, Win32PairBarrier.wait, UsesOwnEvents, Instr.op,
    Instr.IsEnqueue]

theorem lifetime_owned (calls : Rank → List (Call NativeStep)) (r : Rank) :
    ∀ i ∈ lifetime pair calls r, i.stream.1 = r := by
  have hinit : ∀ i ∈ (pair.comm r).initWait, i.stream.1 = r := by
    simp [SharedMemoryAllReduce.initWait, Pair.comm, Win32PairBarrier.wait, Instr.stream]
  exact List.forall_mem_append.mpr ⟨hinit, program_owned calls r⟩

/-- Neither rank sets its event more often than its peer waits for it. -/
def PairedEvents (pair : Pair) (calls : Rank → List (Call NativeStep)) : Prop :=
  ∀ r, (program pair calls r).countP (setsEvent r) ≤
    (program pair calls r.peer).countP (waitsEvent r)

/-- Collectives none of whose steps fails set and wait equally often. -/
theorem pairedEvents_of_noFault {cs : List (Collective pair)} (hnf : NoFault cs) :
    PairedEvents pair (callsOf cs) := by
  intro r
  rw [program_eq, program_eq, plan_callsOf, plan_callsOf, List.flatMap_map, List.flatMap_map,
    List.countP_flatMap, List.countP_flatMap]
  refine List.sum_le_sum fun sc hsc => ?_
  have hmem := List.mem_of_getElem? ((sharedFrom_spec 0 0 cs).2 sc hsc).2
  have hfault : ∀ q, (sc.col.call q).fault = none := fun q => hnf _ hmem q
  simp only [Function.comp, SharedCall.planned, Planned.instrs, hfault, before_none]
  cases sc.route with
  | stream e =>
    by_cases he : 1 < e <;> by_cases ht : (sc.col.call r).tensor.numel = 0 <;>
      simp [Route.steps, enqueueAllReduce, launchAdd, he, ht, setsEvent, isSet, Instr.op]
  | barrier =>
    simp [Route.steps, barrierSteps, barrierWait, Win32PairBarrier.wait, setsEvent, waitsEvent,
      isSet, isWait, Instr.op]

theorem destroySystem_eq {calls : Rank → List (Call NativeStep)} {slot localOutput : Rank → Bytes} :
    destroySystem addValues pair timeouts calls slot localOutput =
      closing (device addValues) (pairBarrier timeouts) Prod.fst
        (HostConfig.start (lifetime pair calls) (.start slot localOutput))
        (shutdownPlan fun r => (pair.comm r).held) := rfl

theorem setsToCome_start (calls : Rank → List (Call NativeStep)) (r : Rank) :
    setsToCome (lifetime pair calls) (fun r => (pair.comm r).destroy) r =
      (program pair calls r).countP (setsEvent r) + 2 := by
  have hsuffix : (pair.comm r).destroy <:+ Shutdown.steps (pair.comm r).held := List.suffix_rfl
  have harrive : (pair.comm r).destroy.countP (· = .arrive) = 1 :=
    (Shutdown.countP_eq hsuffix (by simp)).trans (if_pos (by simp [SharedMemoryAllReduce.destroy]))
  have hinit : (pair.comm r).initWait.countP (setsEvent r) = 1 := by
    simp [SharedMemoryAllReduce.initWait, Pair.comm, Win32PairBarrier.wait, setsEvent, isSet, Instr.op]
  rw [setsToCome, lifetime, List.countP_append, hinit, harrive]
  omega

theorem waitsToCome_start (calls : Rank → List (Call NativeStep)) (r : Rank) :
    waitsToCome (lifetime pair calls) (fun r => (pair.comm r).destroy) r =
      (program pair calls r.peer).countP (waitsEvent r) + 2 := by
  have hsuffix : (pair.comm r.peer).destroy <:+ Shutdown.steps (pair.comm r.peer).held :=
    List.suffix_rfl
  have hpass : (pair.comm r.peer).destroy.countP (· = .pass) = 1 :=
    (Shutdown.countP_eq hsuffix (by simp)).trans (if_pos (by simp [SharedMemoryAllReduce.destroy]))
  have hinit : (pair.comm r.peer).initWait.countP (waitsEvent r) = 1 := by
    simp [SharedMemoryAllReduce.initWait, Pair.comm, Win32PairBarrier.wait, waitsEvent, isWait, Instr.op]
  rw [waitsToCome, lifetime, List.countP_append, hinit, hpass]
  omega

theorem reachable_balanced {calls : Rank → List (Call NativeStep)} {slot localOutput : Rank → Bytes}
    (hpaired : PairedEvents pair calls)
    (hc : (destroySystem addValues pair false calls slot localOutput).Reachable c) : Balanced c := by
  refine System.Reachable.invariant ?_ (fun _ _ _ hb hst => hb.step hst) hc
  rintro _ rfl
  refine ⟨by simp [HostConfig.start], fun r => ?_, fun r => ?_⟩
  · exact List.forall_mem_append.mpr ⟨initWait_usesOwnEvents r, program_usesOwnEvents calls r⟩
  · have hr := hpaired r
    simp only [HostConfig.start, setsToCome_start, waitsToCome_start, Mem.start]
    simp
    omega

/-- Without timeouts nobody is through the last barrier before its peer is there. -/
theorem Balanced.sound (hb : Balanced c)
    (inv : c.Inv Prod.fst fun r => (pair.comm r).held) : c.Sound := by
  intro h hpass
  obtain ⟨harrived, hpassed, -⟩ := Shutdown.steps_ordered (inv.suffix h)
  rw [Rank.forall_iff h]
  refine ⟨hpassed hpass, ?_⟩
  have hpending := (inv.quiet h (harrived (hpassed hpass))).1
  have hwaits : waitsToCome c.work.pending c.left h.peer = 0 := by
    simp only [waitsToCome, Rank.peer_peer, hpending, List.countP_nil, Nat.zero_add,
      List.countP_eq_zero, decide_eq_true_eq]
    rintro x hx rfl
    exact hpass hx
  have hsets := Nat.le_zero.mp (hwaits ▸ hb.covered h.peer)
  have harrive : (c.left h.peer).countP (· = .arrive) = 0 := by
    simp only [setsToCome] at hsets
    omega
  intro hmem
  exact List.countP_eq_zero.mp harrive _ hmem (by simp)

/-! ### The stream path uses the events in the constructor only -/

def Mem.withEvents (m : Mem) (events : Events) : Mem := { m with events }

theorem ready_withEvents {op : Op} (h : ∀ eop, op ≠ .event eop) (m : Mem) (events : Events) :
    op.ready (m.withEvents events) ↔ op.ready m := by
  cases op with
  | event eop => exact absurd rfl (h eop)
  | _ => exact Iff.rfl

def isEvent (i : HostInstr) : Bool :=
  match i.op with
  | .event _ => true
  | _ => false

theorem isEvent_eq_false {i : HostInstr} (h : ∀ eop, i.op ≠ .event eop) : isEvent i = false := by
  unfold isEvent
  split
  · rename_i eop heop
    exact absurd heop (h eop)
  · rfl

def EventFree (is : List HostInstr) : Prop := ∀ i ∈ is, ∀ eop, i.op ≠ .event eop

theorem EventFree.filter {is : List HostInstr} (h : EventFree is) : is.filter (!isEvent ·) = is :=
  List.filter_eq_self.mpr fun i hi => by simp [isEvent_eq_false (h i hi)]

theorem EventFree.countP {is : List HostInstr} (h : EventFree is) (r : Rank) :
    is.countP (setsEvent r) = 0 ∧ is.countP (waitsEvent r) = 0 := by
  constructor
  · apply List.countP_eq_zero.mpr
    intro i hi
    simpa [setsEvent, isSet] using h i hi (.set r)
  · apply List.countP_eq_zero.mpr
    intro i hi
    simpa [waitsEvent, isWait] using h i hi (.wait r)

/-- The work without the events, and both of them clear. -/
def withoutEvents (w : HostConfig Rank (Rank × StreamId) Op Mem) :
    HostConfig Rank (Rank × StreamId) Op Mem where
  pending r := (w.pending r).filter (!isEvent ·)
  queue := w.queue
  mem := w.mem.withEvents fun _ => false

theorem run_withoutEvents {op : Op} (h : ∀ eop, op ≠ .event eop)
    (w : HostConfig Rank (Rank × StreamId) Op Mem) :
    (device addValues).run op (withoutEvents w).mem =
      ((device addValues).run op w.mem).withEvents fun _ => false := by
  cases op with
  | event eop => exact absurd rfl (h eop)
  | _ => rfl

/-- A step on an event is none without the events. -/
theorem Balanced.withoutEvents_step (hb : Balanced c) {w : HostConfig Rank (Rank × StreamId) Op Mem}
    (hst : HostStep (device addValues) c.work w) :
    withoutEvents w = withoutEvents c.work ∨
      HostStep (device addValues) (withoutEvents c.work) (withoutEvents w) := by
  have hfilter : ∀ h is, (fun r => (Function.update c.work.pending h is r).filter (!isEvent ·)) =
      Function.update (withoutEvents c.work).pending h (is.filter (!isEvent ·)) := by
    intro h is
    funext r
    exact Function.apply_update (fun _ => List.filter (!isEvent ·)) c.work.pending h is r
  have hcons : ∀ {h i is}, c.work.pending h = i :: is → (∀ eop, i.op ≠ .event eop) →
      (withoutEvents c.work).pending h = i :: is.filter (!isEvent ·) := by
    intro h i is hp hi
    simp [withoutEvents, hp, isEvent_eq_false hi]
  cases hst with
  | @enqueue h s op is hp =>
    have hop : ∀ eop, op ≠ .event eop := fun eop he =>
      (hb.pending h (.enqueue s op) (by simp [hp]) eop he).1 trivial
    have hstep := HostStep.enqueue (D := device addValues) (hcons hp hop)
    rw [← hfilter] at hstep
    exact .inr hstep
  | @call h s b op is hp hblock hr =>
    by_cases hop : ∃ eop, op = .event eop
    · obtain ⟨eop, rfl⟩ := hop
      refine .inl ?_
      have hsame : Function.update (withoutEvents c.work).pending h (is.filter (!isEvent ·)) =
          (withoutEvents c.work).pending := by
        apply Function.update_eq_self_iff.mpr
        simp [withoutEvents, hp, isEvent, Instr.op]
      rw [← hfilter] at hsame
      unfold withoutEvents
      rw [hsame]
      rfl
    · push Not at hop
      have hstep := HostStep.call (D := device addValues) (hcons hp hop) hblock
        ((ready_withEvents hop _ _).mpr hr)
      rw [← hfilter, run_withoutEvents hop] at hstep
      exact .inr hstep
  | @execute s op rest hq hr =>
    have hop := hb.queued s op (by simp [hq])
    have hstep := HostStep.execute (D := device addValues) (c := withoutEvents c.work) hq
      ((ready_withEvents hop _ _).mpr hr)
    rw [run_withoutEvents hop] at hstep
    exact .inr hstep

/-- Where no host has an event to handle, what can be done without events can be done. -/
theorem Balanced.canStep (hb : Balanced c) (hfree : ∀ r, EventFree (c.work.pending r))
    {v : HostConfig Rank (Rank × StreamId) Op Mem}
    (hst : HostStep (device addValues) (withoutEvents c.work) v) :
    ∃ w, HostStep (device addValues) c.work w := by
  have hpending : (withoutEvents c.work).pending = c.work.pending := funext fun r => (hfree r).filter
  cases hst with
  | enqueue hp => exact ⟨_, .enqueue (c := c.work) (hpending ▸ hp)⟩
  | @call r s b op is hp hblock hr =>
    rw [hpending] at hp
    have hop := hfree r (.call s b op) (by simp [hp])
    exact ⟨_, .call hp hblock ((ready_withEvents hop _ _).mp hr)⟩
  | @execute s op rest hq hr =>
    have hop := hb.queued s op (by rw [show c.work.queue s = _ from hq]; simp)
    exact ⟨_, .execute (c := c.work) hq ((ready_withEvents hop _ _).mp hr)⟩

/-- What a rank has to do while its constructor waits, with the set to come or made. -/
inductive Constructing (pair : Pair) (calls : Rank → List (Call NativeStep)) (r : Rank) :
    List HostInstr → Prop
  | entering : Constructing pair calls r (lifetime pair calls r)
  | waiting : Constructing pair calls r
      (.call (r, 0) false (.event (.wait r.peer)) :: program pair calls r)

section
variable {cs : List (Collective pair)} {slot localOutput : Rank → Bytes} {r : Rank}
  {is : List HostInstr}

theorem program_eventFree (hcalls : StreamCalls pair (callsOf cs)) (r : Rank) :
    EventFree (program pair (callsOf cs) r) := fun i hi eop heop =>
  (program_usesOwnEvents _ r i hi eop heop).1 (program_isEnqueue hcalls r i hi)

theorem lifetime_eq (calls : Rank → List (Call NativeStep)) (r : Rank) : lifetime pair calls r =
    .call (r, 0) false (.event (.set r)) :: .call (r, 0) false (.event (.wait r.peer)) ::
      program pair calls r := rfl

theorem Constructing.filter (hcalls : StreamCalls pair (callsOf cs))
    (h : Constructing pair (callsOf cs) r is) :
    is.filter (!isEvent ·) = program pair (callsOf cs) r := by
  have hprogram := (program_eventFree hcalls r).filter
  cases h with
  | entering => simpa [lifetime_eq, isEvent, Instr.op] using hprogram
  | waiting => simpa [isEvent, Instr.op] using hprogram

theorem Constructing.countP_waits (hcalls : StreamCalls pair (callsOf cs))
    (h : Constructing pair (callsOf cs) r is) : is.countP (waitsEvent r.peer) = 1 := by
  have hprogram := ((program_eventFree hcalls r).countP r.peer).2
  cases h with
  | entering => simp [lifetime_eq, waitsEvent, isWait, Instr.op] at hprogram ⊢; exact hprogram
  | waiting => simp [waitsEvent, isWait, Instr.op] at hprogram ⊢; exact hprogram

theorem Constructing.ne_nil (h : Constructing pair (callsOf cs) r is) : is ≠ [] := by
  cases h with
  | entering => simp [lifetime_eq]
  | waiting => simp

theorem Constructing.eq_or (h : Constructing pair (callsOf cs) r is) :
    is = lifetime pair (callsOf cs) r ∨
      is = .call (r, 0) false (.event (.wait r.peer)) :: program pair (callsOf cs) r := by
  cases h with
  | entering => exact .inl rfl
  | waiting => exact .inr rfl

/-- After its next instruction a constructor still waits, or it is done. -/
theorem Constructing.tail (hcalls : StreamCalls pair (callsOf cs)) {i : HostInstr}
    (h : Constructing pair (callsOf cs) r (i :: is)) :
    Constructing pair (callsOf cs) r is ∨ EventFree is := by
  generalize hall : i :: is = all at h
  cases h with
  | entering =>
    obtain ⟨-, rfl⟩ := List.cons.inj (hall.trans (lifetime_eq _ r))
    exact .inl .waiting
  | waiting =>
    obtain ⟨-, rfl⟩ := List.cons.inj hall
    exact .inr (program_eventFree hcalls r)

/-- Where everybody is: in the constructor or past it, with the work as it is without the events, and
as many sets made or to come as waits. -/
structure StreamLifetime (addValues : AddValues) (pair : Pair) (cs : List (Collective pair))
    (slot localOutput : Rank → Bytes) (c : Closing Rank (Rank × StreamId) Op Mem Held) : Prop where
  constructing : ∀ r, Constructing pair (callsOf cs) r (c.work.pending r) ∨
    EventFree (c.work.pending r)
  reachable : (system addValues pair (callsOf cs) slot localOutput).Reachable (withoutEvents c.work)
  met : EventOp.Met (setsToCome c.work.pending c.left) (waitsToCome c.work.pending c.left)
    c.work.mem.events

theorem StreamLifetime.update (hcalls : StreamCalls pair (callsOf cs))
    (hl : StreamLifetime addValues pair cs slot localOutput c) {h : Rank} {i : HostInstr}
    (hp : c.work.pending h = i :: is) (r : Rank) :
    Constructing pair (callsOf cs) r (Function.update c.work.pending h is r) ∨
      EventFree (Function.update c.work.pending h is r) := by
  by_cases hr : r = h
  · subst hr
    rw [Function.update_self]
    obtain hconstructing | hfree := hl.constructing r
    · exact (hp ▸ hconstructing).tail hcalls
    · exact .inr fun j hj => hfree j (by simp [hp, hj])
  · rw [Function.update_of_ne hr]
    exact hl.constructing r

/-- A rank that has waited for its streams has seen its peer write, so that the peer is past its
constructor. -/
theorem StreamLifetime.constructed (hcalls : StreamCalls pair (callsOf cs)) (hnf : NoFault cs)
    (hne : cs ≠ []) (hl : StreamLifetime addValues pair cs slot localOutput c) {h : Rank}
    (hquiet : c.work.Quiet Prod.fst h) : EventFree (c.work.pending h.peer) := by
  refine (hl.constructing h.peer).resolve_left fun hconstructing => ?_
  obtain ⟨col, rest, rfl⟩ := List.exists_cons_of_ne_nil hne
  have hcol : (col :: rest)[0]? = some col := rfl
  have hlimit : 0 < epochLimit := by decide
  have hrealizes := program_realizes pair (callsOf (col :: rest))
  obtain ⟨p, hf⟩ := hrealizes.follows hl.reachable
  have w := reachable_words hf.reachable
  -- its own first call is over, with the wait for the ready word of the peer
  have hpos : lead 1 + 3 ≤ p.pos h 0 := by
    have hdone := hf.finished_party (r := h) (fun s => by simp [withoutEvents, hquiet.1])
      (fun s => hquiet.2 (h, s) rfl) 0
    rw [length_opsAt hcalls hnf hcol hlimit, Nat.zero_add] at hdone
    omega
  have hready := w.sawReady h 0 1 _ (streamAt_callsOf hcalls hcol hlimit h) hpos
  obtain ⟨k, t, hk⟩ := w.origin h.peer (by omega)
  have hbegun := (w.wroteReady h.peer k _ t hk).mpr (Nat.le_refl _)
  have hnot := hf.not_begun hrealizes (r := h.peer) (fun s => hconstructing.filter hcalls) k
  omega

theorem countP_left_le (inv : c.Inv Prod.fst fun r => (pair.comm r).held) (r : Rank) :
    (c.left r).countP (· = .arrive) ≤ 1 ∧ (c.left r).countP (· = .pass) ≤ 1 := by
  rw [Shutdown.countP_eq (inv.suffix r) (by simp), Shutdown.countP_eq (inv.suffix r) (by simp)]
  constructor <;> split_ifs <;> decide

/-- A rank in its constructor has all of destroy before it. -/
theorem Constructing.left (h : Constructing pair (callsOf cs) r (c.work.pending r))
    (inv : c.Inv Prod.fst fun r => (pair.comm r).held) :
    (c.left r).countP (· = .arrive) = 1 ∧ (c.left r).countP (· = .pass) = 1 := by
  obtain ⟨harrived, hpassed, -⟩ := Shutdown.steps_ordered (inv.suffix r)
  have harrive : .arrive ∈ c.left r := by
    by_contra hnot
    exact h.ne_nil (inv.quiet r (harrived hnot)).1
  have hpass : .pass ∈ c.left r := by
    by_contra hnot
    exact hpassed hnot harrive
  rw [Shutdown.countP_eq (inv.suffix r) (by simp), Shutdown.countP_eq (inv.suffix r) (by simp),
    if_pos harrive, if_pos hpass]
  exact ⟨rfl, rfl⟩

theorem StreamLifetime.countP_waits_le (hcalls : StreamCalls pair (callsOf cs))
    (hl : StreamLifetime addValues pair cs slot localOutput c) (r : Rank) :
    (c.work.pending r.peer).countP (waitsEvent r) ≤ 1 := by
  obtain hconstructing | hfree := hl.constructing r.peer
  · have hwaits := hconstructing.countP_waits hcalls
    rw [Rank.peer_peer] at hwaits
    omega
  · rw [(hfree.countP r).2]
    exact Nat.zero_le _

/-- Nobody sets an event that is set. -/
theorem StreamLifetime.clear_of_two (hcalls : StreamCalls pair (callsOf cs))
    (hl : StreamLifetime addValues pair cs slot localOutput c)
    (inv : c.Inv Prod.fst fun r => (pair.comm r).held)
    (hsets : 2 ≤ setsToCome c.work.pending c.left r) : c.work.mem.events r = false := by
  have hmet := hl.met r
  have hwaits := hl.countP_waits_le hcalls r
  have hleft := (countP_left_le inv r.peer).2
  by_contra hevent
  rw [if_pos (Bool.eq_true_of_not_eq_false hevent), waitsToCome] at hmet
  omega

theorem StreamLifetime.work (hcalls : StreamCalls pair (callsOf cs)) (hb : Balanced c)
    (hl : StreamLifetime addValues pair cs slot localOutput c)
    (inv : c.Inv Prod.fst fun r => (pair.comm r).held)
    {w : HostConfig Rank (Rank × StreamId) Op Mem} (hst : HostStep (device addValues) c.work w) :
    StreamLifetime addValues pair cs slot localOutput ⟨w, c.left⟩ := by
  have hreachable : (system addValues pair (callsOf cs) slot localOutput).Reachable
      (withoutEvents w) := by
    obtain hsame | hstep := hb.withoutEvents_step hst
    · rw [hsame]
      exact hl.reachable
    · exact .step hl.reachable hstep
  cases hst with
  | @enqueue h s op is hp =>
    have hop : ∀ eop, op ≠ .event eop := fun eop he =>
      (hb.pending h (.enqueue s op) (by simp [hp]) eop he).1 trivial
    obtain ⟨hsets, hwaits⟩ := toCome_instr _ c.left hp hop
    refine ⟨hl.update hcalls hp, hreachable, ?_⟩
    rw [hsets, hwaits]
    exact hl.met
  | @call h s b op is hp hblock hr =>
    refine ⟨hl.update hcalls hp, hreachable, ?_⟩
    by_cases hop : ∃ eop, op = .event eop
    · obtain ⟨eop, rfl⟩ := hop
      refine hl.met.run eop hr ?_ (hb.setsToCome_event hp) (hb.waitsToCome_event hp)
      rintro r rfl
      have hown := (hb.pending h (.call s b (.event (.set r))) (by simp [hp]) _ rfl).2
      obtain rfl : r = h := by simpa using hown
      apply hl.clear_of_two hcalls inv
      obtain hconstructing | hfree := hl.constructing r
      · have harrive := (hconstructing.left inv).1
        have hset : 0 < (c.work.pending r).countP (setsEvent r) := by
          simp [hp, setsEvent, isSet, Instr.op]
        rw [setsToCome]
        omega
      · exact absurd rfl (hfree (.call s b (.event (.set r))) (by simp [hp]) (.set r))
    · push Not at hop
      obtain ⟨hsets, hwaits⟩ := toCome_instr _ c.left hp hop
      rw [hsets, hwaits, run_events_of_ne hop]
      exact hl.met
  | @execute s op rest hq hr =>
    have hop := hb.queued s op (by simp [hq])
    refine ⟨hl.constructing, hreachable, ?_⟩
    rw [run_events_of_ne hop]
    exact hl.met

theorem StreamLifetime.step (hcalls : StreamCalls pair (callsOf cs)) (hnf : NoFault cs) (hne : cs ≠ [])
    (hb : Balanced c) (hl : StreamLifetime addValues pair cs slot localOutput c)
    (inv : c.Inv Prod.fst fun r => (pair.comm r).held)
    (hst : CloseStep (device addValues) (pairBarrier false) Prod.fst c c') :
    StreamLifetime addValues pair cs slot localOutput c' := by
  cases hst with
  | work hst => exact hl.work hcalls hb inv hst
  | @shutdown h x rest hp hleft hr =>
    refine ⟨hl.constructing, ?_, ?_⟩
    · cases x <;> exact hl.reachable
    cases x with
    | synchronize | release r =>
      obtain ⟨hsets, hwaits⟩ := toCome_shutdown c.work.pending c.left hleft (by simp) (by simp)
      rw [hsets, hwaits]
      exact hl.met
    | arrive =>
      obtain ⟨hsets, hwaits⟩ := toCome_arrive c.work.pending c.left hleft
      refine hl.met.run (.set h) trivial ?_ hsets hwaits
      rintro r hr
      obtain rfl : h = r := by simpa using hr
      have hsync := Shutdown.synchronize_notMem_of_arrive (hleft ▸ inv.suffix h)
      have hquiet := inv.quiet h (by simpa [hleft] using hsync)
      have hfree := hl.constructed hcalls hnf hne hquiet
      have hmet := hl.met h
      have hpass := (countP_left_le inv h.peer).2
      by_contra hevent
      rw [if_pos (Bool.eq_true_of_not_eq_false hevent), waitsToCome, (hfree.countP h).2, setsToCome,
        hleft] at hmet
      simp at hmet
      omega
    | pass =>
      obtain ⟨hsets, hwaits⟩ := toCome_pass c.work.pending c.left hleft
      exact hl.met.run (.wait h.peer) (hr.resolve_left (by simp)) (by simp) hsets hwaits

theorem reachable_streamLifetime (hcalls : StreamCalls pair (callsOf cs)) (hnf : NoFault cs)
    (hne : cs ≠ [])
    (hc : (destroySystem addValues pair false (callsOf cs) slot localOutput).Reachable c) :
    StreamLifetime addValues pair cs slot localOutput c := by
  have hpaired := pairedEvents_of_noFault hnf
  refine System.Reachable.invariant ?_ ?_ hc
  · rintro _ rfl
    refine ⟨fun r => .inl .entering, .init ?_, fun r => ?_⟩
    · have hfilter : ∀ r, (lifetime pair (callsOf cs) r).filter (!isEvent ·) =
          program pair (callsOf cs) r := fun r => Constructing.filter hcalls .entering
      simp only [withoutEvents, HostConfig.start, hfilter]
      rfl
    · have hsets := ((program_eventFree hcalls r).countP r).1
      have hwaits := ((program_eventFree hcalls r.peer).countP r).2
      simp [HostConfig.start, setsToCome_start, waitsToCome_start, Mem.start, hsets, hwaits]
  · intro c c' hc hl hst
    exact hl.step hcalls hnf hne (reachable_balanced hpaired hc) (closing_inv (lifetime_owned _) hc) hst

/-- Of two ranks one of which is still in its constructor, one can go on. -/
theorem StreamLifetime.canStep (hcalls : StreamCalls pair (callsOf cs))
    (hl : StreamLifetime addValues pair cs slot localOutput c)
    (inv : c.Inv Prod.fst fun r => (pair.comm r).held)
    (hr : Constructing pair (callsOf cs) r (c.work.pending r)) :
    ∃ w, HostStep (device addValues) c.work w := by
  have henter : ∀ q, c.work.pending q = lifetime pair (callsOf cs) q →
      ∃ w, HostStep (device addValues) c.work w := fun q hq =>
    ⟨_, .call (hq.trans (lifetime_eq _ q)) (by simp) trivial⟩
  obtain hp | hp := hr.eq_or
  · exact henter r hp
  cases hevent : c.work.mem.events r.peer with
  | true => exact ⟨_, .call hp (by simp) hevent⟩
  | false =>
    -- the peer has both its sets before it, and so it is about to make the first
    apply henter r.peer
    have hmet := hl.met r.peer
    have harrive := (countP_left_le inv r.peer).1
    rw [hevent, waitsToCome, Rank.peer_peer, hr.countP_waits hcalls, (hr.left inv).2,
      setsToCome] at hmet
    simp only [Bool.false_eq_true, if_false] at hmet
    obtain hpeer | hfree := hl.constructing r.peer
    · refine hpeer.eq_or.resolve_right fun hwaiting => ?_
      have hnone := ((program_eventFree hcalls r.peer).countP r.peer).1
      simp only [hwaiting, List.countP_cons, hnone, setsEvent, isSet, Instr.op, Op.event.injEq,
        reduceCtorEq, decide_false, Bool.false_eq_true, if_false] at hmet
      omega
    · rw [(hfree.countP r.peer).1] at hmet
      omega

/-- Once nobody has a call to make, the event of a rank that has arrived is set until its peer passes. -/
theorem StreamLifetime.event_of_arrived (hl : StreamLifetime addValues pair cs slot localOutput c)
    (inv : c.Inv Prod.fst fun r => (pair.comm r).held) (hpending : ∀ g, c.work.pending g = [])
    (harrived : .arrive ∉ c.left r.peer) (hpass : .pass ∈ c.left r) :
    c.work.mem.events r.peer = true := by
  have hmet := hl.met r.peer
  rw [setsToCome, waitsToCome, Rank.peer_peer, hpending, hpending, List.countP_nil, List.countP_nil,
    Shutdown.countP_eq (inv.suffix r.peer) (by simp), Shutdown.countP_eq (inv.suffix r) (by simp),
    if_neg harrived, if_pos hpass] at hmet
  by_contra hevent
  rw [if_neg hevent] at hmet
  omega

/-- After calls on the stream path no wait of the last barrier is in vain. -/
theorem neverStuck_destroy (hcalls : StreamCalls pair (callsOf cs)) (hnf : NoFault cs) (hne : cs ≠ []) :
    (destroySystem addValues pair false (callsOf cs) slot localOutput).NeverStuck
      Closing.Unfinished := by
  intro c hc hu
  have hlife := reachable_streamLifetime hcalls hnf hne hc
  have hb := reachable_balanced (pairedEvents_of_noFault hnf) hc
  have inv : c.Inv Prod.fst fun r => (pair.comm r).held := closing_inv (lifetime_owned _) hc
  by_cases hconstructing : ∃ r, ¬ EventFree (c.work.pending r)
  · obtain ⟨r, hr⟩ := hconstructing
    obtain ⟨w, hw⟩ := hlife.canStep hcalls inv ((hlife.constructing r).resolve_right hr)
    exact ⟨_, .work hw⟩
  push Not at hconstructing
  by_cases hwork : c.work.Unfinished
  · have hcomplete : StreamComplete addValues cs _ := streamComplete hcalls hnf slot localOutput
    have hpending : (withoutEvents c.work).pending = c.work.pending :=
      funext fun r => (hconstructing r).filter
    have hunfinished : (withoutEvents c.work).Unfinished := hwork.imp (by rw [hpending]; exact id) id
    obtain ⟨v, hst⟩ := hcomplete.live _ hlife.reachable hunfinished
    obtain ⟨w, hw⟩ := hb.canStep hconstructing hst
    exact ⟨_, .work hw⟩
  obtain ⟨h, hleft⟩ := hu.resolve_left hwork
  have hpending : ∀ g, c.work.pending g = [] := fun g => not_not.mp fun hp => hwork (.inl ⟨g, hp⟩)
  have hqueue : ∀ s, c.work.queue s = [] := fun s => not_not.mp fun hq => hwork (.inr ⟨s, hq⟩)
  have hcan : ∀ g, c.left g ≠ [] → ((∀ rest, c.left g ≠ .pass :: rest) ∨ .arrive ∉ c.left g.peer) →
      (destroySystem addValues pair false (callsOf cs) slot localOutput).CanStep c := by
    intro g hg hcase
    obtain ⟨x, rest, hl⟩ := List.exists_cons_of_ne_nil hg
    refine ⟨_, .shutdown (hpending g) hl ?_⟩
    cases x with
    | synchronize => exact fun s _ => hqueue s
    | arrive | release y => trivial
    | pass =>
      have harrived := hcase.resolve_left fun hne => hne rest hl
      exact .inr (hlife.event_of_arrived inv hpending harrived (by simp [hl]))
  by_cases harrived : .arrive ∉ c.left h.peer
  · exact hcan h hleft (.inr harrived)
  · -- the peer has still to arrive, and nothing holds it up
    refine hcan h.peer (List.ne_nil_of_mem (not_not.mp harrived)) (.inl fun rest hl => ?_)
    have hrest := Shutdown.arrive_notMem_of_pass (hl ▸ inv.suffix h.peer)
    simp [hl, hrest] at harrived

end

/-- What a rank releases its own streams do not use any more. If no wait gives up and neither rank
sets its event more often than its peer waits for it, as in collectives without failures, neither do
its peer's. After collectives on the stream path, if there is any, no wait has to give up: both ranks
release all, and the outputs are the sums. -/
theorem destroy_releases_after_work (addValues : AddValues) (pair : Pair)
    (slot localOutput : Rank → Bytes) :
    (∀ timeouts calls c,
      (destroySystem addValues pair timeouts calls slot localOutput).Reachable c →
        ∀ r x, Released pair c r x → c.work.Quiet Prod.fst r) ∧
    (∀ calls, PairedEvents pair calls → ∀ c,
      (destroySystem addValues pair false calls slot localOutput).Reachable c →
        ∀ r x, Released pair c r x → ¬ c.work.Unfinished) ∧
    ∀ cs : List (Collective pair), NoFault cs → PairedEvents pair (callsOf cs) ∧
      (StreamCalls pair (callsOf cs) → ∀ c,
        (destroySystem addValues pair false (callsOf cs) slot localOutput).Reachable c →
          (cs ≠ [] → ∃ t, Relation.ReflTransGen
              (destroySystem addValues pair false (callsOf cs) slot localOutput).step c t ∧
            ∀ r, t.left r = []) ∧
          ∀ r x, Released pair c r x → ∀ q i col ref, cs[i]? = some col →
            returned pair (callsOf cs) q i ref →
              readOutput c.work.mem q ref = some (col.sum addValues q)) := by
  have hafter : ∀ calls, PairedEvents pair calls → ∀ c,
      (destroySystem addValues pair false calls slot localOutput).Reachable c →
        ∀ r x, Released pair c r x → ¬ c.work.Unfinished := by
    intro calls hpaired c hc r x hx
    have hb := reachable_balanced hpaired hc
    rw [destroySystem_eq] at hc
    exact finished_of_released (lifetime_owned calls) hc
      (hb.sound (closing_inv (lifetime_owned calls) hc)) hx
  refine ⟨fun timeouts calls c hc r x hx => ?_, hafter,
    fun cs hnf => ⟨pairedEvents_of_noFault hnf, fun hcalls c hc => ⟨fun hne => ?_, ?_⟩⟩⟩
  · rw [destroySystem_eq] at hc
    exact quiet_of_released (lifetime_owned calls) hc hx
  · obtain ⟨t, hrun, hend⟩ := exists_run_to_closed (neverStuck_destroy hcalls hnf hne) hc
    exact ⟨t, hrun, fun r => not_not.mp fun hleft => hend (.inr ⟨r, hleft⟩)⟩
  · intro r x hx q i col ref hcol hret
    have hne : cs ≠ [] := List.ne_nil_of_mem (List.mem_of_getElem? hcol)
    have hl := reachable_streamLifetime hcalls hnf hne hc
    have hfinished := hafter _ (pairedEvents_of_noFault hnf) c hc r x hx
    have hdone : ¬ (withoutEvents c.work).Unfinished := by
      simp only [HostConfig.Unfinished, not_or, not_exists, not_not] at hfinished ⊢
      exact ⟨fun q => by simp [withoutEvents, hfinished.1 q], hfinished.2⟩
    have hcomplete : StreamComplete addValues cs _ := streamComplete hcalls hnf slot localOutput
    have hread := hcomplete.complete _ hl.reachable hdone q i col ref hcol hret
    cases ref with
    | empty => exact hread
    | output number => exact hread

theorem destroy_releases_after_work_sample :
    ∃ t, (destroySystem addBytes samplePair false (callsOf sampleCalls) (fun _ => [])
        fun _ => []).Reachable t ∧
      ∀ r, Released samplePair t r .mapping ∧ ¬ t.work.Unfinished := by
  have hcalls : StreamCalls samplePair (callsOf sampleCalls) := by
    constructor <;> simp [samplePair, callsOf, sampleCalls, sampleCollective, Tensor.sizeBytes,
      Tensor.numel, Dtype.elementSize, Dtype.isNative]
  have hnf : NoFault sampleCalls := by simp [NoFault, sampleCalls, sampleCollective]
  obtain ⟨-, hall, hcollectives⟩ := destroy_releases_after_work addBytes samplePair (fun _ => [])
    fun _ => []
  obtain ⟨hpaired, hstream⟩ := hcollectives sampleCalls hnf
  obtain ⟨t, hrun, hleft⟩ := (hstream hcalls _ (.init rfl)).1 (by simp [sampleCalls])
  have ht := System.Reachable.steps (.init rfl) hrun
  have hreleased : ∀ r, Released samplePair t r .mapping := fun r =>
    ⟨by simp [SharedMemoryAllReduce.held], by simp [hleft]⟩
  exact ⟨t, ht, fun r => ⟨hreleased r, hall _ hpaired t ht r _ (hreleased r)⟩⟩

end
end MultiGpuTransport.MappedHost
