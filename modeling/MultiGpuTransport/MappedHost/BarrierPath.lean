import MultiGpuTransport.MappedHost.MixedPaths
import MultiGpuTransport.PairBarrier.Crossings

/-!
# The barrier path

On a communicator without the stream path the hosts do everything themselves, seven steps a call, on
whatever streams the calls are made. A host at its steps is a rank at the pair barrier, so its peer
cannot be a crossing ahead; this alone keeps the slots apart, also after signals were lost.
-/
namespace MultiGpuTransport.MappedHost
open Streams Transition
open Win32PairBarrier (BarrierState CrossingStep crossings returned_le_signalled)

/-- Element i of blocks of one length. -/
theorem getElem?_flatMap_blocks {α β : Type*} {f : α → List β} {m : ℕ} (hm : 0 < m) {l : List α}
    (hlen : ∀ a ∈ l, (f a).length = m) (i : ℕ) :
    (l.flatMap f)[i]? = l[i / m]?.bind fun a => (f a)[i % m]? := by
  induction l generalizing i with
  | nil => simp
  | cons a l ih =>
    obtain ⟨ha, hl⟩ := List.forall_mem_cons.mp hlen
    rw [List.flatMap_cons]
    rcases Nat.lt_or_ge i m with hlt | hge
    · rw [List.getElem?_append_left (by omega), Nat.div_eq_of_lt hlt, Nat.mod_eq_of_lt hlt]
      rfl
    · rw [List.getElem?_append_right (by omega), ha, ih hl]
      obtain ⟨j, rfl⟩ := Nat.exists_eq_add_of_le hge
      rw [Nat.add_sub_cancel_left, Nat.add_div_left j hm, Nat.add_mod_left,
        List.getElem?_cons_succ]

/-- Both ranks' calls on a communicator without the stream path: call by call tensors of one dtype
and shape, each on its rank's device or neither, and no step that fails. -/
structure BarrierCalls (pair : Pair) (calls : Rank → List (Call NativeStep)) : Prop where
  noStreamPath : pair.useStreamPath = false
  paired : List.Forall₂ (fun call call' => call.tensor.SameShape call'.tensor ∧
    (call.tensor.device = pair.device .zero ↔ call'.tensor.device = pair.device .one))
    (calls .zero) (calls .one)
  noFault : ∀ r, ∀ call ∈ calls r, call.fault = none

/-- The calls that pass their checks, the same on both ranks. -/
structure Shares (pair : Pair) (calls : Rank → List (Call NativeStep))
    (scs : List (SharedCall pair)) : Prop where
  plan_eq : ∀ r, plan pair calls r = scs.map fun sc => sc.planned r
  barrier : ∀ sc ∈ scs, sc.route = .barrier
  call_eq : ∀ sc ∈ scs, ∀ r, (calls r)[sc.number]? = some (sc.col.call r)
  numbers : scs.Pairwise fun sc sc' => sc.number < sc'.number

section
variable {pair : Pair}

/-- Without the stream path a call raises or takes the barrier path. -/
theorem route_barrier (hpath : pair.useStreamPath = false) (r : Rank) (e : ℕ) (tensor : Tensor) :
    (pair.comm r).route e tensor =
      if tensor.device = pair.device r ∧ tensor.sizeBytes ≤ pair.maxSizeBytes then some .barrier
      else none := by
  by_cases hd : tensor.device = pair.device r <;>
    by_cases hs : tensor.sizeBytes ≤ pair.maxSizeBytes <;>
      simp [SharedMemoryAllReduce.route, Pair.comm, hpath, hd, hs]

/-- A pair of calls that both pass their checks. -/
def collectiveOf (call call' : Call NativeStep) (hshape : call.tensor.SameShape call'.tensor)
    (hzero : call.tensor.device = pair.device .zero) (hone : call'.tensor.device = pair.device .one)
    (hfits : call.tensor.sizeBytes ≤ pair.maxSizeBytes) : Collective pair where
  call
    | .zero => call
    | .one => call'
  onDevice
    | .zero => hzero
    | .one => hone
  fits
    | .zero => hfits
    | .one => hshape.sizeBytes ▸ hfits
  sameShape
    | .zero => hshape
    | .one => ⟨hshape.1.symm, hshape.2.symm⟩

theorem exists_sharedFrom (hpath : pair.useStreamPath = false) {l l' : List (Call NativeStep)}
    (h : List.Forall₂ (fun call call' => call.tensor.SameShape call'.tensor ∧
      (call.tensor.device = pair.device .zero ↔ call'.tensor.device = pair.device .one)) l l')
    (e n : ℕ) : ∃ scs : List (SharedCall pair),
      planFrom (pair.comm .zero) e n l = scs.map (fun sc => sc.planned .zero) ∧
      planFrom (pair.comm .one) e n l' = scs.map (fun sc => sc.planned .one) ∧
      (∀ sc ∈ scs, sc.route = .barrier ∧ n ≤ sc.number ∧
        l[sc.number - n]? = some (sc.col.call .zero) ∧
        l'[sc.number - n]? = some (sc.col.call .one)) ∧
      scs.Pairwise fun sc sc' => sc.number < sc'.number := by
  induction h generalizing n with
  | nil => exact ⟨[], rfl, rfl, by simp, .nil⟩
  | @cons call call' l l' hcall _ ih =>
    obtain ⟨hshape, hdevice⟩ := hcall
    obtain ⟨scs, hzero, hone, hmem, hpw⟩ := ih (n + 1)
    have hlater : ∀ sc ∈ scs, sc.route = .barrier ∧ n < sc.number ∧
        (call :: l)[sc.number - n]? = some (sc.col.call .zero) ∧
        (call' :: l')[sc.number - n]? = some (sc.col.call .one) := by
      intro sc hsc
      obtain ⟨hroute, hle, hcall, hcall'⟩ := hmem sc hsc
      refine ⟨hroute, hle, ?_⟩
      rw [show sc.number - n = sc.number - (n + 1) + 1 by omega]
      exact ⟨hcall, hcall'⟩
    have hsize := hshape.sizeBytes
    by_cases hpass : call.tensor.device = pair.device .zero ∧
        call.tensor.sizeBytes ≤ pair.maxSizeBytes
    · have hpass' : call'.tensor.device = pair.device .one ∧
          call'.tensor.sizeBytes ≤ pair.maxSizeBytes := ⟨hdevice.mp hpass.1, hsize ▸ hpass.2⟩
      refine ⟨⟨n, .barrier, collectiveOf call call' hshape hpass.1 hpass'.1 hpass.2⟩ :: scs,
        ?_, ?_, ?_, ?_⟩
      · rw [planFrom, route_barrier hpath, if_pos hpass, List.map_cons, ← hzero]
        rfl
      · rw [planFrom, route_barrier hpath, if_pos hpass', List.map_cons, ← hone]
        rfl
      · intro sc hsc
        rcases List.mem_cons.mp hsc with rfl | hsc
        · exact ⟨rfl, Nat.le_refl _, by simp [collectiveOf], by simp [collectiveOf]⟩
        · obtain ⟨hroute, hlt, hcalls⟩ := hlater sc hsc
          exact ⟨hroute, hlt.le, hcalls⟩
      · exact List.pairwise_cons.mpr ⟨fun sc hsc => (hlater sc hsc).2.1, hpw⟩
    · have hpass' : ¬ (call'.tensor.device = pair.device .one ∧
          call'.tensor.sizeBytes ≤ pair.maxSizeBytes) := by rwa [← hdevice, ← hsize]
      refine ⟨scs, ?_, ?_, fun sc hsc => ?_, hpw⟩
      · rw [planFrom, route_barrier hpath, if_neg hpass]
        exact hzero
      · rw [planFrom, route_barrier hpath, if_neg hpass']
        exact hone
      · obtain ⟨hroute, hlt, hcalls⟩ := hlater sc hsc
        exact ⟨hroute, hlt.le, hcalls⟩

variable {calls : Rank → List (Call NativeStep)}

theorem BarrierCalls.exists_shares (h : BarrierCalls pair calls) :
    ∃ scs, Shares pair calls scs := by
  obtain ⟨scs, hzero, hone, hmem, hpw⟩ := exists_sharedFrom h.noStreamPath h.paired 0 0
  refine ⟨scs, ?_, fun sc hsc => (hmem sc hsc).1, ?_, hpw⟩
  · intro r
    cases r
    · exact hzero
    · exact hone
  · intro sc hsc r
    obtain ⟨-, -, hcall, hcall'⟩ := hmem sc hsc
    cases r
    · exact hcall
    · exact hcall'

end

/-! ### Where the hosts are -/

section
variable {pair : Pair} {calls : Rank → List (Call NativeStep)} {scs : List (SharedCall pair)}

theorem Shares.program_eq (h : Shares pair calls scs) (r : Rank) :
    program pair calls r = scs.flatMap fun sc => (sc.planned r).instrs r := by
  rw [MappedHost.program_eq, h.plan_eq, List.flatMap_map]

/-- The seven steps of a call none of which fails. -/
theorem Shares.instrs_eq (h : Shares pair calls scs) (hcalls : BarrierCalls pair calls)
    {sc : SharedCall pair} (hsc : sc ∈ scs) (r : Rank) :
    ((sc.planned r).instrs r).map Instr.op =
      Planned.ops r ⟨sc.number, .barrier, sc.col.call r⟩ := by
  have hfault := hcalls.noFault r _ (List.mem_of_getElem? (h.call_eq sc hsc r))
  rw [Planned.instrs_of_fault_none hfault, SharedCall.planned, h.barrier sc hsc]

theorem Shares.length_instrs (h : Shares pair calls scs) (hcalls : BarrierCalls pair calls)
    {sc : SharedCall pair} (hsc : sc ∈ scs) (r : Rank) : ((sc.planned r).instrs r).length = 7 := by
  rw [← List.length_map (f := Instr.op), h.instrs_eq hcalls hsc]
  rfl

/-- Step i of a rank's program is step i % 7 of call i / 7. -/
theorem Shares.step_eq (h : Shares pair calls scs) (hcalls : BarrierCalls pair calls) {r : Rank}
    {i : ℕ} {instr : HostInstr} (hi : (program pair calls r)[i]? = some instr) :
    ∃ sc, scs[i / 7]? = some sc ∧
      BarrierOp r sc.number (sc.col.call r).tensor (i % 7) instr.op := by
  rw [h.program_eq, getElem?_flatMap_blocks (by decide)
    fun sc hsc => h.length_instrs hcalls hsc r] at hi
  obtain ⟨sc, hsc, hop⟩ := Option.bind_eq_some_iff.mp hi
  refine ⟨sc, hsc, BarrierOp.of_getElem? ?_⟩
  rw [← h.instrs_eq hcalls (List.mem_of_getElem? hsc), List.getElem?_map, hop]
  rfl

/-- Nothing is enqueued. -/
theorem Shares.not_isEnqueue (h : Shares pair calls scs) (r : Rank) (s : Rank × StreamId)
    (op : Op) : .enqueue s op ∉ program pair calls r := by
  rw [h.program_eq]
  intro hmem
  obtain ⟨sc, hsc, hmem⟩ := List.mem_flatMap.mp hmem
  obtain ⟨rest, hrest⟩ := (sc.planned r).instrs_append r
  have hall : .enqueue s op ∈ ((sc.planned r).route.steps r sc.number (sc.col.call r)).flatMap
      Prod.snd := hrest ▸ List.mem_append_left _ hmem
  rw [SharedCall.planned, h.barrier sc hsc] at hall
  simp [Route.steps, barrierSteps, barrierWait, Win32PairBarrier.wait] at hall

/-- How many steps each host has made. -/
structure At (pair : Pair) (calls : Rank → List (Call NativeStep))
    (c : HostConfig Rank (Rank × StreamId) Op Mem) (done : Rank → ℕ) : Prop where
  pending : ∀ r, c.pending r = (program pair calls r).drop (done r)
  done_le : ∀ r, done r ≤ (program pair calls r).length
  queue : ∀ s, c.queue s = []

variable {addValues : AddValues} {c c' : HostConfig Rank (Rank × StreamId) Op Mem}
  {done : Rank → ℕ}

/-- A step is the next step of the call a host is at. -/
theorem At.step (hat : At pair calls c done) (h : Shares pair calls scs)
    (hcalls : BarrierCalls pair calls) (hst : HostStep (device addValues) c c') :
    ∃ r op sc, scs[done r / 7]? = some sc ∧
      BarrierOp r sc.number (sc.col.call r).tensor (done r % 7) op ∧ op.ready c.mem ∧
      c'.mem = op.run addValues c.mem ∧
      At pair calls c' (Function.update done r (done r + 1)) := by
  cases hst with
  | @enqueue r s op is hp =>
    rw [hat.pending] at hp
    exact absurd (List.mem_of_mem_drop (hp ▸ List.mem_cons_self)) (h.not_isEnqueue r s op)
  | execute hq _ => simp [hat.queue] at hq
  | @call r s b op is hp _ hr =>
    rw [hat.pending] at hp
    have hi : (program pair calls r)[done r]? = some (.call s b op) := by
      rw [← List.head?_drop, hp]
      rfl
    have his : (program pair calls r).drop (done r + 1) = is := by
      rw [← List.tail_drop, hp]
      rfl
    obtain ⟨sc, hsc, hop⟩ := h.step_eq hcalls hi
    refine ⟨r, op, sc, hsc, hop, hr, rfl, ?_, ?_, hat.queue⟩
    · intro q
      by_cases hq : q = r
      · subst hq
        simpa using his.symm
      · simpa [hq] using hat.pending q
    · intro q
      by_cases hq : q = r
      · subst hq
        rw [Function.update_self]
        exact (List.getElem?_eq_some_iff.mp hi).1
      · simpa [hq] using hat.done_le q

/-! ### The hosts at the barrier -/

/-- What is left of the wait a host is in at step n of a call. -/
def leftAt (r : Rank) (n : ℕ) : List EventOp :=
  if n = 1 ∨ n = 5 then Win32PairBarrier.wait r else if n = 2 ∨ n = 6 then [.wait r.peer] else []

/-- The hosts as the barrier sees them. -/
def atBarrier (done : Rank → ℕ) (events : Events) : BarrierState where
  left r := leftAt r (done r % 7)
  events := events
  entered r := 2 * (done r / 7) + (if 1 ≤ done r % 7 then 1 else 0) +
    if 5 ≤ done r % 7 then 1 else 0
  returned r := 2 * (done r / 7) + if 3 ≤ done r % 7 then 1 else 0

section
variable {events : Events} {r : Rank}

/-- The add between the two waits is no step at the barrier. -/
theorem atBarrier_addSlots (h : done r % 7 = 3) :
    atBarrier (Function.update done r (done r + 1)) events = atBarrier done events := by
  have hmod : (done r + 1) % 7 = 4 := by omega
  have hdiv : (done r + 1) / 7 = done r / 7 := by omega
  ext q
  all_goals
    by_cases hq : q = r
    · subst hq
      simp [atBarrier, leftAt, hmod, hdiv, h]
    · simp [atBarrier, hq]

/-- The copies bring the host to its next wait. -/
theorem atBarrier_copy (h : done r % 7 = 0 ∨ done r % 7 = 4) :
    atBarrier (Function.update done r (done r + 1)) events = (atBarrier done events).enter r := by
  have hdiv : (done r + 1) / 7 = done r / 7 := by omega
  rcases h with h | h
  all_goals
    have hmod : (done r + 1) % 7 = done r % 7 + 1 := by omega
    ext q
    all_goals
      by_cases hq : q = r
      · subst hq
        simp [atBarrier, BarrierState.enter, leftAt, hmod, hdiv, h]
      · simp [atBarrier, BarrierState.enter, hq]

theorem atBarrier_set (h : done r % 7 = 1 ∨ done r % 7 = 5) :
    atBarrier (Function.update done r (done r + 1)) (EventOp.run (.set r) events) =
      (atBarrier done events).proceed r (.set r) [.wait r.peer] := by
  have hdiv : (done r + 1) / 7 = done r / 7 := by omega
  rcases h with h | h
  all_goals
    have hmod : (done r + 1) % 7 = done r % 7 + 1 := by omega
    ext q
    all_goals
      by_cases hq : q = r
      · subst hq
        simp [atBarrier, BarrierState.proceed, leftAt, hmod, hdiv, h]
      · simp [atBarrier, BarrierState.proceed, hq]

theorem atBarrier_wait (h : done r % 7 = 2 ∨ done r % 7 = 6) :
    atBarrier (Function.update done r (done r + 1)) (EventOp.run (.wait r.peer) events) =
      (atBarrier done events).proceed r (.wait r.peer) [] := by
  rcases h with h | h
  · have hmod : (done r + 1) % 7 = 3 := by omega
    have hdiv : (done r + 1) / 7 = done r / 7 := by omega
    ext q
    all_goals
      by_cases hq : q = r
      · subst hq
        simp [atBarrier, BarrierState.proceed, leftAt, hmod, hdiv, h]
      · simp [atBarrier, BarrierState.proceed, hq]
  · have hmod : (done r + 1) % 7 = 0 := by omega
    have hdiv : 2 * ((done r + 1) / 7) = 2 * (done r / 7) + 1 + 1 := by omega
    ext q
    all_goals
      by_cases hq : q = r
      · subst hq
        simp [atBarrier, BarrierState.proceed, leftAt, hmod, hdiv, h]
      · simp [atBarrier, BarrierState.proceed, hq]

variable (addValues) in
/-- Every step of a host is one at the barrier or none. -/
theorem atBarrier_step {number : ℕ} {tensor : Tensor} {op : Op} {m : Mem}
    (hop : BarrierOp r number tensor (done r % 7) op) (hready : op.ready m) :
    atBarrier (Function.update done r (done r + 1)) (op.run addValues m).events =
        atBarrier done m.events ∨
      CrossingStep (atBarrier done m.events)
        (atBarrier (Function.update done r (done r + 1)) (op.run addValues m).events) := by
  cases hop with
  | copy hn | copyOutput hn =>
    refine .inr ?_
    simp only [Op.run]
    rw [atBarrier_copy (by omega)]
    exact .enter (by simp [atBarrier, leftAt, hn])
  | addSlots hn => exact .inl (atBarrier_addSlots hn)
  | firstSet hn | secondSet hn =>
    refine .inr ?_
    simp only [Op.run]
    rw [atBarrier_set (by omega)]
    exact .proceed (by simp [atBarrier, leftAt, hn, Win32PairBarrier.wait]) trivial
  | firstWait hn | secondWait hn =>
    refine .inr ?_
    simp only [Op.run]
    rw [atBarrier_wait (by omega)]
    exact .proceed (by simp [atBarrier, leftAt, hn]) hready

end

/-- The hosts use the barrier as any two ranks do. -/
theorem barrier_simulation (h : Shares pair calls scs) (hcalls : BarrierCalls pair calls)
    (slot localOutput : Rank → Bytes) :
    System.Simulation (system addValues pair calls slot localOutput) crossings
      fun c b => ∃ done, At pair calls c done ∧ b = atBarrier done c.mem.events where
  init c hc := by
    subst hc
    refine ⟨.start, rfl, fun _ => 0, ⟨fun _ => rfl, fun _ => Nat.zero_le _, fun _ => rfl⟩, ?_⟩
    ext q <;> simp [atBarrier, leftAt, BarrierState.start, HostConfig.start, Mem.start]
  step c c' b hb hst := by
    obtain ⟨done, hat, rfl⟩ := hb
    obtain ⟨r, op, sc, -, hop, hready, hmem, hat'⟩ := hat.step h hcalls hst
    rcases atBarrier_step addValues hop hready with hstay | hcross
    · exact .inl ⟨_, hat', by rw [hmem, hstay]⟩
    · exact .inr ⟨_, hcross, _, hat', by rw [hmem]⟩

theorem reachable_atBarrier (h : Shares pair calls scs) (hcalls : BarrierCalls pair calls)
    {slot localOutput : Rank → Bytes}
    (hc : (system addValues pair calls slot localOutput).Reachable c) :
    ∃ done, At pair calls c done ∧ crossings.Reachable (atBarrier done c.mem.events) := by
  obtain ⟨b, hb, done, hat, rfl⟩ := (barrier_simulation h hcalls slot localOutput).reachable hc
  exact ⟨done, hat, hb⟩

/-- How far a host is can be read off what it has still to do. -/
theorem At.unique {done' : Rank → ℕ} (hat : At pair calls c done) (hat' : At pair calls c done') :
    done = done' := by
  funext r
  have hlen := congrArg List.length ((hat.pending r).symm.trans (hat'.pending r))
  have := hat.done_le r
  have := hat'.done_le r
  simp only [List.length_drop] at hlen
  omega

/-- A rank past a crossing has a peer that has signalled for it. -/
theorem peer_signalled {events : Events} (hb : crossings.Reachable (atBarrier done events))
    (r : Rank) (k : ℕ) : (7 * k + 3 ≤ done r → 7 * k + 2 ≤ done r.peer) ∧
      (7 * k + 7 ≤ done r → 7 * k + 6 ≤ done r.peer) := by
  have hle := returned_le_signalled hb r
  have hunsignalled : Win32PairBarrier.unsignalled (atBarrier done events) r.peer =
      if done r.peer % 7 = 1 ∨ done r.peer % 7 = 5 then 1 else 0 := by
    simp only [Win32PairBarrier.unsignalled, atBarrier, leftAt, Rank.peer_peer]
    split_ifs <;> simp_all [Win32PairBarrier.wait]
  rw [hunsignalled] at hle
  simp only [atBarrier] at hle
  constructor
  · intro hr
    split_ifs at hle <;> omega
  · intro hr
    split_ifs at hle <;> omega

/-! ### The slots -/

/-- From its copy to the next a slot holds the payload of one call. -/
def SlotsAt (scs : List (SharedCall pair)) (done : Rank → ℕ) (m : Mem) : Prop :=
  ∀ (r : Rank) (k : ℕ) (sc : SharedCall pair), scs[k]? = some sc → 7 * k < done r →
    done r ≤ 7 * k + 7 → (sc.col.call r).tensor.data <+: m.slot r

/-- Between its add and its copy the pinned buffer of a rank holds the sum. -/
def LocalsAt (addValues : AddValues) (scs : List (SharedCall pair)) (done : Rank → ℕ) (m : Mem) :
    Prop :=
  ∀ (r : Rank) (k : ℕ) (sc : SharedCall pair), scs[k]? = some sc → done r = 7 * k + 4 →
    sc.rankSum addValues <+: m.localOutput r

/-- The output of a call is filled by its copy, with the sum. -/
def OutputsAt (addValues : AddValues) (scs : List (SharedCall pair)) (done : Rank → ℕ) (m : Mem) :
    Prop :=
  ∀ (r : Rank) (k : ℕ) (sc : SharedCall pair), scs[k]? = some sc →
    m.output r sc.number = if 7 * k + 5 ≤ done r then some (sc.rankSum addValues) else none

section
variable {r : Rank} {m m' : Mem}

theorem SlotsAt.of_eq (hs : SlotsAt scs done m) (heq : m'.slot = m.slot) (h0 : done r % 7 ≠ 0) :
    SlotsAt scs (Function.update done r (done r + 1)) m' := by
  intro q i sc hi hlt hle
  rw [heq]
  by_cases hq : q = r
  · subst hq
    rw [Function.update_self] at hlt hle
    exact hs q i sc hi (by omega) (by omega)
  · rw [Function.update_of_ne hq] at hlt hle
    exact hs q i sc hi hlt hle

theorem LocalsAt.of_eq (hl : LocalsAt addValues scs done m) (heq : m'.localOutput = m.localOutput)
    (h3 : done r % 7 ≠ 3) : LocalsAt addValues scs (Function.update done r (done r + 1)) m' := by
  intro q i sc hi hq4
  rw [heq]
  by_cases hq : q = r
  · subst hq
    rw [Function.update_self] at hq4
    omega
  · rw [Function.update_of_ne hq] at hq4
    exact hl q i sc hi hq4

theorem OutputsAt.of_eq (ho : OutputsAt addValues scs done m) (heq : m'.output = m.output)
    (h4 : done r % 7 ≠ 4) : OutputsAt addValues scs (Function.update done r (done r + 1)) m' := by
  intro q i sc hi
  rw [heq, ho q i sc hi]
  by_cases hq : q = r
  · subst hq
    rw [Function.update_self]
    exact if_congr (by omega) rfl rfl
  · rw [Function.update_of_ne hq]

theorem SlotsAt.of_copy (hs : SlotsAt scs done m) {sc : SharedCall pair}
    (hsc : scs[done r / 7]? = some sc) (h0 : done r % 7 = 0) :
    SlotsAt scs (Function.update done r (done r + 1))
      ((Op.copyToSlot r (sc.col.call r).tensor.data).run addValues m) := by
  intro q i sc' hi hlt hle
  by_cases hq : q = r
  · subst hq
    rw [Function.update_self] at hlt hle
    obtain rfl : i = done q / 7 := by omega
    obtain rfl : sc = sc' := Option.some.inj (hsc.symm.trans hi)
    simpa [Op.run] using copyKernel_prefix _ _
  · rw [Function.update_of_ne hq] at hlt hle
    simpa [Op.run, hq] using hs q i sc' hi hlt hle

/-- When a host adds, both slots hold the payloads of its call. -/
theorem SlotsAt.both {events : Events} (hs : SlotsAt scs done m)
    (hb : crossings.Reachable (atBarrier done events)) {sc : SharedCall pair}
    (hsc : scs[done r / 7]? = some sc) (h3 : done r % 7 = 3) (q : Rank) :
    (sc.col.call q).tensor.data <+: m.slot q := by
  rcases Rank.eq_or_eq_peer q r with rfl | rfl
  · exact hs q _ sc hsc (by omega) (by omega)
  · have hpast := (peer_signalled hb r (done r / 7)).1 (by omega)
    -- a peer in a later call would have passed a crossing this host has not come to
    have hnot := (peer_signalled hb r.peer (done r / 7)).2
    rw [Rank.peer_peer] at hnot
    exact hs r.peer _ sc hsc (by omega) (by omega)

theorem LocalsAt.of_add {events : Events} (hl : LocalsAt addValues scs done m)
    (hs : SlotsAt scs done m) (hb : crossings.Reachable (atBarrier done events))
    {sc : SharedCall pair} (hsc : scs[done r / 7]? = some sc) (h3 : done r % 7 = 3) :
    LocalsAt addValues scs (Function.update done r (done r + 1))
      ((Op.addSlots r (sc.col.call r).tensor.dtype (sc.col.call r).tensor.numel).run addValues
        m) := by
  intro q i sc' hi hq4
  by_cases hq : q = r
  · subst hq
    rw [Function.update_self] at hq4
    obtain rfl : i = done q / 7 := by omega
    obtain rfl : sc = sc' := Option.some.inj (hsc.symm.trans hi)
    simp only [Op.run, Function.update_self, addSlots_eq (hs.both hb hsc h3) q]
    exact copyKernel_prefix _ _
  · rw [Function.update_of_ne hq] at hq4
    simpa [Op.run, hq] using hl q i sc' hi hq4

theorem OutputsAt.of_copy (ho : OutputsAt addValues scs done m) (h : Shares pair calls scs)
    (hl : LocalsAt addValues scs done m) {sc : SharedCall pair}
    (hsc : scs[done r / 7]? = some sc) (h4 : done r % 7 = 4) :
    OutputsAt addValues scs (Function.update done r (done r + 1))
      ((Op.copyOutput r sc.number (sc.col.call r).tensor.sizeBytes).run addValues m) := by
  intro q i sc' hi
  by_cases hq : q = r
  · subst hq
    rw [Function.update_self]
    by_cases hik : i = done q / 7
    · subst hik
      obtain rfl : sc = sc' := Option.some.inj (hsc.symm.trans hi)
      obtain ⟨rest, hrest⟩ := hl q _ sc hsc (by omega)
      rw [if_pos (by omega)]
      simp [Op.run, ← hrest, List.take_left' (rankSum_length q)]
    · have hnumber : sc'.number ≠ sc.number :=
        fun heq => hik (index_of_number h.numbers hi hsc heq)
      simp only [Op.run, Function.update_self, Function.update_of_ne hnumber]
      rw [ho q i sc' hi]
      exact if_congr (by omega) rfl rfl
  · rw [Function.update_of_ne hq]
    simpa [Op.run, hq] using ho q i sc' hi

end

/-- The memory at a state of the hosts. -/
structure MemoryAt (addValues : AddValues) (scs : List (SharedCall pair)) (done : Rank → ℕ)
    (m : Mem) : Prop where
  slots : SlotsAt scs done m
  locals : LocalsAt addValues scs done m
  outputs : OutputsAt addValues scs done m

theorem MemoryAt.step {m : Mem} (inv : MemoryAt addValues scs done m) (h : Shares pair calls scs)
    (hb : crossings.Reachable (atBarrier done m.events)) {r : Rank} {op : Op} {sc : SharedCall pair}
    (hsc : scs[done r / 7]? = some sc)
    (hop : BarrierOp r sc.number (sc.col.call r).tensor (done r % 7) op) :
    MemoryAt addValues scs (Function.update done r (done r + 1)) (op.run addValues m) := by
  cases hop with
  | copy hn =>
    exact ⟨inv.slots.of_copy hsc hn, inv.locals.of_eq rfl (by omega),
      inv.outputs.of_eq rfl (by omega)⟩
  | firstSet hn | firstWait hn | secondSet hn | secondWait hn =>
    exact ⟨inv.slots.of_eq rfl (by omega), inv.locals.of_eq rfl (by omega),
      inv.outputs.of_eq rfl (by omega)⟩
  | addSlots hn =>
    exact ⟨inv.slots.of_eq rfl (by omega), inv.locals.of_add inv.slots hb hsc hn,
      inv.outputs.of_eq rfl (by omega)⟩
  | copyOutput hn =>
    exact ⟨inv.slots.of_eq rfl (by omega), inv.locals.of_eq rfl (by omega),
      inv.outputs.of_copy h inv.locals hsc hn⟩

/-- The run lemma of the barrier path. -/
theorem reachable_memoryAt (h : Shares pair calls scs) (hcalls : BarrierCalls pair calls)
    {slot localOutput : Rank → Bytes}
    (hc : (system addValues pair calls slot localOutput).Reachable c) :
    ∀ done, At pair calls c done → MemoryAt addValues scs done c.mem := by
  refine System.Reachable.invariant
    (I := fun c => ∀ done, At pair calls c done → MemoryAt addValues scs done c.mem) ?_ ?_ hc
  · rintro _ rfl done hat
    have hstart : At pair calls (HostConfig.start (program pair calls) (.start slot localOutput))
        fun _ => 0 := ⟨fun _ => rfl, fun _ => Nat.zero_le _, fun _ => rfl⟩
    obtain rfl := hat.unique hstart
    exact ⟨fun r k sc _ hlt _ => absurd hlt (Nat.not_lt_zero _), fun r k sc _ h4 => by omega,
      fun r k sc _ => by simp [HostConfig.start, Mem.start]⟩
  · intro c c' hc inv hst done' hat'
    obtain ⟨done, hat, hb⟩ := reachable_atBarrier h hcalls hc
    obtain ⟨r, op, sc, hsc, hop, -, hmem, hnext⟩ := hat.step h hcalls hst
    obtain rfl := hat'.unique hnext
    rw [hmem]
    exact (inv done hat).step h hb hsc hop

/-! ### Between two crossings -/

variable (pair calls c) in
/-- The host of a rank has made the first n steps of a call. -/
def Within (r : Rank) (pl : Planned) (n : ℕ) : Prop :=
  ∃ earlier later, plan pair calls r = earlier ++ pl :: later ∧
    c.pending r = (pl.instrs r).drop n ++ later.flatMap (Planned.instrs r)

variable (pair calls c) in
/-- The host of a rank is through with call i. -/
def Past (r : Rank) (i : ℕ) : Prop :=
  ∃ earlier pl later, plan pair calls r = earlier ++ pl :: later ∧ pl.number = i ∧
    c.pending r <:+ later.flatMap (Planned.instrs r)

theorem Shares.length_blocks (h : Shares pair calls scs) (hcalls : BarrierCalls pair calls)
    (r : Rank) (later : List Planned) (hsub : later ⊆ plan pair calls r) :
    (later.flatMap (Planned.instrs r)).length = 7 * later.length := by
  have hlen : ∀ pl ∈ later, (pl.instrs r).length = 7 := by
    intro pl hpl
    have hmem := hsub hpl
    rw [h.plan_eq] at hmem
    obtain ⟨sc, hsc, rfl⟩ := List.mem_map.mp hmem
    exact h.length_instrs hcalls hsc r
  rw [List.length_flatMap, List.map_congr_left hlen]
  simp [Nat.mul_comm]

theorem At.pending_length (hat : At pair calls c done) (h : Shares pair calls scs)
    (hcalls : BarrierCalls pair calls) (r : Rank) :
    (c.pending r).length + done r = 7 * (plan pair calls r).length := by
  rw [hat.pending, List.length_drop, Nat.sub_add_cancel (hat.done_le r), MappedHost.program_eq,
    h.length_blocks hcalls r _ (List.Subset.refl _)]

theorem At.of_within (hat : At pair calls c done) (h : Shares pair calls scs)
    (hcalls : BarrierCalls pair calls) {r : Rank} {pl : Planned} {n : ℕ} (hn : n ≤ 7)
    (hw : Within pair calls c r pl n) : ∃ k, done r = 7 * k + n := by
  obtain ⟨earlier, later, hplan, hpending⟩ := hw
  have hlen := hat.pending_length h hcalls r
  have hall := h.length_blocks hcalls r (pl :: later) (by simp [hplan])
  have hlater := h.length_blocks hcalls r later
    (fun _ hmem => by simp [hplan, hmem])
  rw [hpending, hplan] at hlen
  simp only [List.flatMap_cons, List.length_append, List.length_cons, List.length_drop] at hlen hall
  exact ⟨earlier.length, by omega⟩

theorem At.of_past (hat : At pair calls c done) (h : Shares pair calls scs)
    (hcalls : BarrierCalls pair calls) {r : Rank} {i : ℕ} (hp : Past pair calls c r i) :
    ∃ k sc, scs[k]? = some sc ∧ sc.number = i ∧ 7 * k + 7 ≤ done r := by
  obtain ⟨earlier, pl, later, hplan, rfl, hsuffix⟩ := hp
  have hlen := hat.pending_length h hcalls r
  have hlater := h.length_blocks hcalls r later
    (fun _ hmem => by simp [hplan, hmem])
  have hle := hsuffix.length_le
  have hget : (plan pair calls r)[earlier.length]? = some pl := by simp [hplan]
  rw [h.plan_eq, List.getElem?_map] at hget
  obtain ⟨sc, hsc, rfl⟩ := Option.map_eq_some_iff.mp hget
  rw [hplan, List.length_append, List.length_cons] at hlen
  exact ⟨earlier.length, sc, hsc, rfl, by omega⟩

/-- While a rank is between the two crossings of a call, its peer is not at a copy to its slot. -/
theorem not_copying {events : Events} (hb : crossings.Reachable (atBarrier done events))
    {r : Rank} {k n : ℕ} (hpeer : done r.peer = 7 * k + n) (h3 : 3 ≤ n) (h5 : n ≤ 5) :
    done r % 7 ≠ 0 := by
  intro h0
  have hfirst := (peer_signalled hb r.peer k).1 (by omega)
  rw [Rank.peer_peer] at hfirst
  have hsecond := (peer_signalled hb r k).2
  omega

end

/-- What the barrier path is to guarantee. Between the return of a rank's first wait and its second
wait the peer's slot is not written; a filled output is the sum of its own call, and the output of a
call that returned is filled. -/
structure BarrierSafe (addValues : AddValues) (pair : Pair) (calls : Rank → List (Call NativeStep))
    (S : System (HostConfig Rank (Rank × StreamId) Op Mem)) : Prop where
  notRewritten : ∀ c, S.Reachable c → ∀ r pl n, Within pair calls c r.peer pl n → 3 ≤ n → n ≤ 5 →
    (∀ s blocking data rest, c.pending r ≠ .call s blocking (.copyToSlot r data) :: rest) ∧
    ∀ c', S.step c c' → c'.mem.slot r = c.mem.slot r
  sums : ∀ c, S.Reachable c → ∀ r i call call' ref bytes, (calls .zero)[i]? = some call →
    (calls .one)[i]? = some call' → returned pair calls r i ref →
      readOutput c.mem r ref = some bytes → bytes = call.tensor.sum addValues call'.tensor
  complete : ∀ c, S.Reachable c → ∀ r i ref, returned pair calls r i ref →
    Past pair calls c r i → (readOutput c.mem r ref).isSome

section
variable {pair : Pair} {calls : Rank → List (Call NativeStep)} {addValues : AddValues}
  {c : HostConfig Rank (Rank × StreamId) Op Mem} {slot localOutput : Rank → Bytes}

theorem notRewritten_of_barrier (hcalls : BarrierCalls pair calls)
    (hc : (system addValues pair calls slot localOutput).Reachable c) {r : Rank} {pl : Planned}
    {n : ℕ} (hw : Within pair calls c r.peer pl n) (h3 : 3 ≤ n) (h5 : n ≤ 5) :
    (∀ s blocking data rest, c.pending r ≠ .call s blocking (.copyToSlot r data) :: rest) ∧
    ∀ c', (system addValues pair calls slot localOutput).step c c' →
      c'.mem.slot r = c.mem.slot r := by
  obtain ⟨scs, h⟩ := hcalls.exists_shares
  obtain ⟨done, hat, hb⟩ := reachable_atBarrier h hcalls hc
  obtain ⟨k, hpeer⟩ := hat.of_within h hcalls (by omega) hw
  have hnot := not_copying hb hpeer h3 h5
  constructor
  · intro s blocking data rest hpending
    rw [hat.pending] at hpending
    obtain ⟨sc, -, hop⟩ := h.step_eq hcalls (r := r) (i := done r) (by
      rw [← List.head?_drop, hpending]
      rfl)
    cases hop with
    | copy hn => exact hnot hn
  · intro c' hst
    obtain ⟨q, op, sc, -, hop, -, hmem, -⟩ := hat.step h hcalls hst
    rw [hmem]
    cases hop with
    | copy hn =>
      have hq : r ≠ q := by
        rintro rfl
        exact hnot hn
      simp [Op.run, hq]
    | _ => rfl

/-- What a call that returns gives on the barrier path. -/
theorem shared_of_barrier_returned {scs : List (SharedCall pair)} (h : Shares pair calls scs)
    {r : Rank} {i : ℕ} {ref : TensorRef} (hret : returned pair calls r i ref) :
    ∃ (k : ℕ) (sc : SharedCall pair), scs[k]? = some sc ∧ sc.number = i ∧
      ref = outputRef i (sc.col.call r).tensor := by
  obtain ⟨pl, hpl, hnum, -, href, -⟩ := makeCalls_result _ _ _ i ref hret
  simp only [State.start, Nat.zero_add] at hpl hnum href
  rw [show planFrom (pair.comm r) 0 0 (calls r) = plan pair calls r from rfl, h.plan_eq] at hpl
  obtain ⟨sc, hsc, rfl⟩ := List.mem_map.mp hpl
  obtain ⟨k, hk⟩ := List.getElem?_of_mem hsc
  exact ⟨k, sc, hk, hnum, href⟩

theorem barrierSafe (hcalls : BarrierCalls pair calls) (slot localOutput : Rank → Bytes) :
    BarrierSafe addValues pair calls (system addValues pair calls slot localOutput) where
  notRewritten c hc r pl n hw h3 h5 := notRewritten_of_barrier hcalls hc hw h3 h5
  sums c hc r i call call' ref bytes hzero hone hret hread := by
    obtain ⟨scs, h⟩ := hcalls.exists_shares
    obtain ⟨done, hat, -⟩ := reachable_atBarrier h hcalls hc
    have inv := reachable_memoryAt h hcalls hc done hat
    obtain ⟨k, sc, hsc, rfl, rfl⟩ := shared_of_barrier_returned h hret
    have hcall := h.call_eq sc (List.mem_of_getElem? hsc)
    obtain rfl := Option.some.inj ((hcall .zero).symm.trans hzero)
    obtain rfl := Option.some.inj ((hcall .one).symm.trans hone)
    by_cases hnumel : (sc.col.call r).tensor.numel = 0
    · simp only [outputRef, hnumel, if_true, readOutput, Option.some.injEq] at hread
      simp [← hread, Tensor.sum, ← sc.numel_eq r, hnumel]
    · simp only [outputRef, hnumel, if_false, readOutput, inv.outputs r k sc hsc] at hread
      split_ifs at hread
      exact (Option.some.inj hread).symm
  complete c hc r i ref hret hpast := by
    obtain ⟨scs, h⟩ := hcalls.exists_shares
    obtain ⟨done, hat, -⟩ := reachable_atBarrier h hcalls hc
    have inv := reachable_memoryAt h hcalls hc done hat
    obtain ⟨k, sc, hsc, rfl, rfl⟩ := shared_of_barrier_returned h hret
    obtain ⟨k', sc', hsc', hnum, hdone⟩ := hat.of_past h hcalls hpast
    obtain rfl := index_of_number h.numbers hsc' hsc hnum
    by_cases hnumel : (sc.col.call r).tensor.numel = 0
    · simp [outputRef, hnumel, readOutput]
    · have hfilled : 7 * k' + 5 ≤ done r := by omega
      simp [outputRef, hnumel, readOutput, inv.outputs r k' sc hsc, hfilled]

end

/-- The barrier never releases early, whatever times out or raises; and on a communicator without
the stream path this keeps the slots apart, so that every call gives its own sum. -/
theorem pairBarrier_neverEarly :
    (∀ b, crossings.Reachable b → ∀ r, b.returned r ≤ b.entered r.peer) ∧
    ∀ addValues pair calls slot localOutput, BarrierCalls pair calls →
      BarrierSafe addValues pair calls (system addValues pair calls slot localOutput) :=
  ⟨fun _ hb r => Win32PairBarrier.returned_le_entered hb r,
    fun _ _ _ slot localOutput hcalls => barrierSafe hcalls slot localOutput⟩

/-- A pair on devices 0 and 1 with 4 KiB slots and without the stream path. -/
def barrierPair : Pair where
  device := Rank.index
  maxSizeBytes := 4096
  kernel _ := true
  useStreamPath := false
  kernel_present h := absurd h (by decide)

/-- One element of the dtype, of which only the first byte is nonzero. -/
def barrierCall (dtype : Dtype) (hsize : dtype.elementSize = 4) (byte : UInt8) (r : Rank) :
    Call NativeStep :=
  ⟨⟨dtype, [1], r.index, [byte, 0, 0, 0], by simp [hsize]⟩, 1, none⟩

/-- A call of integers and one of floats. -/
def barrierSample (r : Rank) : List (Call NativeStep) :=
  [barrierCall .int32 elementSize_int32 1 r, barrierCall .float32 elementSize_float32 2 r]

theorem pairBarrier_neverEarly_sample :
    BarrierSafe addBytes barrierPair barrierSample
      (system addBytes barrierPair barrierSample (fun _ => []) (fun _ => [])) := by
  refine pairBarrier_neverEarly.2 addBytes barrierPair barrierSample _ _ ⟨rfl, ?_, ?_⟩
  · refine .cons ⟨⟨rfl, rfl⟩, ?_⟩ (.cons ⟨⟨rfl, rfl⟩, ?_⟩ .nil) <;>
      simp [barrierCall, barrierPair]
  · simp [barrierSample, barrierCall]

end MultiGpuTransport.MappedHost
