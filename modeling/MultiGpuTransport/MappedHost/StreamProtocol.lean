import Mathlib.Data.Nat.Find
import MultiGpuTransport.MappedHost.Words

/-!
# The stream path

All calls take the stream path, each on a stream of its choice. Whatever fails, an add only ever
finds the peer's payload of its own epoch; and if nothing fails, everything finishes.
-/
namespace MultiGpuTransport.MappedHost
open Streams Transition

/-- The pair has the stream path and both ranks' calls pass its checks. -/
structure StreamCalls (pair : Pair) (calls : Rank → List (Call NativeStep)) : Prop where
  useStreamPath : pair.useStreamPath = true
  onDevice : ∀ r, ∀ call ∈ calls r, call.tensor.device = pair.device r
  fits : ∀ r, ∀ call ∈ calls r, call.tensor.sizeBytes ≤ pair.maxSizeBytes
  native : ∀ r, ∀ call ∈ calls r, call.tensor.dtype.isNative = true

section
variable {pair : Pair} {calls : Rank → List (Call NativeStep)}

/-- Every call takes the next epoch, up to the limit. -/
theorem planFrom_getElem? (comm : SharedMemoryAllReduce) (hpath : comm.useStreamPath = true)
    (hkernel : comm.kernel = true) (cs : List (Call NativeStep))
    (hcs : ∀ call ∈ cs, call.tensor.device = comm.device ∧
      call.tensor.sizeBytes ≤ comm.maxSizeBytes ∧ call.tensor.dtype.isNative = true)
    (e n k : ℕ) : (planFrom comm e n cs)[k]? =
      if e + k < epochLimit then cs[k]?.map fun call => ⟨n + k, .stream (e + k + 1), call⟩
      else none := by
  induction cs generalizing e n k with
  | nil => simp [planFrom]
  | cons call cs ih =>
    obtain ⟨⟨hd, hfits, hnative⟩, hcs⟩ := List.forall_mem_cons.mp hcs
    by_cases he : epochLimit ≤ e
    · have hroute : comm.route e call.tensor = none := by
        simp [SharedMemoryAllReduce.route, hd, Nat.not_lt.mpr hfits, hpath, hkernel, hnative, he]
      rw [planFrom, hroute]
      simp only [ih hcs, show ¬ e + k < epochLimit by omega, if_false]
    · have hroute : comm.route e call.tensor = some (.stream (e + 1)) := by
        simp [SharedMemoryAllReduce.route, hd, Nat.not_lt.mpr hfits, hpath, hkernel, hnative, he]
      rw [planFrom, hroute]
      cases k with
      | zero => simp [show e < epochLimit by omega]
      | succ k =>
        simp only [Route.epochAfter, List.getElem?_cons_succ, ih hcs, Nat.add_assoc, Nat.add_comm 1 k]

theorem StreamCalls.plan_getElem? (h : StreamCalls pair calls) (r : Rank) (k : ℕ) :
    (plan pair calls r)[k]? =
      if k < epochLimit then (calls r)[k]?.map fun call => ⟨k, .stream (k + 1), call⟩ else none := by
  have := planFrom_getElem? (pair.comm r) h.useStreamPath
    (pair.kernel_present h.useStreamPath r) (calls r)
    (fun call hc => ⟨h.onDevice r call hc, h.fits r call hc, h.native r call hc⟩) 0 0 k
  simpa [plan] using this

/-- Call k has number k and epoch k + 1. -/
theorem StreamCalls.of_plan (h : StreamCalls pair calls) {r : Rank} {k : ℕ} {pl : Planned}
    (hpl : (plan pair calls r)[k]? = some pl) :
    k < epochLimit ∧ (calls r)[k]? = some pl.call ∧ pl.number = k ∧ pl.route = .stream (k + 1) := by
  rw [h.plan_getElem?] at hpl
  split_ifs at hpl with hk
  obtain ⟨call, hcall, rfl⟩ := Option.map_eq_some_iff.mp hpl
  exact ⟨hk, hcall, rfl, rfl⟩

theorem StreamCalls.of_streamAt (h : StreamCalls pair calls) {r : Rank} {k e : ℕ} {t : Tensor}
    (hk : StreamAt pair calls r k e t) :
    e = k + 1 ∧ ∃ call, (calls r)[k]? = some call ∧ call.tensor = t := by
  obtain ⟨pl, hpl, hroute, rfl⟩ := hk
  obtain ⟨_, hcall, _, hroute'⟩ := h.of_plan hpl
  exact ⟨by simpa using hroute.symm.trans hroute', pl.call, hcall, rfl⟩

variable (pair calls) in
/-- The slot of a rank holds the payload of the last epoch the peer has not consumed, from its copy
on. -/
def Slots (p : Progress Rank Mem) : Prop :=
  ∀ r k e t, StreamAt pair calls r k e t → lead e + 1 ≤ p.pos r k →
    p.mem.value .consumed r + 1 = e → t.data <+: p.mem.slot r

variable {p : Progress Rank Mem} {r : Rank} {k e : ℕ} {t : Tensor} {op : Op}
  {addValues : AddValues}

/-- The copy of an epoch is made when the peer has consumed the epoch before. -/
theorem Words.before_copy (w : Words pair calls p) (h : StreamAt pair calls r k e t)
    (hpos : p.pos r k = lead e) : p.mem.value .consumed r + 1 = e := by
  have hnot : ¬ e ≤ p.mem.value .ready r := fun hle => by
    have := (w.wroteReady r k e t h).mpr hle
    omega
  have hsaw : e - 1 ≤ p.mem.value .consumed r := by
    by_cases he : 1 < e
    · exact w.sawConsumed r k e t h he (by simp [hpos, lead, he])
    · omega
  have := w.bounds r
  have := h.pos
  omega

/-- What an add finds in the peer's slot: the peer's payload of the same epoch. -/
theorem Words.add_finds (w : Words pair calls p) (hs : Slots pair calls p)
    (h : StreamAt pair calls r k e t) (hpos : p.pos r k = lead e + 3) (ht : t.numel ≠ 0) :
    ∃ k' t', StreamAt pair calls r.peer k' e t' ∧ t'.data <+: p.mem.slot r.peer := by
  have hadds : adds t = 1 := by simp [adds, ht]
  obtain ⟨hready, hconsumed⟩ := w.during_add h (by omega) (by omega)
  have := h.pos
  obtain ⟨k', t', h'⟩ := w.origin r.peer (by omega)
  rw [hready] at h'
  refine ⟨k', t', h', hs r.peer k' e t' h' ?_ hconsumed⟩
  have := (w.wroteReady r.peer k' e t' h').mpr hready.ge
  omega

theorem Slots.step (w : Words pair calls p) (hs : Slots pair calls p)
    (h : StreamAt pair calls r k e t) {number : ℕ} (hop : StreamOp r number e t (p.pos r k) op) :
    Slots pair calls (p.advance (device addValues) r k op) := by
  intro q i e' t' h' hcopied hlast
  -- Unless the operation is a copy or consumes the epoch, nothing that matters changes.
  have keep : (∀ q, (op.run addValues p.mem).slot q = p.mem.slot q) →
      (op.run addValues p.mem).value .consumed q = p.mem.value .consumed q →
      p.pos r k ≠ lead e → t'.data <+: (op.run addValues p.mem).slot q := by
    intro hslot hvalue hpos
    rw [hslot]
    refine hs q i e' t' h' ?_ (hvalue ▸ hlast)
    rw [Progress.advance_pos] at hcopied
    split_ifs at hcopied with hqi
    · obtain ⟨rfl, rfl⟩ := hqi
      obtain ⟨rfl, rfl⟩ := h.det h'
      omega
    · exact hcopied
  have hlead : lead e ≤ 1 := by unfold lead; split_ifs <;> omega
  change (op.run addValues p.mem).value .consumed q + 1 = e' at hlast
  change t'.data <+: (op.run addValues p.mem).slot q
  cases hop with
  | waitConsumed hn he => exact keep (fun _ => rfl) rfl (by simp [hn, lead, he])
  | copy hn =>
    by_cases hq : q = r
    · subst hq
      have hbefore := w.before_copy h hn
      have hee : e' = e := hlast.symm.trans hbefore
      subst hee
      obtain ⟨rfl, rfl⟩ := h'.inj h
      simpa [Op.run] using copyKernel_prefix _ _
    · have hqi : ¬ (q = r ∧ i = k) := fun hc => hq hc.1
      rw [Progress.advance_pos, if_neg hqi] at hcopied
      simpa [Op.run, hq] using hs q i e' t' h' hcopied hlast
  | writeReady hn => exact keep (fun _ => rfl) (by simp [Op.run_value]) (by omega)
  | waitReady hn => exact keep (fun _ => rfl) rfl (by omega)
  | add hn ht => exact keep (fun _ => rfl) rfl (by omega)
  | writeConsumed hn =>
    by_cases hq : q = r.peer
    · -- The next epoch cannot have been copied before this one is consumed.
      subst hq
      have he' : e' = e + 1 := by simpa [Op.run_value, eq_comm] using hlast
      have hqi : ¬ (r.peer = r ∧ i = k) := fun hc => Rank.peer_ne r hc.1
      rw [Progress.advance_pos, if_neg hqi] at hcopied
      have hsaw := w.sawConsumed r.peer i e' t' h' (by have := h.pos; omega) (by omega)
      have := (w.during_add h (by omega) (by omega)).2
      omega
    · exact keep (fun _ => rfl) (by simp [Op.run_value, hq]) (by omega)

/-- The run lemma for the slots. -/
theorem reachable_slots (hcalls : StreamCalls pair calls) {slot localOutput : Rank → Bytes}
    (hp : (progress (device addValues) (jobs pair calls) (.start slot localOutput)).Reachable p) :
    Slots pair calls p := by
  refine System.Reachable.invariant ?_ ?_ hp
  · rintro _ rfl r k e t _ h
    simp at h
  · rintro p _ hp hs ⟨hn, hr⟩
    obtain ⟨pl, hpl, hruns⟩ := next_runs hn
    obtain ⟨_, _, _, hroute⟩ := hcalls.of_plan hpl
    simp only [Planned.Runs, hroute] at hruns
    exact Slots.step (reachable_words hp) hs ⟨pl, hpl, hroute, rfl⟩ hruns

/-- What the stream path guarantees whatever fails: an add that is next on its stream belongs to a
call of its rank, and finds the peer's payload of the same epoch; each word counts. -/
structure StreamSafe (calls : Rank → List (Call NativeStep))
    (S : System (HostConfig Rank (Rank × StreamId) Op Mem)) : Prop where
  adds : ∀ c, S.Reachable c → ∀ r s q number dtype count source slot rest,
    c.queue (r, s) = .addPeer q number dtype count source slot :: rest →
      q = r ∧ slot = r.peer ∧ ∃ own other, (calls r)[number]? = some own ∧
        (calls r.peer)[number]? = some other ∧ source = own.tensor.data ∧
          other.tensor.data <+: c.mem.slot r.peer
  words : ∀ c, S.Reachable c → ∀ kind r, ∃ n, (c.mem.word kind r).Counts n

theorem streamSafe (hcalls : StreamCalls pair calls) (slot localOutput : Rank → Bytes) :
    StreamSafe calls (system addValues pair calls slot localOutput) where
  adds c hc r s q number dtype count source slot rest hq := by
    obtain ⟨p, hf⟩ := (program_realizes pair calls).follows hc
    have w := reachable_words hf.reachable
    have hslots := reachable_slots hcalls hf.reachable
    obtain ⟨k, hn⟩ := hf.next hq
    obtain ⟨pl, hpl, hruns⟩ := next_runs hn
    obtain ⟨_, hcall, hnum, hroute⟩ := hcalls.of_plan hpl
    simp only [Planned.Runs, hroute] at hruns
    cases hruns with
    | add hpos ht =>
      have h : StreamAt pair calls r k (k + 1) pl.call.tensor := ⟨pl, hpl, hroute, rfl⟩
      obtain ⟨k', t', h', hprefix⟩ := w.add_finds hslots h hpos ht
      obtain ⟨hk', other, hother, rfl⟩ := hcalls.of_streamAt h'
      obtain rfl : k' = k := by omega
      exact ⟨rfl, rfl, pl.call, other, hnum ▸ hcall, hnum ▸ hother, rfl, hf.mem_eq ▸ hprefix⟩
  words c hc kind r := by
    obtain ⟨p, hf⟩ := (program_realizes pair calls).follows hc
    exact ⟨_, hf.mem_eq ▸ (reachable_words hf.reachable).counts kind r⟩

end

section
variable {pair : Pair} {cs : List (Collective pair)} {addValues : AddValues}
  {p : Progress Rank Mem} {r : Rank} {k : ℕ}

/-- The sum a rank is to get: its own payload plus its peer's, element by element. -/
def Collective.sum (addValues : AddValues) (col : Collective pair) (r : Rank) : Bytes :=
  (col.call r).tensor.sum addValues (col.call r.peer).tensor

theorem callsOf_getElem? {col : Collective pair} (h : cs[k]? = some col) (r : Rank) :
    (callsOf cs r)[k]? = some (col.call r) := by
  simp [callsOf, h]

theorem streamAt_callsOf (hcalls : StreamCalls pair (callsOf cs)) {col : Collective pair}
    (hcol : cs[k]? = some col) (hk : k < epochLimit) (r : Rank) :
    StreamAt pair (callsOf cs) r k (k + 1) (col.call r).tensor := by
  refine ⟨⟨k, .stream (k + 1), col.call r⟩, ?_, rfl, rfl⟩
  rw [hcalls.plan_getElem?, if_pos hk, callsOf_getElem? hcol]
  rfl

variable (cs addValues) in
/-- The output of a call is its sum from the add on. -/
def Sums (p : Progress Rank Mem) : Prop :=
  ∀ r k col, cs[k]? = some col → k < epochLimit → p.mem.output r k =
    if (col.call r).tensor.numel ≠ 0 ∧ lead (k + 1) + 4 ≤ p.pos r k then
      some (col.sum addValues r) else none

theorem Sums.step (hcalls : StreamCalls pair (callsOf cs)) (w : Words pair (callsOf cs) p)
    (hslots : Slots pair (callsOf cs) p) (hs : Sums cs addValues p) {col : Collective pair}
    (hcol : cs[k]? = some col) (hk : k < epochLimit) {op : Op}
    (hop : StreamOp r k (k + 1) (col.call r).tensor (p.pos r k) op) :
    Sums cs addValues (p.advance (device addValues) r k op) := by
  intro q i col' hcol' hi
  change (op.run addValues p.mem).output q i = _
  rw [Progress.advance_pos]
  -- Only the add changes an output, and it is that of its own call.
  have keep : (op.run addValues p.mem).output q i = p.mem.output q i →
      (q = r ∧ i = k → (col.call r).tensor.numel ≠ 0 → p.pos r k ≠ lead (k + 1) + 3) →
      (op.run addValues p.mem).output q i = if (col'.call q).tensor.numel ≠ 0 ∧ lead (i + 1) + 4 ≤
        (if q = r ∧ i = k then p.pos r k + 1 else p.pos q i) then
          some (col'.sum addValues q) else none := by
    intro hout hpos
    rw [hout, hs q i col' hcol' hi]
    by_cases hqi : q = r ∧ i = k
    · obtain ⟨rfl, rfl⟩ := hqi
      obtain rfl : col = col' := by simpa using hcol.symm.trans hcol'
      have hpos := hpos ⟨rfl, rfl⟩
      simp only [and_self, if_true]
      by_cases hnumel : (col.call q).tensor.numel = 0
      · simp [hnumel]
      · have := hpos hnumel
        have hiff : lead (i + 1) + 4 ≤ p.pos q i ↔ lead (i + 1) + 4 ≤ p.pos q i + 1 := by omega
        simp [hnumel, hiff]
    · simp only [if_neg hqi]
  have hlead : lead (k + 1) ≤ 1 := by unfold lead; split_ifs <;> omega
  cases hop with
  | waitConsumed hn he => exact keep rfl fun _ _ => by omega
  | copy hn => exact keep rfl fun _ _ => by omega
  | writeReady hn => exact keep rfl fun _ _ => by omega
  | waitReady hn => exact keep rfl fun _ _ => by omega
  | writeConsumed hn => exact keep rfl fun _ ht => by simp [adds, ht] at hn; omega
  | add hn ht =>
    by_cases hqi : q = r ∧ i = k
    · obtain ⟨rfl, rfl⟩ := hqi
      obtain rfl : col = col' := by simpa using hcol.symm.trans hcol'
      obtain ⟨k', t', h', hprefix⟩ :=
        w.add_finds hslots (streamAt_callsOf hcalls hcol hk q) hn ht
      have hpeer := streamAt_callsOf hcalls hcol hk q.peer
      obtain rfl : (col.call q.peer).tensor = t' := by
        have := h'.inj hpeer
        exact this.2.symm
      have hlen : (col.call q.peer).tensor.data.length =
          (col.call q).tensor.numel * (col.call q).tensor.dtype.elementSize := by
        rw [Tensor.data_length, ← (col.sameShape q).sizeBytes]
        rfl
      have hdone : lead (i + 1) + 4 ≤ p.pos q i + 1 := by omega
      simp [Op.run, addKernel_prefix addValues _ _ hprefix hlen, ht, hdone, Collective.sum,
        Tensor.sum]
    · refine keep ?_ fun hc => absurd hc hqi
      by_cases hq : q = r
      · subst hq
        simp [Op.run, show i ≠ k from fun h => hqi ⟨rfl, h⟩]
      · simp [Op.run, hq]

theorem reachable_sums (hcalls : StreamCalls pair (callsOf cs)) {slot localOutput : Rank → Bytes}
    (hp : (progress (device addValues) (jobs pair (callsOf cs))
      (.start slot localOutput)).Reachable p) : Sums cs addValues p := by
  refine System.Reachable.invariant ?_ ?_ hp
  · rintro _ rfl r k col _ _
    simp [Mem.start]
  · rintro p _ hp hs ⟨hn, hr⟩
    obtain ⟨pl, hpl, hruns⟩ := next_runs hn
    obtain ⟨hk, hcall, hnum, hroute⟩ := hcalls.of_plan hpl
    obtain ⟨col, hcol, hcall⟩ := Option.map_eq_some_iff.mp
      (by simpa [callsOf, List.getElem?_map] using hcall)
    simp only [Planned.Runs, hroute, hnum, ← hcall] at hruns
    exact Sums.step hcalls (reachable_words hp) (reachable_slots hcalls hp) hs hcol hk hruns

/-- No step of any call fails. -/
def NoFault (cs : List (Collective pair)) : Prop := ∀ col ∈ cs, ∀ r, (col.call r).fault = none

/-- The operations of call k when no step fails. -/
theorem opsAt_callsOf (hcalls : StreamCalls pair (callsOf cs)) (hnf : NoFault cs)
    {col : Collective pair} (hcol : cs[k]? = some col) (hk : k < epochLimit) (r : Rank) :
    opsAt (jobs pair (callsOf cs) r) k = Planned.ops r ⟨k, .stream (k + 1), col.call r⟩ ∧
      streamAt (jobs pair (callsOf cs) r) k = some (col.call r).stream := by
  have hpl : (plan pair (callsOf cs) r)[k]? = some ⟨k, .stream (k + 1), col.call r⟩ := by
    rw [hcalls.plan_getElem?, if_pos hk, callsOf_getElem? hcol]
    rfl
  have hjob : (jobs pair (callsOf cs) r)[k]? =
      some (Planned.job r ⟨k, .stream (k + 1), col.call r⟩) := by
    rw [jobs_getElem?, hpl]
    rfl
  rw [← Planned.instrs_of_fault_none (hnf col (List.mem_of_getElem? hcol) r)]
  exact ⟨by rw [opsAt, hjob]; rfl, by rw [streamAt, hjob]; rfl⟩

theorem length_opsAt (hcalls : StreamCalls pair (callsOf cs)) (hnf : NoFault cs)
    {col : Collective pair} (hcol : cs[k]? = some col) (hk : k < epochLimit) (r : Rank) :
    (opsAt (jobs pair (callsOf cs) r) k).length = lead (k + 1) + 4 + adds (col.call r).tensor := by
  rw [(opsAt_callsOf hcalls hnf hcol hk r).1, Planned.length_ops]
  rfl

/-- An unfinished call is one of the collectives, within the epochs. -/
theorem exists_collective (hcalls : StreamCalls pair (callsOf cs))
    (h : p.pos r k < (opsAt (jobs pair (callsOf cs) r) k).length) :
    k < epochLimit ∧ ∃ col, cs[k]? = some col := by
  cases hpl : (plan pair (callsOf cs) r)[k]? with
  | none => simp [opsAt, jobs_getElem?, hpl] at h
  | some pl =>
    obtain ⟨hk, hcall, _⟩ := hcalls.of_plan hpl
    obtain ⟨col, hcol, _⟩ := Option.map_eq_some_iff.mp
      (by simpa [callsOf, List.getElem?_map] using hcall)
    exact ⟨hk, col, hcol⟩

section
variable (hcalls : StreamCalls pair (callsOf cs)) (hnf : NoFault cs)
  (w : Words pair (callsOf cs) p)
  (hdone : ∀ j < k, ∀ q, (opsAt (jobs pair (callsOf cs) q) j).length ≤ p.pos q j)
include hcalls hnf w hdone

/-- With all earlier calls finished on both sides, an operation of call k can only be blocked in
the wait for a ready word the peer has not written yet. -/
theorem ready_or_waitReady {col : Collective pair} (hcol : cs[k]? = some col) (hk : k < epochLimit)
    {op : Op} (hop : StreamOp r k (k + 1) (col.call r).tensor (p.pos r k) op) :
    op.ready p.mem ∨ p.pos r k = lead (k + 1) + 2 ∧ p.pos r.peer k < lead (k + 1) + 2 := by
  cases hop with
  | waitConsumed hn he =>
    obtain ⟨j, rfl⟩ : ∃ j, k = j + 1 := ⟨k - 1, by omega⟩
    have hlt := (List.getElem?_eq_some_iff.mp hcol).1
    have hcol' : cs[j]? = some cs[j] := List.getElem?_eq_getElem (by omega)
    have hfin := hdone j (by omega) r.peer
    rw [length_opsAt hcalls hnf hcol' (by omega)] at hfin
    have hpeer := streamAt_callsOf hcalls hcol' (by omega) r.peer
    have := (w.wroteConsumed r.peer j (j + 1) _ hpeer).mp hfin
    rw [Rank.peer_peer] at this
    exact .inl (by simpa [Op.ready, Mem.value] using this)
  | waitReady hn =>
    by_cases hready : k + 1 ≤ p.mem.value .ready r.peer
    · exact .inl hready
    · refine .inr ⟨hn, Nat.lt_of_not_le fun hle => hready ?_⟩
      exact (w.wroteReady r.peer k (k + 1) _ (streamAt_callsOf hcalls hcol hk r.peer)).mp hle
  | copy _ | writeReady _ | add _ _ | writeConsumed _ => exact .inl trivial

omit w in
/-- An unfinished call whose next operation is not blocked can go on. -/
theorem canStep_of_ready {m : Mem} (hlt : p.pos r k < (opsAt (jobs pair (callsOf cs) r) k).length)
    (hready : ∀ op, (opsAt (jobs pair (callsOf cs) r) k)[p.pos r k]? = some op →
      op.ready p.mem) : (progress (device addValues) (jobs pair (callsOf cs)) m).CanStep p := by
  obtain ⟨hk, col, hcol⟩ := exists_collective hcalls hlt
  have hop := List.getElem?_eq_getElem hlt
  exact ⟨_, .run ⟨(opsAt_callsOf hcalls hnf hcol hk r).2, hop, fun j hj _ => hdone j hj r⟩
    (hready _ hop)⟩

end

/-- The run lemma for liveness: of the earliest unfinished calls one can go on. -/
theorem live_callsOf (hcalls : StreamCalls pair (callsOf cs)) (hnf : NoFault cs)
    (w : Words pair (callsOf cs) p) {m : Mem}
    (hu : ∃ r k, p.pos r k < (opsAt (jobs pair (callsOf cs) r) k).length) :
    (progress (device addValues) (jobs pair (callsOf cs)) m).CanStep p := by
  classical
  have hex : ∃ k, ∃ r, p.pos r k < (opsAt (jobs pair (callsOf cs) r) k).length := by
    obtain ⟨r, k, h⟩ := hu
    exact ⟨k, r, h⟩
  obtain ⟨r, hr⟩ := Nat.find_spec hex
  have hdone : ∀ j < Nat.find hex, ∀ q,
      (opsAt (jobs pair (callsOf cs) q) j).length ≤ p.pos q j := fun j hj q =>
    Nat.le_of_not_lt fun hlt => Nat.find_min hex hj ⟨q, hlt⟩
  generalize Nat.find hex = k at hr hdone
  obtain ⟨hk, col, hcol⟩ := exists_collective hcalls hr
  have runs : ∀ q op, (opsAt (jobs pair (callsOf cs) q) k)[p.pos q k]? = some op →
      StreamOp q k (k + 1) (col.call q).tensor (p.pos q k) op := fun q op hop =>
    StreamOp.of_getElem? ((opsAt_callsOf hcalls hnf hcol hk q).1 ▸ hop)
  by_cases hblocked : p.pos r k = lead (k + 1) + 2 ∧ p.pos r.peer k < lead (k + 1) + 2
  · -- The peer has not written its ready word, and it is not blocked before that.
    refine canStep_of_ready hcalls hnf hdone (r := r.peer) ?_ fun op hop => ?_
    · rw [length_opsAt hcalls hnf hcol hk]
      omega
    · rcases ready_or_waitReady hcalls hnf w hdone hcol hk (runs _ op hop) with h | h
      · exact h
      · omega
  · refine canStep_of_ready hcalls hnf hdone hr fun op hop => ?_
    rcases ready_or_waitReady hcalls hnf w hdone hcol hk (runs _ op hop) with h | h
    · exact h
    · exact absurd h hblocked

/-- The hosts of stream calls only enqueue. -/
theorem program_isEnqueue {calls : Rank → List (Call NativeStep)} (hcalls : StreamCalls pair calls)
    (r : Rank) : ∀ i ∈ program pair calls r, i.IsEnqueue := by
  intro i hi
  rw [program_eq, List.mem_flatMap] at hi
  obtain ⟨pl, hpl, hi⟩ := hi
  obtain ⟨k, hk⟩ := List.getElem?_of_mem hpl
  obtain ⟨_, _, _, hroute⟩ := hcalls.of_plan hk
  obtain ⟨rest, hrest⟩ := pl.instrs_append r
  refine Route.steps_isEnqueue r pl.number (k + 1) pl.call i ?_
  rw [← hroute, ← hrest]
  exact List.mem_append_left _ hi

/-- What the calls of the ranks return. -/
def returned (pair : Pair) (calls : Rank → List (Call NativeStep)) (r : Rank) (i : ℕ)
    (ref : TensorRef) : Prop := (hostRun pair calls r).1[i]? = some (.ok ref)

/-- What the stream path guarantees when nothing fails: every call within the epochs returns,
nothing is stuck, and every output is or will be the sum of its own call. -/
structure StreamComplete {pair : Pair} (addValues : AddValues) (cs : List (Collective pair))
    (S : System (HostConfig Rank (Rank × StreamId) Op Mem)) : Prop where
  returns : ∀ r i, i < cs.length → i < epochLimit → ∃ ref, returned pair (callsOf cs) r i ref
  live : ∀ c, S.Reachable c → c.Unfinished → S.CanStep c
  sums : ∀ c, S.Reachable c → ∀ r i col ref bytes, cs[i]? = some col →
    returned pair (callsOf cs) r i ref → readOutput c.mem r ref = some bytes →
      bytes = col.sum addValues r
  complete : ∀ c, S.Reachable c → ¬ c.Unfinished → ∀ r i col ref, cs[i]? = some col →
    returned pair (callsOf cs) r i ref → readOutput c.mem r ref = some (col.sum addValues r)

/-- A call that returned is within the epochs and returned the output of its own number. -/
theorem ref_of_returned (hcalls : StreamCalls pair (callsOf cs)) {i : ℕ} {ref : TensorRef}
    {col : Collective pair} (hcol : cs[i]? = some col)
    (h : returned pair (callsOf cs) r i ref) :
    i < epochLimit ∧ ref = outputRef i (col.call r).tensor := by
  obtain ⟨pl, hpl, hnum, hcall, href, _⟩ := makeCalls_result _ _ _ i ref h
  obtain ⟨k, hk⟩ := List.getElem?_of_mem hpl
  obtain ⟨hlt, _, hnum', _⟩ := hcalls.of_plan hk
  have hcall' := callsOf_getElem? hcol r
  rw [hcall, Option.some.injEq] at hcall'
  simp only [State.start, Nat.zero_add] at hnum href
  exact ⟨by omega, hcall' ▸ href⟩

theorem streamComplete (hcalls : StreamCalls pair (callsOf cs)) (hnf : NoFault cs)
    (slot localOutput : Rank → Bytes) :
    StreamComplete addValues cs (system addValues pair (callsOf cs) slot localOutput) where
  returns r i hi hlt := by
    have hcol := List.getElem?_eq_getElem hi
    have hpl : (plan pair (callsOf cs) r)[i]? = some ⟨i, .stream (i + 1), cs[i].call r⟩ := by
      rw [hcalls.plan_getElem?, if_pos hlt, callsOf_getElem? hcol]
      rfl
    obtain ⟨j, hj, hres⟩ := makeCalls_returns (pair.comm r) (callsOf cs r) .start _
      (List.mem_of_getElem? hpl) (hnf _ (List.getElem_mem hi) r)
    simp only [State.start, Nat.zero_add] at hj
    subst hj
    exact ⟨_, hres⟩
  live c hc hu := by
    obtain ⟨p, hf⟩ := (program_realizes pair (callsOf cs)).follows hc
    refine hf.canStep (fun r => ?_) hc hu fun hl =>
      live_callsOf hcalls hnf (reachable_words hf.reachable) hl
    exact program_isEnqueue hcalls r
  sums c hc r i col ref bytes hcol hret hread := by
    obtain ⟨p, hf⟩ := (program_realizes pair (callsOf cs)).follows hc
    obtain ⟨hi, rfl⟩ := ref_of_returned hcalls hcol hret
    have hs := reachable_sums hcalls hf.reachable r i col hcol hi
    by_cases hnumel : (col.call r).tensor.numel = 0
    · simp only [outputRef, hnumel, if_true, readOutput, Option.some.injEq] at hread
      simp [← hread, Collective.sum, Tensor.sum, hnumel]
    · simp only [outputRef, hnumel, if_false, readOutput, ← hf.mem_eq, hs] at hread
      split_ifs at hread
      exact (Option.some.inj hread).symm
  complete c hc hu r i col ref hcol hret := by
    obtain ⟨p, hf⟩ := (program_realizes pair (callsOf cs)).follows hc
    obtain ⟨hi, rfl⟩ := ref_of_returned hcalls hcol hret
    have hs := reachable_sums hcalls hf.reachable r i col hcol hi
    by_cases hnumel : (col.call r).tensor.numel = 0
    · simp [outputRef, readOutput, hnumel, Collective.sum, Tensor.sum]
    · have hdone := hf.finished hu r i
      rw [length_opsAt hcalls hnf hcol hi] at hdone
      simp only [outputRef, hnumel, if_false, readOutput, ← hf.mem_eq, hs]
      rw [if_pos ⟨hnumel, by omega⟩]

/-- The stream path: safe whatever fails and whichever streams are used, complete if nothing
fails. -/
theorem streamAllReduce_correct (addValues : AddValues) (pair : Pair)
    (slot localOutput : Rank → Bytes) :
    (∀ calls, StreamCalls pair calls →
      StreamSafe calls (system addValues pair calls slot localOutput)) ∧
    ∀ cs : List (Collective pair), StreamCalls pair (callsOf cs) → NoFault cs →
      StreamComplete addValues cs (system addValues pair (callsOf cs) slot localOutput) :=
  ⟨fun _ hcalls => streamSafe hcalls slot localOutput,
    fun _ hcalls hnf => streamComplete hcalls hnf slot localOutput⟩

end

/-- A pair on devices 0 and 1 with 4 KiB slots and the stream path. -/
def samplePair : Pair where
  device := Rank.index
  maxSizeBytes := 4096
  kernel _ := true
  useStreamPath := true
  kernel_present _ _ := rfl

/-- Both ranks pass one element, of which only the first byte is nonzero. -/
def sampleCollective (dtype : Dtype) (hsize : dtype.elementSize = 4) (byte : Rank → UInt8)
    (stream : Rank → StreamId) : Collective samplePair where
  call r := ⟨⟨dtype, [1], r.index, [byte r, 0, 0, 0], by simp [hsize]⟩, stream r, none⟩
  onDevice _ := rfl
  fits r := by simp [Tensor.sizeBytes, Tensor.numel, hsize, samplePair]
  sameShape _ := ⟨rfl, rfl⟩

/-- Two calls, rank 0 changing its stream in between. -/
def sampleCalls : List (Collective samplePair) :=
  [sampleCollective .float32 rfl (fun _ => 1) (fun _ => 1),
   sampleCollective .float32 rfl (fun _ => 2) (fun r => if r = .zero then 2 else 1)]

theorem streamAllReduce_correct_sample :
    StreamSafe (callsOf sampleCalls) (system addBytes samplePair (callsOf sampleCalls)
      (fun _ => []) (fun _ => [])) ∧
    StreamComplete addBytes sampleCalls (system addBytes samplePair
      (callsOf sampleCalls) (fun _ => []) (fun _ => [])) := by
  have hcalls : StreamCalls samplePair (callsOf sampleCalls) := by
    constructor <;> simp [samplePair, callsOf, sampleCalls, sampleCollective, Tensor.sizeBytes,
      Tensor.numel, Dtype.elementSize, Dtype.isNative]
  have hnf : NoFault sampleCalls := by simp [NoFault, sampleCalls, sampleCollective]
  exact ⟨(streamAllReduce_correct addBytes samplePair _ _).1 _ hcalls,
    (streamAllReduce_correct addBytes samplePair _ _).2 sampleCalls hcalls hnf⟩

end MultiGpuTransport.MappedHost
