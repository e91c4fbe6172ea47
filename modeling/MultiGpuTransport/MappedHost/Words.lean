import MultiGpuTransport.MappedHost.AllReduce

/-!
# The ready and consumed words

Which operations a call consists of, and what the four control words say about how far the calls
have come: on any streams, with any calls failing, and with calls of the barrier path in between.
-/
namespace MultiGpuTransport.MappedHost
open Streams Transition

/-- How many operations a stream call has before its copy. -/
def lead (epoch : ℕ) : ℕ := if 1 < epoch then 1 else 0

/-- How many adds a stream call has. -/
def adds (tensor : Tensor) : ℕ := if tensor.numel = 0 then 0 else 1

/-- Operation n of a stream call. -/
inductive StreamOp (rank : Rank) (number epoch : ℕ) (tensor : Tensor) (n : ℕ) : Op → Prop
  | waitConsumed (hn : n = 0) (he : 1 < epoch) :
    StreamOp rank number epoch tensor n (.waitValue .consumed rank (epoch - 1))
  | copy (hn : n = lead epoch) : StreamOp rank number epoch tensor n (.copyToSlot rank tensor.data)
  | writeReady (hn : n = lead epoch + 1) :
    StreamOp rank number epoch tensor n (.writeValue .ready rank epoch)
  | waitReady (hn : n = lead epoch + 2) :
    StreamOp rank number epoch tensor n (.waitValue .ready rank.peer epoch)
  | add (hn : n = lead epoch + 3) (ht : tensor.numel ≠ 0) : StreamOp rank number epoch tensor n
      (.addPeer rank number tensor.dtype tensor.numel tensor.data rank.peer)
  | writeConsumed (hn : n = lead epoch + 3 + adds tensor) :
    StreamOp rank number epoch tensor n (.writeValue .consumed rank.peer epoch)

/-- Operation n of a barrier call. -/
inductive BarrierOp (rank : Rank) (number : ℕ) (tensor : Tensor) (n : ℕ) : Op → Prop
  | copy (hn : n = 0) : BarrierOp rank number tensor n (.copyToSlot rank tensor.data)
  | firstSet (hn : n = 1) : BarrierOp rank number tensor n (.event (.set rank))
  | firstWait (hn : n = 2) : BarrierOp rank number tensor n (.event (.wait rank.peer))
  | addSlots (hn : n = 3) : BarrierOp rank number tensor n (.addSlots rank tensor.dtype tensor.numel)
  | copyOutput (hn : n = 4) :
    BarrierOp rank number tensor n (.copyOutput rank number tensor.sizeBytes)
  | secondSet (hn : n = 5) : BarrierOp rank number tensor n (.event (.set rank))
  | secondWait (hn : n = 6) : BarrierOp rank number tensor n (.event (.wait rank.peer))

/-- Operation n of a call on its path. -/
def Planned.Runs (rank : Rank) (pl : Planned) (n : ℕ) (op : Op) : Prop :=
  match pl.route with
  | .stream epoch => StreamOp rank pl.number epoch pl.call.tensor n op
  | .barrier => BarrierOp rank pl.number pl.call.tensor n op

/-- The operations of a call on its path if no step fails. -/
def Planned.ops (rank : Rank) (pl : Planned) : List Op :=
  ((pl.route.steps rank pl.number pl.call).flatMap Prod.snd).map Instr.op

/-- How many they are. -/
def Planned.size (pl : Planned) : ℕ :=
  match pl.route with
  | .stream epoch => lead epoch + 4 + adds pl.call.tensor
  | .barrier => 7

theorem Planned.length_ops (rank : Rank) (pl : Planned) : (pl.ops rank).length = pl.size := by
  obtain ⟨number, route, call⟩ := pl
  cases route with
  | stream epoch =>
    by_cases he : 1 < epoch <;> by_cases ht : call.tensor.numel = 0 <;>
      simp [ops, Route.steps, enqueueAllReduce, launchAdd, size, lead, adds, he, ht]
  | barrier => rfl

/-- The operations before the add, the add, and the write after it. -/
theorem Planned.ops_stream (rank : Rank) (number epoch : ℕ) (call : Call NativeStep) :
    Planned.ops rank ⟨number, .stream epoch, call⟩ =
      (if 1 < epoch then [.waitValue .consumed rank (epoch - 1)] else []) ++
      [.copyToSlot rank call.tensor.data, .writeValue .ready rank epoch,
        .waitValue .ready rank.peer epoch] ++
      (if call.tensor.numel = 0 then [] else [.addPeer rank number call.tensor.dtype
        call.tensor.numel call.tensor.data rank.peer]) ++ [.writeValue .consumed rank.peer epoch] := by
  by_cases he : 1 < epoch <;> by_cases ht : call.tensor.numel = 0 <;>
    simp [ops, Route.steps, enqueueAllReduce, launchAdd, he, ht, Instr.op]

theorem StreamOp.of_getElem? {rank : Rank} {number epoch n : ℕ} {call : Call NativeStep} {op : Op}
    (h : (Planned.ops rank ⟨number, .stream epoch, call⟩)[n]? = some op) :
    StreamOp rank number epoch call.tensor n op := by
  rw [Planned.ops_stream] at h
  by_cases he : 1 < epoch <;> by_cases ht : call.tensor.numel = 0
  · have hn := (List.getElem?_eq_some_iff.mp h).1
    simp only [he, ht, if_true, List.length_append, List.length_cons, List.length_nil] at hn h
    match n, hn with
    | 0, _ => cases h; exact .waitConsumed rfl he
    | 1, _ => cases h; exact .copy (by simp [lead, he])
    | 2, _ => cases h; exact .writeReady (by simp [lead, he])
    | 3, _ => cases h; exact .waitReady (by simp [lead, he])
    | 4, _ => cases h; exact .writeConsumed (by simp [lead, adds, he, ht])
  · have hn := (List.getElem?_eq_some_iff.mp h).1
    simp only [he, ht, if_true, if_false, List.length_append, List.length_cons,
      List.length_nil] at hn h
    match n, hn with
    | 0, _ => cases h; exact .waitConsumed rfl he
    | 1, _ => cases h; exact .copy (by simp [lead, he])
    | 2, _ => cases h; exact .writeReady (by simp [lead, he])
    | 3, _ => cases h; exact .waitReady (by simp [lead, he])
    | 4, _ => cases h; exact .add (by simp [lead, he]) ht
    | 5, _ => cases h; exact .writeConsumed (by simp [lead, adds, he, ht])
  · have hn := (List.getElem?_eq_some_iff.mp h).1
    simp only [he, ht, if_true, if_false, List.length_append, List.length_cons,
      List.length_nil] at hn h
    match n, hn with
    | 0, _ => cases h; exact .copy (by simp [lead, he])
    | 1, _ => cases h; exact .writeReady (by simp [lead, he])
    | 2, _ => cases h; exact .waitReady (by simp [lead, he])
    | 3, _ => cases h; exact .writeConsumed (by simp [lead, adds, he, ht])
  · have hn := (List.getElem?_eq_some_iff.mp h).1
    simp only [he, ht, if_false, List.length_append, List.length_cons, List.length_nil] at hn h
    match n, hn with
    | 0, _ => cases h; exact .copy (by simp [lead, he])
    | 1, _ => cases h; exact .writeReady (by simp [lead, he])
    | 2, _ => cases h; exact .waitReady (by simp [lead, he])
    | 3, _ => cases h; exact .add (by simp [lead, he]) ht
    | 4, _ => cases h; exact .writeConsumed (by simp [lead, adds, he, ht])

theorem BarrierOp.of_getElem? {rank : Rank} {number n : ℕ} {call : Call NativeStep} {op : Op}
    (h : (Planned.ops rank ⟨number, .barrier, call⟩)[n]? = some op) :
    BarrierOp rank number call.tensor n op := by
  have hn : n < 7 := (List.getElem?_eq_some_iff.mp h).1
  match n, hn with
  | 0, _ => cases h; exact .copy rfl
  | 1, _ => cases h; exact .firstSet rfl
  | 2, _ => cases h; exact .firstWait rfl
  | 3, _ => cases h; exact .addSlots rfl
  | 4, _ => cases h; exact .copyOutput rfl
  | 5, _ => cases h; exact .secondSet rfl
  | 6, _ => cases h; exact .secondWait rfl

theorem Planned.runs_of_getElem? {rank : Rank} {pl : Planned} {n : ℕ} {op : Op}
    (h : (pl.ops rank)[n]? = some op) : pl.Runs rank n op := by
  obtain ⟨number, route, call⟩ := pl
  cases route with
  | stream epoch => exact StreamOp.of_getElem? h
  | barrier => exact BarrierOp.of_getElem? h

theorem Planned.instrs_prefix (rank : Rank) (pl : Planned) :
    (pl.instrs rank).map Instr.op <+: pl.ops rank := by
  obtain ⟨rest, hrest⟩ := before_prefix pl.call.fault (pl.route.steps rank pl.number pl.call)
  rw [ops, ← hrest, List.flatMap_append, List.map_append]
  exact List.prefix_append _ _

/-- A call none of whose steps fails has all its operations. -/
theorem Planned.instrs_of_fault_none {rank : Rank} {pl : Planned} (h : pl.call.fault = none) :
    (pl.instrs rank).map Instr.op = pl.ops rank := by
  simp [instrs, ops, h]

section
variable {pair : Pair} {calls : Rank → List (Call NativeStep)}

theorem jobs_getElem? (r : Rank) (k : ℕ) :
    (jobs pair calls r)[k]? = (plan pair calls r)[k]?.map (Planned.job r) := by
  simp [jobs]

/-- The next operation belongs to a call that got past its checks, and is that operation of its
path. -/
theorem next_runs {r : Rank} {s : StreamId} {pos : ℕ → ℕ} {k : ℕ} {op : Op}
    (hn : Next s (jobs pair calls r) pos k op) :
    ∃ pl, (plan pair calls r)[k]? = some pl ∧ pl.Runs r (pos k) op := by
  have hop := hn.op_eq
  cases hpl : (plan pair calls r)[k]? with
  | none => simp [opsAt, jobs_getElem?, hpl] at hop
  | some pl =>
    rw [opsAt, jobs_getElem?, hpl] at hop
    change ((pl.instrs r).map Instr.op)[pos k]? = some op at hop
    refine ⟨pl, rfl, Planned.runs_of_getElem? ?_⟩
    obtain ⟨rest, hrest⟩ := pl.instrs_prefix r
    rw [← hrest, List.getElem?_append_left (List.getElem?_eq_some_iff.mp hop).1]
    exact hop

/-- The epochs of later calls are larger. -/
theorem planFrom_epochs (comm : SharedMemoryAllReduce) (epoch number : ℕ)
    (cs : List (Call NativeStep)) :
    (∀ (k : ℕ) (pl : Planned) (e : ℕ), (planFrom comm epoch number cs)[k]? = some pl →
      pl.route = .stream e → epoch < e) ∧
    ∀ (j k : ℕ) (pl pl' : Planned) (e e' : ℕ), j < k → (planFrom comm epoch number cs)[j]? = some pl →
      (planFrom comm epoch number cs)[k]? = some pl' → pl.route = .stream e →
        pl'.route = .stream e' → e < e' := by
  induction cs generalizing epoch number with
  | nil => simp [planFrom]
  | cons call cs ih =>
    rw [planFrom]
    cases hroute : comm.route epoch call.tensor with
    | none => exact ih epoch (number + 1)
    | some route =>
      obtain ⟨hmin, hmono⟩ := ih (route.epochAfter epoch) (number + 1)
      have hle : epoch ≤ route.epochAfter epoch ∧ ∀ e, route = .stream e → epoch < e ∧
          route.epochAfter epoch = e := by
        simp only [SharedMemoryAllReduce.route] at hroute
        split_ifs at hroute <;> cases hroute <;> simp [Route.epochAfter]
      simp only
      constructor
      · intro k pl e hk he
        cases k with
        | zero =>
          cases hk
          exact (hle.2 e he).1
        | succ k => exact Nat.lt_of_le_of_lt hle.1 (hmin k pl e (by simpa using hk) he)
      · intro j k pl pl' e e' hjk hj hk he he'
        cases k with
        | zero => omega
        | succ k =>
          have hk' : (planFrom comm (route.epochAfter epoch) (number + 1) cs)[k]? = some pl' := by
            simpa using hk
          cases j with
          | zero =>
            cases hj
            rw [← (hle.2 e he).2]
            exact hmin k pl' e' hk' he'
          | succ j => exact hmono j k pl pl' e e' (by omega) (by simpa using hj) hk' he he'

/-- Call k of rank r takes the stream path at epoch e with the given tensor. -/
def StreamAt (pair : Pair) (calls : Rank → List (Call NativeStep)) (r : Rank) (k e : ℕ)
    (tensor : Tensor) : Prop :=
  ∃ pl, (plan pair calls r)[k]? = some pl ∧ pl.route = .stream e ∧ pl.call.tensor = tensor

theorem StreamAt.pos {r : Rank} {k e : ℕ} {t : Tensor} (h : StreamAt pair calls r k e t) : 0 < e := by
  obtain ⟨pl, hpl, hroute, _⟩ := h
  exact (planFrom_epochs _ 0 0 _).1 k pl e hpl hroute

/-- An epoch is taken once. -/
theorem StreamAt.inj {r : Rank} {k k' e : ℕ} {t t' : Tensor} (h : StreamAt pair calls r k e t)
    (h' : StreamAt pair calls r k' e t') : k = k' ∧ t = t' := by
  obtain ⟨pl, hpl, hroute, rfl⟩ := h
  obtain ⟨pl', hpl', hroute', rfl⟩ := h'
  have hmono := (planFrom_epochs (pair.comm r) 0 0 (calls r)).2
  rcases Nat.lt_trichotomy k k' with hlt | rfl | hlt
  · have := hmono k k' pl pl' e e hlt hpl hpl' hroute hroute'
    omega
  · obtain rfl : pl = pl' := by simpa using hpl.symm.trans hpl'
    exact ⟨rfl, rfl⟩
  · have := hmono k' k pl' pl e e hlt hpl' hpl hroute' hroute
    omega

theorem StreamAt.det {r : Rank} {k e e' : ℕ} {t t' : Tensor} (h : StreamAt pair calls r k e t)
    (h' : StreamAt pair calls r k e' t') : e = e' ∧ t = t' := by
  obtain ⟨pl, hpl, hroute, rfl⟩ := h
  obtain ⟨pl', hpl', hroute', rfl⟩ := h'
  obtain rfl : pl = pl' := by simpa using hpl.symm.trans hpl'
  exact ⟨by simpa using hroute.symm.trans hroute', rfl⟩

/-- What the words say about the progress of the calls, and it about them. -/
structure Words (pair : Pair) (calls : Rank → List (Call NativeStep)) (p : Progress Rank Mem) :
    Prop where
  counts : ∀ kind r, (p.mem.word kind r).Counts (p.mem.value kind r)
  wroteReady : ∀ r k e t, StreamAt pair calls r k e t →
    (lead e + 2 ≤ p.pos r k ↔ e ≤ p.mem.value .ready r)
  wroteConsumed : ∀ r k e t, StreamAt pair calls r k e t →
    (lead e + 4 + adds t ≤ p.pos r k ↔ e ≤ p.mem.value .consumed r.peer)
  sawConsumed : ∀ r k e t, StreamAt pair calls r k e t → 1 < e → 0 < p.pos r k →
    e - 1 ≤ p.mem.value .consumed r
  sawReady : ∀ r k e t, StreamAt pair calls r k e t → lead e + 3 ≤ p.pos r k →
    e ≤ p.mem.value .ready r.peer
  bounds : ∀ r, p.mem.value .consumed r ≤ p.mem.value .ready r ∧
    p.mem.value .ready r ≤ p.mem.value .consumed r + 1
  origin : ∀ r, p.mem.value .ready r ≠ 0 → ∃ k t, StreamAt pair calls r k (p.mem.value .ready r) t

theorem Words.start (slot localOutput : Rank → Bytes) :
    Words pair calls ⟨fun _ _ => 0, Mem.start slot localOutput⟩ where
  counts kind r := Timeline.counts_zero
  wroteReady r k e t h := by have := h.pos; simp [Mem.start, Mem.value]; omega
  wroteConsumed r k e t h := by have := h.pos; simp [Mem.start, Mem.value]; omega
  sawConsumed r k e t _ _ h := absurd h (by simp)
  sawReady r k e t _ h := by simp at h
  bounds r := by simp [Mem.start, Mem.value]
  origin r h := absurd rfl h

variable {p : Progress Rank Mem} {r : Rank} {k e : ℕ} {t : Tensor} {op : Op}
  {addValues : AddValues}

/-- When the ready word is written next, it and the consumed word are at the epoch before. -/
theorem Words.before_ready (w : Words pair calls p) (h : StreamAt pair calls r k e t)
    (hpos : p.pos r k = lead e + 1) :
    p.mem.value .ready r + 1 = e ∧ p.mem.value .consumed r + 1 = e := by
  have hnot : ¬ e ≤ p.mem.value .ready r := fun hle => by
    have := (w.wroteReady r k e t h).mpr hle
    omega
  have hsaw : e - 1 ≤ p.mem.value .consumed r := by
    by_cases he : 1 < e
    · exact w.sawConsumed r k e t h he (by omega)
    · omega
  have := w.bounds r
  have := h.pos
  omega

/-- Between the wait for the peer's ready word and the write of its consumed word, the peer's words
stay at the epoch. -/
theorem Words.during_add (w : Words pair calls p) (h : StreamAt pair calls r k e t)
    (hlo : lead e + 3 ≤ p.pos r k) (hhi : p.pos r k < lead e + 4 + adds t) :
    p.mem.value .ready r.peer = e ∧ p.mem.value .consumed r.peer + 1 = e := by
  have hnot : ¬ e ≤ p.mem.value .consumed r.peer := fun hle => by
    have := (w.wroteConsumed r k e t h).mpr hle
    omega
  have hsaw := w.sawReady r k e t h hlo
  have := w.bounds r.peer
  omega

/-- One operation of call k of rank r, by what it does to the words. -/
theorem Words.advance (w : Words pair calls p)
    (hcounts : ∀ kind q, ((op.run addValues p.mem).word kind q).Counts
      ((op.run addValues p.mem).value kind q))
    (hmono : ∀ kind q, p.mem.value kind q ≤ (op.run addValues p.mem).value kind q)
    (hself : ∀ e t, StreamAt pair calls r k e t →
      (lead e + 2 ≤ p.pos r k + 1 ↔ e ≤ (op.run addValues p.mem).value .ready r) ∧
      (lead e + 4 + adds t ≤ p.pos r k + 1 ↔ e ≤ (op.run addValues p.mem).value .consumed r.peer) ∧
      (1 < e → e - 1 ≤ (op.run addValues p.mem).value .consumed r) ∧
      (lead e + 3 ≤ p.pos r k + 1 → e ≤ (op.run addValues p.mem).value .ready r.peer))
    (hother : ∀ q i e t, StreamAt pair calls q i e t → ¬ (q = r ∧ i = k) →
      (e ≤ (op.run addValues p.mem).value .ready q → e ≤ p.mem.value .ready q) ∧
      (e ≤ (op.run addValues p.mem).value .consumed q.peer → e ≤ p.mem.value .consumed q.peer))
    (hbounds : ∀ q, (op.run addValues p.mem).value .consumed q ≤
        (op.run addValues p.mem).value .ready q ∧
      (op.run addValues p.mem).value .ready q ≤ (op.run addValues p.mem).value .consumed q + 1)
    (horigin : ∀ q, (op.run addValues p.mem).value .ready q = p.mem.value .ready q ∨
      ∃ k t, StreamAt pair calls q k ((op.run addValues p.mem).value .ready q) t) :
    Words pair calls (p.advance (device addValues) r k op) where
  counts := hcounts
  wroteReady q i e t h := by
    rw [Progress.advance_pos]
    split_ifs with hqi
    · obtain ⟨rfl, rfl⟩ := hqi
      exact (hself e t h).1
    · exact (w.wroteReady q i e t h).trans ⟨fun hle => Nat.le_trans hle (hmono .ready q),
        (hother q i e t h hqi).1⟩
  wroteConsumed q i e t h := by
    rw [Progress.advance_pos]
    split_ifs with hqi
    · obtain ⟨rfl, rfl⟩ := hqi
      exact (hself e t h).2.1
    · exact (w.wroteConsumed q i e t h).trans
        ⟨fun hle => Nat.le_trans hle (hmono .consumed q.peer), (hother q i e t h hqi).2⟩
  sawConsumed q i e t h he hpos := by
    rw [Progress.advance_pos] at hpos
    split_ifs at hpos with hqi
    · obtain ⟨rfl, rfl⟩ := hqi
      exact (hself e t h).2.2.1 he
    · exact Nat.le_trans (w.sawConsumed q i e t h he hpos) (hmono .consumed q)
  sawReady q i e t h hpos := by
    rw [Progress.advance_pos] at hpos
    split_ifs at hpos with hqi
    · obtain ⟨rfl, rfl⟩ := hqi
      exact (hself e t h).2.2.2 hpos
    · exact Nat.le_trans (w.sawReady q i e t h hpos) (hmono .ready q.peer)
  bounds := hbounds
  origin q h := by
    change (op.run addValues p.mem).value .ready q ≠ 0 at h
    rcases horigin q with heq | hnew
    · exact heq ▸ w.origin q (heq ▸ h)
    · exact hnew

/-- An operation that writes no word, in a call whose waits it respects. -/
theorem Words.advance_of_word_eq (w : Words pair calls p)
    (hword : (op.run addValues p.mem).word = p.mem.word)
    (hself : ∀ e t, StreamAt pair calls r k e t → p.pos r k ≠ lead e + 1 ∧
      p.pos r k ≠ lead e + 3 + adds t ∧
      (p.pos r k = 0 → 1 < e → e - 1 ≤ p.mem.value .consumed r) ∧
      (p.pos r k = lead e + 2 → e ≤ p.mem.value .ready r.peer)) :
    Words pair calls (p.advance (device addValues) r k op) := by
  have hvalue : ∀ kind q, (op.run addValues p.mem).value kind q = p.mem.value kind q := fun kind q => by
    simp [Mem.value, hword]
  refine w.advance ?_ ?_ ?_ ?_ ?_ ?_
  · exact fun kind q => by rw [hword, hvalue]; exact w.counts kind q
  · exact fun kind q => (hvalue kind q).ge
  · intro e t h
    obtain ⟨h1, h2, h3, h4⟩ := hself e t h
    have hready := w.wroteReady r k e t h
    have hconsumed := w.wroteConsumed r k e t h
    simp only [hvalue]
    refine ⟨by omega, by omega, fun he => ?_, fun hle => ?_⟩
    · by_cases h0 : p.pos r k = 0
      · exact h3 h0 he
      · exact w.sawConsumed r k e t h he (Nat.pos_of_ne_zero h0)
    · by_cases h0 : p.pos r k = lead e + 2
      · exact h4 h0
      · exact w.sawReady r k e t h (by omega)
  · exact fun q i e t _ _ => by simp [hvalue]
  · exact fun q => by simpa [hvalue] using w.bounds q
  · exact fun q => .inl (hvalue _ _)

/-- Writing the ready word moves it on by one. -/
theorem Words.writeReady (w : Words pair calls p) (h : StreamAt pair calls r k e t)
    (hpos : p.pos r k = lead e + 1) :
    Words pair calls (p.advance (device addValues) r k (.writeValue .ready r e)) := by
  obtain ⟨hready, hconsumed⟩ := w.before_ready h hpos
  refine w.advance ?_ ?_ ?_ ?_ ?_ ?_
  · intro kind q
    by_cases hq : kind = .ready ∧ q = r
    · obtain ⟨rfl, rfl⟩ := hq
      have := (w.counts .ready q).set
      rw [hready] at this
      simpa [Op.run, Mem.value] using this
    · simpa [Op.run_value, Op.run_word, hq] using w.counts kind q
  · intro kind q
    rw [Op.run_value]
    split_ifs with hq
    · obtain ⟨rfl, rfl⟩ := hq
      omega
    · exact Nat.le_refl _
  · intro e' t' h'
    obtain ⟨rfl, rfl⟩ := h.det h'
    have hc := w.wroteConsumed r k e t h
    simp only [Op.run_value]
    refine ⟨by simp; omega, by simp; omega, by simp; omega, by simp; omega⟩
  · intro q i e' t' h' hne
    simp only [Op.run_value]
    refine ⟨fun hle => ?_, fun hle => by simpa using hle⟩
    split_ifs at hle with hq
    · obtain ⟨-, rfl⟩ := hq
      have : e' ≠ e := fun he => hne ⟨rfl, ((he ▸ h').inj h).1⟩
      omega
    · exact hle
  · intro q
    simp only [Op.run_value]
    have := w.bounds q
    by_cases hq : q = r
    · subst hq; simp; omega
    · simpa [hq] using this
  · intro q
    by_cases hq : q = r
    · subst hq
      exact .inr ⟨k, t, by simpa [Op.run_value] using h⟩
    · exact .inl (by simp [Op.run_value, hq])

/-- Writing the peer's consumed word moves it on by one. -/
theorem Words.writeConsumed (w : Words pair calls p) (h : StreamAt pair calls r k e t)
    (hpos : p.pos r k = lead e + 3 + adds t) :
    Words pair calls (p.advance (device addValues) r k (.writeValue .consumed r.peer e)) := by
  obtain ⟨hready, hconsumed⟩ := w.during_add h (by omega) (by omega)
  refine w.advance ?_ ?_ ?_ ?_ ?_ ?_
  · intro kind q
    by_cases hq : kind = .consumed ∧ q = r.peer
    · obtain ⟨rfl, rfl⟩ := hq
      have := (w.counts .consumed r.peer).set
      rw [hconsumed] at this
      simpa [Op.run, Mem.value] using this
    · simpa [Op.run_value, Op.run_word, hq] using w.counts kind q
  · intro kind q
    rw [Op.run_value]
    split_ifs with hq
    · obtain ⟨rfl, rfl⟩ := hq
      omega
    · exact Nat.le_refl _
  · intro e' t' h'
    obtain ⟨rfl, rfl⟩ := h.det h'
    have hr := w.wroteReady r k e t h
    have hc := w.sawConsumed r k e t h
    simp only [Op.run_value]
    refine ⟨by simp; omega, by simp; omega, fun he => ?_, by simp; omega⟩
    simpa using hc he (by omega)
  · intro q i e' t' h' hne
    simp only [Op.run_value]
    refine ⟨fun hle => by simpa using hle, fun hle => ?_⟩
    split_ifs at hle with hq
    · have hqr : q = r := by
        have := hq.2
        rw [← Rank.peer_peer q, this, Rank.peer_peer]
      subst hqr
      have : e' ≠ e := fun he => hne ⟨rfl, ((he ▸ h').inj h).1⟩
      omega
    · exact hle
  · intro q
    simp only [Op.run_value]
    have := w.bounds q
    by_cases hq : q = r.peer
    · subst hq; simp; omega
    · simpa [hq] using this
  · exact fun q => .inl (by simp [Op.run_value])

theorem StreamAt.not_barrier {pl : Planned} (hpl : (plan pair calls r)[k]? = some pl)
    (hroute : pl.route = .barrier) : ¬ StreamAt pair calls r k e t := by
  rintro ⟨pl', hpl', hroute', _⟩
  obtain rfl : pl = pl' := by simpa using hpl.symm.trans hpl'
  simp [hroute] at hroute'

/-- The step lemma: whatever operation runs next, the words keep their meaning. -/
theorem Words.step (w : Words pair calls p) {pl : Planned} (hpl : (plan pair calls r)[k]? = some pl)
    (hruns : pl.Runs r (p.pos r k) op) (hr : op.ready p.mem) :
    Words pair calls (p.advance (device addValues) r k op) := by
  cases hroute : pl.route with
  | barrier =>
    simp only [Planned.Runs, hroute] at hruns
    refine w.advance_of_word_eq ?_ fun e t h => absurd h (StreamAt.not_barrier hpl hroute)
    cases hruns <;> rfl
  | stream e =>
    simp only [Planned.Runs, hroute] at hruns
    have h : StreamAt pair calls r k e pl.call.tensor := ⟨pl, hpl, hroute, rfl⟩
    have hlead : lead e ≤ 1 := by unfold lead; split_ifs <;> omega
    have hadds : adds pl.call.tensor ≤ 1 := by unfold adds; split_ifs <;> omega
    cases hruns with
    | waitConsumed hn he =>
      refine w.advance_of_word_eq rfl fun e' t' h' => ?_
      obtain ⟨rfl, rfl⟩ := h.det h'
      exact ⟨by omega, by omega, fun _ _ => hr, by omega⟩
    | copy hn =>
      refine w.advance_of_word_eq rfl fun e' t' h' => ?_
      obtain ⟨rfl, rfl⟩ := h.det h'
      refine ⟨by omega, by omega, fun h0 he => ?_, by omega⟩
      simp [lead, he] at hn
      omega
    | writeReady hn => exact w.writeReady h hn
    | waitReady hn =>
      refine w.advance_of_word_eq rfl fun e' t' h' => ?_
      obtain ⟨rfl, rfl⟩ := h.det h'
      exact ⟨by omega, by omega, by omega, fun _ => hr⟩
    | add hn ht =>
      refine w.advance_of_word_eq rfl fun e' t' h' => ?_
      obtain ⟨rfl, rfl⟩ := h.det h'
      have : adds pl.call.tensor = 1 := by simp [adds, ht]
      exact ⟨by omega, by omega, by omega, by omega⟩
    | writeConsumed hn => exact w.writeConsumed h hn

/-- The run lemma for the words. -/
theorem reachable_words {slot localOutput : Rank → Bytes}
    (hp : (progress (device addValues) (jobs pair calls) (.start slot localOutput)).Reachable p) :
    Words pair calls p := by
  refine System.Reachable.invariant ?_ ?_ hp
  · rintro _ rfl
    exact Words.start slot localOutput
  · rintro p _ _ w ⟨hn, hr⟩
    obtain ⟨pl, hpl, hruns⟩ := next_runs hn
    exact w.step hpl hruns hr

end

end MultiGpuTransport.MappedHost
