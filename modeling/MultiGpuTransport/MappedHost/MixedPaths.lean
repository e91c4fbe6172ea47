import MultiGpuTransport.MappedHost.SharedCalls

/-!
# Calls on both paths

Calls of either path on one stream per rank, none of whose steps fails. Both paths use the same
slots. A call on the stream path leaves its slot in use until the peer has added it, which the
next call on the stream path waits for and a call on the barrier path does not.
-/
namespace MultiGpuTransport.MappedHost
open Streams Transition

/-- No call on the stream path that moves bytes is directly followed by one on the barrier path that
moves bytes. -/
def NoSwitch {pair : Pair} (cs : List (Collective pair)) : Prop :=
  ∀ k sc sc' e, (shared cs)[k]? = some sc → (shared cs)[k + 1]? = some sc' →
    sc.route = .stream e → sc.Moves → sc'.route = .barrier → ¬ sc'.Moves

section
variable {pair : Pair} {cs : List (Collective pair)} {addValues : AddValues}
  {p : Progress Rank Mem} {r : Rank} {s : StreamId} {k : ℕ} {op : Op} {m : Mem}
  {sc : SharedCall pair}

/-! ### The slots -/

theorem streamAt_of_shared {e : ℕ} (h : (shared cs)[k]? = some sc) (hroute : sc.route = .stream e)
    (r : Rank) : StreamAt pair (callsOf cs) r k e (sc.col.call r).tensor := by
  refine ⟨sc.planned r, ?_, hroute, rfl⟩
  rw [plan_callsOf, List.getElem?_map, h]
  rfl

variable (cs) in
/-- A slot holds the payload copied last, not counting empty ones. -/
def SlotHolds (p : Progress Rank Mem) : Prop :=
  ∀ (r : Rank) (k : ℕ) (sc : SharedCall pair), (shared cs)[k]? = some sc → sc.Copied (p.pos r k) →
    (∀ j sc', k < j → (shared cs)[j]? = some sc' → sc'.Moves → ¬ sc'.Copied (p.pos r j)) →
      (sc.col.call r).tensor.data <+: p.mem.slot r

variable (cs addValues) in
/-- After the host's add its pinned buffer holds the sum. -/
def LocalHolds (p : Progress Rank Mem) : Prop :=
  ∀ (r : Rank) (k : ℕ) (sc : SharedCall pair), (shared cs)[k]? = some sc →
    sc.route = .barrier → p.pos r k = 4 →
    sc.rankSum addValues <+: p.mem.localOutput r

variable (cs addValues) in
/-- An output is the sum of its call once it is filled. -/
def OutputHolds (p : Progress Rank Mem) : Prop :=
  ∀ (r : Rank) (k : ℕ) (sc : SharedCall pair), (shared cs)[k]? = some sc → p.mem.output r sc.number =
    if sc.Filled r (p.pos r k) then some (sc.value addValues r) else none

variable (cs addValues) in
/-- The invariant of calls on both paths. -/
structure MixedInv (p : Progress Rank Mem) : Prop where
  firstWait : ∀ r k sc, (shared cs)[k]? = some sc → sc.route = .barrier → 3 ≤ p.pos r k →
    2 ≤ p.pos r.peer k
  secondWait : ∀ r k sc, (shared cs)[k]? = some sc → sc.route = .barrier → 7 ≤ p.pos r k →
    6 ≤ p.pos r.peer k
  slot : SlotHolds cs p
  localOutput : LocalHolds cs addValues p
  output : OutputHolds cs addValues p

theorem MixedInv.start (slot localOutput : Rank → Bytes) :
    MixedInv cs addValues ⟨fun _ _ => 0, Mem.start slot localOutput⟩ where
  firstWait r k sc _ _ h := by simp at h
  secondWait r k sc _ _ h := by simp at h
  slot r k sc _ h := absurd h.pos (Nat.lt_irrefl 0)
  localOutput r k sc _ _ h := by simp at h
  output r k sc _ := by
    have : ¬ sc.Filled r 0 := by
      unfold SharedCall.Filled
      cases sc.route <;> simp
    simp [Mem.start, this]

section
variable (hplain : Plain cs) {slot localOutput : Rank → Bytes}
  (hp : (progress (device addValues) (jobs pair (callsOf cs)) (.start slot localOutput)).Reachable p)
  (inv : MixedInv cs addValues p) (h : (shared cs)[k]? = some sc)
include hplain hp inv h

/-- A rank that has not finished call k keeps its peer out of everything after call k + 1. -/
theorem peer_next_call (hlt : p.pos r k < (sc.planned r).size) {j : ℕ} {sc' : SharedCall pair}
    (hj : (shared cs)[j]? = some sc') (hkj : k < j) (hbegun : 0 < p.pos r.peer j) : j = k + 1 := by
  by_contra hne
  obtain ⟨next, hnext⟩ : ∃ next, (shared cs)[k + 1]? = some next :=
    ⟨_, List.getElem?_eq_getElem (by have := (List.getElem?_eq_some_iff.mp hj).1; omega)⟩
  have w := reachable_words hp
  have hdone := size_le_pos (r := r.peer) (j := k + 1) hplain hp (by omega) hnext hbegun
  -- The peer has passed a wait of call k + 1, so this rank has begun that call.
  have hmine : 0 < p.pos r (k + 1) := by
    cases hroute : next.route with
    | stream e =>
      have hs := streamAt_of_shared hnext hroute
      have hready := w.sawReady r.peer (k + 1) e _ (hs r.peer)
        (by simp only [SharedCall.planned, Planned.size, hroute] at hdone; omega)
      rw [Rank.peer_peer] at hready
      have := (w.wroteReady r (k + 1) e _ (hs r)).mpr hready
      omega
    | barrier =>
      have := inv.firstWait r.peer (k + 1) next hnext hroute
        (by simp only [SharedCall.planned, Planned.size, hroute] at hdone; omega)
      rw [Rank.peer_peer] at this
      omega
  have := size_le_pos (r := r) hplain hp (Nat.lt_succ_self k) h hmine
  omega

/-- When the add of a stream call is next, the peer's slot holds its payload of the same call. -/
theorem peer_slot_of_stream (hcond : NoSwitch cs) {e : ℕ} (hroute : sc.route = .stream e)
    (hpos : p.pos r k = lead e + 3) (hnumel : (sc.col.call r).tensor.numel ≠ 0) :
    (sc.col.call r.peer).tensor.data <+: p.mem.slot r.peer := by
  have w := reachable_words hp
  have hs := streamAt_of_shared h hroute
  have hlt : p.pos r k < (sc.planned r).size := by
    simp only [SharedCall.planned, Planned.size, hroute]
    omega
  have hmoves : sc.Moves := by rwa [SharedCall.Moves, ← sc.numel_eq r]
  refine inv.slot r.peer k sc h ?_ fun j sc' hkj hj hmoves' hcopied => ?_
  · have hready := w.sawReady r k e _ (hs r) (by omega)
    have := (w.wroteReady r.peer k e _ (hs r.peer)).mpr hready
    simp only [SharedCall.Copied, hroute]
    omega
  · obtain rfl := peer_next_call hplain hp inv h hlt hj hkj hcopied.pos
    cases hroute' : sc'.route with
    | barrier => exact hcond k sc sc' e h hj hroute hmoves hroute' hmoves'
    | stream e' =>
      -- The next stream call copies only after this rank has consumed call k.
      have hs' := streamAt_of_shared hj hroute' r.peer
      have hlte : e < e' := by
        obtain ⟨pl, hpl, hr, _⟩ := hs r.peer
        obtain ⟨pl', hpl', hr', _⟩ := hs'
        exact (planFrom_epochs _ 0 0 _).2 k (k + 1) pl pl' e e' hkj hpl hpl' hr hr'
      have hsaw := w.sawConsumed r.peer (k + 1) e' _ hs' (by have := (hs r).pos; omega) hcopied.pos
      have := (w.wroteConsumed r k e _ (hs r)).mpr (by omega)
      omega

/-- When the host's add is next, both slots hold the payloads of the same call. -/
theorem slots_of_barrier (hroute : sc.route = .barrier) (hpos : p.pos r k = 3) (q : Rank) :
    (sc.col.call q).tensor.data <+: p.mem.slot q := by
  have hsize : ∀ r, (sc.planned r).size = 7 := fun r => by
    simp [SharedCall.planned, Planned.size, hroute]
  rcases Rank.eq_or_eq_peer q r with rfl | rfl
  · refine inv.slot q k sc h (by simp [SharedCall.Copied, hroute, hpos]) ?_
    intro j sc' hkj _ _ hcopied
    have := pos_later (r := q) hplain hp h (by rw [hsize]; omega) hkj
    exact absurd hcopied.pos (by omega)
  · have hfirst := inv.firstWait r k sc h hroute (by omega)
    refine inv.slot r.peer k sc h (by simp only [SharedCall.Copied, hroute]; omega) ?_
    intro j sc' hkj _ _ hcopied
    have hdone := size_le_pos (r := r.peer) hplain hp hkj h hcopied.pos
    rw [hsize] at hdone
    have := inv.secondWait r.peer k sc h hroute hdone
    rw [Rank.peer_peer] at this
    omega

end

/-! ### One operation -/

/-- A number is that of one call. -/
theorem index_of_number {scs : List (SharedCall pair)}
    (hpw : scs.Pairwise fun sc sc' => sc.number < sc'.number) {i : ℕ} {sc' : SharedCall pair}
    (h : scs[k]? = some sc) (h' : scs[i]? = some sc') (hnum : sc.number = sc'.number) : k = i := by
  rw [List.pairwise_iff_getElem] at hpw
  obtain ⟨hk, rfl⟩ := List.getElem?_eq_some_iff.mp h
  obtain ⟨hi, rfl⟩ := List.getElem?_eq_some_iff.mp h'
  rcases Nat.lt_trichotomy k i with hlt | heq | hlt
  · have := hpw k i hk hi hlt
    exact absurd hnum this.ne
  · exact heq
  · have := hpw i k hi hk hlt
    exact absurd hnum this.ne'

theorem number_inj {i : ℕ} {sc' : SharedCall pair} (h : (shared cs)[k]? = some sc)
    (h' : (shared cs)[i]? = some sc') (hnum : sc.number = sc'.number) : k = i :=
  index_of_number (sharedFrom_spec 0 0 cs).1 h h' hnum

theorem SlotHolds.of_slot_eq (hs : SlotHolds cs p) (h : (shared cs)[k]? = some sc)
    (hslot : (op.run addValues p.mem).slot = p.mem.slot)
    (hcopied : sc.Copied (p.pos r k + 1) → sc.Copied (p.pos r k)) :
    SlotHolds cs (p.advance (device addValues) r k op) := by
  intro q i sc' hi hc hlast
  change _ <+: (op.run addValues p.mem).slot q
  rw [hslot]
  refine hs q i sc' hi ?_ fun j scj hij hj hmoves hcj => hlast j scj hij hj hmoves ?_
  · rw [Progress.advance_pos] at hc
    split_ifs at hc with hqi
    · obtain ⟨rfl, rfl⟩ := hqi
      obtain rfl : sc = sc' := by simpa using h.symm.trans hi
      exact hcopied hc
    · exact hc
  · rw [Progress.advance_pos]
    split_ifs with hqj
    · obtain ⟨rfl, rfl⟩ := hqj
      exact hcj.mono (Nat.le_succ _)
    · exact hcj

theorem SlotHolds.of_copy (hs : SlotHolds cs p) (h : (shared cs)[k]? = some sc)
    (hcopied : sc.Copied (p.pos r k + 1)) (hlater : ∀ j, k < j → p.pos r j = 0) :
    SlotHolds cs (p.advance (device addValues) r k
      (.copyToSlot r (sc.col.call r).tensor.data)) := by
  intro q i sc' hi hc hlast
  change _ <+: ((Op.copyToSlot r (sc.col.call r).tensor.data).run addValues p.mem).slot q
  by_cases hq : q = r
  · subst hq
    simp only [Op.run, Function.update_self]
    rw [Progress.advance_pos] at hc
    by_cases hik : i = k
    · subst hik
      obtain rfl : sc = sc' := by simpa using h.symm.trans hi
      exact copyKernel_prefix _ _
    · rw [if_neg (by simp [hik])] at hc
      have hlt : i < k := by
        by_contra hge
        rw [hlater i (by omega)] at hc
        exact absurd hc.pos (Nat.lt_irrefl 0)
      -- A later copy than that of call i must be of an empty payload.
      have hempty : ¬ sc.Moves := fun hmoves =>
        hlast k sc hlt h hmoves (by simpa [Progress.advance_pos] using hcopied)
      rw [SharedCall.data_eq_nil hempty, copyKernel_nil]
      refine hs q i sc' hi hc fun j scj hij hj hmoves hcj => hlast j scj hij hj hmoves ?_
      have hjk : j ≠ k := by
        rintro rfl
        obtain rfl : sc = scj := by simpa using h.symm.trans hj
        exact hempty hmoves
      simpa [Progress.advance_pos, hjk] using hcj
  · simp only [Op.run, Function.update_of_ne hq]
    have hpos : ∀ j, (p.advance (device addValues) r k
        (.copyToSlot r (sc.col.call r).tensor.data)).pos q j = p.pos q j := fun j => by
      simp [Progress.advance_pos, hq]
    rw [hpos] at hc
    exact hs q i sc' hi hc fun j scj hij hj hmoves hcj =>
      hlast j scj hij hj hmoves (by rwa [hpos])

theorem LocalHolds.of_local_eq (hl : LocalHolds cs addValues p) (h : (shared cs)[k]? = some sc)
    (hlocal : (op.run addValues p.mem).localOutput = p.mem.localOutput)
    (hpos : sc.route = .barrier → p.pos r k ≠ 3) :
    LocalHolds cs addValues (p.advance (device addValues) r k op) := by
  intro q i sc' hi hroute hq
  change _ <+: (op.run addValues p.mem).localOutput q
  rw [hlocal]
  rw [Progress.advance_pos] at hq
  split_ifs at hq with hqi
  · obtain ⟨rfl, rfl⟩ := hqi
    obtain rfl : sc = sc' := by simpa using h.symm.trans hi
    exact absurd (by omega) (hpos hroute)
  · exact hl q i sc' hi hroute hq

theorem SharedCall.Filled.mono {n n' : ℕ} (h : sc.Filled r n) (hle : n ≤ n') : sc.Filled r n' := by
  unfold Filled at h ⊢
  cases hroute : sc.route with
  | stream e => simp only [hroute] at h ⊢; exact ⟨h.1, Nat.le_trans h.2 hle⟩
  | barrier => simp only [hroute] at h ⊢; exact Nat.le_trans h hle

theorem OutputHolds.of_output_eq (ho : OutputHolds cs addValues p) (h : (shared cs)[k]? = some sc)
    (hout : (op.run addValues p.mem).output = p.mem.output)
    (hfilled : sc.Filled r (p.pos r k + 1) → sc.Filled r (p.pos r k)) :
    OutputHolds cs addValues (p.advance (device addValues) r k op) := by
  intro q i sc' hi
  change (op.run addValues p.mem).output q sc'.number = _
  rw [hout, ho q i sc' hi, Progress.advance_pos]
  by_cases hqi : q = r ∧ i = k
  · obtain ⟨rfl, rfl⟩ := hqi
    obtain rfl : sc = sc' := by simpa using h.symm.trans hi
    have hiff : sc.Filled q (p.pos q i) ↔ sc.Filled q (p.pos q i + 1) :=
      ⟨fun hf => hf.mono (Nat.le_succ _), hfilled⟩
    simp [hiff]
  · rw [if_neg hqi]

theorem OutputHolds.of_fill (ho : OutputHolds cs addValues p) (h : (shared cs)[k]? = some sc)
    (hfilled : sc.Filled r (p.pos r k + 1))
    (hout : (op.run addValues p.mem).output = Function.update p.mem.output r
      (Function.update (p.mem.output r) sc.number (some (sc.value addValues r)))) :
    OutputHolds cs addValues (p.advance (device addValues) r k op) := by
  intro q i sc' hi
  change (op.run addValues p.mem).output q sc'.number = _
  rw [hout, Progress.advance_pos]
  by_cases hqi : q = r ∧ i = k
  · obtain ⟨rfl, rfl⟩ := hqi
    obtain rfl : sc = sc' := by simpa using h.symm.trans hi
    simp [hfilled]
  · rw [if_neg hqi, ← ho q i sc' hi]
    by_cases hq : q = r
    · subst hq
      have hnum : sc'.number ≠ sc.number := fun he => hqi ⟨rfl, number_inj hi h he⟩
      simp [hnum]
    · simp [hq]

/-- The whole invariant, from what an operation does to each part of the memory. -/
theorem MixedInv.advance (inv : MixedInv cs addValues p) (h : (shared cs)[k]? = some sc)
    (hwaits : sc.route = .barrier → (p.pos r k = 2 → 2 ≤ p.pos r.peer k) ∧
      (p.pos r k = 6 → 6 ≤ p.pos r.peer k))
    (hslot : SlotHolds cs (p.advance (device addValues) r k op))
    (hlocal : LocalHolds cs addValues (p.advance (device addValues) r k op))
    (hout : OutputHolds cs addValues (p.advance (device addValues) r k op)) :
    MixedInv cs addValues (p.advance (device addValues) r k op) where
  firstWait q i sc' hi hroute hq := by
    refine Nat.le_trans ?_ (Progress.le_advance_pos _ _ _ _ _ _ _)
    rw [Progress.advance_pos] at hq
    split_ifs at hq with hqi
    · obtain ⟨rfl, rfl⟩ := hqi
      obtain rfl : sc = sc' := by simpa using h.symm.trans hi
      by_cases h2 : p.pos q i = 2
      · exact (hwaits hroute).1 h2
      · exact inv.firstWait q i sc h hroute (by omega)
    · exact inv.firstWait q i sc' hi hroute hq
  secondWait q i sc' hi hroute hq := by
    refine Nat.le_trans ?_ (Progress.le_advance_pos _ _ _ _ _ _ _)
    rw [Progress.advance_pos] at hq
    split_ifs at hq with hqi
    · obtain ⟨rfl, rfl⟩ := hqi
      obtain rfl : sc = sc' := by simpa using h.symm.trans hi
      by_cases h6 : p.pos q i = 6
      · exact (hwaits hroute).2 h6
      · exact inv.secondWait q i sc h hroute (by omega)
    · exact inv.secondWait q i sc' hi hroute hq
  slot := hslot
  localOutput := hlocal
  output := hout

/-- The step lemma for a stream call. -/
theorem MixedInv.step_stream (hplain : Plain cs) (hcond : NoSwitch cs)
    {slot localOutput : Rank → Bytes}
    (hp : (progress (device addValues) (jobs pair (callsOf cs)) (.start slot localOutput)).Reachable p)
    (inv : MixedInv cs addValues p) (h : (shared cs)[k]? = some sc) {e : ℕ}
    (hroute : sc.route = .stream e) (hlt : p.pos r k < (sc.planned r).size)
    (hop : StreamOp r sc.number e (sc.col.call r).tensor (p.pos r k) op) :
    MixedInv cs addValues (p.advance (device addValues) r k op) := by
  have hwaits : sc.route = .barrier → (p.pos r k = 2 → 2 ≤ p.pos r.peer k) ∧
      (p.pos r k = 6 → 6 ≤ p.pos r.peer k) := by simp [hroute]
  have hlocal : (op.run addValues p.mem).localOutput = p.mem.localOutput →
      LocalHolds cs addValues (p.advance (device addValues) r k op) := fun hl =>
    inv.localOutput.of_local_eq h hl (by simp [hroute])
  -- Any operation but the copy and the add leaves slots and outputs alone.
  have quiet : (op.run addValues p.mem).slot = p.mem.slot →
      (op.run addValues p.mem).output = p.mem.output →
      (op.run addValues p.mem).localOutput = p.mem.localOutput → p.pos r k ≠ lead e →
      ((sc.col.call r).tensor.numel ≠ 0 → p.pos r k ≠ lead e + 3) →
      MixedInv cs addValues (p.advance (device addValues) r k op) := by
    intro hs ho hl hcopy hadd
    refine inv.advance h hwaits (inv.slot.of_slot_eq h hs ?_) (hlocal hl)
      (inv.output.of_output_eq h ho ?_)
    · simp only [SharedCall.Copied, hroute]
      omega
    · simp only [SharedCall.Filled, hroute]
      rintro ⟨hnumel, hle⟩
      have := hadd hnumel
      exact ⟨hnumel, by omega⟩
  have hlead : lead e ≤ 1 := by unfold lead; split_ifs <;> omega
  cases hop with
  | waitConsumed hn he => exact quiet rfl rfl rfl (by simp [hn, lead, he]) (by omega)
  | copy hn =>
    refine inv.advance h hwaits (inv.slot.of_copy h ?_ fun j hj => pos_later hplain hp h hlt hj)
      (hlocal rfl) (inv.output.of_output_eq h rfl ?_)
    · simp only [SharedCall.Copied, hroute]
      omega
    · simp only [SharedCall.Filled, hroute]
      omega
  | writeReady hn => exact quiet rfl rfl rfl (by omega) (by omega)
  | waitReady hn => exact quiet rfl rfl rfl (by omega) (by omega)
  | add hn ht =>
    refine inv.advance h hwaits (inv.slot.of_slot_eq h rfl ?_) (hlocal rfl)
      (inv.output.of_fill h ?_ ?_)
    · simp only [SharedCall.Copied, hroute]
      omega
    · simp only [SharedCall.Filled, hroute]
      exact ⟨ht, by omega⟩
    · have hslot := peer_slot_of_stream hplain hp inv h hcond hroute hn ht
      have hlen : (sc.col.call r.peer).tensor.data.length =
          (sc.col.call r).tensor.numel * (sc.col.call r).tensor.dtype.elementSize := by
        rw [Tensor.data_length, ← (sc.col.sameShape r).sizeBytes]
        rfl
      simp [Op.run, addKernel_prefix addValues _ _ hslot hlen, SharedCall.value, hroute,
        Collective.sum, Tensor.sum]
  | writeConsumed hn =>
    refine quiet rfl rfl rfl (by omega) fun ht => ?_
    simp only [adds, ht, if_false] at hn
    omega

/-- What the host's add of a barrier call makes of the slots. -/
theorem addSlots_eq (hslots : ∀ q, (sc.col.call q).tensor.data <+: m.slot q) (r : Rank) :
    addKernel addValues (sc.col.call r).tensor.dtype (sc.col.call r).tensor.numel
      (m.slot .zero) (m.slot .one) = sc.rankSum addValues := by
  have hdtype : (sc.col.call r).tensor.dtype = (sc.col.call .zero).tensor.dtype := by
    cases r with
    | zero => rfl
    | one => exact (sc.col.sameShape .one).1
  have hlen : ∀ q, (sc.col.call q).tensor.data.length =
      (sc.col.call .zero).tensor.numel * (sc.col.call .zero).tensor.dtype.elementSize := by
    intro q
    rw [Tensor.data_length]
    cases q with
    | zero => rfl
    | one => exact (sc.col.sameShape .one).sizeBytes
  rw [hdtype, sc.numel_eq r, addKernel_prefix_left addValues _ _ (hslots .zero) (hlen .zero),
    addKernel_prefix addValues _ _ (hslots .one) (hlen .one)]
  rfl

theorem rankSum_length (r : Rank) :
    (sc.rankSum addValues).length = (sc.col.call r).tensor.sizeBytes := by
  have hsize : ∀ q, (sc.col.call q).tensor.sizeBytes = (sc.col.call .zero).tensor.sizeBytes :=
    fun q => by
      cases q with
      | zero => rfl
      | one => exact (sc.col.sameShape .one).sizeBytes
  rw [hsize, SharedCall.rankSum, Tensor.sum]
  refine addKernel_length addValues _ ?_ ?_
  · rw [Tensor.data_length]
    exact Nat.le_refl _
  · rw [Tensor.data_length, hsize]
    exact Nat.le_refl _

/-- The host's add fills its pinned buffer, and no other call of the rank is at its copy then. -/
theorem LocalHolds.of_add (hl : LocalHolds cs addValues p) (hplain : Plain cs)
    {slot localOutput : Rank → Bytes}
    (hp : (progress (device addValues) (jobs pair (callsOf cs)) (.start slot localOutput)).Reachable p)
    (h : (shared cs)[k]? = some sc) (hroute : sc.route = .barrier) (hpos : p.pos r k = 3)
    (hslots : ∀ q, (sc.col.call q).tensor.data <+: p.mem.slot q) :
    LocalHolds cs addValues (p.advance (device addValues) r k
      (.addSlots r (sc.col.call r).tensor.dtype (sc.col.call r).tensor.numel)) := by
  intro q i sc' hi hroute' hq
  change _ <+: ((Op.addSlots r (sc.col.call r).tensor.dtype
    (sc.col.call r).tensor.numel).run addValues p.mem).localOutput q
  rw [Progress.advance_pos] at hq
  by_cases hqr : q = r
  · subst hqr
    by_cases hik : i = k
    · subst hik
      obtain rfl : sc = sc' := by simpa using h.symm.trans hi
      simp only [Op.run, Function.update_self, addSlots_eq hslots q]
      exact copyKernel_prefix _ _
    · rw [if_neg (by simp [hik])] at hq
      have hlt : p.pos q k < (sc.planned q).size := by
        simp only [SharedCall.planned, Planned.size, hroute]
        omega
      rcases Nat.lt_or_ge k i with hki | hki
      · rw [pos_later hplain hp h hlt hki] at hq
        omega
      · have hdone := size_le_pos (r := q) (j := i) hplain hp (by omega) hi (k := k) (by omega)
        simp only [SharedCall.planned, Planned.size, hroute'] at hdone
        omega
  · rw [if_neg (by simp [hqr])] at hq
    simpa [Op.run, hqr] using hl q i sc' hi hroute' hq

/-- The step lemma for a barrier call. -/
theorem MixedInv.step_barrier (hplain : Plain cs) {slot localOutput : Rank → Bytes}
    (hp : (progress (device addValues) (jobs pair (callsOf cs)) (.start slot localOutput)).Reachable p)
    (inv : MixedInv cs addValues p) (h : (shared cs)[k]? = some sc) (hroute : sc.route = .barrier)
    (hlt : p.pos r k < (sc.planned r).size)
    (hnext : Next s (jobs pair (callsOf cs) r) (p.pos r) k op) (hr : op.ready p.mem)
    (hop : BarrierOp r sc.number (sc.col.call r).tensor (p.pos r k) op) :
    MixedInv cs addValues (p.advance (device addValues) r k op) := by
  have keepSlot : (op.run addValues p.mem).slot = p.mem.slot → p.pos r k ≠ 0 →
      SlotHolds cs (p.advance (device addValues) r k op) := fun hs h0 =>
    inv.slot.of_slot_eq h hs (by simp only [SharedCall.Copied, hroute]; omega)
  have keepOutput : (op.run addValues p.mem).output = p.mem.output → p.pos r k ≠ 4 →
      OutputHolds cs addValues (p.advance (device addValues) r k op) := fun ho h4 =>
    inv.output.of_output_eq h ho (by simp only [SharedCall.Filled, hroute]; omega)
  have keepLocal : (op.run addValues p.mem).localOutput = p.mem.localOutput → p.pos r k ≠ 3 →
      LocalHolds cs addValues (p.advance (device addValues) r k op) := fun hl h3 =>
    inv.localOutput.of_local_eq h hl fun _ => h3
  cases hop with
  | copy hn =>
    refine inv.advance h (by omega) (inv.slot.of_copy h ?_ fun j hj =>
      pos_later hplain hp h hlt hj) (keepLocal rfl (by omega)) (keepOutput rfl (by omega))
    simp only [SharedCall.Copied, hroute]
    omega
  | firstSet hn | secondSet hn =>
    exact inv.advance h (by omega) (keepSlot rfl (by omega)) (keepLocal rfl (by omega))
      (keepOutput rfl (by omega))
  | firstWait hn | secondWait hn =>
    exact inv.advance h
      (fun _ => set_before_wait hplain hp (reachable_eventInv hplain hp) h hroute hnext hr)
      (keepSlot rfl (by omega)) (keepLocal rfl (by omega)) (keepOutput rfl (by omega))
  | addSlots hn =>
    exact inv.advance h (by omega) (keepSlot rfl (by omega))
      (inv.localOutput.of_add hplain hp h hroute hn (slots_of_barrier hplain hp inv h hroute hn))
      (keepOutput rfl (by omega))
  | copyOutput hn =>
    refine inv.advance h (by omega) (keepSlot rfl (by omega)) (keepLocal rfl (by omega))
      (inv.output.of_fill h ?_ ?_)
    · simp only [SharedCall.Filled, hroute]
      omega
    · obtain ⟨rest, hrest⟩ := inv.localOutput r k sc h hroute hn
      simp only [Op.run, ← hrest, SharedCall.value, hroute]
      rw [List.take_left' (rankSum_length r)]

/-- The run lemma for calls on both paths. -/
theorem reachable_mixedInv (hplain : Plain cs) (hcond : NoSwitch cs)
    {slot localOutput : Rank → Bytes}
    (hp : (progress (device addValues) (jobs pair (callsOf cs))
      (.start slot localOutput)).Reachable p) : MixedInv cs addValues p := by
  refine System.Reachable.invariant ?_ ?_ hp
  · rintro _ rfl
    exact MixedInv.start slot localOutput
  · rintro p _ hp inv ⟨hn, hr⟩
    obtain ⟨sc, hsc, hruns, hlt, _⟩ := next_shared hplain hn
    cases hroute : sc.route with
    | stream e =>
      simp only [Planned.Runs, SharedCall.planned, hroute] at hruns
      exact inv.step_stream hplain hcond hp hsc hroute hlt hruns
    | barrier =>
      simp only [Planned.Runs, SharedCall.planned, hroute] at hruns
      exact inv.step_barrier hplain hp hsc hroute hlt hn hr hruns

/-- What a call that returned gives: the output of its own number, on its path. -/
theorem shared_of_returned {i : ℕ} {ref : TensorRef} {col : Collective pair}
    (hcol : cs[i]? = some col) (h : returned pair (callsOf cs) r i ref) :
    ∃ (k : ℕ) (sc : SharedCall pair), (shared cs)[k]? = some sc ∧ sc.number = i ∧ sc.col = col ∧
      ref = outputRef i (col.call r).tensor := by
  obtain ⟨pl, hpl, hnum, _, href, _⟩ := makeCalls_result _ _ _ i ref h
  simp only [State.start, Nat.zero_add] at hpl hnum href
  rw [planFrom_callsOf, List.mem_map] at hpl
  obtain ⟨sc, hsc, rfl⟩ := hpl
  obtain ⟨k, hk⟩ := List.getElem?_of_mem hsc
  have hnum : sc.number = i := hnum
  have hsccol := ((sharedFrom_spec 0 0 cs).2 sc hsc).2
  rw [Nat.sub_zero, hnum, hcol, Option.some.injEq] at hsccol
  exact ⟨k, sc, hk, hnum, hsccol.symm, by rw [href, hsccol]; rfl⟩

/-- What calls on both paths are to guarantee: every output a call returned is, once filled, the sum
of its own call, and it is filled when everything has run. -/
structure MixedSafe {pair : Pair} (addValues : AddValues) (cs : List (Collective pair))
    (S : System (HostConfig Rank (Rank × StreamId) Op Mem)) : Prop where
  sums : ∀ c, S.Reachable c → ∀ r i col ref bytes, cs[i]? = some col →
    returned pair (callsOf cs) r i ref → readOutput c.mem r ref = some bytes →
      IsSum addValues (col.call r).tensor (col.call r.peer).tensor bytes
  complete : ∀ c, S.Reachable c → ¬ c.Unfinished → ∀ r i col ref, cs[i]? = some col →
    returned pair (callsOf cs) r i ref → (readOutput c.mem r ref).isSome

/-- On all interleavings of the hosts and streams, as long as no nonempty stream call is directly
followed by a nonempty barrier call. -/
theorem allReduce_mixedPaths_safe (addValues : AddValues) (pair : Pair) (cs : List (Collective pair))
    (slot localOutput : Rank → Bytes) (hplain : Plain cs) (hcond : NoSwitch cs) :
    MixedSafe addValues cs (system addValues pair (callsOf cs) slot localOutput) where
  sums c hc r i col ref bytes hcol hret hread := by
    obtain ⟨p, hf⟩ := (program_realizes pair (callsOf cs)).follows hc
    have inv := reachable_mixedInv hplain hcond hf.reachable
    obtain ⟨k, sc, hsc, hnum, rfl, rfl⟩ := shared_of_returned hcol hret
    by_cases hnumel : (sc.col.call r).tensor.numel = 0
    · simp only [outputRef, hnumel, if_true, readOutput, Option.some.injEq] at hread
      exact .inl (by simp [← hread, Tensor.sum, hnumel])
    · simp only [outputRef, hnumel, if_false, readOutput, ← hf.mem_eq, ← hnum,
        inv.output r k sc hsc] at hread
      split_ifs at hread
      exact (Option.some.inj hread) ▸ sc.isSum_value addValues r
  complete c hc hu r i col ref hcol hret := by
    obtain ⟨p, hf⟩ := (program_realizes pair (callsOf cs)).follows hc
    have inv := reachable_mixedInv hplain hcond hf.reachable
    obtain ⟨k, sc, hsc, hnum, rfl, rfl⟩ := shared_of_returned hcol hret
    by_cases hnumel : (sc.col.call r).tensor.numel = 0
    · simp [outputRef, hnumel, readOutput]
    · have hdone := hf.finished hu r k
      rw [opsAt_shared hplain hsc, Planned.length_ops] at hdone
      have hfilled : sc.Filled r (p.pos r k) := by
        unfold SharedCall.Filled
        cases hroute : sc.route with
        | stream e =>
          simp only [SharedCall.planned, Planned.size, hroute] at hdone
          exact ⟨hnumel, by omega⟩
        | barrier =>
          simp only [SharedCall.planned, Planned.size, hroute] at hdone
          exact Nat.le_trans (by omega) hdone
      simp [outputRef, hnumel, readOutput, ← hf.mem_eq, ← hnum, inv.output r k sc hsc, hfilled]

end

theorem elementSize_float32 : Dtype.float32.elementSize = 4 := rfl

theorem elementSize_int32 : Dtype.int32.elementSize = 4 := rfl

/-- A call of integers, on the barrier path, and then one of floats, on the stream path. -/
def barrierThenStream : List (Collective samplePair) :=
  [sampleCollective .int32 elementSize_int32 (fun _ => 1) (fun _ => 1),
   sampleCollective .float32 elementSize_float32 (fun _ => 2) (fun _ => 1)]

theorem allReduce_mixedPaths_safe_sample : Plain barrierThenStream ∧ NoSwitch barrierThenStream ∧
    MixedSafe addBytes barrierThenStream
      (system addBytes samplePair (callsOf barrierThenStream) (fun _ => []) (fun _ => [])) := by
  have hplain : Plain barrierThenStream := by
    constructor
    · exact fun r => ⟨1, by simp [barrierThenStream, sampleCollective]⟩
    · simp [NoFault, barrierThenStream, sampleCollective]
  have hcond : NoSwitch barrierThenStream := by
    intro k sc sc' e h h' hroute
    cases k with
    | zero => cases h; cases hroute
    | succ k => simp [show (shared barrierThenStream).length = 2 from rfl] at h'
  exact ⟨hplain, hcond, allReduce_mixedPaths_safe addBytes samplePair _ _ _ hplain hcond⟩

/-- A call of floats, on the stream path, and then one of integers, on the barrier path. -/
def streamThenBarrier : List (Collective samplePair) :=
  [sampleCollective .float32 elementSize_float32 (fun _ => 1) (fun _ => 1),
   sampleCollective .int32 elementSize_int32 (fun _ => 2) (fun _ => 1)]

/-- Rank 0's stream drains and its host copies the second payload before rank 1 adds the first. -/
def streamThenBarrierRun : List (Turn Rank (Rank × StreamId)) :=
  List.replicate 5 (.host .zero) ++ List.replicate 5 (.host .one) ++
    List.replicate 2 (.stream (.zero, 1)) ++ List.replicate 2 (.stream (.one, 1)) ++
    List.replicate 3 (.stream (.zero, 1)) ++ [.host .zero] ++
    List.replicate 2 (.stream (.one, 1))

/-- Rank 1 then gets 1 + 2 for a call in which both ranks passed 1. -/
theorem streamThenBarrier_unsafe : Plain streamThenBarrier ∧
    ¬ MixedSafe addBytes streamThenBarrier
      (system addBytes samplePair (callsOf streamThenBarrier) (fun _ => []) (fun _ => [])) := by
  constructor
  · constructor
    · exact fun r => ⟨1, by simp [streamThenBarrier, sampleCollective]⟩
    · simp [NoFault, streamThenBarrier, sampleCollective]
  · intro safe
    have hrun : ((HostConfig.start (program samplePair (callsOf streamThenBarrier))
        (.start (fun _ => []) (fun _ => []))).turns (device addBytes) streamThenBarrierRun).map
          (fun c => c.mem.output .one 0) = some (some [3, 0, 0, 0]) := by decide +kernel
    obtain ⟨c, hc, hout⟩ := Option.map_eq_some_iff.mp hrun
    have hsum := safe.sums c (reachable_turns (.init rfl) hc) .one 0 _ (.output 0) _ rfl
      (by unfold returned; decide +kernel) hout
    revert hsum
    unfold IsSum
    decide +kernel

end MultiGpuTransport.MappedHost
