import MultiGpuTransport.Dflash2.Speculator

/-!
# What the kernels of the speculator do

The programs of either launch keep apart: the rows of the walk, and the places of the cache kernel as
long as no two of them are the same step of the same request.
-/
namespace MultiGpuTransport.Dflash2
open Launches

section
variable {β : Type} [Arithmetic β]

theorem maxLane_spec (block : ℕ) (value : ℕ → β) :
    (maxLane block value < block ∨ block = 0) ∧
      (∀ lane < block, value lane ≤ value (maxLane block value)) ∧
        ∀ lane < maxLane block value, value lane < value (maxLane block value) := by
  induction block with
  | zero => simp [maxLane]
  | succ block ih =>
    have hsucc : maxLane (block + 1) value =
        if value (maxLane block value) < value block then block else maxLane block value := by
      rw [maxLane, List.range_succ, List.foldl_append]
      rfl
    obtain ⟨hlt, hle, hfirst⟩ := ih
    rw [hsucc]
    split_ifs with hbetter
    · refine ⟨.inl (by omega), fun lane hlane => ?_, fun lane hlane => (hle lane hlane).trans_lt hbetter⟩
      rcases Nat.lt_succ_iff_lt_or_eq.mp hlane with hlane | rfl
      · exact ((hle lane hlane).trans_lt hbetter).le
      · exact le_rfl
    · refine ⟨.inl ?_, fun lane hlane => ?_, hfirst⟩
      · rcases hlt with hlt | rfl
        · omega
        · simp [maxLane]
      · rcases Nat.lt_succ_iff_lt_or_eq.mp hlane with hlane | rfl
        · exact hle lane hlane
        · exact not_lt.mp hbetter

/-- What a lane competes with. -/
def noised (random : Random β) (useFp64 : Bool) (seed pos : ℤ) (temp logit : β) (key : ℕ) : β :=
  if temp ≠ 0 then logit + random.gumbelNoise useFp64 seed pos key else logit

/-- Of lanes that are -inf from top on, one before top wins. -/
theorem gumbelNoisedArgmax_spec (random : Random β) {block top : ℕ} {logits : ℕ → β} (keys : ℕ → ℕ)
    {mask : ℕ → Bool} (seed pos : ℤ) (temp : β) (useFp64 : Bool) (hpos : 0 < top) (hblock : top ≤ block)
    (hmask : ∀ lane, mask lane = true ↔ lane < top) (hout : ∀ lane, mask lane = false → logits lane = ⊥) :
    let lane := (gumbelNoisedArgmax random block logits keys mask seed pos temp useFp64 false).2
    lane < top ∧ ∀ lane' < top, noised random useFp64 seed pos temp (logits lane') (keys lane') ≤
      noised random useFp64 seed pos temp (logits lane) (keys lane) := by
  intro lane
  let value := fun lane => if temp ≠ 0 then
      if mask lane then noised random useFp64 seed pos temp (logits lane) (keys lane) else ⊥
    else logits lane
  have hvalue : lane = maxLane block value := by
    simp only [lane, value, gumbelNoisedArgmax, noised]
    by_cases htemp : temp = 0 <;> simp [htemp]
  have hin : ∀ lane < top, value lane =
      noised random useFp64 seed pos temp (logits lane) (keys lane) := by
    intro lane hlane
    by_cases htemp : temp = 0 <;> simp [value, noised, htemp, (hmask lane).mpr hlane]
  have hbot : ∀ lane, ¬ lane < top → value lane = ⊥ := by
    intro lane hlane
    have hmasked : mask lane = false := Bool.eq_false_iff.mpr (mt (hmask lane).mp hlane)
    by_cases htemp : temp = 0 <;> simp [value, htemp, hmasked, hout lane hmasked]
  obtain ⟨-, hle, hfirst⟩ := maxLane_spec block value
  rw [← hvalue] at hle hfirst
  have hlt : lane < top := by
    by_contra hlane
    have hzero := hfirst 0 (by omega)
    rw [hbot lane hlane] at hzero
    exact not_lt_bot hzero
  refine ⟨hlt, fun lane' hlane' => ?_⟩
  have hmax := hle lane' (by omega)
  rwa [hin lane' hlane', hin lane hlt] at hmax

theorem place_lt {k i l : ℕ} (hl : l < k) : (i * k + l) / k = i := by
  rw [Nat.mul_comm, Nat.mul_add_div (by omega), Nat.div_eq_of_lt hl, Nat.add_zero]

theorem place_inj {k i i' l l' : ℕ} (hl : l < k) (hl' : l' < k) (h : i * k + l = i' * k + l') :
    i = i' ∧ l = l' := by
  have hi : i = i' := by rw [← place_lt (i := i) hl, h, place_lt hl']
  subst hi
  exact ⟨rfl, by omega⟩

theorem place_mod {k i l : ℕ} (hl : l < k) : (i * k + l) % k = l := by
  rw [Nat.mul_add_mod', Nat.mod_eq_of_lt hl]

theorem place_lt_mul {k i l n : ℕ} (hi : i < n) (hl : l < k) : i * k + l < n * k := by
  calc i * k + l
    _ < (i + 1) * k := by rw [Nat.succ_mul]; omega
    _ ≤ n * k := Nat.mul_le_mul_right _ hi

/-! ### The walk -/

namespace WalkArgs
variable {a : WalkArgs β} {random : Random β} {row step previous lane numReqs : ℕ}
  {m m' : Memory β}

omit [Arithmetic β] in
theorem mem_lanes : lane ∈ a.lanes row ↔ lane < a.blockK ∧ lane < a.topK ∧ a.valid row = true := by
  simp [lanes, mask]

/-- The register before a step. -/
def previousAt (a : WalkArgs β) (random : Random β) (row : ℕ) : ℕ → ℕ
  | 0 => 0
  | step + 1 => a.index row step (a.previousAt random row step) random

def rowTemp (a : WalkArgs β) (row : ℕ) : β := if a.sampleProbabilistic then a.rowTemperature row else 0

/-- The winner of a step is a candidate with the largest noised score. -/
theorem index_spec (a : WalkArgs β) (random : Random β) (step previous : ℕ) (hpos : 0 < a.topK)
    (hblock : a.topK ≤ a.blockK) (hvalid : a.valid row = true) :
    a.index row step previous random < a.topK ∧ ∀ lane < a.topK,
      noised random a.useFp64 (a.rowSeed row) (a.samplePos (a.flat row step) - 1) (a.rowTemp row)
          (a.scores (a.scoreBase row step previous + lane))
          (a.candidates (a.candidateBase row step + lane)) ≤
        noised random a.useFp64 (a.rowSeed row) (a.samplePos (a.flat row step) - 1) (a.rowTemp row)
          (a.scores (a.scoreBase row step previous + a.index row step previous random))
          (a.candidates (a.candidateBase row step + a.index row step previous random)) := by
  have hmask : ∀ lane, a.mask row lane = true ↔ lane < a.topK := by simp [mask, hvalid]
  have hin : ∀ lane < a.topK, a.laneScores row step previous lane =
        a.scores (a.scoreBase row step previous + lane) ∧
      a.laneCandidates row step lane = a.candidates (a.candidateBase row step + lane) :=
    fun lane hlane => by simp [laneScores, laneCandidates, (hmask lane).mpr hlane]
  obtain ⟨hlt, hle⟩ := gumbelNoisedArgmax_spec random (a.laneCandidates row step) (a.rowSeed row)
    (a.samplePos (a.flat row step) - 1) (a.rowTemp row) a.useFp64 hpos hblock hmask
    fun lane hlane => show a.laneScores row step previous lane = ⊥ by simp [laneScores, hlane]
  refine ⟨hlt, fun lane hlane => ?_⟩
  have hmax := hle lane hlane
  rw [(hin lane hlane).1, (hin lane hlane).2] at hmax
  refine hmax.trans_eq ?_
  obtain ⟨hscore, hcandidate⟩ := hin _ hlt
  exact congrArg₂ _ hscore hcandidate

omit [Arithmetic β] in
theorem flat_div (hstep : step < a.numSteps) : a.flat row step / a.numSteps = row :=
  place_lt hstep

/-- The cells of a row. -/
def Own (a : WalkArgs β) (row : ℕ) : Cell → Prop
  | .draftToken i => i / a.numSteps = row
  | .selectorScore i => i / a.topK / a.numSteps = row
  | _ => False

theorem storeScores_within (hstep : step < a.numSteps) (shared : Cell → Prop) :
    Within (a.Own row) shared (fun _ _ => True) (a.storeScores row step) := by
  refine ⟨fun r m _ c hc => ?_, fun r m m' _ _ hsees => ⟨rfl, fun c hc => ?_⟩, fun _ _ _ => trivial⟩
  · refine storeLanes_of_ne _ _ fun lane hlane heq => hc ?_
    have hlt := (mem_lanes.mp hlane).2.1
    rw [← heq, Own, candidateBase, place_lt hlt]
    exact flat_div hstep
  · exact storeLanes_congr _ (hsees c (.inl hc))

theorem storeToken_within (hstep : step < a.numSteps) (shared : Cell → Prop) :
    Within (a.Own row) shared (fun _ _ => True) (a.storeToken row step random) := by
  refine ⟨fun r m _ c hc => ?_, fun r m m' _ _ hsees => ⟨rfl, fun c hc => ?_⟩, fun _ _ _ => trivial⟩
  · have hne : c ≠ .draftToken (a.flat row step) := by
      rintro rfl
      exact hc (flat_div hstep)
    simp only [storeToken]
    split_ifs
    · exact Function.update_of_ne hne ..
    · rfl
  · simp only [storeToken]
    split_ifs
    · by_cases heq : c = .draftToken (a.flat row step)
      · subst heq
        rw [Function.update_self, Function.update_self]
      · rw [Function.update_of_ne heq, Function.update_of_ne heq, hsees c (.inl hc)]
    · exact hsees c (.inl hc)

theorem launch_separate (a : WalkArgs β) (random : Random β) (numReqs : ℕ) (m : Memory β) :
    (a.launch random numReqs).Separate m a.Own fun _ _ _ => True where
  disjoint row row' c hc hc' := by
    cases c with
    | draftToken i | selectorScore i => exact hc.symm.trans hc'
    | cachedCandidateId i | draftLogit i => exact hc.elim
  start _ := trivial
  frame _ _ _ _ _ _ := trivial
  within row i hi := by
    simp only [launch] at hi
    split_ifs at hi
    · obtain ⟨step, hstep, hi⟩ := List.mem_flatMap.mp hi
      have hstep := List.mem_range.mp hstep
      rcases List.mem_cons.mp hi with rfl | hi
      · exact storeScores_within hstep _
      · exact List.mem_singleton.mp hi ▸ storeToken_within hstep _
    · simp at hi

/-- What a row has stored after its first steps. -/
structure Walked (a : WalkArgs β) (random : Random β) (row steps : ℕ) (s : ℕ × Memory β) : Prop where
  register : s.1 = a.previousAt random row steps
  token : ∀ step < steps, s.2 (.draftToken (a.flat row step)) =
    a.candidates (a.candidateBase row step + a.previousAt random row (step + 1))
  score : ∀ step < steps, ∀ lane < a.topK, s.2 (.selectorScore (a.candidateBase row step + lane)) =
    a.scores (a.scoreBase row step (a.previousAt random row step) + lane)

theorem Walked.next {s : ℕ × Memory β} {steps : ℕ} (h : a.Walked random row steps s)
    (hblock : a.topK ≤ a.blockK) (hvalid : a.valid row = true) :
    a.Walked random row (steps + 1)
      (a.storeToken row steps random (a.storeScores row steps s)) := by
  have hregister : (a.storeToken row steps random (a.storeScores row steps s)).1 =
      a.previousAt random row (steps + 1) := by
    rw [previousAt, ← h.register]
    rfl
  have hmem : (a.storeToken row steps random (a.storeScores row steps s)).2 =
      Function.update (a.storeScores row steps s).2 (.draftToken (a.flat row steps))
        (a.candidates (a.candidateBase row steps + a.previousAt random row (steps + 1))) := by
    rw [← hregister]
    simp [storeToken, hvalid]
  refine ⟨hregister, fun step hstep => ?_, fun step hstep lane hlane => ?_⟩
  · rw [hmem]
    by_cases hlast : step = steps
    · rw [hlast, Function.update_self]
    · have hne : Cell.draftToken (a.flat row step) ≠ .draftToken (a.flat row steps) := by
        simp [flat, hlast]
      rw [Function.update_of_ne hne, ← h.token step (by omega)]
      exact storeLanes_of_ne _ _ (by simp)
  · rw [hmem, Function.update_of_ne (by simp)]
    by_cases hlast : step = steps
    · subst hlast
      have hmem : lane ∈ a.lanes row := mem_lanes.mpr ⟨by omega, hlane, hvalid⟩
      refine (storeLanes_cell _ _ hmem fun lane' _ heq => ?_).trans ?_
      · simpa using heq
      · simp [laneScores, mask, hlane, hvalid, h.register]
    · rw [← h.score step (by omega) lane hlane]
      refine storeLanes_of_ne _ _ fun lane' hlane' heq => hlast ?_
      have hplace := place_inj (mem_lanes.mp hlane').2.1 hlane (Cell.selectorScore.inj heq)
      simpa [flat] using hplace.1.symm

theorem run_walked (a : WalkArgs β) (random : Random β) (hblock : a.topK ≤ a.blockK)
    (hvalid : a.valid row = true) (m : Memory β) (steps : ℕ) :
    a.Walked random row steps (run ((List.range steps).flatMap fun step =>
      [a.storeScores row step, a.storeToken row step random]) (0, m)) := by
  induction steps with
  | zero => exact ⟨rfl, by simp, by simp⟩
  | succ steps ih =>
    rw [List.range_succ, List.flatMap_append, run, List.foldl_append]
    exact ih.next hblock hvalid

/-- Whatever the interleaving of its rows, the walk stores the scores along the path of each valid row
and the tokens of the path. -/
theorem launch_spec (hblock : a.topK ≤ a.blockK) (hf : (a.launch random numReqs).Finishes m m') :
    (∀ row < numReqs, a.valid row = true → ∀ step < a.numSteps,
      m' (.draftToken (a.flat row step)) =
          a.candidates (a.candidateBase row step + a.previousAt random row (step + 1)) ∧
        ∀ lane < a.topK, m' (.selectorScore (a.candidateBase row step + lane)) =
          a.scores (a.scoreBase row step (a.previousAt random row step) + lane)) ∧
      (∀ i, m' (.cachedCandidateId i) = m (.cachedCandidateId i)) ∧
        ∀ i, m' (.draftLogit i) = m (.draftLogit i) := by
  obtain ⟨hown, hshared⟩ := hf.alone (a.launch_separate random numReqs m)
  refine ⟨fun row hrow hvalid step hstep => ?_, fun i => hshared _ (by simp [Own]),
    fun i => hshared _ (by simp [Own])⟩
  have hwalked := a.run_walked random hblock hvalid m a.numSteps
  have hprogram : (a.launch random numReqs).program row = a.selectorWalkKernel row random :=
    if_pos hrow
  constructor
  · have hcell : a.Own row (.draftToken (a.flat row step)) := flat_div hstep
    rw [hown row _ hcell, hprogram]
    exact hwalked.token step hstep
  · intro lane hlane
    have hcell : a.Own row (.selectorScore (a.candidateBase row step + lane)) := by
      rw [Own, candidateBase, place_lt hlane]
      exact flat_div hstep
    rw [hown row _ hcell, hprogram]
    exact hwalked.score step hstep lane hlane

end WalkArgs

end

/-! ### The cache -/

section
variable {β : Type} [Arithmetic β]

namespace CacheArgs
variable {a : CacheArgs} {flat lane numSample vocab : ℕ} {m m' : Memory β}

/-- The row of the cache that a place writes. -/
def slot (a : CacheArgs) (flat : ℕ) : ℕ := (a.reqState flat).toNat * a.numSteps + a.step flat

/-- What the launch is promised. -/
structure Accepts (a : CacheArgs) (numSample vocab : ℕ) : Prop where
  stride0 : a.draftLogitsStride0 = a.numSteps * vocab
  stride1 : a.draftLogitsStride1 = vocab
  vocab_pos : 0 < vocab
  steps_pos : 0 < a.numSteps
  topK_pos : 0 < a.topK
  block : a.topK ≤ a.blockK
  apart : ∀ flat < numSample, ∀ flat' < numSample, 0 ≤ a.reqState flat →
    a.reqState flat = a.reqState flat' → a.step flat = a.step flat' → flat = flat'
  lt_vocab : ∀ flat < numSample, ∀ lane < a.topK, a.candidates (a.candidateBase flat + lane) < vocab
  distinct : ∀ flat < numSample, ∀ lane < a.topK, ∀ lane' < a.topK,
    a.candidates (a.candidateBase flat + lane) = a.candidates (a.candidateBase flat + lane') →
      lane = lane'

/-- Cached ids are tokens, and whatever is not cached has -inf. -/
structure Clean (topK vocab : ℕ) (m : Memory β) : Prop where
  lt_vocab : ∀ i, m (.cachedCandidateId i) < vocab
  rest : ∀ slot, ∀ token < vocab, (∀ lane < topK, m (.cachedCandidateId (slot * topK + lane)) ≠ token) →
    m (.draftLogit (slot * vocab + token)) = (⊥ : β)

theorem Clean.of_eq {topK vocab : ℕ} {m m' : Memory β} (h : Clean topK vocab m)
    (hids : ∀ i, m' (.cachedCandidateId i) = m (.cachedCandidateId i))
    (hlogits : ∀ i, m' (.draftLogit i) = m (.draftLogit i)) : Clean topK vocab m' := by
  refine ⟨fun i => ?_, fun slot token htoken hnone => ?_⟩
  · rw [hids]
    exact h.lt_vocab i
  · rw [hlogits]
    exact h.rest slot token htoken fun lane hlane => hids _ ▸ hnone lane hlane

theorem mem_lanes : lane ∈ a.lanes flat ↔ lane < a.blockK ∧ 0 ≤ a.reqState flat ∧ lane < a.topK := by
  simp [lanes, mask]

theorem cacheBase_eq : a.cacheBase flat = a.slot flat * a.topK := rfl

theorem Accepts.logitsBase_eq (h : a.Accepts numSample vocab) (flat : ℕ) :
    a.logitsBase flat = a.slot flat * vocab := by
  rw [logitsBase, h.stride0, h.stride1, slot, Nat.add_mul, Nat.mul_assoc]

theorem Accepts.slot_inj (h : a.Accepts numSample vocab) {flat' : ℕ} (hlt : flat < numSample)
    (hlt' : flat' < numSample) (hvalid : 0 ≤ a.reqState flat) (hvalid' : 0 ≤ a.reqState flat')
    (heq : a.slot flat = a.slot flat') : flat = flat' := by
  obtain ⟨hreq, hstep⟩ := place_inj (Nat.mod_lt flat h.steps_pos) (Nat.mod_lt flat' h.steps_pos) heq
  refine h.apart flat hlt flat' hlt' hvalid ?_ hstep
  omega

/-- The cells of a place. -/
def Own (a : CacheArgs) (numSample vocab flat : ℕ) (c : Cell) : Prop :=
  flat < numSample ∧ 0 ≤ a.reqState flat ∧
    match c with
    | .cachedCandidateId i => i / a.topK = a.slot flat
    | .draftLogit i => i / vocab = a.slot flat
    | _ => False

/-- What a place relies on. -/
def Ok (a : CacheArgs) (numSample vocab flat : ℕ) (r : CacheRegisters β) (m : Memory β) : Prop :=
  (∀ lane, r.oldTokenIds lane < vocab) ∧
    (flat < numSample → 0 ≤ a.reqState flat → ∀ lane < a.topK,
      m (.cachedCandidateId (a.cacheBase flat + lane)) < vocab)

theorem own_cachedCandidateId (hlt : flat < numSample) (hvalid : 0 ≤ a.reqState flat)
    (hlane : lane < a.topK) : a.Own numSample vocab flat (.cachedCandidateId (a.cacheBase flat + lane)) :=
  ⟨hlt, hvalid, place_lt hlane⟩

theorem Accepts.own_draftLogit (h : a.Accepts numSample vocab) (hlt : flat < numSample)
    (hvalid : 0 ≤ a.reqState flat) {token : ℕ} (htoken : token < vocab) :
    a.Own numSample vocab flat (.draftLogit (a.logitsBase flat + token)) := by
  rw [h.logitsBase_eq]
  exact ⟨hlt, hvalid, place_lt htoken⟩

section
variable (h : a.Accepts numSample vocab) (hlt : flat < numSample)
  {shared : Cell → Prop}
include h hlt

omit [Arithmetic β] in
theorem loadOld_within : Within (a.Own numSample vocab flat) shared (a.Ok numSample vocab flat)
    (a.loadOld flat : Instr (CacheRegisters β) (Cell.Value β)) := by
  refine ⟨fun _ _ _ _ _ => rfl, fun r m m' _ _ hsees => ⟨?_, fun c hc => hsees c (.inl hc)⟩,
    fun r m hok => ⟨fun lane => ?_, hok.2⟩⟩
  · simp only [loadOld, CacheRegisters.mk.injEq, and_true]
    funext lane
    split_ifs with hmask
    · simp only [mask, Bool.and_eq_true, decide_eq_true_eq] at hmask
      exact hsees _ (.inl (own_cachedCandidateId hlt hmask.1 hmask.2))
    · rfl
  · simp only [loadOld]
    split_ifs with hmask
    · simp only [mask, Bool.and_eq_true, decide_eq_true_eq] at hmask
      exact hok.2 hlt hmask.1 lane hmask.2
    · exact h.vocab_pos

omit h hlt in
theorem loadScores_within (hshared : ∀ i, shared (.selectorScore i)) :
    Within (a.Own numSample vocab flat) shared (a.Ok numSample vocab flat)
      (a.loadScores flat : Instr (CacheRegisters β) (Cell.Value β)) := by
  refine ⟨fun _ _ _ _ _ => rfl, fun r m m' _ _ hsees => ⟨?_, fun c hc => hsees c (.inl hc)⟩,
    fun r m hok => hok⟩
  simp only [loadScores, CacheRegisters.mk.injEq, true_and]
  funext lane
  split_ifs
  · exact hsees _ (.inr (hshared _))
  · rfl

omit [Arithmetic β] in
/-- Stores of draft logits of tokens. -/
theorem storeLogits_within (token : CacheRegisters β → ℕ → ℕ) (value : CacheRegisters β → ℕ → β)
    (htoken : ∀ r m, a.Ok numSample vocab flat r m → ∀ lane ∈ a.lanes flat, token r lane < vocab) :
    Within (a.Own numSample vocab flat) shared (a.Ok numSample vocab flat) fun (r, m) =>
      (r, storeLanes (a.lanes flat) (fun lane => .draftLogit (a.logitsBase flat + token r lane))
        (fun lane => value r lane) m) := by
  refine ⟨fun r m hok c hc => storeLanes_of_ne _ _ fun lane hlane heq => hc ?_,
    fun r m m' _ _ hsees => ⟨rfl, fun c hc => storeLanes_congr _ (hsees c (.inl hc))⟩,
    fun r m hok => ⟨hok.1, fun hflat hvalid lane hlane => ?_⟩⟩
  · exact heq ▸ h.own_draftLogit hlt (mem_lanes.mp hlane).2.1 (htoken r m hok lane hlane)
  · have hsame : storeLanes (a.lanes flat)
        (fun lane => Cell.draftLogit (a.logitsBase flat + token r lane)) (fun lane => value r lane) m
          (.cachedCandidateId (a.cacheBase flat + lane)) =
        m (.cachedCandidateId (a.cacheBase flat + lane)) := storeLanes_of_ne _ _ (by simp)
    exact hsame.trans_lt (hok.2 hflat hvalid lane hlane)

omit [Arithmetic β] in
theorem storeIds_within : Within (a.Own numSample vocab flat) shared (a.Ok numSample vocab flat)
    (a.storeIds flat : Instr (CacheRegisters β) (Cell.Value β)) := by
  refine ⟨fun r m hok c hc => storeLanes_of_ne _ _ fun lane hlane heq => hc ?_,
    fun r m m' _ _ hsees => ⟨rfl, fun c hc => storeLanes_congr _ (hsees c (.inl hc))⟩,
    fun r m hok => ⟨hok.1, fun hflat hvalid lane hlane => ?_⟩⟩
  · exact heq ▸ own_cachedCandidateId hlt (mem_lanes.mp hlane).2.1 (mem_lanes.mp hlane).2.2
  · have hmem : lane ∈ a.lanes flat := mem_lanes.mpr ⟨hlane.trans_le h.block, hvalid, hlane⟩
    have hstored : (a.storeIds flat (r, m)).2 (.cachedCandidateId (a.cacheBase flat + lane)) =
        a.candidates (a.candidateBase flat + lane) :=
      storeLanes_cell _ m hmem fun lane' _ heq => by simpa using heq
    exact hstored.trans_lt (h.lt_vocab flat hlt lane hlane)

end

theorem Accepts.separate (h : a.Accepts numSample vocab) (m : Memory β)
    (hm : ∀ i, m (.cachedCandidateId i) < vocab) :
    (a.launch numSample).Separate m (a.Own numSample vocab) (a.Ok numSample vocab) where
  disjoint flat flat' c hc hc' := by
    refine h.slot_inj hc.1 hc'.1 hc.2.1 hc'.2.1 ?_
    cases c with
    | draftToken i | selectorScore i => exact hc.2.2.elim
    | cachedCandidateId i | draftLogit i => exact hc.2.2.symm.trans hc'.2.2
  start flat := ⟨fun _ => h.vocab_pos, fun _ _ _ _ => hm _⟩
  frame flat r m m' hok hsees := ⟨hok.1, fun hlt hvalid lane hlane => by
    rw [← hsees _ (.inl (own_cachedCandidateId hlt hvalid hlane))]
    exact hok.2 hlt hvalid lane hlane⟩
  within flat i hi := by
    simp only [launch] at hi
    split_ifs at hi with hlt
    · simp only [cacheDraftLogitsKernel, List.mem_cons, List.not_mem_nil, or_false] at hi
      rcases hi with rfl | rfl | rfl | rfl | rfl
      · exact loadOld_within h hlt
      · exact storeLogits_within h hlt (fun r lane => r.oldTokenIds lane) (fun _ _ => ⊥)
          fun r m hok lane _ => hok.1 lane
      · exact loadScores_within fun i q hq => hq.2.2
      · exact storeLogits_within h hlt (fun _ lane => a.candidates (a.candidateBase flat + lane))
          (fun r lane => r.scores lane) fun _ _ _ lane hlane =>
            h.lt_vocab flat hlt lane (mem_lanes.mp hlane).2.2
      · exact storeIds_within h hlt
    · simp at hi

/-- What a program leaves of its row of the cache. -/
theorem Accepts.run_kernel (h : a.Accepts numSample vocab) (hlt : flat < numSample)
    (hvalid : 0 ≤ a.reqState flat) {m : Memory β} (hm : Clean a.topK vocab m)
    (r : CacheRegisters β) :
    let m' := (run (a.cacheDraftLogitsKernel flat) (r, m)).2
    (∀ lane < a.topK, m' (.cachedCandidateId (a.cacheBase flat + lane)) =
        a.candidates (a.candidateBase flat + lane) ∧
      m' (.draftLogit (a.logitsBase flat + a.candidates (a.candidateBase flat + lane))) =
        m (.selectorScore (a.candidateBase flat + lane))) ∧
    ∀ token < vocab, (∀ lane < a.topK, a.candidates (a.candidateBase flat + lane) ≠ token) →
      m' (.draftLogit (a.logitsBase flat + token)) = (⊥ : β) := by
  intro m'
  have hlanes : ∀ lane < a.topK, lane ∈ a.lanes flat := fun lane hlane =>
    mem_lanes.mpr ⟨hlane.trans_le h.block, hvalid, hlane⟩
  let old := (a.loadOld flat (r, m)).1.oldTokenIds
  have hold : ∀ lane < a.topK, old lane = m (.cachedCandidateId (a.cacheBase flat + lane)) :=
    fun lane hlane => by simp [old, loadOld, mask, hvalid, hlane]
  let cleared : Memory β := storeLanes (a.lanes flat)
    (fun lane => Cell.draftLogit (a.logitsBase flat + old lane)) (fun _ => (⊥ : β)) m
  let scores := (a.loadScores flat ((a.loadOld flat (r, m)).1, cleared)).1.scores
  have hscores : ∀ lane < a.topK, scores lane = m (.selectorScore (a.candidateBase flat + lane)) := by
    intro lane hlane
    have hload : scores lane = cleared (.selectorScore (a.candidateBase flat + lane)) := by
      simp [scores, loadScores, mask, hvalid, hlane]
    exact hload.trans (storeLanes_of_ne _ _ (by simp))
  let stored : Memory β := storeLanes (a.lanes flat) (fun lane =>
    Cell.draftLogit (a.logitsBase flat + a.candidates (a.candidateBase flat + lane)))
    (fun lane => scores lane) cleared
  have hm' : m' = storeLanes (a.lanes flat)
      (fun lane => Cell.cachedCandidateId (a.cacheBase flat + lane))
      (fun lane => a.candidates (a.candidateBase flat + lane)) stored := rfl
  have hlogit : ∀ i, m' (.draftLogit i) = stored (.draftLogit i) := fun i => by
    rw [hm']
    exact storeLanes_of_ne _ _ (by simp)
  refine ⟨fun lane hlane => ⟨?_, ?_⟩, fun token htoken hout => ?_⟩
  · rw [hm']
    exact storeLanes_cell _ _ (hlanes lane hlane) fun lane' _ heq => by simpa using heq
  · rw [hlogit, ← hscores lane hlane]
    refine storeLanes_cell _ _ (hlanes lane hlane) fun lane' hlane' heq => ?_
    exact h.distinct flat hlt lane' (mem_lanes.mp hlane').2.2 lane hlane (by simpa using heq)
  · have hclear : m' (.draftLogit (a.logitsBase flat + token)) =
        cleared (.draftLogit (a.logitsBase flat + token)) := by
      rw [hlogit]
      refine storeLanes_of_ne _ _ fun lane hlane heq => hout lane (mem_lanes.mp hlane).2.2 ?_
      simpa using heq
    rw [hclear]
    -- either the token was cached and has been cleared, or it had -inf before
    rcases storeLanes_cases (a.lanes flat) (fun lane => Cell.draftLogit (a.logitsBase flat + old lane))
      (fun _ => (⊥ : β)) m (.draftLogit (a.logitsBase flat + token)) with ⟨hnone, heq⟩ | ⟨lane, -, hc, heq⟩
    · refine heq.trans ?_
      rw [h.logitsBase_eq]
      refine hm.rest (a.slot flat) token htoken fun lane hlane hid => ?_
      refine hnone lane (hlanes lane hlane) ?_
      rw [hold lane hlane, cacheBase_eq, hid]
    · obtain hid : old lane = token := by simpa using hc
      subst hid
      exact heq

/-- The cache kernel gives every valid place a row that has the scores at the candidates and -inf
everywhere else, and leaves the other rows as they are. -/
theorem Accepts.launch_spec (h : a.Accepts numSample vocab) {m m' : Memory β}
    (hm : Clean a.topK vocab m) (hf : (a.launch numSample).Finishes m m') :
    Clean a.topK vocab m' ∧ (∀ i, m' (.draftToken i) = m (.draftToken i)) ∧
    (∀ flat < numSample, 0 ≤ a.reqState flat →
      (∀ lane < a.topK,
        m' (.draftLogit (a.slot flat * vocab + a.candidates (a.candidateBase flat + lane))) =
          m (.selectorScore (a.candidateBase flat + lane))) ∧
      ∀ token < vocab, (∀ lane < a.topK, a.candidates (a.candidateBase flat + lane) ≠ token) →
        m' (.draftLogit (a.slot flat * vocab + token)) = (⊥ : β)) ∧
    ∀ slot, (∀ flat < numSample, 0 ≤ a.reqState flat → a.slot flat ≠ slot) → ∀ token < vocab,
      m' (.draftLogit (slot * vocab + token)) = m (.draftLogit (slot * vocab + token)) := by
  obtain ⟨hown, hshared⟩ := hf.alone (h.separate m hm.lt_vocab)
  have hrow : ∀ flat < numSample, 0 ≤ a.reqState flat →
      (∀ lane < a.topK, m' (.cachedCandidateId (a.slot flat * a.topK + lane)) =
          a.candidates (a.candidateBase flat + lane) ∧
        m' (.draftLogit (a.slot flat * vocab + a.candidates (a.candidateBase flat + lane))) =
          m (.selectorScore (a.candidateBase flat + lane))) ∧
      ∀ token < vocab, (∀ lane < a.topK, a.candidates (a.candidateBase flat + lane) ≠ token) →
        m' (.draftLogit (a.slot flat * vocab + token)) = (⊥ : β) := by
    intro flat hlt hvalid
    have hrun : ∀ c, a.Own numSample vocab flat c → m' c =
        (run (a.cacheDraftLogitsKernel flat) (⟨fun _ => 0, fun _ => ⊥⟩, m)).2 c := fun c hc => by
      have heq := hown flat c hc
      simp only [launch, if_pos hlt] at heq
      exact heq
    obtain ⟨hlane, hout⟩ := h.run_kernel hlt hvalid hm ⟨fun _ => 0, fun _ => ⊥⟩
    rw [h.logitsBase_eq] at hlane hout
    refine ⟨fun lane hk => ⟨?_, ?_⟩, fun token htoken hnone => ?_⟩
    · exact (hrun _ (own_cachedCandidateId hlt hvalid hk)).trans (hlane lane hk).1
    · have hcell := h.own_draftLogit hlt hvalid (h.lt_vocab flat hlt lane hk)
      rw [h.logitsBase_eq] at hcell
      exact (hrun _ hcell).trans (hlane lane hk).2
    · have hcell := h.own_draftLogit hlt hvalid htoken
      rw [h.logitsBase_eq] at hcell
      exact (hrun _ hcell).trans (hout token htoken hnone)
  have hother : ∀ slot, (∀ flat < numSample, 0 ≤ a.reqState flat → a.slot flat ≠ slot) →
      (∀ lane < a.topK, m' (.cachedCandidateId (slot * a.topK + lane)) =
        m (.cachedCandidateId (slot * a.topK + lane))) ∧
      ∀ token < vocab, m' (.draftLogit (slot * vocab + token)) = m (.draftLogit (slot * vocab + token)) := by
    refine fun slot hslot => ⟨fun lane hlane => hshared _ ?_, fun token htoken => hshared _ ?_⟩
    · exact fun flat hflat => hslot flat hflat.1 hflat.2.1 (hflat.2.2.symm.trans (place_lt hlane))
    · exact fun flat hflat => hslot flat hflat.1 hflat.2.1 (hflat.2.2.symm.trans (place_lt htoken))
  refine ⟨⟨fun i => ?_, fun slot token htoken hnone => ?_⟩, fun i => hshared _ fun _ hc => hc.2.2,
    fun flat hlt hvalid => ⟨fun lane hlane => ((hrow flat hlt hvalid).1 lane hlane).2,
      (hrow flat hlt hvalid).2⟩, fun slot hslot => (hother slot hslot).2⟩
  · -- every id is in some row of the cache
    have hi : i / a.topK * a.topK + i % a.topK = i := Nat.div_add_mod' i a.topK
    have hlane : i % a.topK < a.topK := Nat.mod_lt i h.topK_pos
    by_cases hslot : ∃ flat < numSample, 0 ≤ a.reqState flat ∧ a.slot flat = i / a.topK
    · obtain ⟨flat, hlt, hvalid, hslot⟩ := hslot
      have hid := ((hrow flat hlt hvalid).1 _ hlane).1
      rw [hslot, hi] at hid
      exact hid.trans_lt (h.lt_vocab flat hlt _ hlane)
    · push Not at hslot
      have hid := (hother (i / a.topK) hslot).1 _ hlane
      rw [hi] at hid
      exact hid.trans_lt (hm.lt_vocab i)
  · by_cases hslot : ∃ flat < numSample, 0 ≤ a.reqState flat ∧ a.slot flat = slot
    · obtain ⟨flat, hlt, hvalid, rfl⟩ := hslot
      refine (hrow flat hlt hvalid).2 token htoken fun lane hlane heq => hnone lane hlane ?_
      rw [((hrow flat hlt hvalid).1 lane hlane).1, heq]
    · push Not at hslot
      rw [(hother slot hslot).2 token htoken]
      refine hm.rest slot token htoken fun lane hlane => ?_
      rw [← (hother slot hslot).1 lane hlane]
      exact hnone lane hlane

end CacheArgs
end
end MultiGpuTransport.Dflash2
