import MultiGpuTransport.Dflash2.Kernels

/-!
# What a speculator proposes

After any calls, the cached draft logits of a request are those of the last call that drafted for it:
at each step the scores of the edges from the token that it drafted before, with -inf for everything
that is no candidate. The tokens it drafted are what the noise makes of just these logits.
-/
namespace MultiGpuTransport.Dflash2
open TopK Launches

namespace Speculator
section
variable {α β : Type} [LinearOrder α] [OrderBot α] [Arithmetic β]

/-- What a speculator is promised. -/
structure Valid (spec : Speculator α β) : Prop where
  steps_pos : 0 < spec.numSpeculativeSteps
  vocab_pos : 0 < spec.vocabSize
  topK_pos : 0 < spec.selectorTopK
  keepsOrder : spec.float32.KeepsOrder
  selecting : spec.platform.Selecting
  scale_pos : 0 < spec.draftConfig.candidateLogitsProcessor.scale
  bot_add : ∀ x : β, ⊥ + x = ⊥

/-- What a call is promised: all steps of a row are of one request, no two rows are, and there are
enough tokens to choose from. -/
structure Accepts (spec : Speculator α β) (call : DraftCall α β) : Prop where
  constant : ∀ row < call.numReqs, ∀ step < spec.numSpeculativeSteps,
    call.sampleIdxMapping (row * spec.numSpeculativeSteps + step) =
      call.sampleIdxMapping (row * spec.numSpeculativeSteps)
  injective : ∀ row < call.numReqs, ∀ row' < call.numReqs,
    0 ≤ call.sampleIdxMapping (row * spec.numSpeculativeSteps) →
      call.sampleIdxMapping (row * spec.numSpeculativeSteps) =
        call.sampleIdxMapping (row' * spec.numSpeculativeSteps) → row = row'
  nonempty : ∀ flat < call.numReqs * spec.numSpeculativeSteps, call.headLogits flat ≠ []
  start : ∀ flat < call.numReqs * spec.numSpeculativeSteps, StartAt 0 (call.headLogits flat)
  real : ∀ flat < call.numReqs * spec.numSpeculativeSteps, ∀ x ∈ vocabulary (call.headLogits flat), ⊥ < x
  shards : ∀ flat < call.numReqs * spec.numSpeculativeSteps, ∀ s ∈ call.headLogits flat,
    spec.selectorTopK ≤ s.logits.length
  enough : ∀ flat < call.numReqs * spec.numSpeculativeSteps,
    spec.selectorTopK ≤ (vocabulary (call.headLogits flat)).length
  vocab : ∀ flat < call.numReqs * spec.numSpeculativeSteps,
    (vocabulary (call.headLogits flat)).length ≤ spec.vocabSize

variable (spec : Speculator α β) (call : DraftCall α β)

/-- The final logit of a token at a place. -/
def finalLogit (flat token : ℕ) : β :=
  spec.draftConfig.finalLogit spec.float32 (call.headLogits flat) token

def temp (row : ℕ) : β :=
  if spec.probabilistic then
    call.temperature (call.sampleIdxMapping (row * spec.numSpeculativeSteps)).toNat
  else 0

/-- What a token competes with at a step of a row, given its logit. -/
def noisedLogit (row step : ℕ) (logit : β) (token : ℕ) : β :=
  noised spec.random spec.useFp64Gumbel
    (call.seeds (call.sampleIdxMapping (row * spec.numSpeculativeSteps)).toNat)
    (call.samplePos (row * spec.numSpeculativeSteps + step) - 1) (spec.temp call row) logit token

/-- The token a step comes after. -/
def predecessor (tokens : ℕ → ℕ) (row step : ℕ) : ℕ :=
  if step = 0 then spec.anchorTokenId call row else tokens (step - 1)

/-- A draft for a row: at each step the best tokens of the vocabulary are candidates, with the logits
that they get after the token before, and the one drafted wins over the whole vocabulary. -/
structure IsDraft (row : ℕ) (tokens : ℕ → ℕ) (logits : ℕ → ℕ → β) : Prop where
  steps : ∀ step < spec.numSpeculativeSteps, ∃ ids : List ℕ, ids.length = spec.selectorTopK ∧
    IsTopK (spec.finalLogit call (row * spec.numSpeculativeSteps + step))
      (List.range (vocabulary (call.headLogits (row * spec.numSpeculativeSteps + step))).length) ids ∧
    tokens step ∈ ids ∧ ∀ token < spec.vocabSize, logits step token =
      if token ∈ ids then spec.finalLogit call (row * spec.numSpeculativeSteps + step) token +
        spec.edge call (row * spec.numSpeculativeSteps + step) (spec.predecessor call tokens row step) token
      else ⊥
  wins : ∀ step < spec.numSpeculativeSteps, ∀ token < spec.vocabSize,
    spec.noisedLogit call row step (logits step token) token ≤
      spec.noisedLogit call row step (logits step (tokens step)) (tokens step)

variable {spec call} (hspec : spec.Valid) (hcall : spec.Accepts call)

/-! ### The candidates -/

/-- The candidates of the places, each in its part of the tensors. -/
structure Lists (spec : Speculator α β) (call : DraftCall α β) (candidates : Candidates β)
    (ids : ℕ → List ℕ) : Prop where
  length : ∀ flat < call.numReqs * spec.numSpeculativeSteps, (ids flat).length = spec.selectorTopK
  best : ∀ flat < call.numReqs * spec.numSpeculativeSteps, IsTopK (spec.finalLogit call flat)
    (List.range (vocabulary (call.headLogits flat)).length) (ids flat)
  ids : ∀ flat < call.numReqs * spec.numSpeculativeSteps, ∀ lane < spec.selectorTopK,
    candidates.ids (flat * spec.selectorTopK + lane) = (ids flat).getD lane 0
  logits : ∀ flat < call.numReqs * spec.numSpeculativeSteps, ∀ lane < spec.selectorTopK,
    candidates.logits (flat * spec.selectorTopK + lane) =
      spec.finalLogit call flat (candidates.ids (flat * spec.selectorTopK + lane))

include hspec hcall in
theorem computeCandidates_lists : ∃ candidates ids,
    spec.computeCandidates call = .ok candidates ∧ spec.Lists call candidates ids := by
  have hall : ∀ flat, ∃ row : List ℕ × List β, flat < call.numReqs * spec.numSpeculativeSteps →
      spec.draftConfig.computeCandidates spec.float32 spec.platform (call.headLogits flat) = .ok row ∧
        spec.draftConfig.Candidates spec.float32 (call.headLogits flat) row.1 row.2 := by
    intro flat
    by_cases hflat : flat < call.numReqs * spec.numSpeculativeSteps
    · obtain ⟨hok, -⟩ := computeCandidates_topK hspec.keepsOrder spec.draftConfig hspec.selecting
        (hcall.nonempty flat hflat) (hcall.start flat hflat) (hcall.real flat hflat)
        (hcall.shards flat hflat) (hcall.enough flat hflat)
      obtain ⟨ids, values, hids, hcandidates, -⟩ := hok hspec.scale_pos
      exact ⟨(ids, values), fun _ => ⟨hids, hcandidates⟩⟩
    · exact ⟨([], []), fun h => absurd h hflat⟩
  choose row hrow using hall
  have hmap : (List.range (call.numReqs * spec.numSpeculativeSteps)).mapM (fun flat =>
      spec.draftConfig.computeCandidates spec.float32 spec.platform (call.headLogits flat)) =
        .ok ((List.range (call.numReqs * spec.numSpeculativeSteps)).map row) :=
    mapM_ok fun flat hflat => (hrow flat (List.mem_range.mp hflat)).1
  have hget : ∀ flat < call.numReqs * spec.numSpeculativeSteps, ∀ lane < spec.selectorTopK,
      ((List.range (call.numReqs * spec.numSpeculativeSteps)).map row).getD
        ((flat * spec.selectorTopK + lane) / spec.selectorTopK) ([], []) = row flat := by
    intro flat hflat lane hlane
    simp [place_lt hlane, hflat]
  refine ⟨.ofRows spec.selectorTopK
      ((List.range (call.numReqs * spec.numSpeculativeSteps)).map row), fun flat => (row flat).1, ?_,
    fun flat hflat => (hrow flat hflat).2.length, fun flat hflat => (hrow flat hflat).2.best,
    fun flat hflat lane hlane => ?_, fun flat hflat lane hlane => ?_⟩
  · simp only [computeCandidates, hmap]
    rfl
  · simp only [Candidates.ofRows, hget flat hflat lane hlane, place_mod hlane]
  · have hlane' : lane < (row flat).1.length := by
      rw [(hrow flat hflat).2.length]
      exact hlane
    simp only [Candidates.ofRows, hget flat hflat lane hlane, place_mod hlane,
      (hrow flat hflat).2.values]
    simp [hlane', finalLogit]

/-! ### One call -/

variable {candidates : Candidates β} {ids : ℕ → List ℕ} {row : ℕ} {m m' : Memory β}

omit [LinearOrder α] [OrderBot α] [Arithmetic β] in
theorem topK_le_blockK (spec : Speculator α β) : spec.selectorTopK ≤ spec.blockK :=
  Nat.le_pow_clog Nat.one_lt_two _

/-- The lanes that the walk takes along a row. -/
def path (spec : Speculator α β) (call : DraftCall α β) (candidates : Candidates β) (row : ℕ) : ℕ → ℕ :=
  (spec.walkArgs call candidates).previousAt spec.random row

/-- The tokens on the way. -/
def pathToken (spec : Speculator α β) (call : DraftCall α β) (candidates : Candidates β)
    (row step : ℕ) : ℕ :=
  candidates.ids ((row * spec.numSpeculativeSteps + step) * spec.selectorTopK +
    spec.path call candidates row (step + 1))

theorem Lists.exists_lane (h : spec.Lists call candidates ids) {flat token : ℕ}
    (hflat : flat < call.numReqs * spec.numSpeculativeSteps) :
    token ∈ ids flat ↔ ∃ lane < spec.selectorTopK,
      candidates.ids (flat * spec.selectorTopK + lane) = token := by
  rw [List.mem_iff_getElem]
  constructor
  · rintro ⟨lane, hlane, rfl⟩
    have hlane' : lane < spec.selectorTopK := h.length flat hflat ▸ hlane
    exact ⟨lane, hlane', by rw [h.ids flat hflat lane hlane']; simp [hlane]⟩
  · rintro ⟨lane, hlane, rfl⟩
    have hlane' : lane < (ids flat).length := by rw [h.length flat hflat]; exact hlane
    exact ⟨lane, hlane', by rw [h.ids flat hflat lane hlane]; simp [hlane']⟩

include hspec in
theorem path_lt (candidates : Candidates β)
    (hvalid : 0 ≤ call.sampleIdxMapping (row * spec.numSpeculativeSteps)) (step : ℕ) :
    spec.path call candidates row step < spec.selectorTopK := by
  cases step with
  | zero => exact hspec.topK_pos
  | succ step =>
    exact (WalkArgs.index_spec (spec.walkArgs call candidates) spec.random step _ hspec.topK_pos
      spec.topK_le_blockK (decide_eq_true hvalid)).1

omit [LinearOrder α] [OrderBot α] in
/-- The scores along the path, read from the contiguous tensor. -/
theorem scores_path {step lane : ℕ} (hstep : step < spec.numSpeculativeSteps) {previous : ℕ}
    (hprevious : previous < spec.selectorTopK) (hlane : lane < spec.selectorTopK) :
    (spec.walkArgs call candidates).scores
        ((spec.walkArgs call candidates).scoreBase row step previous + lane) =
      spec.scoreEdges call candidates row step previous lane := by
  simp only [walkArgs, WalkArgs.scoreBase, WalkArgs.flat, contiguousScores]
  rw [place_lt hlane, place_lt hprevious, place_lt hstep, place_mod hstep, place_mod hprevious,
    place_mod hlane]

/-- The logits of the proposal of a row. -/
def rowLogits (spec : Speculator α β) (call : DraftCall α β) (candidates : Candidates β)
    (ids : ℕ → List ℕ) (row step token : ℕ) : β :=
  if token ∈ ids (row * spec.numSpeculativeSteps + step) then
    spec.finalLogit call (row * spec.numSpeculativeSteps + step) token +
      spec.edge call (row * spec.numSpeculativeSteps + step)
        (spec.predecessor call (spec.pathToken call candidates row) row step) token
  else ⊥

theorem Lists.scoreEdges_path (h : spec.Lists call candidates ids) (hrow : row < call.numReqs)
    {step lane : ℕ} (hstep : step < spec.numSpeculativeSteps) (hlane : lane < spec.selectorTopK) :
    spec.scoreEdges call candidates row step (spec.path call candidates row step) lane =
      spec.rowLogits call candidates ids row step
        (candidates.ids ((row * spec.numSpeculativeSteps + step) * spec.selectorTopK + lane)) := by
  have hflat := place_lt_mul hrow hstep
  rw [rowLogits, if_pos ((h.exists_lane hflat).mpr ⟨lane, hlane, rfl⟩), scoreEdges,
    h.logits _ hflat lane hlane]
  congr 2
  cases step with
  | zero => rfl
  | succ step => rfl

include hspec in
/-- The path of a row is a draft for it. -/
theorem Lists.isDraft (h : spec.Lists call candidates ids) (hrow : row < call.numReqs)
    (hvalid : 0 ≤ call.sampleIdxMapping (row * spec.numSpeculativeSteps)) :
    spec.IsDraft call row (spec.pathToken call candidates row)
      (spec.rowLogits call candidates ids row) := by
  refine ⟨fun step hstep => ?_, fun step hstep token htoken => ?_⟩
  · have hflat := place_lt_mul hrow hstep
    exact ⟨ids _, h.length _ hflat, h.best _ hflat, (h.exists_lane hflat).mpr
      ⟨_, path_lt hspec candidates hvalid (step + 1), rfl⟩, fun token _ => rfl⟩
  · have hflat := place_lt_mul hrow hstep
    let a := spec.walkArgs call candidates
    have ha : a.valid row = true := decide_eq_true hvalid
    have hprevious := path_lt hspec candidates hvalid step
    obtain ⟨hlt, hle⟩ := WalkArgs.index_spec a spec.random step
      (spec.path call candidates row step) hspec.topK_pos spec.topK_le_blockK ha
    have hnoised : ∀ lane < spec.selectorTopK,
        noised spec.random a.useFp64 (a.rowSeed row) (a.samplePos (a.flat row step) - 1) (a.rowTemp row)
          (a.scores (a.scoreBase row step (spec.path call candidates row step) + lane))
          (a.candidates (a.candidateBase row step + lane)) =
        spec.noisedLogit call row step
          (spec.rowLogits call candidates ids row step
            (candidates.ids ((row * spec.numSpeculativeSteps + step) * spec.selectorTopK + lane)))
          (candidates.ids ((row * spec.numSpeculativeSteps + step) * spec.selectorTopK + lane)) := by
      intro lane hlane
      rw [scores_path hstep hprevious hlane, h.scoreEdges_path hrow hstep hlane, noisedLogit]
      simp only [WalkArgs.rowTemp, WalkArgs.rowSeed, WalkArgs.rowTemperature, ha, if_true]
      rfl
    by_cases hmem : token ∈ ids (row * spec.numSpeculativeSteps + step)
    · obtain ⟨lane, hlane, rfl⟩ := (h.exists_lane hflat).mp hmem
      have hmax := hle lane hlane
      rw [hnoised lane hlane, hnoised _ hlt] at hmax
      exact hmax
    · have hbot : spec.rowLogits call candidates ids row step token = ⊥ := if_neg hmem
      have hnone : spec.noisedLogit call row step ⊥ token = ⊥ := by
        simp only [noisedLogit, noised]
        split_ifs
        · exact hspec.bot_add _
        · rfl
      rw [hbot, hnone]
      exact bot_le

/-! ### The cached logits -/

def cachedLogits (spec : Speculator α β) (m : Memory β) (state step token : ℕ) : β :=
  m (.draftLogit ((state * spec.numSpeculativeSteps + step) * spec.vocabSize + token))

omit [Arithmetic β] in
include hcall in
theorem Accepts.constant_flat {flat : ℕ} (hflat : flat < call.numReqs * spec.numSpeculativeSteps)
    (hpos : 0 < spec.numSpeculativeSteps) :
    flat / spec.numSpeculativeSteps < call.numReqs ∧ call.sampleIdxMapping flat =
      call.sampleIdxMapping (flat / spec.numSpeculativeSteps * spec.numSpeculativeSteps) := by
  have hrow : flat / spec.numSpeculativeSteps < call.numReqs := Nat.div_lt_of_lt_mul (by
    rwa [Nat.mul_comm])
  refine ⟨hrow, ?_⟩
  rw [← hcall.constant _ hrow _ (Nat.mod_lt flat hpos), Nat.div_add_mod']

include hspec hcall in
theorem Lists.accepts (h : spec.Lists call candidates ids) :
    (spec.cacheArgs call candidates).Accepts (call.numReqs * spec.numSpeculativeSteps) spec.vocabSize where
  stride0 := rfl
  stride1 := rfl
  vocab_pos := hspec.vocab_pos
  steps_pos := hspec.steps_pos
  topK_pos := hspec.topK_pos
  block := spec.topK_le_blockK
  apart flat hflat flat' hflat' hvalid hreq hstep := by
    obtain ⟨hrow, hconst⟩ := hcall.constant_flat hflat hspec.steps_pos
    obtain ⟨hrow', hconst'⟩ := hcall.constant_flat hflat' hspec.steps_pos
    have hsame := hcall.injective _ hrow _ hrow' (hconst ▸ hvalid) (hconst ▸ hconst' ▸ hreq)
    rw [← Nat.div_add_mod' flat spec.numSpeculativeSteps,
      ← Nat.div_add_mod' flat' spec.numSpeculativeSteps, hsame]
    exact congrArg _ hstep
  lt_vocab flat hflat lane hlane := by
    have hmem : candidates.ids (flat * spec.selectorTopK + lane) ∈ ids flat :=
      (h.exists_lane hflat).mpr ⟨lane, hlane, rfl⟩
    exact (List.mem_range.mp ((h.best flat hflat).subset hmem)).trans_le (hcall.vocab flat hflat)
  distinct flat hflat lane hlane lane' hlane' heq := by
    have hnodup := (h.best flat hflat).nodup List.nodup_range
    have hlt : lane < (ids flat).length := by rw [h.length flat hflat]; exact hlane
    have hlt' : lane' < (ids flat).length := by rw [h.length flat hflat]; exact hlane'
    have heq' : (ids flat).getD lane 0 = (ids flat).getD lane' 0 := by
      rw [← h.ids flat hflat lane hlane, ← h.ids flat hflat lane' hlane']
      exact heq
    simp only [List.getD_eq_getElem?_getD, List.getElem?_eq_getElem hlt,
      List.getElem?_eq_getElem hlt', Option.getD_some] at heq'
    exact hnodup.getElem_inj_iff.mp heq'

/-- What a call makes of the memory. -/
structure Effect (spec : Speculator α β) (call : DraftCall α β) (m m' : Memory β)
    (candidates : Candidates β) (ids : ℕ → List ℕ) : Prop where
  lists : spec.Lists call candidates ids
  tokens : ∀ row < call.numReqs, 0 ≤ call.sampleIdxMapping (row * spec.numSpeculativeSteps) →
    ∀ step < spec.numSpeculativeSteps,
      spec.draftedTokens m' row step = spec.pathToken call candidates row step
  logits : spec.probabilistic = true → ∀ row < call.numReqs, ∀ state : ℕ,
    call.sampleIdxMapping (row * spec.numSpeculativeSteps) = state →
      ∀ step < spec.numSpeculativeSteps, ∀ token < spec.vocabSize,
        spec.cachedLogits m' state step token = spec.rowLogits call candidates ids row step token
  others : ∀ state : ℕ, (∀ row < call.numReqs,
      call.sampleIdxMapping (row * spec.numSpeculativeSteps) ≠ state) →
    ∀ step < spec.numSpeculativeSteps, ∀ token < spec.vocabSize,
      spec.cachedLogits m' state step token = spec.cachedLogits m state step token
  clean : CacheArgs.Clean spec.selectorTopK spec.vocabSize m'

include hspec in
/-- What the walk leaves of the tokens, and of the scores for the cache. -/
theorem Lists.samplePath_spec (h : spec.Lists call candidates ids)
    (hf : (spec.samplePath call candidates).Finishes m m') :
    (∀ row < call.numReqs, 0 ≤ call.sampleIdxMapping (row * spec.numSpeculativeSteps) →
      ∀ step < spec.numSpeculativeSteps,
        spec.draftedTokens m' row step = spec.pathToken call candidates row step ∧
        ∀ lane < spec.selectorTopK, m' (.selectorScore
            ((row * spec.numSpeculativeSteps + step) * spec.selectorTopK + lane)) =
          spec.rowLogits call candidates ids row step (candidates.ids
            ((row * spec.numSpeculativeSteps + step) * spec.selectorTopK + lane))) ∧
      (∀ i, m' (.cachedCandidateId i) = m (.cachedCandidateId i)) ∧
        ∀ i, m' (.draftLogit i) = m (.draftLogit i) := by
  obtain ⟨hrows, hframe⟩ := WalkArgs.launch_spec spec.topK_le_blockK hf
  refine ⟨fun row hrow hvalid step hstep => ?_, hframe⟩
  obtain ⟨htoken, hscore⟩ := hrows row hrow (decide_eq_true hvalid) step hstep
  refine ⟨htoken, fun lane hlane => ?_⟩
  rw [← h.scoreEdges_path hrow hstep hlane,
    ← scores_path hstep (path_lt hspec candidates hvalid step) hlane]
  exact hscore lane hlane

omit [Arithmetic β] in
include hcall in
theorem Accepts.cacheArgs_slot (hrow : row < call.numReqs) {step : ℕ}
    (hstep : step < spec.numSpeculativeSteps) :
    (spec.cacheArgs call candidates).slot (row * spec.numSpeculativeSteps + step) =
      (call.sampleIdxMapping (row * spec.numSpeculativeSteps)).toNat * spec.numSpeculativeSteps +
        step := by
  simp only [CacheArgs.slot, CacheArgs.step, cacheArgs, hcall.constant row hrow step hstep]
  rw [place_mod hstep]

include hspec hcall in
theorem GenerateDraft.effect (hm : CacheArgs.Clean spec.selectorTopK spec.vocabSize m)
    (h : spec.GenerateDraft call m m') : ∃ candidates ids, spec.Effect call m m' candidates ids := by
  obtain ⟨candidates, ids, hok, hlists⟩ := computeCandidates_lists hspec hcall
  cases h with
  | failed herror => simp [hok] at herror
  | greedy hok' hgreedy hf =>
    obtain rfl : candidates = _ := Except.ok.inj (hok.symm.trans hok')
    obtain ⟨hrows, hids, hlogits⟩ := hlists.samplePath_spec hspec hf
    exact ⟨candidates, ids, hlists, fun row hrow hvalid step hstep =>
      (hrows row hrow hvalid step hstep).1, fun hprob => by simp [hgreedy] at hprob,
      fun state _ step _ token _ => hlogits _, hm.of_eq hids hlogits⟩
  | @probabilistic m₁ _ candidates' hok' hprob hf hcache =>
    obtain rfl : candidates = candidates' := Except.ok.inj (hok.symm.trans hok')
    obtain ⟨hrows, hids, hlogits⟩ := hlists.samplePath_spec hspec hf
    obtain ⟨hclean, htokens, hcached, hothers⟩ :=
      (hlists.accepts hspec hcall).launch_spec (hm.of_eq hids hlogits) hcache
    refine ⟨candidates, ids, hlists, fun row hrow hvalid step hstep => ?_,
      fun _ row hrow state hstate step hstep token htoken => ?_,
      fun state hstate step hstep token htoken => ?_, hclean⟩
    · exact (htokens _).trans (hrows row hrow hvalid step hstep).1
    · have hvalid : 0 ≤ call.sampleIdxMapping (row * spec.numSpeculativeSteps) := by omega
      have hflat := place_lt_mul hrow hstep
      obtain ⟨hin, hout⟩ := hcached _ hflat (by
        simpa only [cacheArgs, hcall.constant row hrow step hstep] using hvalid)
      rw [hcall.cacheArgs_slot hrow hstep, hstate, Int.toNat_natCast] at hin hout
      by_cases hmem : token ∈ ids (row * spec.numSpeculativeSteps + step)
      · obtain ⟨lane, hlane, rfl⟩ := (hlists.exists_lane hflat).mp hmem
        exact (hin lane hlane).trans ((hrows row hrow hvalid step hstep).2 lane hlane)
      · rw [rowLogits, if_neg hmem]
        refine hout token htoken fun lane hlane heq => hmem ?_
        exact (hlists.exists_lane hflat).mpr ⟨lane, hlane, heq⟩
    · refine (hothers _ (fun flat hflat hvalid heq => ?_) token htoken).trans (hlogits _)
      obtain ⟨hrow, hconst⟩ := hcall.constant_flat hflat hspec.steps_pos
      obtain ⟨hreq, -⟩ := place_inj (Nat.mod_lt flat hspec.steps_pos) hstep heq
      refine hstate _ hrow ?_
      rw [← hconst, ← hreq]
      exact (Int.toNat_of_nonneg hvalid).symm

/-! ### All calls -/

/-- The row of a call that drafts for a request. -/
def rowOf (spec : Speculator α β) (call : DraftCall α β) (state : ℕ) : Option ℕ :=
  (List.range call.numReqs).find? fun row =>
    call.sampleIdxMapping (row * spec.numSpeculativeSteps) = state

/-- The last call that drafts for a request, with the row it has there. -/
def lastDraft (spec : Speculator α β) (drafted : List (Drafted α β)) (state : ℕ) :
    Option (Drafted α β × ℕ) :=
  drafted.foldl (fun last draft => ((spec.rowOf draft.call state).map (draft, ·)).or last) none

omit [LinearOrder α] [OrderBot α] [Arithmetic β] in
theorem lastDraft_concat (drafted : List (Drafted α β)) (draft : Drafted α β) (state : ℕ) :
    spec.lastDraft (drafted ++ [draft]) state =
      ((spec.rowOf draft.call state).map (draft, ·)).or (spec.lastDraft drafted state) := by
  simp [lastDraft]

/-- A draft is so by its tokens and by its logits of tokens. -/
theorem IsDraft.congr (hcall : spec.Accepts call) (hrow : row < call.numReqs) {tokens tokens' : ℕ → ℕ}
    {logits logits' : ℕ → ℕ → β} (h : spec.IsDraft call row tokens logits)
    (htokens : ∀ step < spec.numSpeculativeSteps, tokens' step = tokens step)
    (hlogits : ∀ step < spec.numSpeculativeSteps, ∀ token < spec.vocabSize,
      logits' step token = logits step token) : spec.IsDraft call row tokens' logits' := by
  refine ⟨fun step hstep => ?_, fun step hstep token htoken => ?_⟩
  · obtain ⟨ids, hlength, hbest, hmem, hids⟩ := h.steps step hstep
    refine ⟨ids, hlength, hbest, htokens step hstep ▸ hmem, fun token htoken => ?_⟩
    have hpredecessor : spec.predecessor call tokens' row step = spec.predecessor call tokens row step := by
      unfold predecessor
      split_ifs
      · rfl
      · exact htokens (step - 1) (by omega)
    rw [hlogits step hstep token htoken, hids token htoken, hpredecessor]
  · obtain ⟨ids, -, hbest, hmem, -⟩ := h.steps step hstep
    have hlt : tokens step < spec.vocabSize := (List.mem_range.mp (hbest.subset hmem)).trans_le
      (hcall.vocab _ (place_lt_mul hrow hstep))
    rw [htokens step hstep, hlogits step hstep token htoken, hlogits step hstep _ hlt]
    exact h.wins step hstep token htoken

/-- Each request's row of the cache: what the last draft for it was drawn from, or nothing but -inf. -/
def Cached (spec : Speculator α β) (drafted : List (Drafted α β)) (m : Memory β) : Prop :=
  ∀ state, match spec.lastDraft drafted state with
    | none => ∀ step < spec.numSpeculativeSteps, ∀ token < spec.vocabSize,
        spec.cachedLogits m state step token = ⊥
    | some (draft, row) => row < draft.call.numReqs ∧ spec.Accepts draft.call ∧
        spec.IsDraft draft.call row (draft.tokens row) (spec.cachedLogits m state)

include hspec in
/-- What a call drafts for a row, with the logits it caches for it. -/
theorem Effect.isDraft (he : spec.Effect call m m' candidates ids) (hcall : spec.Accepts call)
    (hrow : row < call.numReqs) {state : ℕ}
    (hstate : call.sampleIdxMapping (row * spec.numSpeculativeSteps) = state)
    (hprob : spec.probabilistic = true) :
    spec.IsDraft call row (spec.draftedTokens m' row) (spec.cachedLogits m' state) := by
  have hvalid : 0 ≤ call.sampleIdxMapping (row * spec.numSpeculativeSteps) := by omega
  exact (he.lists.isDraft hspec hrow hvalid).congr hcall hrow (he.tokens row hrow hvalid)
    (he.logits hprob row hrow state hstate)

include hspec in
theorem Cached.next {drafted : List (Drafted α β)} (h : spec.Cached drafted m)
    (hcall : spec.Accepts call) (hprob : spec.probabilistic = true) {candidates : Candidates β}
    {ids : ℕ → List ℕ} (he : spec.Effect call m m' candidates ids) :
    spec.Cached (drafted ++ [⟨call, spec.draftedTokens m'⟩]) m' := by
  intro state
  rw [lastDraft_concat]
  cases hrow : spec.rowOf call state with
  | some row =>
    simp only [Option.map_some, Option.some_or]
    have hstate := List.find?_some hrow
    have hlt := List.mem_range.mp (List.mem_of_find?_eq_some hrow)
    rw [decide_eq_true_eq] at hstate
    exact ⟨hlt, hcall, he.isDraft hspec hcall hlt hstate hprob⟩
  | none =>
    simp only [Option.map_none, Option.none_or]
    have hnone : ∀ row < call.numReqs,
        call.sampleIdxMapping (row * spec.numSpeculativeSteps) ≠ state := by
      simpa [rowOf] using hrow
    have hold := h state
    cases hlast : spec.lastDraft drafted state with
    | none =>
      rw [hlast] at hold
      exact fun step hstep token htoken =>
        (he.others state hnone step hstep token htoken).trans (hold step hstep token htoken)
    | some last =>
      rw [hlast] at hold
      obtain ⟨hlt, hcall', hdraft⟩ := hold
      exact ⟨hlt, hcall', hdraft.congr hcall' hlt (fun _ _ => rfl) (he.others state hnone)⟩

/-- Whatever a call finds, its launches can finish. -/
theorem exists_generateDraft (spec : Speculator α β) (call : DraftCall α β) (m : Memory β) :
    ∃ m', spec.GenerateDraft call m m' := by
  cases hcandidates : spec.computeCandidates call with
  | error error => exact ⟨m, .failed hcandidates⟩
  | ok candidates =>
    obtain ⟨m', hwalk⟩ := (spec.samplePath call candidates).exists_finishes m
      (Finset.range call.numReqs) fun row hrow => if_neg (by simpa using hrow)
    cases hprob : spec.probabilistic with
    | false => exact ⟨m', .greedy hcandidates hprob hwalk⟩
    | true =>
      obtain ⟨m'', hcache⟩ := (spec.cacheDraftLogits call candidates
        (call.numReqs * spec.numSpeculativeSteps)).exists_finishes m'
          (Finset.range (call.numReqs * spec.numSpeculativeSteps)) fun flat hflat =>
            if_neg (by simpa using hflat)
      exact ⟨m'', .probabilistic hcandidates hprob hwalk hcache⟩

/-- All tokens that were drafted are so by some logits. -/
def AllDrafts (spec : Speculator α β) (drafted : List (Drafted α β)) : Prop :=
  ∀ draft ∈ drafted, ∀ row < draft.call.numReqs,
    0 ≤ draft.call.sampleIdxMapping (row * spec.numSpeculativeSteps) →
      ∃ logits, spec.IsDraft draft.call row (draft.tokens row) logits

include hspec in
theorem Drafts.inv {drafted : List (Drafted α β)}
    (hcalls : ∀ draft ∈ drafted, spec.Accepts draft.call) (h : spec.Drafts drafted m) :
    CacheArgs.Clean spec.selectorTopK spec.vocabSize m ∧ spec.AllDrafts drafted ∧
      (spec.probabilistic = true → spec.Cached drafted m) := by
  induction h with
  | start hfresh =>
    refine ⟨⟨fun i => ?_, fun _ _ _ _ => hfresh.draftLogits _⟩, by simp [AllDrafts],
      fun _ state step _ token _ => hfresh.draftLogits _⟩
    rw [hfresh.cachedCandidateIds]
    exact hspec.vocab_pos
  | @call drafted m m' h call hgenerate ih =>
    obtain ⟨hclean, hall, hcached⟩ := ih fun draft hmem => hcalls draft (List.mem_append_left _ hmem)
    have hcall : spec.Accepts call := hcalls _ (List.mem_append_right _ List.mem_cons_self)
    obtain ⟨candidates, ids, he⟩ := hgenerate.effect hspec hcall hclean
    refine ⟨he.clean, ?_, fun hprob => (hcached hprob).next hspec hcall hprob he⟩
    rintro draft hmem row hrow hvalid
    rcases List.mem_append.mp hmem with hmem | hmem
    · exact hall draft hmem row hrow hvalid
    · obtain rfl := List.mem_singleton.mp hmem
      exact ⟨_, (he.lists.isDraft hspec hrow hvalid).congr hcall hrow (he.tokens row hrow hvalid)
        fun _ _ _ _ => rfl⟩

/-- After any calls, however the programs of their launches interleave: the tokens of every call are
drafts for its valid rows; a request's row of the cache has the logits that the tokens of the last call
for it are a draft by, or -inf throughout; and the last call's tokens are still there, with those
logits for all of its rows. Every call can finish. -/
theorem drafts_propose (spec : Speculator α β) (hspec : spec.Valid) (drafted : List (Drafted α β))
    (hcalls : ∀ draft ∈ drafted, spec.Accepts draft.call) (m : Memory β) (h : spec.Drafts drafted m) :
    spec.AllDrafts drafted ∧ (spec.probabilistic = true → spec.Cached drafted m) ∧
    (∀ draft ∈ drafted.getLast?, draft.tokens = spec.draftedTokens m ∧
      (spec.probabilistic = true → ∀ row < draft.call.numReqs, ∀ state : ℕ,
        draft.call.sampleIdxMapping (row * spec.numSpeculativeSteps) = state →
          spec.IsDraft draft.call row (draft.tokens row) (spec.cachedLogits m state))) ∧
    ∀ call, ∃ m', spec.Drafts (drafted ++ [⟨call, spec.draftedTokens m'⟩]) m' := by
  obtain ⟨-, hall, hcached⟩ := h.inv hspec hcalls
  refine ⟨hall, hcached, fun draft hlast => ?_, fun call => ?_⟩
  · cases h with
    | start => simp at hlast
    | @call drafted m₀ _ h call hgenerate =>
      obtain rfl : ⟨call, spec.draftedTokens m⟩ = draft := by simpa using hlast
      have hcall : spec.Accepts call := hcalls _ (List.mem_append_right _ List.mem_cons_self)
      obtain ⟨candidates, ids, he⟩ := hgenerate.effect hspec hcall
        (h.inv hspec fun draft hmem => hcalls draft (List.mem_append_left _ hmem)).1
      exact ⟨rfl, fun hprob row hrow state hstate => he.isDraft hspec hcall hrow hstate hprob⟩
  · obtain ⟨m', hm'⟩ := spec.exists_generateDraft call m
    exact ⟨m', .call h hm'⟩

end

/-- Two steps of one request, with noise from a generator that always gives a half. -/
noncomputable def sampleSpeculator : Speculator EReal EReal where
  numSpeculativeSteps := 2
  numQueryPerReq := 3
  vocabSize := 6
  draftConfig := sampleDraftConfig
  probabilistic := true
  useFp64Gumbel := false
  platform := samplePlatform
  float32 := exact
  random :=
    { randint := fun seed pos => seed + pos
      rand32 := fun _ _ => (1 / 2 : ℝ)
      rand64 := fun _ _ => (1 / 2 : ℝ)
      log := fun x => Real.log x.toReal
      log1p := fun x => Real.log (1 + x.toReal) }
  rank := 1
  predecessorCodebook token _ := (token : ℝ)
  successorCodebook token _ := (token : ℝ)

/-- A call that drafts for one request. -/
noncomputable def sampleCall (request : ℤ) : DraftCall EReal EReal where
  numReqs := 1
  sampleIdxMapping flat := if flat < 2 then request else -1
  samplePos flat := flat + 10
  temperature _ := 1
  seeds _ := 42
  inputIds _ := 3
  headLogits _ := sampleShards
  hidden _ _ := 1

theorem sample_valid : sampleSpeculator.Valid where
  steps_pos := by simp [sampleSpeculator]
  vocab_pos := by simp [sampleSpeculator]
  topK_pos := by simp [sampleSpeculator, selectorTopK, sampleDraftConfig]
  keepsOrder := exact_keepsOrder
  selecting := ⟨selects_sortedTopK _, selects_sortedTopK _⟩
  scale_pos := by
    simp [sampleSpeculator, DraftConfig.candidateLogitsProcessor, sampleDraftConfig, realOf]
  bot_add := EReal.bot_add

theorem sample_accepts (request : ℤ) : sampleSpeculator.Accepts (sampleCall request) where
  constant row hrow step hstep := by
    obtain rfl : row = 0 := by simpa [sampleCall] using hrow
    have hstep : step < 2 := hstep
    simp [sampleCall, sampleSpeculator]
    omega
  injective row hrow row' hrow' _ _ := by
    have hrow : row < 1 := hrow
    have hrow' : row' < 1 := hrow'
    omega
  nonempty _ _ := by simp [sampleCall, sampleShards]
  start _ _ := by simp [sampleCall, sampleShards, StartAt, Shard.tokens]
  real _ _ := by simp [sampleCall, sampleShards, vocabulary, Shard.tokens, bot_lt_realOf]
  shards _ _ := by
    simp [sampleCall, sampleSpeculator, selectorTopK, sampleDraftConfig, sampleShards]
  enough _ _ := by
    simp [sampleCall, sampleSpeculator, selectorTopK, sampleDraftConfig, sampleShards, vocabulary,
      Shard.tokens]
  vocab _ _ := by simp [sampleCall, sampleSpeculator, sampleShards, vocabulary, Shard.tokens]

theorem drafts_propose_sample : ∃ first second m,
    sampleSpeculator.Drafts [⟨sampleCall 4, first⟩, ⟨sampleCall 7, second⟩] m ∧
    sampleSpeculator.IsDraft (sampleCall 4) 0 (first 0) (sampleSpeculator.cachedLogits m 4) ∧
    sampleSpeculator.IsDraft (sampleCall 7) 0 (second 0) (sampleSpeculator.cachedLogits m 7) := by
  obtain ⟨m, hm⟩ := (drafts_propose sampleSpeculator sample_valid [] (by simp) .start
    (.start Memory.fresh_start)).2.2.2 (sampleCall 4)
  obtain ⟨m', hm'⟩ := (drafts_propose sampleSpeculator sample_valid _
    (by simpa using sample_accepts 4) m hm).2.2.2 (sampleCall 7)
  have hcached : sampleSpeculator.Cached _ m' := (drafts_propose sampleSpeculator sample_valid _
    (by simpa using ⟨sample_accepts 4, sample_accepts 7⟩) m' hm').2.1 rfl
  exact ⟨_, _, m', hm', (hcached 4).2.2, (hcached 7).2.2⟩

end Speculator
end MultiGpuTransport.Dflash2
