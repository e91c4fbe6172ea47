import MultiGpuTransport.Dflash2.LogitsProcessor
import MultiGpuTransport.Lib.Launch
import MultiGpuTransport.Triton.Prefill

/-!
# The DFlash2 speculator

A draft gets candidates for every step of every request, scores the edges between candidates of
successive steps, walks along the edges and draws a token at each step. The tensors that live on from
call to call are the memory. Arguments of the kernels are functions of the place.
-/
namespace MultiGpuTransport.Dflash2
open Launches

/-- Counter-based random numbers, and the logarithms that make noise of them. -/
structure Random (β : Type) where
  randint : ℤ → ℤ → ℤ
  rand32 : ℤ → ℕ → β
  rand64 : ℤ → ℕ → β
  log : β → β
  log1p : β → β

/-- Places in the tensors of the speculator. -/
inductive Cell
  | draftToken (i : ℕ)
  | selectorScore (i : ℕ)
  | cachedCandidateId (i : ℕ)
  | draftLogit (i : ℕ)
  deriving DecidableEq

abbrev Cell.Value (β : Type) : Cell → Type
  | .draftToken _ | .cachedCandidateId _ => ℕ
  | .selectorScore _ | .draftLogit _ => β

abbrev Memory (β : Type) := ∀ c : Cell, c.Value β

section
variable {α β : Type} [Arithmetic β]

/-! ### Gumbel noise -/

def Random.gumbelNoise (random : Random β) (useFp64 : Bool) (seed pos : ℤ) (key : ℕ) : β :=
  let gumbelSeed := random.randint seed pos
  if useFp64 then -random.log (-random.log (random.rand64 gumbelSeed key))
  else -random.log (-random.log1p (-random.rand32 gumbelSeed key))

/-- The first lane with the largest value. -/
def maxLane (block : ℕ) (value : ℕ → β) : ℕ :=
  (List.range block).foldl (fun best lane => if value best < value lane then lane else best) 0

/-- gumbel_noised_argmax: the largest value, and the lane that has it. -/
def gumbelNoisedArgmax (random : Random β) (block : ℕ) (logits : ℕ → β) (keys : ℕ → ℕ)
    (mask : ℕ → Bool) (seed pos : ℤ) (temp : β) (useFp64 applyTemperature : Bool) : β × ℕ :=
  let logits := if temp ≠ 0 ∧ applyTemperature then fun lane => logits lane / temp else logits
  let logits := if temp ≠ 0 then fun lane =>
      if mask lane then logits lane + random.gumbelNoise useFp64 seed pos (keys lane) else ⊥
    else logits
  (logits (maxLane block logits), maxLane block logits)

/-! ### The kernels -/

structure WalkArgs (β : Type) where
  scores : ℕ → β
  candidates : ℕ → ℕ
  samplePos : ℕ → ℤ
  reqState : ℕ → ℤ
  temperature : ℕ → β
  seeds : ℕ → ℤ
  numSteps : ℕ
  topK : ℕ
  blockK : ℕ
  sampleProbabilistic : Bool
  useFp64 : Bool

namespace WalkArgs
variable (a : WalkArgs β) (row step previous : ℕ)

def valid : Bool := 0 ≤ a.reqState (row * a.numSteps)

def mask (lane : ℕ) : Bool := lane < a.topK && a.valid row

def lanes : List ℕ := (List.range a.blockK).filter fun lane => a.mask row lane

def rowTemperature : β :=
  if a.valid row then a.temperature (a.reqState (row * a.numSteps)).toNat else 0

def rowSeed : ℤ := if a.valid row then a.seeds (a.reqState (row * a.numSteps)).toNat else 0

def flat : ℕ := row * a.numSteps + step

def candidateBase : ℕ := a.flat row step * a.topK

def scoreBase : ℕ := (a.flat row step * a.topK + previous) * a.topK

def laneScores (lane : ℕ) : β :=
  if a.mask row lane then a.scores (a.scoreBase row step previous + lane) else ⊥

def laneCandidates (lane : ℕ) : ℕ :=
  if a.mask row lane then a.candidates (a.candidateBase row step + lane) else 0

/-- The lane that wins after this one. -/
def index (random : Random β) : ℕ :=
  (gumbelNoisedArgmax random a.blockK (a.laneScores row step previous) (a.laneCandidates row step)
    (a.mask row) (a.rowSeed row) (a.samplePos (a.flat row step) - 1)
    (if a.sampleProbabilistic then a.rowTemperature row else 0) a.useFp64 false).2

/-- The register is the lane of the step before. -/
def storeScores : Instr ℕ (Cell.Value β) := fun (previous, m) =>
  (previous, storeLanes (a.lanes row) (fun lane => .selectorScore (a.candidateBase row step + lane))
    (fun lane => a.laneScores row step previous lane) m)

def storeToken (random : Random β) : Instr ℕ (Cell.Value β) := fun (previous, m) =>
  let index := a.index row step previous random
  (index, if a.valid row then
      Function.update m (.draftToken (a.flat row step))
        (a.candidates (a.candidateBase row step + index))
    else m)

/-- _selector_walk_kernel. -/
def selectorWalkKernel (random : Random β) : List (Instr ℕ (Cell.Value β)) :=
  (List.range a.numSteps).flatMap fun step => [a.storeScores row step, a.storeToken row step random]

def launch (random : Random β) (numReqs : ℕ) : Launch ℕ ℕ (Cell.Value β) where
  program row := if row < numReqs then a.selectorWalkKernel row random else []
  registers _ := 0

end WalkArgs

structure CacheArgs where
  candidates : ℕ → ℕ
  reqState : ℕ → ℤ
  draftLogitsStride0 : ℕ
  draftLogitsStride1 : ℕ
  numSteps : ℕ
  topK : ℕ
  blockK : ℕ

/-- What a program of the cache kernel has loaded. -/
structure CacheRegisters (β : Type) where
  oldTokenIds : ℕ → ℕ
  scores : ℕ → β

namespace CacheArgs
variable (a : CacheArgs) (flat : ℕ)

def step : ℕ := flat % a.numSteps

def mask (lane : ℕ) : Bool := 0 ≤ a.reqState flat && lane < a.topK

def lanes : List ℕ := (List.range a.blockK).filter fun lane => a.mask flat lane

def candidateBase : ℕ := flat * a.topK

def cacheBase : ℕ := ((a.reqState flat).toNat * a.numSteps + a.step flat) * a.topK

def logitsBase : ℕ :=
  (a.reqState flat).toNat * a.draftLogitsStride0 + a.step flat * a.draftLogitsStride1

def loadOld : Instr (CacheRegisters β) (Cell.Value β) := fun (r, m) =>
  ({ r with oldTokenIds := fun lane =>
      if a.mask flat lane then m (.cachedCandidateId (a.cacheBase flat + lane)) else 0 }, m)

def clearOld : Instr (CacheRegisters β) (Cell.Value β) := fun (r, m) =>
  (r, storeLanes (a.lanes flat) (fun lane => .draftLogit (a.logitsBase flat + r.oldTokenIds lane))
    (fun _ => (⊥ : β)) m)

def loadScores : Instr (CacheRegisters β) (Cell.Value β) := fun (r, m) =>
  ({ r with scores := fun lane =>
      if a.mask flat lane then m (.selectorScore (a.candidateBase flat + lane)) else ⊥ }, m)

def storeNew : Instr (CacheRegisters β) (Cell.Value β) := fun (r, m) =>
  (r, storeLanes (a.lanes flat)
    (fun lane => .draftLogit (a.logitsBase flat + a.candidates (a.candidateBase flat + lane)))
    (fun lane => r.scores lane) m)

def storeIds : Instr (CacheRegisters β) (Cell.Value β) := fun (r, m) =>
  (r, storeLanes (a.lanes flat) (fun lane => .cachedCandidateId (a.cacheBase flat + lane))
    (fun lane => a.candidates (a.candidateBase flat + lane)) m)

/-- _cache_draft_logits_kernel. -/
def cacheDraftLogitsKernel : List (Instr (CacheRegisters β) (Cell.Value β)) :=
  [a.loadOld flat, a.clearOld flat, a.loadScores flat, a.storeNew flat, a.storeIds flat]

def launch (numSample : ℕ) : Launch ℕ (CacheRegisters β) (Cell.Value β) where
  program flat := if flat < numSample then a.cacheDraftLogitsKernel flat else []
  registers _ := ⟨fun _ => 0, fun _ => ⊥⟩

end CacheArgs

/-! ### A call -/

/-- What a speculator is made with. -/
structure Speculator (α β : Type) where
  numSpeculativeSteps : ℕ
  numQueryPerReq : ℕ
  vocabSize : ℕ
  draftConfig : DraftConfig β
  /-- Draft logits are cached. -/
  probabilistic : Bool
  useFp64Gumbel : Bool
  platform : Platform α
  float32 : Float32 α β
  random : Random β
  rank : ℕ
  predecessorCodebook : ℕ → ℕ → β
  successorCodebook : ℕ → ℕ → β

/-- What a call finds: the logits of the head and the projected hidden state at each place. -/
structure DraftCall (α β : Type) where
  numReqs : ℕ
  sampleIdxMapping : ℕ → ℤ
  samplePos : ℕ → ℤ
  temperature : ℕ → β
  seeds : ℕ → ℤ
  inputIds : ℕ → ℕ
  headLogits : ℕ → List (Shard α)
  hidden : ℕ → ℕ → β

/-- The draft logits are filled with -inf, the cached ids with zeros. -/
structure Memory.Fresh (m : Memory β) : Prop where
  draftLogits : ∀ i, m (.draftLogit i) = (⊥ : β)
  cachedCandidateIds : ∀ i, m (.cachedCandidateId i) = (0 : ℕ)

def Memory.start : Memory β
  | .draftToken _ | .cachedCandidateId _ => (0 : ℕ)
  | .selectorScore _ | .draftLogit _ => (⊥ : β)

theorem Memory.fresh_start : (Memory.start : Memory β).Fresh := ⟨fun _ => rfl, fun _ => rfl⟩

namespace Speculator
variable (spec : Speculator α β) (call : DraftCall α β)

def selectorTopK : ℕ := spec.draftConfig.selectorTopK

def blockK : ℕ := Triton.nextPowerOf2 spec.selectorTopK

/-- The candidate ids and logits of a list of places, one after the other. -/
structure Candidates (β : Type) where
  ids : ℕ → ℕ
  logits : ℕ → β

def Candidates.ofRows (topK : ℕ) (rows : List (List ℕ × List β)) : Candidates β where
  ids i := (rows.getD (i / topK) ([], [])).1.getD (i % topK) 0
  logits i := (rows.getD (i / topK) ([], [])).2.getD (i % topK) 0

def computeCandidates [Bot α] : Except PyError (Candidates β) := do
  let rows ← (List.range (call.numReqs * spec.numSpeculativeSteps)).mapM fun flat =>
    spec.draftConfig.computeCandidates spec.float32 spec.platform (call.headLogits flat)
  return .ofRows spec.selectorTopK rows

def anchorTokenId (row : ℕ) : ℕ := call.inputIds (row * spec.numQueryPerReq)

/-- The sum over the rank of the codebooks. -/
def einsum (f : ℕ → β) : β := (List.range spec.rank).foldl (fun sum r => sum + f r) 0

/-- The score of the edge between two tokens at a place. -/
def edge (flat predecessor successor : ℕ) : β :=
  spec.einsum fun r => spec.predecessorCodebook predecessor r * call.hidden flat r *
    spec.successorCodebook successor r

/-- The ids of the step before, or the anchor for all candidates of the first step. -/
def predecessorId (candidates : Candidates β) (row step p : ℕ) : ℕ :=
  if step = 0 then spec.anchorTokenId call row
  else candidates.ids ((row * spec.numSpeculativeSteps + (step - 1)) * spec.selectorTopK + p)

/-- _score_edges, for a predecessor p and a successor c. -/
def scoreEdges (candidates : Candidates β) (row step p c : ℕ) : β :=
  let flat := row * spec.numSpeculativeSteps + step
  candidates.logits (flat * spec.selectorTopK + c) +
    spec.edge call flat (spec.predecessorId call candidates row step p)
      (candidates.ids (flat * spec.selectorTopK + c))

/-- The scores as one contiguous tensor. -/
def contiguousScores (candidates : Candidates β) (i : ℕ) : β :=
  let flat := i / spec.selectorTopK / spec.selectorTopK
  spec.scoreEdges call candidates (flat / spec.numSpeculativeSteps) (flat % spec.numSpeculativeSteps)
    (i / spec.selectorTopK % spec.selectorTopK) (i % spec.selectorTopK)

def walkArgs (candidates : Candidates β) : WalkArgs β where
  scores := spec.contiguousScores call candidates
  candidates := candidates.ids
  samplePos := call.samplePos
  reqState := call.sampleIdxMapping
  temperature := call.temperature
  seeds := call.seeds
  numSteps := spec.numSpeculativeSteps
  topK := spec.selectorTopK
  blockK := spec.blockK
  sampleProbabilistic := spec.probabilistic
  useFp64 := spec.useFp64Gumbel

def cacheArgs (candidates : Candidates β) : CacheArgs where
  candidates := candidates.ids
  reqState := call.sampleIdxMapping
  draftLogitsStride0 := spec.numSpeculativeSteps * spec.vocabSize
  draftLogitsStride1 := spec.vocabSize
  numSteps := spec.numSpeculativeSteps
  topK := spec.selectorTopK
  blockK := spec.blockK

def samplePath (candidates : Candidates β) : Launch ℕ ℕ (Cell.Value β) :=
  (spec.walkArgs call candidates).launch spec.random call.numReqs

def cacheDraftLogits (candidates : Candidates β) (numSample : ℕ) :
    Launch ℕ (CacheRegisters β) (Cell.Value β) :=
  (spec.cacheArgs call candidates).launch numSample

/-- _generate_draft: what it can make of the memory, its launches one after the other. -/
inductive GenerateDraft [Bot α] : Memory β → Memory β → Prop
  | failed {m : Memory β} {error : PyError}
      (h : spec.computeCandidates call = .error error) : GenerateDraft m m
  | greedy {m m' : Memory β} {candidates : Candidates β}
      (h : spec.computeCandidates call = .ok candidates) (hgreedy : spec.probabilistic = false)
      (hwalk : (spec.samplePath call candidates).Finishes m m') : GenerateDraft m m'
  | probabilistic {m m' m'' : Memory β} {candidates : Candidates β}
      (h : spec.computeCandidates call = .ok candidates) (hprob : spec.probabilistic = true)
      (hwalk : (spec.samplePath call candidates).Finishes m m')
      (hcache : (spec.cacheDraftLogits call candidates
        (call.numReqs * spec.numSpeculativeSteps)).Finishes m' m'') : GenerateDraft m m''

/-- The tokens of a row in the tensor of draft tokens. -/
def draftedTokens (m : Memory β) (row step : ℕ) : ℕ :=
  m (.draftToken (row * spec.numSpeculativeSteps + step))

/-- A call, and the tokens that its caller then finds. -/
structure Drafted (α β : Type) where
  call : DraftCall α β
  tokens : ℕ → ℕ → ℕ

/-- The memory after calls one after the other. -/
inductive Drafts [Bot α] : List (Drafted α β) → Memory β → Prop
  | start {m : Memory β} (h : m.Fresh) : Drafts [] m
  | call {drafted : List (Drafted α β)} {m m' : Memory β} (h : Drafts drafted m)
      {call : DraftCall α β} (hcall : spec.GenerateDraft call m m') :
      Drafts (drafted ++ [⟨call, spec.draftedTokens m'⟩]) m'

end Speculator
end
end MultiGpuTransport.Dflash2
