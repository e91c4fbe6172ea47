import Mathlib.Analysis.SpecialFunctions.Artanh
import Mathlib.Data.EReal.Inv
import MultiGpuTransport.Host
import MultiGpuTransport.Lib.TopK

/-!
# The best tokens of a vocabulary in shards

get_top_k_tokens: every tensor-parallel rank picks among the logits of its shard, and all pick again
from what was picked. A row of a batch is a list; the rows do not depend on each other. Logits have a
smallest value, which is -inf, and float32 is any type whose operations keep the order.
-/
namespace MultiGpuTransport.Dflash2
open TopK

/-- Returns the largest values of a row and their places. -/
abbrev TopKFunction (α : Type) := List α → ℕ → Except PyError (List α × List ℕ)

structure Platform (α : Type) where
  isCuda : Bool
  hasFlashinfer : Bool
  scoresIsCuda : Bool
  torchTopk : TopKFunction α
  flashinferTopk : TopKFunction α

section
variable {α β : Type}

def Platform.flashinferOrNone (platform : Platform α) : Option (TopKFunction α) :=
  if !platform.isCuda then none
  else if !platform.hasFlashinfer then none
  else some platform.flashinferTopk

def Platform.topk (platform : Platform α) : TopKFunction α :=
  match platform.flashinferOrNone with
  | none => platform.torchTopk
  | some impl => if !platform.scoresIsCuda then platform.torchTopk else impl

/-- What the head of a rank gives, of which the last logits are padding. -/
structure Shard (α : Type) where
  logits : List α
  orgVocabStartIndex : ℕ
  numOrgVocabPadding : ℕ

/-- The logits of tokens. -/
def Shard.tokens (s : Shard α) : List α := s.logits.take (s.logits.length - s.numOrgVocabPadding)

/-- The padding set to -inf. -/
def Shard.masked [Bot α] (s : Shard α) : List α :=
  if s.numOrgVocabPadding > 0 then
    s.tokens ++ List.replicate (min s.numOrgVocabPadding s.logits.length) ⊥
  else s.logits

def Shard.topk [Bot α] (platform : Platform α) (k : ℕ) (s : Shard α) :
    Except PyError (List α × List ℕ) := do
  let (values, ids) ← platform.topk s.masked k
  return (values, ids.map (· + s.orgVocabStartIndex))

/-- What all ranks picked, gathered, and picked from again if there is more than one. -/
def gatheredTopk [Bot α] (platform : Platform α) (shards : List (Shard α)) (k : ℕ) :
    Except PyError (List α × List ℕ) := do
  let picked ← shards.mapM (Shard.topk platform k)
  let values := picked.flatMap Prod.fst
  let ids := picked.flatMap Prod.snd
  if shards.length > 1 then
    let (values, selected) ← platform.topk values k
    return (values, selected.map (ids.getD · 0))
  else
    return (values, ids)

structure LogitsProcessor (β : Type) where
  scale : β
  softCap : Option β

/-- Numbers to compute with, whatever they round to: they are ordered, and -inf is the least. -/
class Arithmetic (β : Type) extends LinearOrder β, OrderBot β, Zero β, One β, Add β, Neg β, Mul β,
  Div β

structure Float32 (α β : Type) where
  float : α → β
  tanh : β → β

variable [Arithmetic β]

/-- Scale and soft cap, of a single value. -/
def LogitsProcessor.finish (p : LogitsProcessor β) (f : Float32 α β) (x : α) : β :=
  let value := if p.scale ≠ 1 then f.float x * p.scale else f.float x
  match p.softCap with
  | some softCap => f.tanh (value / softCap) * softCap
  | none => value

def LogitsProcessor.getTopKTokens [Bot α] (p : LogitsProcessor β) (f : Float32 α β)
    (platform : Platform α) (shards : List (Shard α)) (k : ℕ) :
    Except PyError (List ℕ × List β) := do
  if p.scale ≤ 0 ∧ p.scale ≠ 1 then
    throw (.valueError ("The local top-k reduction optimization is not supported for " ++
      "non-positive logit scaling factors."))
  let (values, ids) ← gatheredTopk platform shards k
  return (ids, values.map (p.finish f))

/-- What of the dflash_config the candidates depend on. -/
structure DraftConfig (β : Type) where
  outputMultiplier : Option β
  finalLogitSoftcapping : Option β
  selectorTopK : ℕ

def DraftConfig.candidateLogitsProcessor (config : DraftConfig β) : LogitsProcessor β where
  scale := config.outputMultiplier.getD 1
  softCap :=
    let softcap := config.finalLogitSoftcapping.getD 0
    if softcap > 0 then some softcap else none

def DraftConfig.computeCandidates [Bot α] (config : DraftConfig β) (f : Float32 α β)
    (platform : Platform α) (shards : List (Shard α)) : Except PyError (List ℕ × List β) :=
  config.candidateLogitsProcessor.getTopKTokens f platform shards config.selectorTopK

/-- The order of float32 survives what is done to it. -/
structure Float32.KeepsOrder [LinearOrder α] (f : Float32 α β) : Prop where
  zero_lt_one : (0 : β) < 1
  float : Monotone f.float
  tanh : Monotone f.tanh
  mul : ∀ y : β, 0 < y → Monotone (· * y)
  div : ∀ y : β, 0 < y → Monotone (· / y)

theorem DraftConfig.finish_monotone [LinearOrder α] {f : Float32 α β} (hf : f.KeepsOrder)
    (config : DraftConfig β) (hscale : 0 < config.candidateLogitsProcessor.scale) :
    Monotone (config.candidateLogitsProcessor.finish f) := by
  have hvalue : Monotone fun x => if config.candidateLogitsProcessor.scale ≠ 1 then
      f.float x * config.candidateLogitsProcessor.scale else f.float x := by
    split_ifs
    · exact (hf.mul _ hscale).comp hf.float
    · exact hf.float
  unfold LogitsProcessor.finish
  cases hcap : config.candidateLogitsProcessor.softCap with
  | none => exact hvalue
  | some softCap =>
    have hpos : 0 < softCap := by
      simp only [candidateLogitsProcessor, Option.ite_none_right_eq_some, Option.some.injEq] at hcap
      exact hcap.2 ▸ hcap.1
    exact (hf.mul softCap hpos).comp (hf.tanh.comp ((hf.div softCap hpos).comp hvalue))

end

section
variable {α : Type} [LinearOrder α] [OrderBot α]

/-! ### What the ranks pick -/

/-- Both implementations select. -/
structure Platform.Selecting (platform : Platform α) : Prop where
  torch : Selects platform.torchTopk
  flashinfer : Selects platform.flashinferTopk

theorem Platform.Selecting.topk {platform : Platform α} (h : platform.Selecting) :
    Selects platform.topk := by
  unfold Platform.topk Platform.flashinferOrNone
  split_ifs <;> first | exact h.torch | exact h.flashinfer

/-- The logits of a shard under the ids that its places get. -/
def Shard.entries (s : Shard α) : List (α × ℕ) := s.masked.zipIdx s.orgVocabStartIndex

theorem Shard.masked_eq {s : Shard α} (hs : s.numOrgVocabPadding ≤ s.logits.length) :
    s.masked = s.tokens ++ List.replicate s.numOrgVocabPadding ⊥ := by
  unfold masked tokens
  split_ifs with h
  · rw [Nat.min_eq_left hs]
  · simp [Nat.eq_zero_of_not_pos h]

theorem Shard.masked_length {s : Shard α} (hs : s.numOrgVocabPadding ≤ s.logits.length) :
    s.masked.length = s.logits.length := by
  rw [masked_eq hs, List.length_append, tokens, List.length_take, List.length_replicate]
  omega

/-- A pick of k entries. -/
structure Picked (k : ℕ) (entries : List (α × ℕ)) (picked : List α × List ℕ) : Prop where
  values : picked.1.length = k
  ids : picked.2.length = k
  best : IsTopK Prod.fst entries (picked.1.zip picked.2)

theorem Shard.topk_picked {platform : Platform α} (h : platform.Selecting) {s : Shard α} {k : ℕ}
    (hk : k ≤ s.masked.length) : ∃ picked, s.topk platform k = .ok picked ∧ Picked k s.entries picked := by
  have hlabels : (List.range' s.orgVocabStartIndex s.masked.length).length = s.masked.length :=
    List.length_range'
  obtain ⟨values, places, htopk, hvalues, hlt, hplaces, hbest⟩ := h.topk.zip hk hlabels 0
  have hids : places.map ((List.range' s.orgVocabStartIndex s.masked.length).getD · 0) =
      places.map (· + s.orgVocabStartIndex) := by
    refine List.map_congr_left fun i hi => ?_
    simp [hlt i hi, Nat.add_comm]
  rw [hids, ← List.zipIdx_eq_zip_range'] at hbest
  refine ⟨(values, places.map (· + s.orgVocabStartIndex)), ?_, hvalues, by simpa using hplaces, hbest⟩
  simp [Shard.topk, htopk, bind, Except.bind, pure, Except.pure]

theorem mapM_ok {ι κ ε : Type} {g : ι → Except ε κ} {f : ι → κ} {l : List ι}
    (h : ∀ a ∈ l, g a = .ok (f a)) : l.mapM g = .ok (l.map f) := by
  induction l with
  | nil => rfl
  | cons a l ih =>
    rw [List.mapM_cons, h a List.mem_cons_self, ih fun b hb => h b (List.mem_cons_of_mem a hb)]
    rfl

theorem zip_flatMap {ι κ κ' : Type} {l : List ι} {f : ι → List κ} {g : ι → List κ'}
    (h : ∀ a ∈ l, (f a).length = (g a).length) :
    (l.flatMap f).zip (l.flatMap g) = l.flatMap fun a => (f a).zip (g a) := by
  induction l with
  | nil => rfl
  | cons a l ih =>
    simp only [List.flatMap_cons]
    rw [List.zip_append (h a List.mem_cons_self), ih fun b hb => h b (List.mem_cons_of_mem a hb)]

theorem gatheredTopk_picked {platform : Platform α} (h : platform.Selecting)
    {shards : List (Shard α)} (hne : shards ≠ []) {k : ℕ} (hk : ∀ s ∈ shards, k ≤ s.masked.length) :
    ∃ picked, gatheredTopk platform shards k = .ok picked ∧
      Picked k (shards.flatMap Shard.entries) picked := by
  choose! pick hpick hpicked using fun s hs => Shard.topk_picked h (hk s hs)
  have hlength : ∀ s ∈ shards, (pick s).1.length = (pick s).2.length := fun s hs =>
    (hpicked s hs).values.trans (hpicked s hs).ids.symm
  have hgather : shards.mapM (Shard.topk platform k) = .ok (shards.map pick) := mapM_ok hpick
  by_cases hsize : shards.length > 1
  · have hsum : ∀ s ∈ shards, (pick s).1.length ≤ (shards.flatMap fun s => (pick s).1).length :=
      fun s hs => by
        have hsub := (List.singleton_sublist.mpr hs).flatMap fun s => (pick s).1
        rw [List.flatMap_singleton] at hsub
        exact hsub.length_le
    obtain ⟨s, hs⟩ := List.exists_mem_of_ne_nil shards hne
    have hids : (shards.flatMap fun s => (pick s).2).length =
        (shards.flatMap fun s => (pick s).1).length := by
      simp only [List.length_flatMap]
      rw [List.map_congr_left hlength]
    obtain ⟨values, places, htopk, hvalues, -, hplaces, hbest⟩ := h.topk.zip
      (((hpicked s hs).values.symm.le).trans (hsum s hs)) hids 0
    rw [zip_flatMap hlength] at hbest
    refine ⟨(values, places.map ((shards.flatMap fun s => (pick s).2).getD · 0)), ?_, hvalues,
      by simpa using hplaces, ?_⟩
    · simp [gatheredTopk, hgather, hsize, htopk, List.flatMap_map, bind, Except.bind, pure, Except.pure]
    · refine IsTopK.flatMap (fun s hs => (hpicked s hs).best) hbest fun s hs => ?_
      simp [hvalues, hplaces, (hpicked s hs).values, (hpicked s hs).ids]
  · obtain ⟨s, rfl⟩ : ∃ s, shards = [s] := by
      refine List.length_eq_one_iff.mp ?_
      have hpos := List.length_pos_iff.mpr hne
      omega
    refine ⟨pick s, ?_, ?_⟩
    · simp [gatheredTopk, hpick s (List.mem_singleton_self s), bind, Except.bind, pure, Except.pure]
    · simpa using hpicked s (List.mem_singleton_self s)

/-! ### What they are the best of -/

/-- The shards follow each other in the vocabulary. -/
def StartAt : ℕ → List (Shard α) → Prop
  | _, [] => True
  | start, s :: shards => s.orgVocabStartIndex = start ∧
      s.numOrgVocabPadding ≤ s.logits.length ∧ StartAt (start + s.tokens.length) shards

/-- The logits of all tokens, as they would be gathered. -/
def vocabulary (shards : List (Shard α)) : List α := shards.flatMap Shard.tokens

omit [LinearOrder α] [OrderBot α] in
theorem StartAt.padding_le {start : ℕ} {shards : List (Shard α)} (h : StartAt start shards) :
    ∀ s ∈ shards, s.numOrgVocabPadding ≤ s.logits.length := by
  induction shards generalizing start with
  | nil => simp
  | cons s shards ih =>
    intro t ht
    rcases List.mem_cons.mp ht with rfl | ht
    · exact h.2.1
    · exact ih h.2.2 t ht

theorem StartAt.filter_entries {start : ℕ} {shards : List (Shard α)} (h : StartAt start shards)
    (hreal : ∀ x ∈ vocabulary shards, ⊥ < x) :
    (shards.flatMap Shard.entries).filter (fun e => ⊥ < e.1) = (vocabulary shards).zipIdx start := by
  induction shards generalizing start with
  | nil => rfl
  | cons s shards ih =>
    obtain ⟨rfl, hpad, hrest⟩ := h
    have hall : ∀ x ∈ s.tokens, ⊥ < x := fun x hx => hreal x (List.mem_append_left _ hx)
    have hpart : s.entries.filter (fun e => ⊥ < e.1) = s.tokens.zipIdx s.orgVocabStartIndex := by
      rw [Shard.entries, Shard.masked_eq hpad, List.zipIdx_append, List.filter_append,
        List.filter_eq_self.mpr, List.filter_eq_nil_iff.mpr, List.append_nil]
      · intro e he
        have := (List.mem_zipIdx he).2.2
        simp_all
      · intro e he
        simpa using hall e.1 (List.fst_mem_of_mem_zipIdx he)
    rw [List.flatMap_cons, List.filter_append, hpart,
      ih hrest fun x hx => hreal x (List.mem_append_right _ hx)]
    rw [vocabulary, vocabulary, List.flatMap_cons, List.zipIdx_append]

theorem zipIdx_eq_map (row : List α) :
    row.zipIdx = (List.range row.length).map fun i => (scoreAt row i, i) := by
  refine List.ext_getElem (by simp) fun i hi _ => ?_
  have hi' : i < row.length := by simpa using hi
  simp [scoreAt, hi']

/-- The best k entries are the best k tokens. -/
theorem Picked.tokens {shards : List (Shard α)} (hstart : StartAt 0 shards)
    (hreal : ∀ x ∈ vocabulary shards, ⊥ < x) {k : ℕ} (hk : k ≤ (vocabulary shards).length)
    {picked : List α × List ℕ} (h : Picked k (shards.flatMap Shard.entries) picked) :
    picked.1 = picked.2.map (scoreAt (vocabulary shards)) ∧
      IsTopK (scoreAt (vocabulary shards)) (List.range (vocabulary shards).length) picked.2 := by
  have hfilter := hstart.filter_entries hreal
  have hlength : (picked.1.zip picked.2).length = k := by simp [h.values, h.ids]
  have htoken : ∀ e ∈ picked.1.zip picked.2, decide (⊥ < e.1) = true := by
    refine h.best.forall_of_enough _ (fun a b ha hb => ?_) ?_
    · simp only [decide_eq_true_eq, decide_eq_false_iff_not, not_bot_lt_iff] at ha hb
      exact hb ▸ ha
    · rw [hlength, List.countP_eq_length_filter, hfilter, List.length_zipIdx]
      exact hk
  have hbest := h.best.filter htoken
  rw [hfilter, zipIdx_eq_map] at hbest
  have hsnd : (picked.1.zip picked.2).map Prod.snd = picked.2 :=
    List.map_snd_zip (h.ids.trans h.values.symm).le
  have hfst : (picked.1.zip picked.2).map Prod.fst = picked.1 :=
    List.map_fst_zip (h.values.trans h.ids.symm).le
  obtain ⟨htop, hmap⟩ := hbest.of_map (g := Prod.snd) fun i => rfl
  rw [hsnd] at htop hmap
  refine ⟨?_, htop⟩
  rw [← hfst, ← hmap, List.map_map]
  simp [Function.comp_def]

end

section
variable {α β : Type} [LinearOrder α] [OrderBot α] [Arithmetic β]

/-- The logit of a token if the whole vocabulary were gathered, scaled and capped. -/
def DraftConfig.finalLogit (config : DraftConfig β) (f : Float32 α β) (shards : List (Shard α))
    (id : ℕ) : β :=
  config.candidateLogitsProcessor.finish f (scoreAt (vocabulary shards) id)

/-- What the candidates have to be. -/
structure DraftConfig.Candidates (config : DraftConfig β) (f : Float32 α β)
    (shards : List (Shard α)) (ids : List ℕ) (values : List β) : Prop where
  length : ids.length = config.selectorTopK
  values : values = ids.map (config.finalLogit f shards)
  best : IsTopK (config.finalLogit f shards) (List.range (vocabulary shards).length) ids

/-- The candidates are the best tokens of the whole vocabulary by their logits after scale and soft
cap, each with that logit, whichever implementations of the selection the platform has and however
the vocabulary is sharded and padded; a scale that is not positive is refused. -/
theorem computeCandidates_topK {f : Float32 α β} (hf : f.KeepsOrder) (config : DraftConfig β)
    {platform : Platform α} (hplatform : platform.Selecting) {shards : List (Shard α)}
    (hne : shards ≠ []) (hstart : StartAt 0 shards) (hreal : ∀ x ∈ vocabulary shards, ⊥ < x)
    (hshards : ∀ s ∈ shards, config.selectorTopK ≤ s.logits.length)
    (hk : config.selectorTopK ≤ (vocabulary shards).length) :
    (0 < config.candidateLogitsProcessor.scale → ∃ ids values,
      config.computeCandidates f platform shards = .ok (ids, values) ∧
      config.Candidates f shards ids values ∧
      values = (((List.range (vocabulary shards).length).map (config.finalLogit f shards)).mergeSort
        (· ≥ ·)).take config.selectorTopK) ∧
    (config.candidateLogitsProcessor.scale ≤ 0 →
      config.computeCandidates f platform shards = .error (.valueError
        ("The local top-k reduction optimization is not supported for " ++
          "non-positive logit scaling factors."))) := by
  refine ⟨fun hscale => ?_, fun hscale => ?_⟩
  · have hmasked : ∀ s ∈ shards, config.selectorTopK ≤ s.masked.length := fun s hs => by
      rw [Shard.masked_length (hstart.padding_le s hs)]
      exact hshards s hs
    obtain ⟨⟨values, ids⟩, hgather, hpicked⟩ := gatheredTopk_picked hplatform hne hmasked
    obtain ⟨hvalues, hbest⟩ := hpicked.tokens hstart hreal hk
    obtain rfl : values = ids.map (scoreAt (vocabulary shards)) := hvalues
    have htop : IsTopK (config.finalLogit f shards) _ ids :=
      hbest.comp (config.finish_monotone hf hscale)
    have hscores := htop.scores_eq
    rw [hpicked.ids] at hscores
    refine ⟨ids, ids.map (config.finalLogit f shards), ?_, ⟨hpicked.ids, rfl, htop⟩, hscores⟩
    simp [DraftConfig.computeCandidates, LogitsProcessor.getTopKTokens, hscale.not_ge, hgather,
      DraftConfig.finalLogit, bind, Except.bind, pure, Except.pure]
  · have hone : config.candidateLogitsProcessor.scale ≠ 1 := fun h =>
      absurd (h ▸ hscale) hf.zero_lt_one.not_ge
    simp [DraftConfig.computeCandidates, LogitsProcessor.getTopKTokens, hscale, hone, throw,
      throwThe, MonadExceptOf.throw, bind, Except.bind]

noncomputable instance : Arithmetic EReal where
  __ := (inferInstance : LinearOrder EReal)
  __ := (BoundedOrder.toOrderBot : OrderBot EReal)
  zero := 0
  one := 1
  add := (· + ·)
  neg := (-·)
  mul := (· * ·)
  div := (· / ·)

/-- Exact arithmetic on the extended reals. -/
noncomputable def exact : Float32 EReal EReal where
  float := id
  tanh := fun
    | ⊥ => -1
    | ⊤ => 1
    | (x : ℝ) => Real.tanh x

theorem exact_keepsOrder : exact.KeepsOrder where
  zero_lt_one := zero_lt_one
  float := monotone_id
  tanh := by
    have hreal : ∀ x y : ℝ, x ≤ y → Real.tanh x ≤ Real.tanh y := fun x y hxy => by
      rwa [← Real.artanh_le_artanh_iff ⟨Real.neg_one_lt_tanh x, Real.tanh_lt_one x⟩
        ⟨Real.neg_one_lt_tanh y, Real.tanh_lt_one y⟩, Real.artanh_tanh, Real.artanh_tanh]
    have hlow : ∀ x : ℝ, (-1 : EReal) ≤ (Real.tanh x : ℝ) := fun x =>
      EReal.coe_le_coe_iff.mpr (Real.neg_one_lt_tanh x).le
    have hhigh : ∀ x : ℝ, ((Real.tanh x : ℝ) : EReal) ≤ 1 := fun x =>
      EReal.coe_le_coe_iff.mpr (Real.tanh_lt_one x).le
    intro a b hab
    induction a with
    | bot =>
      induction b with
      | bot => exact le_rfl
      | coe y => exact hlow y
      | top => exact (hlow 0).trans (hhigh 0)
    | coe x =>
      induction b with
      | bot => simp at hab
      | coe y => exact EReal.coe_le_coe_iff.mpr (hreal x y (EReal.coe_le_coe_iff.mp hab))
      | top => exact hhigh x
    | top =>
      obtain rfl := top_le_iff.mp hab
      exact le_rfl
  mul y hy := fun a b hab => mul_le_mul_of_nonneg_right hab hy.le
  div y hy := EReal.monotone_div_right_of_nonneg hy.le

/-- Two ranks with three tokens each, the second one with a place of padding. -/
noncomputable def realOf (n : ℕ) : EReal := (n : ℝ)

theorem bot_lt_realOf (n : ℕ) : ⊥ < realOf n := EReal.bot_lt_coe _

noncomputable def sampleShards : List (Shard EReal) :=
  [⟨[2, 5, 3].map realOf, 0, 0⟩, ⟨[4, 6, 7, 0].map realOf, 3, 1⟩]

noncomputable def samplePlatform : Platform EReal where
  isCuda := false
  hasFlashinfer := true
  scoresIsCuda := true
  torchTopk := sortedTopK (.runtimeError "selected index k out of range")
  flashinferTopk := sortedTopK (.runtimeError "selected index k out of range")

noncomputable def sampleDraftConfig : DraftConfig EReal where
  outputMultiplier := some (realOf 2)
  finalLogitSoftcapping := some (realOf 30)
  selectorTopK := 2

theorem computeCandidates_topK_sample : ∃ ids values,
    sampleDraftConfig.computeCandidates exact samplePlatform sampleShards = .ok (ids, values) ∧
      sampleDraftConfig.Candidates exact sampleShards ids values := by
  have hselecting : samplePlatform.Selecting := ⟨selects_sortedTopK _, selects_sortedTopK _⟩
  have hne : sampleShards ≠ [] := by simp [sampleShards]
  have hstart : StartAt 0 sampleShards := by simp [sampleShards, StartAt, Shard.tokens]
  have hreal : ∀ x ∈ vocabulary sampleShards, ⊥ < x := by
    simp [sampleShards, vocabulary, Shard.tokens, bot_lt_realOf]
  obtain ⟨hok, -⟩ := computeCandidates_topK exact_keepsOrder sampleDraftConfig hselecting hne hstart
    hreal (by simp [sampleShards, sampleDraftConfig])
    (by simp [sampleShards, sampleDraftConfig, vocabulary, Shard.tokens])
  obtain ⟨ids, values, hids, hcandidates, -⟩ := hok (by
    simp [DraftConfig.candidateLogitsProcessor, sampleDraftConfig, realOf])
  exact ⟨ids, values, hids, hcandidates⟩

end
end MultiGpuTransport.Dflash2
