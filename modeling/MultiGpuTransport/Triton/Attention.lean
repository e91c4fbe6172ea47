import MultiGpuTransport.Triton.Loop

/-!
# What the kernel is for

Packed attention: every query row of every sequence and head gets the softmax average of the values of
the keys it sees, and the logarithm of the sum of its exponentials. The last causal row sees all keys,
and each row one more than the row before. The kernel computes this for all rows but those that see no
key and share a block with rows that do.
-/
namespace MultiGpuTransport.Triton
open Backends Strided

namespace PrefillArgs
variable (args : PrefillArgs) (seq head m : ℕ)

def batch : ℕ := args.qStartLoc.positions.length - 1

def qStart : ℕ := args.qStartLoc.load seq

def qLen : ℕ := args.qStart (seq + 1) - args.qStart seq

def kStart : ℕ := args.kStartLoc.load seq

def kLen : ℕ := args.kStart (seq + 1) - args.kStart seq

def kvHead : ℕ := head / (args.q.shape 1 / args.k.shape 1)

/-- The keys of the sequence that row m sees. -/
def visible : Finset ℕ :=
  seen (fun n => args.causal = true → (n : ℤ) ≤ m + args.kLen seq - args.qLen seq) (args.kLen seq)

def score (n : ℕ) : ℝ :=
  args.scale * ∑ c ∈ Finset.range (args.q.shape 2),
    args.q.read ![args.qStart seq + m, head, c] *
      args.k.read ![args.kStart seq + n, args.kvHead head, c]

noncomputable def attention (d : ℕ) : ℝ :=
  softmaxAverage (args.visible seq m) (args.score seq head m)
    fun n => args.v.read ![args.kStart seq + n, args.kvHead head, d]

noncomputable def attentionLse : Extended :=
  logSumExp (args.visible seq m) (args.score seq head m)

/-- Arguments that no assertion rejects, with start locations that do not decrease and lie within the
tensors, and a bound on the query lengths. -/
structure Packed : Prop where
  accepted : args.Accepted
  qkHeadDim_pos : 0 < args.q.shape 2
  vHeadDim_pos : 0 < args.v.shape 2
  qStart_le : ∀ seq < args.batch, args.qStart seq ≤ args.qStart (seq + 1)
  kStart_le : ∀ seq < args.batch, args.kStart seq ≤ args.kStart (seq + 1)
  qStart_batch : args.qStart args.batch ≤ args.q.shape 0
  kStart_batch : args.kStart args.batch ≤ args.k.shape 0 ∧ args.kStart args.batch ≤ args.v.shape 0
  qLen_le : ∀ seq < args.batch, args.qLen seq ≤ args.maxQueryLen

/-- A causal row before those that see a key, in a block with one that does. -/
structure Starved : Prop where
  causal : args.causal = true
  kLen_pos : 0 < args.kLen seq
  sees_none : m + args.kLen seq < args.qLen seq
  block_sees : args.qLen seq < (m / 64 + 1) * 64 + args.kLen seq

/-- Causal attention is asked for only with as many keys as queries in each sequence. -/
def CallerMode : Prop := args.causal = true → ∀ seq < args.batch, args.kLen seq = args.qLen seq

end PrefillArgs

/-- A causal call is for new tokens, whose keys are packed as the queries are. -/
theorem callerMode_of_newTokens {backend : TritonMLAPrefillBackend} {q k v : StridedTensor ℝ 3}
    {returnSoftmaxLse : Bool} {out : Option (StridedTensor Extended 3)} {outputScale : Option ℝ}
    {args : PrefillArgs}
    (h : backend.runPrefillNewTokens q k v returnSoftmaxLse out outputScale = some args) :
    args.CallerMode := by
  cases outputScale with
  | some _ => cases h
  | none =>
    cases h
    exact fun _ _ _ => rfl

theorem callerMode_of_contextChunk {backend : TritonMLAPrefillBackend} {q k v : StridedTensor ℝ 3}
    {chunkIdx : ℕ} {args : PrefillArgs}
    (h : backend.runPrefillContextChunk q k v chunkIdx = some args) : args.CallerMode := by
  simp only [TritonMLAPrefillBackend.runPrefillContextChunk, Option.bind_eq_bind,
    Option.bind_eq_some_iff, Option.pure_def, Option.some.injEq] at h
  obtain ⟨_, -, _, -, rfl⟩ := h
  exact fun hcausal => absurd hcausal Bool.false_ne_true

/-! ### The kernel's numbers are those of the arguments -/

theorem le_nextPowerOf2 (n : ℕ) : n ≤ nextPowerOf2 n := Nat.le_pow_clog one_lt_two n

namespace PrefillArgs
variable {args : PrefillArgs} (hp : args.Packed) (freshOut freshLse : ℕ → Extended) {seq head m : ℕ}
include hp

theorem kernel_qLen (h : seq < args.batch) :
    (args.kernel freshOut freshLse).qLen seq = args.qLen seq := by
  have hle := hp.qStart_le seq h
  simp only [Kernel.qLen, Kernel.qStart, kernel, qLen, qStart] at *
  omega

theorem kernel_kLen (h : seq < args.batch) :
    (args.kernel freshOut freshLse).kLen seq = args.kLen seq := by
  have hle := hp.kStart_le seq h
  simp only [Kernel.kLen, Kernel.kStart, kernel, kLen, kStart] at *
  omega

/-- The columns that pad a head to a power of two add nothing to a score. -/
theorem kernel_score (h : seq < args.batch) (hm : m < args.qLen seq) {n : ℕ}
    (hn : n < args.kLen seq) :
    (args.kernel freshOut freshLse).score seq head m n = args.score seq head m n := by
  have hq := kernel_qLen hp freshOut freshLse h
  have hk := kernel_kLen hp freshOut freshLse h
  rw [Kernel.score, score, mul_comm]
  refine congrArg (args.scale * ·) ?_
  rw [Kernel.dot]
  refine (Finset.sum_subset (Finset.range_subset_range.mpr (le_nextPowerOf2 _))
    fun c _ hc => ?_).symm.trans (Finset.sum_congr rfl fun c hc => ?_)
  · rw [Kernel.loadQ, if_neg, zero_mul]
    rintro ⟨-, hlt⟩
    exact hc (Finset.mem_range.mpr hlt)
  · have hlt := Finset.mem_range.mp hc
    rw [Kernel.loadQ, Kernel.loadK, if_pos ⟨by omega, hlt⟩, if_pos ⟨by omega, hlt⟩]
    rfl

theorem kernel_loadV (h : seq < args.batch) {n d : ℕ} (hn : n < args.kLen seq)
    (hd : d < args.v.shape 2) :
    (args.kernel freshOut freshLse).loadV seq head n d =
      args.v.read ![args.kStart seq + n, args.kvHead head, d] := by
  have hk := kernel_kLen hp freshOut freshLse h
  rw [Kernel.loadV, if_pos ⟨by omega, hd⟩]
  rfl

theorem kernel_mask (h : seq < args.batch) {n : ℕ} :
    (args.kernel freshOut freshLse).Mask seq m n ↔ n ∈ args.visible seq m := by
  rw [Kernel.Mask, kernel_qLen hp freshOut freshLse h, kernel_kLen hp freshOut freshLse h, visible,
    mem_seen]
  exact and_congr_left' Int.ofNat_lt

theorem kernel_endN_eq_zero (h : seq < args.batch) {qBlockIdx : ℕ} :
    (args.kernel freshOut freshLse).endN seq qBlockIdx = 0 ↔ args.kLen seq = 0 ∨
      args.causal = true ∧ (qBlockIdx + 1) * 64 + args.kLen seq ≤ args.qLen seq := by
  rw [Kernel.endN, kernel_qLen hp freshOut freshLse h, kernel_kLen hp freshOut freshLse h]
  by_cases hc : (args.kernel freshOut freshLse).isCausal = true
  · have hcausal : args.causal = true := hc
    rw [if_pos hc, show (args.kernel freshOut freshLse).blockM = 64 from rfl]
    simp only [hcausal, true_and, Nat.cast_ofNat]
    omega
  · have hcausal : ¬ args.causal = true := hc
    rw [if_neg hc, or_iff_left fun hand => hcausal hand.1]
    omega

/-- The keys that a row of a block sees are among those the block looks at. -/
theorem kernel_lt_endN (h : seq < args.batch) {qBlockIdx i n : ℕ} (hi : i < 64)
    (hmask : (args.kernel freshOut freshLse).Mask seq
      ((args.kernel freshOut freshLse).offsM qBlockIdx i) n) :
    n < (args.kernel freshOut freshLse).endN seq qBlockIdx := by
  obtain ⟨hn, hcausal⟩ := hmask
  rw [kernel_qLen hp freshOut freshLse h, kernel_kLen hp freshOut freshLse h] at hcausal
  rw [kernel_kLen hp freshOut freshLse h] at hn
  rw [Kernel.endN, kernel_qLen hp freshOut freshLse h, kernel_kLen hp freshOut freshLse h]
  refine Int.lt_toNat.mpr ?_
  by_cases hc : (args.kernel freshOut freshLse).isCausal = true
  · have hle : (n : ℤ) ≤ (qBlockIdx * 64 + i : ℕ) + args.kLen seq - args.qLen seq := hcausal hc
    rw [if_pos hc, show (args.kernel freshOut freshLse).blockM = 64 from rfl]
    refine lt_min hn ?_
    push_cast at hle ⊢
    omega
  · rwa [if_neg hc]

theorem kernel_visible (h : seq < args.batch) {qBlockIdx i : ℕ} (hi : i < 64) :
    (args.kernel freshOut freshLse).visible seq
      ((args.kernel freshOut freshLse).offsM qBlockIdx i)
      ((args.kernel freshOut freshLse).endN seq qBlockIdx) =
      args.visible seq ((args.kernel freshOut freshLse).offsM qBlockIdx i) := by
  ext n
  rw [Kernel.visible, mem_seen, kernel_mask hp freshOut freshLse h]
  refine and_iff_right_of_imp fun hn => ?_
  exact kernel_lt_endN hp freshOut freshLse h hi ((kernel_mask hp freshOut freshLse h).mpr hn)

variable (head) in
/-- A row that sees a key ends with its attention. -/
theorem kernel_values_of_nonempty (h : seq < args.batch) {qBlockIdx i d : ℕ} (hi : i < 64)
    (hm : (args.kernel freshOut freshLse).offsM qBlockIdx i < args.qLen seq)
    (hd : d < args.v.shape 2)
    (hkeys : (args.visible seq ((args.kernel freshOut freshLse).offsM qBlockIdx i)).Nonempty) :
    (args.kernel freshOut freshLse).outValue seq head qBlockIdx i d =
        .real (args.attention seq head ((args.kernel freshOut freshLse).offsM qBlockIdx i) d) ∧
      (args.kernel freshOut freshLse).lseValue seq head qBlockIdx i =
        args.attentionLse seq head ((args.kernel freshOut freshLse).offsM qBlockIdx i) := by
  have hN : 0 < (args.kernel freshOut freshLse).blockN := Nat.succ_pos 63
  have hsees : (args.kernel freshOut freshLse).Mask seq
      ((args.kernel freshOut freshLse).offsM qBlockIdx i) 0 := by
    obtain ⟨n, hn⟩ := hkeys
    obtain ⟨hlt, hcausal⟩ := mem_seen.mp hn
    rw [kernel_mask hp freshOut freshLse h]
    refine mem_seen.mpr ⟨by omega, fun hc => ?_⟩
    have hle := hcausal hc
    omega
  obtain ⟨x, hrow⟩ := Kernel.exists_row_eq_sums head hN hsees
    fun n => kernel_lt_endN hp freshOut freshLse h hi
  rw [kernel_visible hp freshOut freshLse h hi] at hrow
  obtain ⟨hout, hlse⟩ := Kernel.values_of_sums hkeys hrow d
  have hscore : ∀ n ∈ args.visible seq ((args.kernel freshOut freshLse).offsM qBlockIdx i),
      (args.kernel freshOut freshLse).score seq head
        ((args.kernel freshOut freshLse).offsM qBlockIdx i) n =
      args.score seq head ((args.kernel freshOut freshLse).offsM qBlockIdx i) n :=
    fun n hn => kernel_score hp freshOut freshLse h hm (mem_seen.mp hn).1
  refine ⟨hout.trans (congrArg Extended.real ?_), hlse.trans (logSumExp_congr hscore)⟩
  exact softmaxAverage_congr hscore fun n hn =>
    kernel_loadV hp freshOut freshLse h (mem_seen.mp hn).1 hd

/-! ### What the rows get -/

section
omit hp

variable (args) in
/-- The output of row m, at its lane of its block. -/
noncomputable def outValue (seq head m d : ℕ) : Extended :=
  (args.kernel freshOut freshLse).outValue seq head (m / 64) (m % 64) d

variable (args) in
noncomputable def lseValue (seq head m : ℕ) : Extended :=
  (args.kernel freshOut freshLse).lseValue seq head (m / 64) (m % 64)

theorem kernel_offsM : (args.kernel freshOut freshLse).offsM (m / 64) (m % 64) = m :=
  Nat.div_add_mod' m 64

theorem visible_eq_empty : args.visible seq m = ∅ ↔
    args.kLen seq = 0 ∨ args.causal = true ∧ m + args.kLen seq < args.qLen seq := by
  rw [Finset.eq_empty_iff_forall_notMem]
  simp only [visible, mem_seen, not_and]
  constructor
  · intro hnone
    refine or_iff_not_imp_left.mpr fun hpos => ?_
    have hzero := hnone 0 (Nat.pos_of_ne_zero hpos)
    rw [Classical.not_imp] at hzero
    refine ⟨hzero.1, ?_⟩
    omega
  · rintro (hzero | ⟨hcausal, hlt⟩) n hn hle
    · omega
    · have hle := hle hcausal
      omega

end

theorem values_of_nonempty (h : seq < args.batch) (hm : m < args.qLen seq) {d : ℕ}
    (hd : d < args.v.shape 2) (hkeys : (args.visible seq m).Nonempty) :
    args.outValue freshOut freshLse seq head m d = .real (args.attention seq head m d) ∧
      args.lseValue freshOut freshLse seq head m = args.attentionLse seq head m := by
  have hrow : (args.kernel freshOut freshLse).offsM (m / 64) (m % 64) = m :=
    kernel_offsM freshOut freshLse
  rw [← hrow] at hm hkeys
  have hvalues := kernel_values_of_nonempty hp freshOut freshLse head h
    (Nat.mod_lt m (by decide)) hm hd hkeys
  rwa [hrow] at hvalues

theorem values_of_empty (h : seq < args.batch) (hkeys : args.visible seq m = ∅)
    (hfed : ¬ args.Starved seq m) (d : ℕ) :
    args.outValue freshOut freshLse seq head m d = .real 0 ∧
      args.lseValue freshOut freshLse seq head m = .negInf := by
  refine Kernel.values_of_endN ((kernel_endN_eq_zero hp freshOut freshLse h).mpr ?_)
    (Nat.succ_pos 63) d
  refine or_iff_not_imp_left.mpr fun hpos => ?_
  obtain ⟨hcausal, hlt⟩ := (visible_eq_empty.mp hkeys).resolve_left hpos
  refine ⟨hcausal, le_of_not_gt fun hsees => ?_⟩
  exact hfed ⟨hcausal, Nat.pos_of_ne_zero hpos, hlt, hsees⟩

theorem values_of_starved (h : seq < args.batch) (hstarved : args.Starved seq m) (d : ℕ) :
    args.outValue freshOut freshLse seq head m d = .nan ∧
      args.lseValue freshOut freshLse seq head m = .negInf := by
  have hempty : args.visible seq m = ∅ :=
    visible_eq_empty.mpr (.inr ⟨hstarved.causal, hstarved.sees_none⟩)
  refine Kernel.values_of_blind (fun hend => ?_) (Nat.succ_pos 63) (fun n hmask => ?_) d
  · have hpos := hstarved.kLen_pos
    have hsees := hstarved.block_sees
    rcases (kernel_endN_eq_zero hp freshOut freshLse h).mp hend with hzero | ⟨-, hle⟩ <;> omega
  · rw [kernel_offsM, kernel_mask hp freshOut freshLse h, hempty] at hmask
    exact Finset.notMem_empty n hmask

/-- A row that is not starved gets its attention. -/
theorem outValue_of_not_starved (h : seq < args.batch) (hm : m < args.qLen seq) {d : ℕ}
    (hd : d < args.v.shape 2) (hfed : ¬ args.Starved seq m) :
    args.outValue freshOut freshLse seq head m d = .real (args.attention seq head m d) := by
  rcases (args.visible seq m).eq_empty_or_nonempty with hempty | hkeys
  · rw [attention, hempty, softmaxAverage_empty]
    exact (values_of_empty hp freshOut freshLse h hempty hfed d).1
  · exact (values_of_nonempty hp freshOut freshLse h hm hd hkeys).1

theorem lseValue_eq (h : seq < args.batch) (hm : m < args.qLen seq) :
    args.lseValue freshOut freshLse seq head m = args.attentionLse seq head m := by
  rcases (args.visible seq m).eq_empty_or_nonempty with hempty | hkeys
  · rw [attentionLse, hempty, logSumExp_empty]
    by_cases hstarved : args.Starved seq m
    · exact (values_of_starved hp freshOut freshLse h hstarved 0).2
    · exact (values_of_empty hp freshOut freshLse h hempty hstarved 0).2
  · exact (values_of_nonempty hp freshOut freshLse h hm hp.vHeadDim_pos hkeys).2

end PrefillArgs
end MultiGpuTransport.Triton
