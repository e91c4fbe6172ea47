import MultiGpuTransport.Backends.Torch
import MultiGpuTransport.Lib.Softmax

/-!
# The Triton MLA prefill kernel

Sequences are packed one after the other along the first dimension of the queries, and of the keys and
values; start locations say where each begins. A program of the grid computes one block of query rows
of one sequence and one head. It goes over the keys block by block and keeps, for each row, the largest
score, the sum of exponentials and the weighed values, with scores in base-2 units. Tensor elements are
real numbers, and what the kernel computes with them is an extended one.
-/
namespace MultiGpuTransport.Triton
open Backends Strided

/-- A one-dimensional contiguous tensor of positions. -/
structure StartLoc where
  device : Device
  positions : List ℕ

def StartLoc.load (loc : StartLoc) (i : ℕ) : ℕ := loc.positions.getD i 0

/-- The arguments of _triton_mla_prefill_kernel. -/
structure Kernel where
  q : StridedTensor ℝ 3
  k : StridedTensor ℝ 3
  v : StridedTensor ℝ 3
  out : StridedTensor Extended 3
  lse : StridedTensor Extended 2
  qStartLoc : StartLoc
  kStartLoc : StartLoc
  scale : ℝ
  kvGroupNum : ℕ
  qkHeadDim : ℕ
  vHeadDim : ℕ
  blockM : ℕ
  blockN : ℕ
  blockQk : ℕ
  blockV : ℕ
  isCausal : Bool
  returnLse : Bool

/-- A store to the element of a tensor at an index. -/
structure Store (n : ℕ) where
  index : Fin n → ℕ
  value : Extended

def cdiv (a b : ℕ) : ℕ := (a + b - 1) / b

/-- What the loop over the keys carries for one query row: m_i, l_i and acc. -/
structure Row where
  m : Extended
  l : Extended
  acc : ℕ → Extended

namespace Kernel
variable (kernel : Kernel) (seqIdx qHeadIdx : ℕ)

def kvHeadIdx : ℕ := qHeadIdx / kernel.kvGroupNum

def qStart : ℕ := kernel.qStartLoc.load seqIdx

def qLen : ℤ := kernel.qStartLoc.load (seqIdx + 1) - kernel.qStart seqIdx

def kStart : ℕ := kernel.kStartLoc.load seqIdx

def kLen : ℤ := kernel.kStartLoc.load (seqIdx + 1) - kernel.kStart seqIdx

/-! The masked loads. Rows and keys are counted from the start of the sequence. -/

def loadQ (m c : ℕ) : ℝ :=
  if (m : ℤ) < kernel.qLen seqIdx ∧ c < kernel.qkHeadDim then
    kernel.q.read ![kernel.qStart seqIdx + m, qHeadIdx, c]
  else 0

def loadK (n c : ℕ) : ℝ :=
  if (n : ℤ) < kernel.kLen seqIdx ∧ c < kernel.qkHeadDim then
    kernel.k.read ![kernel.kStart seqIdx + n, kernel.kvHeadIdx qHeadIdx, c]
  else 0

def loadV (n d : ℕ) : ℝ :=
  if (n : ℤ) < kernel.kLen seqIdx ∧ d < kernel.vHeadDim then
    kernel.v.read ![kernel.kStart seqIdx + n, kernel.kvHeadIdx qHeadIdx, d]
  else 0

/-- Whether row m sees key n. -/
def Mask (m n : ℕ) : Prop :=
  (n : ℤ) < kernel.kLen seqIdx ∧
    (kernel.isCausal = true → (n : ℤ) ≤ m + kernel.kLen seqIdx - kernel.qLen seqIdx)

instance (m n : ℕ) : Decidable (kernel.Mask seqIdx m n) := inferInstanceAs (Decidable (_ ∧ _))

def dot (m n : ℕ) : ℝ :=
  ∑ c ∈ Finset.range kernel.blockQk,
    kernel.loadQ seqIdx qHeadIdx m c * kernel.loadK seqIdx qHeadIdx n c

/-- The score of key n for row m, in base-2 units. -/
noncomputable def qk (m n : ℕ) : Extended :=
  if kernel.Mask seqIdx m n then .real (kernel.dot seqIdx qHeadIdx m n * kernel.scale * log2e)
  else .negInf

/-- One iteration of the loop, at key startN. -/
noncomputable def step (m startN : ℕ) (row : Row) : Row :=
  let mNext := row.m.max
    (Extended.maxOver kernel.blockN fun j => kernel.qk seqIdx qHeadIdx m (startN + j))
  let p j := (kernel.qk seqIdx qHeadIdx m (startN + j) - mNext).exp2
  let alpha := (row.m - mNext).exp2
  { m := mNext
    l := row.l * alpha + ∑ j ∈ Finset.range kernel.blockN, p j
    acc d := row.acc d * alpha +
      ∑ j ∈ Finset.range kernel.blockN, p j * .real (kernel.loadV seqIdx qHeadIdx (startN + j) d) }

/-- Row m after so many iterations. -/
noncomputable def rowAfter (m : ℕ) : ℕ → Row
  | 0 => ⟨.negInf, 0, fun _ => 0⟩
  | n + 1 => kernel.step seqIdx qHeadIdx m (n * kernel.blockN) (rowAfter m n)

/-- Where the keys end that a block of rows looks at. -/
def endN (qBlockIdx : ℕ) : ℕ :=
  (if kernel.isCausal then
    min (kernel.kLen seqIdx)
      ((qBlockIdx + 1) * kernel.blockM + kernel.kLen seqIdx - kernel.qLen seqIdx)
  else kernel.kLen seqIdx).toNat

variable (qBlockIdx : ℕ)

/-- The row at lane i of a block. -/
def offsM (i : ℕ) : ℕ := qBlockIdx * kernel.blockM + i

/-- A row after the loop, which takes key positions below endN in steps of blockN. -/
noncomputable def row (i : ℕ) : Row :=
  kernel.rowAfter seqIdx qHeadIdx (kernel.offsM qBlockIdx i)
    (cdiv (kernel.endN seqIdx qBlockIdx) kernel.blockN)

noncomputable def outValue (i d : ℕ) : Extended :=
  let row := kernel.row seqIdx qHeadIdx qBlockIdx i
  row.acc d / if row.l.IsPos then row.l else .real 1

noncomputable def lseValue (i : ℕ) : Extended :=
  let row := kernel.row seqIdx qHeadIdx qBlockIdx i
  if row.l.IsPos then (row.m + row.l.log2) * .real ln2 else .negInf

noncomputable def outStores : List (Store 3) :=
  ((List.range kernel.blockM ×ˢ List.range kernel.blockV).filter fun (i, d) =>
      (kernel.offsM qBlockIdx i : ℤ) < kernel.qLen seqIdx ∧ d < kernel.vHeadDim).map fun (i, d) =>
    ⟨![kernel.qStart seqIdx + kernel.offsM qBlockIdx i, qHeadIdx, d],
      kernel.outValue seqIdx qHeadIdx qBlockIdx i d⟩

noncomputable def lseStores : List (Store 2) :=
  if kernel.returnLse then
    ((List.range kernel.blockM).filter fun i =>
        (kernel.offsM qBlockIdx i : ℤ) < kernel.qLen seqIdx).map fun i =>
      ⟨![qHeadIdx, kernel.qStart seqIdx + kernel.offsM qBlockIdx i],
        kernel.lseValue seqIdx qHeadIdx qBlockIdx i⟩
  else []

end Kernel

/-- A kernel and the grid it is launched with. -/
structure Launch where
  kernel : Kernel
  grid : ℕ × ℕ × ℕ

namespace Launch
variable (launch : Launch)

def programs : List (ℕ × ℕ × ℕ) :=
  List.range launch.grid.1 ×ˢ List.range launch.grid.2.1 ×ˢ List.range launch.grid.2.2

noncomputable def outStores : List (Store 3) :=
  launch.programs.flatMap fun (seqIdx, qHeadIdx, qBlockIdx) =>
    launch.kernel.outStores seqIdx qHeadIdx qBlockIdx

noncomputable def lseStores : List (Store 2) :=
  launch.programs.flatMap fun (seqIdx, qHeadIdx, qBlockIdx) =>
    launch.kernel.lseStores seqIdx qHeadIdx qBlockIdx

/-- A tensor after stores in this order. -/
def stored {n : ℕ} (t : StridedTensor Extended n) (stores : List (Store n)) :
    StridedTensor Extended n :=
  { t with
    memory := stores.foldl
      (fun memory store => Function.update memory (offset t.strides store.index) store.value)
      t.memory }

/-- What triton_mla_prefill can return: the programs of the grid store in any order. -/
def Returns (out : StridedTensor Extended 3) (lse : Option (StridedTensor Extended 2)) : Prop :=
  (∃ stores, stores.Perm launch.outStores ∧ out = stored launch.kernel.out stores) ∧
    ∃ stores, stores.Perm launch.lseStores ∧
      lse = if launch.kernel.returnLse then some (stored launch.kernel.lse stores) else none

end Launch

/-- The arguments of triton_mla_prefill. -/
structure PrefillArgs where
  q : StridedTensor ℝ 3
  k : StridedTensor ℝ 3
  v : StridedTensor ℝ 3
  qStartLoc : StartLoc
  kStartLoc : StartLoc
  maxQueryLen : ℕ
  scale : ℝ
  causal : Bool
  returnLse : Bool
  out : Option (StridedTensor Extended 3)

def nextPowerOf2 (n : ℕ) : ℕ := 2 ^ Nat.clog 2 n

namespace PrefillArgs
variable (args : PrefillArgs)

/-- The assertions of triton_mla_prefill, and the division by the number of heads of k. -/
def Accepted : Prop :=
  args.q.shape 2 = args.k.shape 2 ∧ args.k.shape 1 = args.v.shape 1 ∧ args.k.shape 1 ≠ 0 ∧
    args.q.shape 1 % args.k.shape 1 = 0 ∧
    args.qStartLoc.positions.length = args.kStartLoc.positions.length ∧
    (args.q.device = args.k.device ∧ args.k.device = args.v.device) ∧
    (args.qStartLoc.device = args.q.device ∧ args.kStartLoc.device = args.q.device) ∧
    (args.q.dtype = args.k.dtype ∧ args.k.dtype = args.v.dtype) ∧
    ∀ out ∈ args.out, out.shape = ![args.q.shape 0, args.q.shape 1, args.v.shape 2] ∧
      out.device = args.q.device ∧ out.dtype = args.v.dtype

instance : Decidable args.Accepted := inferInstanceAs (Decidable (_ ∧ _))

/-- The tensor the kernel writes to: the caller's, or an empty one. -/
def outTensor (fresh : ℕ → Extended) : StridedTensor Extended 3 :=
  args.out.getD (.empty args.v.dtype args.v.device
    ![args.q.shape 0, args.q.shape 1, args.v.shape 2] fresh)

/-- The arguments of the kernel. -/
def kernel (freshOut freshLse : ℕ → Extended) : Kernel where
  q := args.q
  k := args.k
  v := args.v
  out := args.outTensor freshOut
  lse := .empty .float32 args.q.device ![args.q.shape 1, args.q.shape 0] freshLse
  qStartLoc := args.qStartLoc
  kStartLoc := args.kStartLoc
  scale := args.scale
  kvGroupNum := args.q.shape 1 / args.k.shape 1
  qkHeadDim := args.q.shape 2
  vHeadDim := args.v.shape 2
  blockM := 64
  blockN := 64
  blockQk := nextPowerOf2 (args.q.shape 2)
  blockV := nextPowerOf2 (args.v.shape 2)
  isCausal := args.causal
  returnLse := args.returnLse

def launch (freshOut freshLse : ℕ → Extended) : Launch where
  kernel := args.kernel freshOut freshLse
  grid := (args.qStartLoc.positions.length - 1, args.q.shape 1, cdiv args.maxQueryLen 64)

/-- What triton_mla_prefill launches, where no assertion fails. -/
def tritonMlaPrefill (freshOut freshLse : ℕ → Extended) : Option Launch :=
  if args.Accepted then some (args.launch freshOut freshLse) else none

end PrefillArgs

/-- What the attention metadata says of the prefill requests; cu_seq_lens has a row for each chunk of
their context. -/
structure PrefillMetadata where
  queryStartLoc : StartLoc
  maxQueryLen : ℕ
  cuSeqLens : Option (List StartLoc)

structure TritonMLAPrefillBackend where
  scale : ℝ
  prefillMetadata : PrefillMetadata

namespace TritonMLAPrefillBackend
variable (backend : TritonMLAPrefillBackend) (q k v : StridedTensor ℝ 3)

/-- The call of triton_mla_prefill, where no output scale is given. -/
def runPrefillNewTokens (returnSoftmaxLse : Bool) (out : Option (StridedTensor Extended 3))
    (outputScale : Option ℝ) : Option PrefillArgs :=
  match outputScale with
  | some _ => none
  | none => some {
      q := q
      k := k
      v := v
      qStartLoc := backend.prefillMetadata.queryStartLoc
      kStartLoc := backend.prefillMetadata.queryStartLoc
      maxQueryLen := backend.prefillMetadata.maxQueryLen
      scale := backend.scale
      causal := true
      returnLse := returnSoftmaxLse
      out := out }

/-- The call of triton_mla_prefill, where there is such a chunk of context. -/
def runPrefillContextChunk (chunkIdx : ℕ) : Option PrefillArgs := do
  let chunked ← backend.prefillMetadata.cuSeqLens
  let kStartLoc ← chunked[chunkIdx]?
  return {
    q := q
    k := k
    v := v
    qStartLoc := backend.prefillMetadata.queryStartLoc
    kStartLoc := kStartLoc
    maxQueryLen := backend.prefillMetadata.maxQueryLen
    scale := backend.scale
    causal := false
    returnLse := true
    out := none }

end TritonMLAPrefillBackend
end MultiGpuTransport.Triton
