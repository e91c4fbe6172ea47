import MultiGpuTransport.Host
import MultiGpuTransport.Lib.Strided

/-!
# Strided tensors

What the collectives ask of torch: views, copies and concatenations of tensors that are a shape, the
strides of its dimensions, and the memory from the first element on. Fresh memory holds anything.
-/
namespace MultiGpuTransport.Backends
open Strided

inductive Device
  | cpu
  | cuda (index : ℕ)
  deriving DecidableEq, Repr

structure StridedTensor (α : Type) (n : ℕ) where
  dtype : Dtype
  device : Device
  shape : Fin n → ℕ
  strides : Fin n → ℕ
  memory : ℕ → α

/-- A dimension of a tensor of rank n, counted from the front or, where negative, from the end. -/
def Dim (n : ℕ) : Type := {dim : ℤ // -(n : ℤ) ≤ dim ∧ dim < n}

def Dim.index {n : ℕ} (dim : Dim n) : Fin n :=
  ⟨(if dim.1 < 0 then dim.1 + n else dim.1).toNat, by
    obtain ⟨dim, hlo, hhi⟩ := dim
    dsimp only
    split_ifs <;> omega⟩

namespace StridedTensor
variable {α : Type} {n : ℕ}

def read (t : StridedTensor α n) (idx : Fin n → ℕ) : α := t.memory (offset t.strides idx)

/-- The strides of all dimensions but those of extent 1 are the row-major ones. -/
def isContiguous (t : StridedTensor α n) : Bool :=
  numel t.shape = 0 ∨ ∀ k, t.shape k = 1 ∨ t.strides k = rowMajor t.shape k

@[simps -fullyApplied] def emptyStrided (dtype : Dtype) (device : Device) (shape strides : Fin n → ℕ)
    (fresh : ℕ → α) : StridedTensor α n := ⟨dtype, device, shape, strides, fresh⟩

@[simps! -fullyApplied] def empty (dtype : Dtype) (device : Device) (shape : Fin n → ℕ) (fresh : ℕ → α) :
    StridedTensor α n := emptyStrided dtype device shape (rowMajor shape) fresh

/-- Dense tensors whose elements share no place keep their strides; what others get is up to torch. -/
@[simps -fullyApplied] def emptyLike (denseStrides : (Fin n → ℕ) → (Fin n → ℕ) → Fin n → ℕ)
    (t : StridedTensor α n) (fresh : ℕ → α) : StridedTensor α n where
  dtype := t.dtype
  device := t.device
  shape := t.shape
  strides := if Nonoverlapping t.shape t.strides ∧ Dense t.shape t.strides then t.strides
    else denseStrides t.shape t.strides
  memory := fresh

/-- Torch refuses to write to a tensor whose elements share places. -/
def copy_ (t source : StridedTensor α n) : Except PyError (StridedTensor α n) :=
  if Nonoverlapping t.shape t.strides then
    .ok { t with memory := scatter t.shape t.strides source.read t.memory }
  else .error (.runtimeError ("unsupported operation: more than one element of the written-to " ++
    "tensor refers to a single memory location. Please clone() the tensor before performing the " ++
    "operation."))

def contiguous (t : StridedTensor α n) (fresh : ℕ → α) : StridedTensor α n :=
  if t.isContiguous then t
  else { t with
    strides := rowMajor t.shape
    memory := scatter t.shape (rowMajor t.shape) t.read fresh }

@[simps -fullyApplied] def movedim (src dst : Fin (n + 1)) (t : StridedTensor α (n + 1)) :
    StridedTensor α (n + 1) :=
  { t with shape := Strided.movedim src dst t.shape, strides := Strided.movedim src dst t.strides }

/-- The view of position i of the first dimension. -/
def select (i : ℕ) (t : StridedTensor α (n + 1)) : StridedTensor α n where
  dtype := t.dtype
  device := t.device
  shape := Fin.tail t.shape
  strides := Fin.tail t.strides
  memory place := t.memory (i * t.strides 0 + place)

def unbind (t : StridedTensor α (n + 1)) : List (StridedTensor α n) :=
  (List.range (t.shape 0)).map fun i => t.select i

/-- The element at an index of the concatenation along dimension k: the first tensor that is long
enough has it. -/
def catRead (k : Fin n) : List (StridedTensor α n) → (Fin n → ℕ) → Option α
  | [], _ => none
  | t :: ts, idx =>
    if idx k < t.shape k then some (t.read idx)
    else catRead k ts (Function.update idx k (idx k - t.shape k))

def cat (k : Fin n) (ts : List (StridedTensor α n)) (fresh : ℕ → α) :
    Except PyError (StridedTensor α n) :=
  match ts with
  | [] => .error (.runtimeError "torch.cat(): expected a non-empty list of Tensors")
  | t :: _ =>
    let shape := Function.update t.shape k (ts.map fun t => t.shape k).sum
    .ok (empty t.dtype t.device shape (scatter shape (rowMajor shape)
      (fun idx => (catRead k ts idx).getD (fresh (flat shape idx))) fresh))

/-- Tensors that a reader of shapes and elements cannot tell apart. -/
structure Same (t u : StridedTensor α n) : Prop where
  dtype : t.dtype = u.dtype
  device : t.device = u.device
  shape : t.shape = u.shape
  read : ∀ idx, InBounds t.shape idx → t.read idx = u.read idx

theorem Same.refl (t : StridedTensor α n) : Same t t := ⟨rfl, rfl, rfl, fun _ _ => rfl⟩

section
variable {t : StridedTensor α n}

theorem rowMajor_of_isContiguous (h : t.isContiguous = true) : RowMajor t.shape t.strides := by
  intro idx hidx
  have hbounds := mem_indices.mp hidx
  simp only [isContiguous, decide_eq_true_eq] at h
  rcases h with hzero | hall
  · have hlt := flat_lt hbounds
    omega
  · refine Finset.sum_congr rfl fun k _ => ?_
    rcases hall k with hone | hk
    · have hlt := hbounds k
      rw [show idx k = 0 by omega, Nat.zero_mul, Nat.zero_mul]
    · rw [hk]

theorem isContiguous_of_strides (h : t.strides = rowMajor t.shape) : t.isContiguous = true := by
  simp [isContiguous, h]

theorem read_eq_memory (h : RowMajor t.shape t.strides) {idx : Fin n → ℕ}
    (hidx : InBounds t.shape idx) : t.read idx = t.memory (flat t.shape idx) := by
  rw [read, h idx (mem_indices.mpr hidx)]

theorem isContiguous_contiguous (fresh : ℕ → α) : (t.contiguous fresh).isContiguous = true := by
  unfold contiguous
  split_ifs with h
  · exact h
  · exact isContiguous_of_strides rfl

theorem same_contiguous (fresh : ℕ → α) : Same (t.contiguous fresh) t := by
  unfold contiguous
  split_ifs with h
  · exact .refl t
  · exact ⟨rfl, rfl, rfl, fun idx hidx =>
      scatter_offset (rowMajor_rowMajor t.shape).nonoverlapping hidx⟩

/-- A copy that is not refused makes the elements those of the source. -/
theorem copy_of_nonoverlapping (source : StridedTensor α n)
    (h : Nonoverlapping t.shape t.strides) :
    ∃ u, t.copy_ source = .ok u ∧ u.dtype = t.dtype ∧ u.device = t.device ∧ u.shape = t.shape ∧
      u.strides = t.strides ∧ (∀ idx, InBounds t.shape idx → u.read idx = source.read idx) ∧
      u.memory = scatter t.shape t.strides source.read t.memory :=
  ⟨_, if_pos h, rfl, rfl, rfl, rfl, fun _ hidx => scatter_offset h hidx, rfl⟩

end

/-- Moving a dimension of a tensor moves its indices. -/
@[simp] theorem read_movedim (src dst : Fin (n + 1)) (t : StridedTensor α (n + 1))
    (idx : Fin (n + 1) → ℕ) :
    (t.movedim src dst).read (Strided.movedim src dst idx) = t.read idx := by
  simp [read]

theorem read_select (i : ℕ) (t : StridedTensor α (n + 1)) (idx : Fin n → ℕ) :
    (t.select i).read idx = t.read (Fin.cons i idx) := by
  simp [read, select, offset_succ]

/-- Of tensors of one extent along dimension k, the quotient says which has the element and the
remainder where. -/
theorem catRead_eq (k : Fin n) {d : ℕ} (hd : 0 < d) {ts : List (StridedTensor α n)}
    (hts : ∀ t ∈ ts, t.shape k = d) (idx : Fin n → ℕ) :
    catRead k ts idx =
      ts[idx k / d]?.map fun t => t.read (Function.update idx k (idx k % d)) := by
  induction ts generalizing idx with
  | nil => rfl
  | cons t ts ih =>
    obtain ⟨ht, hts⟩ := List.forall_mem_cons.mp hts
    rw [catRead, ht]
    split_ifs with hlt
    · simp [Nat.div_eq_of_lt hlt, Nat.mod_eq_of_lt hlt]
    · have hge := Nat.le_of_not_lt hlt
      rw [ih hts, Function.update_self, Function.update_idem, Nat.div_eq_sub_div hd hge,
        List.getElem?_cons_succ, ← Nat.mod_eq_sub_mod hge]

theorem unbind_eq_ofFn (t : StridedTensor α (n + 1)) :
    t.unbind = List.ofFn fun i : Fin (t.shape 0) => t.select i := by
  refine List.ext_getElem (by simp [unbind]) fun i _ _ => ?_
  simp [unbind]

/-- The concatenation of tensors of one shape has them as its chunks. -/
theorem cat_ofFn {W : ℕ} (k : Fin n) {shape : Fin n → ℕ} (t : Fin (W + 1) → StridedTensor α n)
    (hshape : ∀ q, (t q).shape = shape) (fresh : ℕ → α) :
    ∃ z, cat k (List.ofFn t) fresh = .ok z ∧ z.dtype = (t 0).dtype ∧ z.device = (t 0).device ∧
      z.strides = rowMajor z.shape ∧ z.shape = Function.update shape k ((W + 1) * shape k) ∧
      ∀ (q : Fin (W + 1)) idx, InBounds shape idx →
        z.read (inChunk k (shape k) q idx) = (t q).read idx := by
  have hsum : ((List.ofFn t).map fun t => t.shape k).sum = (W + 1) * shape k := by
    simp only [List.map_ofFn, List.sum_ofFn, Function.comp_apply, hshape, Finset.sum_const,
      Finset.card_univ, Fintype.card_fin, smul_eq_mul]
  let whole := Function.update shape k ((W + 1) * shape k)
  have hcat : cat k (List.ofFn t) fresh = .ok (empty (t 0).dtype (t 0).device whole
      (scatter whole (rowMajor whole)
        (fun idx => (catRead k (List.ofFn t) idx).getD (fresh (flat whole idx))) fresh)) := by
    dsimp only [whole]
    rw [← hsum, ← hshape 0, List.ofFn_succ]
    rfl
  refine ⟨_, hcat, rfl, rfl, rfl, rfl, fun q idx hidx => ?_⟩
  have hpos : 0 < shape k := Nat.zero_lt_of_lt (hidx k)
  have hbounds : InBounds whole (inChunk k (shape k) q idx) :=
    inBounds_inChunk (by rwa [Function.update_eq_self]) q.isLt
  refine (scatter_offset (rowMajor_rowMajor _).nonoverlapping hbounds).trans ?_
  have hdiv : inChunk k (shape k) q idx k / shape k = q := by
    rw [inChunk_self, Nat.mul_comm, Nat.mul_add_div hpos, Nat.div_eq_of_lt (hidx k), Nat.add_zero]
  have hmod : inChunk k (shape k) q idx k % shape k = idx k := by
    rw [inChunk_self, Nat.mul_comm, Nat.mul_add_mod, Nat.mod_eq_of_lt (hidx k)]
  have hall : ∀ u ∈ List.ofFn t, u.shape k = shape k := by
    intro u hu
    obtain ⟨p, rfl⟩ := (List.mem_ofFn' t u).mp hu
    rw [hshape]
  rw [catRead_eq k hpos hall, hdiv, hmod, List.getElem?_ofFn, dif_pos q.isLt, Option.map_some,
    Option.getD_some, inChunk, Function.update_idem, Function.update_eq_self]

end StridedTensor
end MultiGpuTransport.Backends
