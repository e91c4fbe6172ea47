import Mathlib.Data.List.Basic
import Mathlib.Algebra.BigOperators.Group.List.Basic
import Mathlib.Tactic.Common

/-!
# Tensors and the kernels that move and add them

A tensor is its dtype, its shape, the device it lives on and its elements in row-major order,
encoded as bytes. The kernels work on bytes of mapped memory: a copy replaces the first bytes of
its destination, an add decodes the two operands element by element. How two encoded elements
add up is a parameter.
-/
namespace MultiGpuTransport

inductive Dtype
  | float16 | float32 | float64 | bfloat16
  | int8 | uint8 | int16 | int32 | int64
  | bool | complex64 | complex128
  | other (name : String) (elementSize : ℕ)
  deriving DecidableEq, Repr

def Dtype.elementSize : Dtype → ℕ
  | int8 | uint8 | bool => 1
  | float16 | bfloat16 | int16 => 2
  | float32 | int32 => 4
  | float64 | int64 | complex64 => 8
  | complex128 => 16
  | other _ n => n

/-- What a message shows of a dtype. -/
def Dtype.name : Dtype → String
  | float16 => "torch.float16"
  | float32 => "torch.float32"
  | float64 => "torch.float64"
  | bfloat16 => "torch.bfloat16"
  | int8 => "torch.int8"
  | uint8 => "torch.uint8"
  | int16 => "torch.int16"
  | int32 => "torch.int32"
  | int64 => "torch.int64"
  | bool => "torch.bool"
  | complex64 => "torch.complex64"
  | complex128 => "torch.complex128"
  | other name _ => "torch." ++ name

/-- What a message shows of a HIP device, which may have no index. -/
def cudaName : Option ℕ → String
  | none => "cuda"
  | some index => s!"cuda:{index}"

/-- The dtypes the native kernels have a function for. -/
def Dtype.isNative (d : Dtype) : Bool := d ∈ [.float16, .float32, .bfloat16]

/-- The data types RCCL has, by their numbers. -/
def rcclDtype : Dtype → Option ℕ
  | .int8 => some 0
  | .uint8 => some 1
  | .int32 => some 2
  | .int64 => some 4
  | .float16 => some 6
  | .float32 => some 7
  | .float64 => some 8
  | .bfloat16 => some 9
  | _ => none

abbrev Bytes := List UInt8

structure Tensor where
  dtype : Dtype
  shape : List ℕ
  device : ℕ
  data : Bytes
  size_eq : data.length = shape.prod * dtype.elementSize

namespace Tensor

def numel (t : Tensor) : ℕ := t.shape.prod

def sizeBytes (t : Tensor) : ℕ := t.numel * t.dtype.elementSize

theorem data_length (t : Tensor) : t.data.length = t.sizeBytes := t.size_eq

theorem data_eq_nil {t : Tensor} (h : t.sizeBytes = 0) : t.data = [] :=
  List.length_eq_zero_iff.mp (t.data_length.trans h)

/-- What a collective asks of the tensors its ranks pass in. -/
def SameShape (t u : Tensor) : Prop := t.dtype = u.dtype ∧ t.shape = u.shape

theorem SameShape.sizeBytes {t u : Tensor} (h : t.SameShape u) : t.sizeBytes = u.sizeBytes := by
  simp [Tensor.sizeBytes, numel, h.1, h.2]

theorem SameShape.numel {t u : Tensor} (h : t.SameShape u) : t.numel = u.numel := by
  simp [Tensor.numel, h.2]

end Tensor

/-- How two encoded elements of a dtype add up: to one of the same size. -/
structure AddValues where
  add : Dtype → Bytes → Bytes → Bytes
  length_add : ∀ d a b, a.length = d.elementSize → b.length = d.elementSize →
    (add d a b).length = d.elementSize

/-- Byte by byte, which is right for elements of which only one byte is nonzero. -/
def addBytes : AddValues where
  add _ := List.zipWith (· + ·)
  length_add d a b ha hb := by simp [ha, hb]

/-- Element i of an array of elements of the given size. -/
def element (elementSize i : ℕ) (b : Bytes) : Bytes := (b.drop (i * elementSize)).take elementSize

/-- Thread index below count writes output[index] = local[index] + peer[index]. -/
def addKernel (addValues : AddValues) (d : Dtype) (count : ℕ) (source peer : Bytes) : Bytes :=
  (List.range count).flatMap fun index =>
    addValues.add d (element d.elementSize index source) (element d.elementSize index peer)

/-- Thread index below the number of bytes writes destination[index] = source[index]. -/
def copyKernel (source destination : Bytes) : Bytes := source ++ destination.drop source.length

theorem copyKernel_prefix (source destination : Bytes) : source <+: copyKernel source destination :=
  List.prefix_append _ _

@[simp] theorem copyKernel_nil (destination : Bytes) : copyKernel [] destination = destination := rfl

theorem isPrefix_element {es i : ℕ} {b c : Bytes} (h : b <+: c) (hi : (i + 1) * es ≤ b.length) :
    element es i c = element es i b := by
  obtain ⟨d, rfl⟩ := h
  rw [Nat.succ_mul] at hi
  rw [element, element, List.drop_append_of_le_length (by omega),
    List.take_append_of_le_length (by rw [List.length_drop]; omega)]

/-- The add reads only the first count elements of mapped memory. -/
theorem addKernel_prefix (addValues : AddValues) (d : Dtype) {count : ℕ} (source : Bytes)
    {peer heap : Bytes} (h : peer <+: heap) (hlen : peer.length = count * d.elementSize) :
    addKernel addValues d count source heap = addKernel addValues d count source peer := by
  unfold addKernel
  refine List.flatMap_congr fun i hi => ?_
  rw [isPrefix_element h]
  rw [hlen]
  exact Nat.mul_le_mul_right _ (List.mem_range.mp hi)

/-- The same for the other operand. -/
theorem addKernel_prefix_left (addValues : AddValues) (d : Dtype) {count : ℕ} (peer : Bytes)
    {source heap : Bytes} (h : source <+: heap) (hlen : source.length = count * d.elementSize) :
    addKernel addValues d count heap peer = addKernel addValues d count source peer := by
  unfold addKernel
  refine List.flatMap_congr fun i hi => ?_
  rw [isPrefix_element h]
  rw [hlen]
  exact Nat.mul_le_mul_right _ (List.mem_range.mp hi)

@[simp] theorem addKernel_zero (addValues : AddValues) (d : Dtype) (source peer : Bytes) :
    addKernel addValues d 0 source peer = [] := rfl

theorem element_length {es i : ℕ} {b : Bytes} (hi : (i + 1) * es ≤ b.length) :
    (element es i b).length = es := by
  rw [Nat.succ_mul] at hi
  simp only [element, List.length_take, List.length_drop]
  omega

/-- The add of operands that are long enough fills count elements. -/
theorem addKernel_length (addValues : AddValues) (d : Dtype) {count : ℕ} {source peer : Bytes}
    (hs : count * d.elementSize ≤ source.length) (hp : count * d.elementSize ≤ peer.length) :
    (addKernel addValues d count source peer).length = count * d.elementSize := by
  have hlen : ∀ i ∈ List.range count,
      (addValues.add d (element d.elementSize i source) (element d.elementSize i peer)).length =
        d.elementSize := by
    intro i hi
    have hle : (i + 1) * d.elementSize ≤ count * d.elementSize :=
      Nat.mul_le_mul_right _ (List.mem_range.mp hi)
    exact addValues.length_add d _ _ (element_length (Nat.le_trans hle hs))
      (element_length (Nat.le_trans hle hp))
  rw [addKernel, List.length_flatMap, List.map_congr_left hlen]
  simp

/-- The elementwise sum of two tensors, encoded. -/
def Tensor.sum (addValues : AddValues) (t u : Tensor) : Bytes :=
  addKernel addValues t.dtype t.numel t.data u.data

end MultiGpuTransport
