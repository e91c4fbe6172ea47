import MultiGpuTransport.Lib.Rank
import MultiGpuTransport.Lib.Streams
import MultiGpuTransport.Lib.Timeline
import MultiGpuTransport.Tensor

/-! What the GPU streams do to the cross-adapter heaps and fences. Each rank owns one named heap
and one timeline fence; both ranks have both mapped. -/
namespace MultiGpuTransport.D3D12
open Streams

/-- The stream operations of the transport. A heap or fence is named by the rank that created it;
the epoch of a copy or an add says which call it belongs to, and so which output it fills. -/
inductive Op
  | copy (heap : Rank) (epoch : ℕ) (source : Bytes)
  | signal (fence : Rank) (value : ℕ)
  | wait (fence : Rank) (value : ℕ)
  | add (output : Rank) (epoch : ℕ) (dtype : Dtype) (count : ℕ) (source : Bytes) (heap : Rank)
  deriving DecidableEq

structure Mem where
  heap : Rank → Bytes
  fence : Rank → Timeline
  output : Rank → ℕ → Option Bytes

/-- Fences are created with value zero; a fresh heap holds anything. -/
def Mem.start (heap : Rank → Bytes) : Mem where
  heap := heap
  fence _ := .zero
  output _ _ := none

section
variable (addValues : AddValues)

/-- Only a wait has to wait, until its fence has reached the value. -/
def Op.ready : Op → Mem → Prop
  | .wait fence value, m => value ≤ (m.fence fence).value
  | _, _ => True

def Op.run : Op → Mem → Mem
  | .copy heap _ source, m =>
    { m with heap := Function.update m.heap heap (copyKernel source (m.heap heap)) }
  | .signal fence value, m =>
    { m with fence := Function.update m.fence fence ((m.fence fence).set value) }
  | .wait _ _, m => m
  | .add rank epoch dtype count source heap, m =>
    { m with output := Function.update m.output rank (Function.update (m.output rank) epoch
        (some (addKernel addValues dtype count source (m.heap heap)))) }

def device : Device Op Mem where
  ready := Op.ready
  run := Op.run addValues

instance (op : Op) (m : Mem) : Decidable (op.ready m) := by
  cases op <;> unfold Op.ready <;> infer_instance

instance (op : Op) (m : Mem) : Decidable ((device addValues).ready op m) :=
  inferInstanceAs (Decidable (op.ready m))

end
end MultiGpuTransport.D3D12
