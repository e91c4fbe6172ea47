import MultiGpuTransport.Lib.Rank
import MultiGpuTransport.Lib.Streams
import MultiGpuTransport.Lib.Timeline
import MultiGpuTransport.PairBarrier
import MultiGpuTransport.Tensor

/-!
# The shared mapping of the fallback transport

One mapping holds a payload slot for each rank and a control area with the ready and consumed
words. Streams copy, wait for words, write words and add; hosts copy, use the barrier's events
and add in pinned memory.
-/
namespace MultiGpuTransport.MappedHost
open Streams

inductive Kind
  | ready
  | consumed
  deriving DecidableEq, Repr

def worldSize : ℕ := 2
def controlBytes : ℕ := 4096
def cacheLineBytes : ℕ := 64

def controlOffset (maxSizeBytes : ℕ) (kind : Kind) (rank : Rank) : ℕ :=
  let controlBase := maxSizeBytes * worldSize
  let kindIndex := if kind = .ready then 0 else worldSize
  controlBase + (kindIndex + rank.index) * cacheLineBytes

/-- The four words lie beyond both slots, in cache lines of their own, within the mapping. -/
theorem controlOffset_apart (maxSizeBytes : ℕ) (kind kind' : Kind) (rank rank' : Rank) :
    maxSizeBytes * worldSize ≤ controlOffset maxSizeBytes kind rank ∧
      controlOffset maxSizeBytes kind rank + 4 ≤ maxSizeBytes * worldSize + controlBytes ∧
      (controlOffset maxSizeBytes kind rank = controlOffset maxSizeBytes kind' rank' →
        kind = kind' ∧ rank = rank') ∧
      (controlOffset maxSizeBytes kind rank < controlOffset maxSizeBytes kind' rank' →
        controlOffset maxSizeBytes kind rank + cacheLineBytes ≤
          controlOffset maxSizeBytes kind' rank') := by
  cases kind <;> cases kind' <;> cases rank <;> cases rank' <;>
    simp [controlOffset, worldSize, controlBytes, cacheLineBytes, Rank.index]

/-- What streams and hosts do to the mapping, the pinned buffers and the outputs. An output is
named by the rank and the number of the call it belongs to. -/
inductive Op
  | waitValue (kind : Kind) (rank : Rank) (value : ℕ)
  | writeValue (kind : Kind) (rank : Rank) (value : ℕ)
  | copyToSlot (rank : Rank) (source : Bytes)
  | addPeer (rank : Rank) (call : ℕ) (dtype : Dtype) (count : ℕ) (source : Bytes) (slot : Rank)
  | event (op : EventOp)
  | addSlots (rank : Rank) (dtype : Dtype) (count : ℕ)
  | copyOutput (rank : Rank) (call : ℕ) (size : ℕ)
  deriving DecidableEq

structure Mem where
  slot : Rank → Bytes
  word : Kind → Rank → Timeline
  events : Events
  localOutput : Rank → Bytes
  output : Rank → ℕ → Option Bytes

/-- A fresh mapping: zeroed control words, anything in the buffers. Both events are clear, as they are
created, and again once both ranks are through the wait that ends their constructors. -/
def Mem.start (slot localOutput : Rank → Bytes) : Mem where
  slot := slot
  word _ _ := .zero
  events _ := false
  localOutput := localOutput
  output _ _ := none

section
variable (addValues : AddValues)

def Op.ready : Op → Mem → Prop
  | .waitValue kind rank value, m => value ≤ (m.word kind rank).value
  | .event op, m => op.ready m.events
  | _, _ => True

def Op.run : Op → Mem → Mem
  | .waitValue _ _ _, m => m
  | .writeValue kind rank value, m =>
    { m with word := Function.update m.word kind (Function.update (m.word kind) rank
        ((m.word kind rank).set value)) }
  | .copyToSlot rank source, m =>
    { m with slot := Function.update m.slot rank (copyKernel source (m.slot rank)) }
  | .addPeer rank call dtype count source slot, m =>
    { m with output := Function.update m.output rank (Function.update (m.output rank) call
        (some (addKernel addValues dtype count source (m.slot slot)))) }
  | .event op, m => { m with events := op.run m.events }
  | .addSlots rank dtype count, m =>
    { m with localOutput := Function.update m.localOutput rank (copyKernel
        (addKernel addValues dtype count (m.slot .zero) (m.slot .one)) (m.localOutput rank)) }
  | .copyOutput rank call size, m =>
    { m with output := Function.update m.output rank (Function.update (m.output rank) call
        (some ((m.localOutput rank).take size))) }

def device : Device Op Mem where
  ready := Op.ready
  run := Op.run addValues

/-- The current value of a control word. -/
def Mem.value (m : Mem) (kind : Kind) (rank : Rank) : ℕ := (m.word kind rank).value

theorem Op.run_word (kind : Kind) (rank : Rank) (value : ℕ) (m : Mem) (kind' : Kind) (q : Rank) :
    ((writeValue kind rank value).run addValues m).word kind' q =
      if kind' = kind ∧ q = rank then (m.word kind rank).set value else m.word kind' q := by
  by_cases hk : kind' = kind
  · subst hk
    by_cases hq : q = rank
    · subst hq; simp [run]
    · simp [run, hq]
  · simp [run, hk]

theorem Op.run_value (kind : Kind) (rank : Rank) (value : ℕ) (m : Mem) (kind' : Kind) (q : Rank) :
    ((writeValue kind rank value).run addValues m).value kind' q =
      if kind' = kind ∧ q = rank then value else m.value kind' q := by
  rw [Mem.value, run_word]
  split_ifs <;> simp [Mem.value]

instance (op : Op) (m : Mem) : Decidable (op.ready m) := by
  cases op <;> unfold Op.ready <;> infer_instance

instance (op : Op) (m : Mem) : Decidable ((device addValues).ready op m) :=
  inferInstanceAs (Decidable (op.ready m))

end
end MultiGpuTransport.MappedHost
