import Mathlib.Data.List.TakeWhile
import MultiGpuTransport.Tensor

/-!
# The host side of a stream-ordered collective

A Python collective first checks its argument and then makes a fixed sequence of native calls,
each of which enqueues operations on a stream. The first native call that fails raises: what was
enqueued before it stays enqueued, and an epoch already taken is not given back.
-/
namespace MultiGpuTransport

abbrev StreamId := ℕ

inductive PyError
  | runtimeError (message : String)
  | osError (message : String)
  | timeoutError (message : String)
  | valueError (message : String)
  | typeError (message : String)
  deriving DecidableEq, Repr

/-- A native step that fails, and what the driver says about it. -/
structure Fault (S : Type) where
  step : S
  detail : String
  deriving DecidableEq, Repr

/-- The tensor a collective returns: empty, or the output that the operations of an epoch fill. -/
inductive TensorRef
  | empty
  | output (epoch : ℕ)
  deriving DecidableEq, Repr

structure HostState (Item : Type) where
  epoch : ℕ
  enqueued : List Item

section
variable {S Item : Type} [DecidableEq S]

/-- Make the native calls in order, up to the one that fails. -/
def perform (error : Fault S → PyError) (fault : Option (Fault S)) :
    List (S × List Item) → Except PyError Unit × List Item
  | [] => (.ok (), [])
  | (step, items) :: rest =>
    match fault with
    | some f =>
      if f.step = step then (.error (error f), [])
      else ((perform error fault rest).1, items ++ (perform error fault rest).2)
    | none => ((perform error fault rest).1, items ++ (perform error fault rest).2)

/-- The steps made before the one that fails. -/
def before (fault : Option (Fault S)) (steps : List (S × List Item)) : List (S × List Item) :=
  steps.takeWhile fun s => !(fault.map Fault.step == some s.1)

theorem perform_enqueued (error : Fault S → PyError) (fault : Option (Fault S))
    (steps : List (S × List Item)) :
    (perform error fault steps).2 = (before fault steps).flatMap Prod.snd := by
  induction steps with
  | nil => rfl
  | cons s steps ih =>
    obtain ⟨step, items⟩ := s
    cases fault with
    | none => simp [perform, ih, before]
    | some f =>
      by_cases h : f.step = step
      · simp [perform, before, h]
      · have hb : before (some f) ((step, items) :: steps) =
            (step, items) :: before (some f) steps := by
          simp [before, h]
        simp [perform, h, ih, hb]

/-- All steps succeed exactly when none of them is the one that fails. -/
theorem perform_ok (error : Fault S → PyError) (fault : Option (Fault S))
    (steps : List (S × List Item)) :
    (perform error fault steps).1 = .ok () ↔ ∀ f ∈ fault, f.step ∉ steps.map Prod.fst := by
  induction steps with
  | nil => simp [perform]
  | cons s steps ih =>
    obtain ⟨step, items⟩ := s
    cases fault with
    | none => simpa [perform] using ih
    | some f =>
      by_cases h : f.step = step
      · simp [perform, h]
      · simpa [perform, h] using ih

@[simp] theorem before_none (steps : List (S × List Item)) : before none steps = steps :=
  List.takeWhile_eq_self_iff.mpr fun _ _ => rfl

theorem before_prefix (fault : Option (Fault S)) (steps : List (S × List Item)) :
    before fault steps <+: steps := List.takeWhile_prefix _

end

/-- One rank's side of one call: its argument, the stream it is made on, and the native step that
fails in it, if one does. -/
structure Call (S : Type) where
  tensor : Tensor
  stream : StreamId
  fault : Option (Fault S)

/-- The results of a sequence of calls. The caller goes on after a call that raised. -/
def makeCalls {S Host : Type} (call : Call S → Host → Except PyError TensorRef × Host) :
    List (Call S) → Host → List (Except PyError TensorRef) × Host
  | [], st => ([], st)
  | c :: cs, st =>
    let (result, st) := call c st
    let (results, st) := makeCalls call cs st
    (result :: results, st)

/-- One more call. -/
theorem makeCalls_concat {S Host : Type} (call : Call S → Host → Except PyError TensorRef × Host)
    (cs : List (Call S)) (c : Call S) (st : Host) :
    makeCalls call (cs ++ [c]) st =
      ((makeCalls call cs st).1 ++ [(call c (makeCalls call cs st).2).1],
        (call c (makeCalls call cs st).2).2) := by
  induction cs generalizing st with
  | nil => rfl
  | cons c' cs ih => simp [makeCalls, ih]

@[simp] theorem length_makeCalls {S Host : Type}
    (call : Call S → Host → Except PyError TensorRef × Host) (cs : List (Call S)) (st : Host) :
    (makeCalls call cs st).1.length = cs.length := by
  induction cs generalizing st with
  | nil => rfl
  | cons c cs ih => simp [makeCalls, ih]

end MultiGpuTransport
