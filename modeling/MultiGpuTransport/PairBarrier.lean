import MultiGpuTransport.Lib.Rank

/-! The two-process barrier built from auto-reset events: each rank sets its own event and waits
on its peer's. -/
namespace MultiGpuTransport

inductive EventOp
  | set (event : Rank)
  | wait (event : Rank)
  deriving DecidableEq, Repr

/-- Which events are set; the barrier creates both clear. -/
abbrev Events := Rank → Bool

namespace EventOp

def ready : EventOp → Events → Prop
  | set _, _ => True
  | wait event, events => events event = true

/-- Setting an event that is set has no effect; a wait that succeeds clears its event. -/
def run : EventOp → Events → Events
  | set event, events => Function.update events event true
  | wait event, events => Function.update events event false

instance (op : EventOp) (events : Events) : Decidable (op.ready events) := by
  cases op <;> unfold ready <;> infer_instance

end EventOp

namespace Win32PairBarrier

/-- The two system calls of one wait, when neither fails and no timeout is reached. -/
def wait (rank : Rank) : List EventOp := [.set rank, .wait rank.peer]

end Win32PairBarrier
end MultiGpuTransport
