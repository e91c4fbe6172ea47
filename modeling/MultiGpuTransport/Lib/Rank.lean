import Mathlib.Data.Fintype.Defs
import Mathlib.Logic.Function.Basic
import Mathlib.Tactic.Common

/-! The two parties of a pair. -/
namespace MultiGpuTransport

inductive Rank
  | zero
  | one
  deriving DecidableEq, Repr

namespace Rank

instance : Fintype Rank where
  elems := ⟨[zero, one], by decide⟩
  complete r := by cases r <;> decide

def peer : Rank → Rank
  | zero => one
  | one => zero

/-- The number a rank has in its group. -/
def index : Rank → ℕ
  | zero => 0
  | one => 1

@[simp] theorem peer_peer (r : Rank) : r.peer.peer = r := by cases r <;> rfl

@[simp] theorem peer_ne (r : Rank) : r.peer ≠ r := by cases r <;> decide

@[simp] theorem ne_peer (r : Rank) : r ≠ r.peer := by cases r <;> decide

theorem peer_eq_comm {q r : Rank} : q.peer = r ↔ r.peer = q := by
  cases q <;> cases r <;> simp [peer]

theorem eq_or_eq_peer (q r : Rank) : q = r ∨ q = r.peer := by
  cases q <;> cases r <;> simp [peer]

/-- What holds of a party and of its peer holds of both. -/
theorem forall_iff (r : Rank) {P : Rank → Prop} : (∀ q, P q) ↔ P r ∧ P r.peer := by
  constructor
  · exact fun h => ⟨h r, h r.peer⟩
  · rintro ⟨h, h'⟩ q
    rcases eq_or_eq_peer q r with rfl | rfl
    · exact h
    · exact h'

end Rank
end MultiGpuTransport
