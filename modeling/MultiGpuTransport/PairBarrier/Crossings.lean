import MultiGpuTransport.Lib.Transition
import MultiGpuTransport.PairBarrier

/-!
# Crossings of the pair barrier

Each rank enters wait as often as it likes. A wait may raise, when SetEvent fails or the wait for the
peer's event fails or times out, and be tried again; a signal it has made stays. However many signals
are lost or left over, a wait never returns before the peer has made a signal of its own for it.
-/
namespace MultiGpuTransport.Win32PairBarrier
open Transition

/-- What is left of the wait each rank is in, the events, and how often a rank has entered wait and
returned from it. -/
@[ext]
structure BarrierState where
  left : Rank → List EventOp
  events : Events
  entered : Rank → ℕ
  returned : Rank → ℕ

namespace BarrierState

def start : BarrierState := ⟨fun _ => [], fun _ => false, fun _ => 0, fun _ => 0⟩

def enter (b : BarrierState) (r : Rank) : BarrierState where
  left := Function.update b.left r (wait r)
  events := b.events
  entered := Function.update b.entered r (b.entered r + 1)
  returned := b.returned

/-- A system call that succeeds; the last one ends the wait. -/
def proceed (b : BarrierState) (r : Rank) (op : EventOp) (rest : List EventOp) : BarrierState where
  left := Function.update b.left r rest
  events := op.run b.events
  entered := b.entered
  returned := if rest = [] then Function.update b.returned r (b.returned r + 1) else b.returned

def raise (b : BarrierState) (r : Rank) : BarrierState :=
  { b with left := Function.update b.left r [] }

end BarrierState

inductive CrossingStep : BarrierState → BarrierState → Prop
  | enter {b : BarrierState} {r : Rank} (h : b.left r = []) : CrossingStep b (b.enter r)
  | proceed {b : BarrierState} {r : Rank} {op : EventOp} {rest : List EventOp}
      (h : b.left r = op :: rest) (hready : op.ready b.events) : CrossingStep b (b.proceed r op rest)
  | raise {b : BarrierState} {r : Rank} (h : b.left r ≠ []) : CrossingStep b (b.raise r)

def crossings : System BarrierState where
  init b := b = .start
  step := CrossingStep

/-- The waits rank r has entered and not yet made its signal for. -/
def unsignalled (b : BarrierState) (r : Rank) : ℕ := if b.left r = wait r then 1 else 0

/-- A wait of the peer that returned, and the event while it is set, each stand for a signal of its
own, and a signal for a wait that was entered. -/
structure CrossingInv (b : BarrierState) : Prop where
  left : ∀ r, b.left r = [] ∨ b.left r = wait r ∨ b.left r = [.wait r.peer]
  balance : ∀ r, b.returned r.peer + (b.events r).toNat + unsignalled b r ≤ b.entered r

theorem CrossingInv.start : CrossingInv .start where
  left _ := .inl rfl
  balance r := by simp [unsignalled, BarrierState.start, wait]

section
variable {b b' : BarrierState}

theorem CrossingInv.enter (inv : CrossingInv b) {r : Rank} (h : b.left r = []) :
    CrossingInv (b.enter r) where
  left q := by
    by_cases hq : q = r
    · subst hq
      exact .inr (.inl (by simp [BarrierState.enter]))
    · simpa [BarrierState.enter, hq] using inv.left q
  balance q := by
    have hq := inv.balance q
    by_cases hqr : q = r
    · subst hqr
      simp only [unsignalled, h, wait, reduceCtorEq, if_false, List.nil_eq] at hq
      simp [unsignalled, BarrierState.enter]
      omega
    · simpa [unsignalled, BarrierState.enter, hqr] using hq

theorem CrossingInv.proceed (inv : CrossingInv b) {r : Rank} {op : EventOp} {rest : List EventOp}
    (h : b.left r = op :: rest) (hready : op.ready b.events) : CrossingInv (b.proceed r op rest) := by
  have hcases : (op = .set r ∧ rest = [.wait r.peer]) ∨ (op = .wait r.peer ∧ rest = []) := by
    rcases inv.left r with hleft | hleft | hleft
    · simp [h] at hleft
    · exact .inl (by simpa [h, wait] using hleft)
    · exact .inr (by simpa [h] using hleft)
  constructor
  · intro q
    by_cases hq : q = r
    · subst hq
      rcases hcases with ⟨-, rfl⟩ | ⟨-, rfl⟩ <;> simp [BarrierState.proceed]
    · simpa [BarrierState.proceed, hq] using inv.left q
  · intro q
    have hq := inv.balance q
    rcases hcases with ⟨rfl, rfl⟩ | ⟨rfl, rfl⟩
    · -- the signal takes the place of the wait it is made for
      by_cases hqr : q = r
      · subst hqr
        simp only [unsignalled, h, wait, if_true] at hq
        simp [unsignalled, BarrierState.proceed, EventOp.run, wait]
        omega
      · simpa [unsignalled, BarrierState.proceed, EventOp.run, hqr] using hq
    · -- the wait that returns takes the place of the event it clears
      by_cases hqr : q = r
      · subst hqr
        simp only [unsignalled, h, wait, List.cons.injEq, reduceCtorEq, false_and, if_false] at hq
        simpa [unsignalled, BarrierState.proceed, EventOp.run, wait] using hq
      · have hpeer : q = r.peer := (Rank.eq_or_eq_peer q r).resolve_left hqr
        subst hpeer
        have hset : b.events r.peer = true := hready
        simpa [unsignalled, BarrierState.proceed, EventOp.run, hset] using hq

theorem CrossingInv.raise (inv : CrossingInv b) (r : Rank) : CrossingInv (b.raise r) where
  left q := by
    by_cases hq : q = r
    · subst hq
      exact .inl (by simp [BarrierState.raise])
    · simpa [BarrierState.raise, hq] using inv.left q
  balance q := by
    have hq := inv.balance q
    have hle : unsignalled (b.raise r) q ≤ unsignalled b q := by
      by_cases hqr : q = r
      · subst hqr
        simp [unsignalled, BarrierState.raise, wait]
      · simp [unsignalled, BarrierState.raise, hqr]
    exact Nat.le_trans (Nat.add_le_add_left hle _) hq

theorem CrossingInv.step (inv : CrossingInv b) (hst : CrossingStep b b') : CrossingInv b' := by
  cases hst with
  | enter h => exact inv.enter h
  | proceed h hready => exact inv.proceed h hready
  | raise _ => exact inv.raise _

theorem reachable_crossingInv (hb : crossings.Reachable b) : CrossingInv b := by
  refine System.Reachable.invariant ?_ (fun _ _ _ inv hst => inv.step hst) hb
  rintro _ rfl
  exact .start

/-- A rank has returned from wait no more often than its peer has signalled. -/
theorem returned_le_signalled (hb : crossings.Reachable b) (r : Rank) :
    b.returned r + unsignalled b r.peer ≤ b.entered r.peer := by
  have hbalance := (reachable_crossingInv hb).balance r.peer
  rw [Rank.peer_peer] at hbalance
  omega

/-- The barrier never releases early. -/
theorem returned_le_entered (hb : crossings.Reachable b) (r : Rank) :
    b.returned r ≤ b.entered r.peer := by
  have := returned_le_signalled hb r
  omega

end
end MultiGpuTransport.Win32PairBarrier
