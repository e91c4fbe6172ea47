import Mathlib.Logic.Relation
import Mathlib.Tactic.Common

/-! Transition systems: reachable states, invariants, forward simulations, and runs whose
steps all meet a condition. -/
namespace MultiGpuTransport.Transition

/-- Where a run may start and which steps it may take. -/
structure System (State : Type*) where
  init : State → Prop
  step : State → State → Prop

namespace System
variable {State Abs : Type*}

inductive Reachable (S : System State) : State → Prop
  | init {s : State} (h : S.init s) : Reachable S s
  | step {s t : State} (h : Reachable S s) (hst : S.step s t) : Reachable S t

/-- Some step leaves the state. -/
def CanStep (S : System State) (s : State) : Prop := ∃ t, S.step s t

/-- What holds at the start and is kept by every step holds in every reachable state. -/
theorem Reachable.invariant {S : System State} {I : State → Prop}
    (hinit : ∀ s, S.init s → I s)
    (hstep : ∀ s t, S.Reachable s → I s → S.step s t → I t)
    {s : State} (h : S.Reachable s) : I s := by
  induction h with
  | init h => exact hinit _ h
  | step h hst ih => exact hstep _ _ h ih hst

theorem Reachable.steps {S : System State} {s t : State} (h : S.Reachable s)
    (hst : Relation.ReflTransGen S.step s t) : S.Reachable t := by
  induction hst with
  | refl => exact h
  | tail _ hlast ih => exact .step ih hlast

/-- The runs of S all of whose steps meet the condition. -/
def restrict (S : System State) (ok : State → State → Prop) : System State where
  init := S.init
  step s t := S.step s t ∧ ok s t

theorem Reachable.of_restrict {S : System State} {ok : State → State → Prop} {s : State}
    (h : (S.restrict ok).Reachable s) : S.Reachable s := by
  induction h with
  | init h => exact .init h
  | step _ hst ih => exact .step ih hst.1

/-- If every step of every run meets the condition, the condition restricts nothing. -/
theorem Reachable.restrict {S : System State} {ok : State → State → Prop}
    (hok : ∀ s t, S.Reachable s → S.step s t → ok s t) {s : State} (h : S.Reachable s) :
    (S.restrict ok).Reachable s := by
  induction h with
  | init h => exact .init h
  | step hs hst ih => exact .step ih ⟨hst, hok _ _ hs hst⟩

/-- No run comes to a state that is unfinished and that no step leaves. -/
def NeverStuck (S : System State) (Unfinished : State → Prop) : Prop :=
  ∀ s, S.Reachable s → Unfinished s → S.CanStep s

/-- Where every step makes something smaller in a well-founded order, every reachable state has a run
to one that no step leaves. -/
theorem exists_run_to_end (S : System State) {Size : Type*} {lt : Size → Size → Prop}
    (hwf : WellFounded lt) (size : State → Size)
    (hsize : ∀ s t, S.Reachable s → S.step s t → lt (size t) (size s)) {s : State}
    (hs : S.Reachable s) : ∃ t, Relation.ReflTransGen S.step s t ∧ ¬ S.CanStep t := by
  induction hn : size s using hwf.induction generalizing s with
  | _ n ih =>
    by_cases hcan : S.CanStep s
    · obtain ⟨t, hst⟩ := hcan
      obtain ⟨u, htu, hu⟩ := ih (size t) (hn ▸ hsize s t hs hst) (.step hs hst) rfl
      exact ⟨u, .head hst htu, hu⟩
    · exact ⟨s, .refl, hcan⟩

/-- If moreover no run is stuck, every reachable state has a run to one where nothing is left. -/
theorem NeverStuck.exists_run {S : System State} {Unfinished : State → Prop}
    (h : S.NeverStuck Unfinished) {Size : Type*} {lt : Size → Size → Prop} (hwf : WellFounded lt)
    (size : State → Size) (hsize : ∀ s t, S.Reachable s → S.step s t → lt (size t) (size s))
    {s : State} (hs : S.Reachable s) :
    ∃ t, Relation.ReflTransGen S.step s t ∧ ¬ Unfinished t := by
  obtain ⟨t, hst, hend⟩ := S.exists_run_to_end hwf size hsize hs
  exact ⟨t, hst, fun hu => hend (h t (hs.steps hst) hu)⟩

/-- A forward simulation: each concrete step is matched by one abstract step or by none. -/
structure Simulation (C : System State) (A : System Abs) (R : State → Abs → Prop) : Prop where
  init : ∀ c, C.init c → ∃ a, A.init a ∧ R c a
  step : ∀ c c' a, R c a → C.step c c' → R c' a ∨ ∃ a', A.step a a' ∧ R c' a'

theorem Simulation.reachable {C : System State} {A : System Abs} {R : State → Abs → Prop}
    (sim : Simulation C A R) {c : State} (h : C.Reachable c) : ∃ a, A.Reachable a ∧ R c a := by
  induction h with
  | init h =>
    obtain ⟨a, ha, hr⟩ := sim.init _ h
    exact ⟨a, .init ha, hr⟩
  | step _ hst ih =>
    obtain ⟨a, ha, hr⟩ := ih
    rcases sim.step _ _ a hr hst with hr' | ⟨a', hst', hr'⟩
    · exact ⟨a, ha, hr'⟩
    · exact ⟨a', .step ha hst', hr'⟩

end System
end MultiGpuTransport.Transition
