import Mathlib.Tactic.Common

/-!
# Triples for programs that throw

A program changes a state and returns a value or throws. The state stays as it is where it threw. A
triple says what holds when it returns, and what holds when it throws.
-/
namespace MultiGpuTransport.Lib

variable {ε σ α β : Type}

/-- From a state in P, the program returns in Q or throws in E. -/
def Triple (P : σ → Prop) (m : EStateM ε σ α) (Q : α → σ → Prop) (E : σ → Prop) : Prop :=
  ∀ s, P s → match m s with
    | .ok a t => Q a t
    | .error _ t => E t

/-- The state a program ends in, whether it returns or throws. -/
def finalState (m : EStateM ε σ α) (s : σ) : σ :=
  match m s with
  | .ok _ t => t
  | .error _ t => t

namespace Triple
variable {P P' : σ → Prop} {Q Q' : α → σ → Prop} {R : β → σ → Prop} {E E' : σ → Prop}
  {m : EStateM ε σ α} {f : α → EStateM ε σ β}

protected lemma pure {a : α} (h : ∀ s, P s → Q a s) : Triple P (pure a : EStateM ε σ α) Q E :=
  h

protected lemma throw {error : ε} (h : ∀ s, P s → E s) :
    Triple P (throw error : EStateM ε σ α) Q E :=
  h

protected lemma modify {g : σ → σ} {Q : Unit → σ → Prop} (h : ∀ s, P s → Q () (g s)) :
    Triple P (modify g : EStateM ε σ Unit) Q E :=
  h

/-- What a program reads is the state. -/
protected lemma get {Q : σ → σ → Prop} (h : ∀ s, P s → Q s s) :
    Triple P (get : EStateM ε σ σ) Q E :=
  h

lemma consequence (h : Triple P' m Q' E') (hP : ∀ s, P s → P' s) (hQ : ∀ a s, Q' a s → Q a s)
    (hE : ∀ s, E' s → E s) : Triple P m Q E := by
  intro s hs
  have hm := h s (hP s hs)
  cases hresult : m s with
  | ok a t =>
    rw [hresult] at hm
    exact hQ a t hm
  | error error t =>
    rw [hresult] at hm
    exact hE t hm

protected lemma bind (h : Triple P m Q E) (hf : ∀ a, Triple (Q a) (f a) R E) :
    Triple P (m >>= f) R E := by
  intro s hs
  have hm := h s hs
  change match EStateM.bind m f s with
    | .ok b t => R b t
    | .error _ t => E t
  unfold EStateM.bind
  cases hresult : m s with
  | ok a t =>
    rw [hresult] at hm
    exact hf a t hm
  | error error t =>
    rw [hresult] at hm
    exact hm

/-- What does not depend on the state may be assumed. -/
lemma of_and {F : Prop} (h : F → Triple P m Q E) : Triple (fun s => F ∧ P s) m Q E :=
  fun s hs => h hs.1 s hs.2

lemma of_exists {ι : Type} {P : ι → σ → Prop} (h : ∀ i, Triple (P i) m Q E) :
    Triple (fun s => ∃ i, P i s) m Q E := by
  rintro s ⟨i, hs⟩
  exact h i s hs

/-- A handler starts where the program threw. -/
protected lemma tryCatch {handler : ε → EStateM ε σ α} (h : Triple P m Q E')
    (hhandler : ∀ error, Triple E' (handler error) Q E) : Triple P (tryCatch m handler) Q E := by
  intro s hs
  have hm := h s hs
  change match EStateM.tryCatch m handler s with
    | .ok a t => Q a t
    | .error _ t => E t
  unfold EStateM.tryCatch
  cases hresult : m s with
  | ok a t =>
    rw [hresult] at hm
    exact hm
  | error error t =>
    rw [hresult] at hm
    exact hhandler error t hm

lemma finalState_or {Q : σ → Prop} (h : Triple P m (fun _ => Q) E) {s : σ} (hs : P s) :
    Q (Lib.finalState m s) ∨ E (Lib.finalState m s) := by
  have hm := h s hs
  unfold Lib.finalState
  cases hresult : m s with
  | ok a t =>
    rw [hresult] at hm
    exact .inl hm
  | error error t =>
    rw [hresult] at hm
    exact .inr hm

lemma finalState {Q : σ → Prop} (h : Triple P m (fun _ => Q) Q) {s : σ} (hs : P s) :
    Q (Lib.finalState m s) :=
  or_self_iff.mp (h.finalState_or hs)

end Triple
end MultiGpuTransport.Lib
