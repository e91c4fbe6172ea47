import Mathlib.Order.GameAdd
import Mathlib.Tactic.Simps.Basic
import MultiGpuTransport.Lib.Rank
import MultiGpuTransport.Lib.Transition

/-!
# Two parties and their collectives

The program of a party makes local actions and takes part in collectives. In its k-th collective a
party contributes a value and goes on with an answer: with what its peer contributed to its own k-th
collective, where it has to wait for that, and at once otherwise. Collectives of the two parties that
do not agree never complete.

`Always` says that a property of a party's history holds whatever the peer contributes; it is proved
along the program, rule by rule, and `reachable_always` gives it for all interleavings.
-/
namespace MultiGpuTransport.Collectives
open Transition

inductive Program (Act X A : Type*)
  | ret (a : A)
  | act (action : Act) (next : Program Act X A)
  | collective (x : X) (next : X → Program Act X A)

variable {Act X A B ε : Type}

namespace Program

def bind : Program Act X A → (A → Program Act X B) → Program Act X B
  | ret a, f => f a
  | act action next, f => act action (next.bind f)
  | collective x next, f => collective x fun y => (next y).bind f

instance : Monad (Program Act X) where
  pure := ret
  bind := bind

/-- What a program goes on with after its first step. -/
inductive IsNext : Program Act X A → Program Act X A → Prop
  | act {action : Act} {next : Program Act X A} : IsNext next (act action next)
  | collective {x : X} {next : X → Program Act X A} (y : X) : IsNext (next y) (collective x next)

theorem isNext_wellFounded : WellFounded (IsNext : Program Act X A → Program Act X A → Prop) := by
  refine ⟨fun p => ?_⟩
  induction p with
  | ret a => exact ⟨_, fun _ h => nomatch h⟩
  | act action next ih =>
    refine ⟨_, fun _ h => ?_⟩
    cases h
    exact ih
  | collective x next ih =>
    refine ⟨_, fun _ h => ?_⟩
    cases h with
    | collective y => exact ih y

end Program

/-- What a party has done, contributed and received so far, in order. -/
structure History (Act X : Type) where
  actions : List Act
  contributed : List X
  received : List X

namespace History

@[simps] def start : History Act X := ⟨[], [], []⟩

@[simps] def act (h : History Act X) (action : Act) : History Act X :=
  { h with actions := h.actions ++ [action] }

@[simps] def contribute (h : History Act X) (x : X) : History Act X :=
  { h with contributed := h.contributed ++ [x] }

@[simps] def receive (h : History Act X) (y : X) : History Act X :=
  { h with received := h.received ++ [y] }

/-- A party is inside a collective when it has contributed to one more than it has an answer of. -/
def Inside (h : History Act X) : Prop := h.received.length < h.contributed.length

instance (h : History Act X) : Decidable h.Inside := inferInstanceAs (Decidable (_ < _))

end History

/-- Which contributions wait for the peer's, and which two belong to the same collective. -/
structure Rules (X : Type) where
  awaits : Rank → X → Bool
  agree : X → X → Bool

namespace Rules

/-- The answer to a contribution, given what the peer contributed. -/
def answer (R : Rules X) (r : Rank) (x : X) (peer : Option X) : Option X :=
  if R.awaits r x then peer.filter (R.agree x) else some x

/-- The answers a contribution can have. -/
def Possible (R : Rules X) (r : Rank) (x y : X) : Prop :=
  if R.awaits r x then R.agree x y = true else y = x

theorem possible_of_answer {R : Rules X} {r : Rank} {x y : X} {peer : Option X}
    (h : R.answer r x peer = some y) : R.Possible r x y := by
  unfold answer at h
  unfold Possible
  split_ifs at h ⊢
  · exact (Option.filter_eq_some_iff.mp h).2
  · exact (Option.some.inj h).symm

/-- Where a contribution waits, the answer is the peer's contribution to the same collective. -/
theorem answer_awaits {R : Rules X} {r : Rank} {x y : X} {peer : Option X}
    (h : R.answer r x peer = some y) (hawaits : R.awaits r x = true) :
    peer = some y ∧ R.agree x y = true := by
  rw [answer, if_pos hawaits] at h
  exact Option.filter_eq_some_iff.mp h

end Rules

structure Party (Act X A : Type) where
  program : Program Act X A
  history : History Act X

abbrev Config (Act X A : Type) := Rank → Party Act X A

/-- The next step of a party, given all its peer has contributed. -/
def Party.next (R : Rules X) (r : Rank) (p : Party Act X A) (peer : List X) :
    Option (Party Act X A) :=
  match p.program with
  | .ret _ => none
  | .act action next => some ⟨next, p.history.act action⟩
  | .collective x next =>
    if p.history.Inside then
      (R.answer r x peer[p.history.received.length]?).map fun y =>
        ⟨next y, p.history.receive y⟩
    else some ⟨.collective x next, p.history.contribute x⟩

def Step (R : Rules X) (c c' : Config Act X A) : Prop :=
  ∃ r p, (c r).next R r (c r.peer).history.contributed = some p ∧ c' = Function.update c r p

def system (R : Rules X) (program : Rank → Program Act X A) : System (Config Act X A) where
  init c := c = fun r => ⟨program r, .start⟩
  step := Step R

def Party.Finished (p : Party Act X A) : Prop := ∃ a, p.program = .ret a

/-- What holds of every step of one party and leaves the other alone. -/
theorem step_cases {R : Rules X} {c c' : Config Act X A} (h : Step R c c') :
    ∃ r p, c' = Function.update c r p ∧
      ((∃ action next, (c r).program = .act action next ∧
          p = ⟨next, (c r).history.act action⟩) ∨
       (∃ x next, (c r).program = .collective x next ∧ ¬ (c r).history.Inside ∧
          p = ⟨.collective x next, (c r).history.contribute x⟩) ∨
       (∃ x next y, (c r).program = .collective x next ∧ (c r).history.Inside ∧
          R.answer r x (c r.peer).history.contributed[(c r).history.received.length]? = some y ∧
          p = ⟨next y, (c r).history.receive y⟩)) := by
  obtain ⟨r, p, hnext, rfl⟩ := h
  refine ⟨r, p, rfl, ?_⟩
  unfold Party.next at hnext
  split at hnext
  · cases hnext
  · rename_i action next hprogram
    cases hnext
    exact .inl ⟨action, next, hprogram, rfl⟩
  · rename_i x next hprogram
    split_ifs at hnext with hinside
    · obtain ⟨y, hy, rfl⟩ := Option.map_eq_some_iff.mp hnext
      exact .inr (.inr ⟨x, next, y, hprogram, hinside, hy, rfl⟩)
    · cases hnext
      exact .inr (.inl ⟨x, next, hprogram, hinside, rfl⟩)

/-- A step that changes only the party of rank r, seen from any rank. -/
theorem update_cases {c : Config Act X A} {r : Rank} {p : Party Act X A} (q : Rank) :
    (q = r ∧ Function.update c r p q = p) ∨ (q = r.peer ∧ Function.update c r p q = c q) := by
  rcases Rank.eq_or_eq_peer q r with rfl | rfl
  · exact .inl ⟨rfl, by simp⟩
  · exact .inr ⟨rfl, by simp⟩

section
variable {R : Rules X}

/-- How far a party still has to go: its program, and whether it has yet to contribute. -/
def Party.size (p : Party Act X A) : Program Act X A × ℕ :=
  (p.program, p.history.received.length + 1 - p.history.contributed.length)

/-- Every run ends. -/
theorem exists_run_to_end {program : Rank → Program Act X A} {c : Config Act X A}
    (hc : (system R program).Reachable c) :
    ∃ t, Relation.ReflTransGen (Step R) c t ∧ ¬ (system R program).CanStep t := by
  let lt : Program Act X A × ℕ → Program Act X A × ℕ → Prop := Prod.Lex Program.IsNext (· < ·)
  have hwf : WellFounded lt := Program.isNext_wellFounded.prod_lex Nat.lt_wfRel.wf
  refine System.exists_run_to_end (system R program) (hwf.prod_gameAdd hwf)
    (fun c => ((c .zero).size, (c .one).size)) (fun c c' _ hst => ?_) hc
  obtain ⟨r, p, rfl, hstep⟩ := step_cases hst
  have hlt : lt p.size (c r).size := by
    rcases hstep with ⟨action, next, hprogram, rfl⟩ | ⟨x, next, hprogram, hinside, rfl⟩ |
      ⟨x, next, y, hprogram, -, -, rfl⟩
    · exact .left _ _ (hprogram ▸ .act)
    · rw [Party.size, Party.size, hprogram]
      refine .right _ ?_
      simp only [History.Inside] at hinside
      simp only [History.contribute, List.length_append, List.length_singleton]
      omega
    · exact .left _ _ (hprogram ▸ .collective y)
  cases r
  · exact .fst (by simpa using hlt)
  · exact .snd (by simpa using hlt)

/-- Q holds now and at every later point of the program, whatever is answered, and E where it
ends. -/
def Program.Always (R : Rules X) (r : Rank) (Q : History Act X → Prop) :
    Program Act X A → (A → History Act X → Prop) → History Act X → Prop
  | ret a, E, h => Q h ∧ E a h
  | act action next, E, h => Q h ∧ next.Always R r Q E (h.act action)
  | collective x next, E, h => Q h ∧ Q (h.contribute x) ∧
      ∀ y, R.Possible r x y → (next y).Always R r Q E ((h.contribute x).receive y)

theorem Program.Always.now {r : Rank} {Q : History Act X → Prop} {p : Program Act X A}
    {E : A → History Act X → Prop} {h : History Act X} (hp : p.Always R r Q E h) : Q h := by
  cases p <;> exact hp.1

/-- A party that keeps to its Always, between two collectives or inside of one. -/
inductive Party.Meets (R : Rules X) (r : Rank) (Q : History Act X → Prop)
    (E : A → History Act X → Prop) : Party Act X A → Prop
  | between {p : Program Act X A} {h : History Act X}
      (hlen : h.received.length = h.contributed.length) (hp : p.Always R r Q E h) : Meets R r Q E ⟨p, h⟩
  | inside {x : X} {next : X → Program Act X A} {h : History Act X}
      (hlen : h.received.length = h.contributed.length) (hnow : Q (h.contribute x))
      (hnext : ∀ y, R.Possible r x y → (next y).Always R r Q E ((h.contribute x).receive y)) :
      Meets R r Q E ⟨.collective x next, h.contribute x⟩

section
variable {r : Rank} {Q : History Act X → Prop} {E : A → History Act X → Prop} {p : Party Act X A}

theorem Party.Meets.now (h : p.Meets R r Q E) : Q p.history := by
  cases h with
  | between _ hp => exact hp.now
  | inside _ hnow _ => exact hnow

theorem Party.Meets.finished (h : p.Meets R r Q E) {a : A} (ha : p.program = .ret a) :
    E a p.history ∧ p.history.received.length = p.history.contributed.length := by
  cases h with
  | between hlen hp =>
    subst ha
    exact ⟨hp.2, hlen⟩
  | inside => cases ha

/-- Inside a collective, what was contributed last is its contribution. -/
theorem Party.Meets.contributed_last (h : p.Meets R r Q E) (hinside : p.history.Inside) :
    p.history.contributed.length = p.history.received.length + 1 ∧ ∃ x next,
      p.program = .collective x next ∧
        p.history.contributed[p.history.received.length]? = some x := by
  cases h with
  | between hlen _ =>
    exfalso
    simp only [History.Inside] at hinside
    omega
  | @inside x next h hlen _ _ =>
    exact ⟨by simp [History.contribute, hlen], x, next, rfl, by simp [History.contribute, hlen]⟩

end

/-- Whatever the interleaving, a party keeps to what its program always does. -/
theorem reachable_meets (program : Rank → Program Act X A) {r : Rank} {Q : History Act X → Prop}
    {E : A → History Act X → Prop} (halways : (program r).Always R r Q E .start)
    {c : Config Act X A} (hc : (system R program).Reachable c) : (c r).Meets R r Q E := by
  refine System.Reachable.invariant (I := fun c => (c r).Meets R r Q E) ?_ ?_ hc
  · rintro _ rfl
    exact .between rfl halways
  · intro c c' _ hmeets hst
    obtain ⟨s, p, rfl, hstep⟩ := step_cases hst
    rcases update_cases (c := c) (r := s) (p := p) r with ⟨rfl, hp⟩ | ⟨rfl, hp⟩
    · rw [hp]
      clear hp hst
      generalize hparty : c r = party at hmeets hstep
      cases hmeets with
      | between hlen hnow =>
        rcases hstep with ⟨action, next, rfl, rfl⟩ | ⟨x, next, rfl, -, rfl⟩ |
          ⟨x, next, y, -, hinside, -, -⟩
        · exact .between hlen hnow.2
        · exact .inside hlen hnow.2.1 hnow.2.2
        · simp only [History.Inside] at hinside
          omega
      | inside hlen hnow hnext =>
        rcases hstep with ⟨action, next, hprogram, -⟩ | ⟨x, next, -, houtside, -⟩ |
          ⟨x, next, y, hprogram, -, hy, rfl⟩
        · cases hprogram
        · simp [History.Inside, History.contribute, hlen] at houtside
        · cases hprogram
          exact .between (by simp [History.contribute, History.receive, hlen])
            (hnext y (Rules.possible_of_answer hy))
    · rw [hp]
      exact hmeets

theorem always_true (r : Rank) (p : Program Act X A) (h : History Act X) :
    p.Always R r (fun _ => True) (fun _ _ => True) h := by
  induction p generalizing h with
  | ret a => exact ⟨trivial, trivial⟩
  | act action next ih => exact ⟨trivial, ih _⟩
  | collective x next ih => exact ⟨trivial, trivial, fun y _ => ih y _⟩

theorem reachable_coherent {program : Rank → Program Act X A} {c : Config Act X A}
    (hc : (system R program).Reachable c) (r : Rank) :
    (c r).Meets R r (fun _ => True) (fun _ _ => True) :=
  reachable_meets _ (always_true r _ _) hc

/-- An answer stays what it was when the peer contributes more. -/
theorem Rules.answer_append {r : Rank} {x y : X} {l : List X} {k : ℕ}
    (h : R.answer r x l[k]? = some y) (m : List X) : R.answer r x (l ++ m)[k]? = some y := by
  unfold Rules.answer at h ⊢
  split_ifs at h ⊢
  · obtain ⟨hy, hagree⟩ := Option.filter_eq_some_iff.mp h
    have hlt := (List.getElem?_eq_some_iff.mp hy).1
    rw [List.getElem?_append_left hlt]
    exact h
  · exact h

/-- Every answer is the one to the contribution of the same number, from what the peer contributed
under that number. -/
theorem reachable_answered {program : Rank → Program Act X A} {c : Config Act X A}
    (hc : (system R program).Reachable c) : ∀ (r : Rank) (k : ℕ) (y : X),
      (c r).history.received[k]? = some y →
      ∃ x, (c r).history.contributed[k]? = some x ∧
        R.answer r x (c r.peer).history.contributed[k]? = some y := by
  refine System.Reachable.invariant (I := fun c => ∀ (r : Rank) (k : ℕ) (y : X),
    (c r).history.received[k]? = some y → ∃ x, (c r).history.contributed[k]? = some x ∧
      R.answer r x (c r.peer).history.contributed[k]? = some y) ?_ ?_ hc
  · rintro _ rfl r k y hy
    simp [History.start] at hy
  · intro c c' hreach hI hst r k y hy
    obtain ⟨s, p, rfl, hstep⟩ := step_cases hst
    -- a step may lengthen what its party contributed, and only an answer lengthens what it received
    obtain ⟨more, hmore⟩ : ∃ more, p.history.contributed = (c s).history.contributed ++ more := by
      rcases hstep with ⟨action, next, -, rfl⟩ | ⟨x, next, -, -, rfl⟩ | ⟨x, next, y, -, -, -, rfl⟩
      · exact ⟨[], by simp [History.act]⟩
      · exact ⟨[x], rfl⟩
      · exact ⟨[], by simp [History.receive]⟩
    rcases Rank.eq_or_eq_peer r s with rfl | rfl
    · simp only [Function.update_self] at hy
      simp only [Function.update_self, ne_eq, Rank.peer_ne, not_false_eq_true,
        Function.update_of_ne]
      have hold : (c r).history.received[k]? = some y → ∃ x, p.history.contributed[k]? = some x ∧
          R.answer r x (c r.peer).history.contributed[k]? = some y := by
        intro hy
        obtain ⟨x, hx, hanswer⟩ := hI r k y hy
        refine ⟨x, ?_, hanswer⟩
        rw [hmore, List.getElem?_append_left (List.getElem?_eq_some_iff.mp hx).1, hx]
      rcases hstep with ⟨action, next, -, rfl⟩ | ⟨x, next, -, -, rfl⟩ |
        ⟨x, next, z, hprogram, hinside, hz, rfl⟩
      · exact hold hy
      · exact hold hy
      · simp only [History.receive] at hy hold ⊢
        by_cases hk : k < (c r).history.received.length
        · rw [List.getElem?_append_left hk] at hy
          exact hold hy
        · obtain rfl : k = (c r).history.received.length := by
            have := (List.getElem?_eq_some_iff.mp hy).1
            simp only [List.length_append, List.length_singleton] at this
            omega
          obtain ⟨-, x', next', hprogram', hlast⟩ :=
            (reachable_coherent hreach r).contributed_last hinside
          rw [hprogram] at hprogram'
          cases hprogram'
          simp only [List.getElem?_concat_length, Option.some.injEq] at hy
          exact ⟨x, hlast, hy ▸ hz⟩
    · simp only [ne_eq, Rank.peer_ne, not_false_eq_true, Function.update_of_ne, Rank.peer_peer,
        Function.update_self] at hy ⊢
      obtain ⟨x, hx, hanswer⟩ := hI s.peer k y hy
      rw [Rank.peer_peer] at hanswer
      exact ⟨x, hx, hmore ▸ Rules.answer_append hanswer more⟩

/-- A party that has finished has had the answer to everything it contributed. -/
theorem agree_of_finished {program : Rank → Program Act X A} {c : Config Act X A}
    (hc : (system R program).Reachable c) {r : Rank} (hfin : (c r).Finished) {k : ℕ} {x : X}
    (hx : (c r).history.contributed[k]? = some x) (hawaits : R.awaits r x = true) :
    ∃ y, (c r.peer).history.contributed[k]? = some y ∧ R.agree x y = true := by
  obtain ⟨a, ha⟩ := hfin
  have hlen := ((reachable_coherent hc r).finished ha).2
  have hlt := (List.getElem?_eq_some_iff.mp hx).1
  have hy := List.getElem?_eq_getElem (l := (c r).history.received) (hlen ▸ hlt)
  obtain ⟨x', hx', hanswer⟩ := reachable_answered hc r k _ hy
  rw [hx] at hx'
  cases hx'
  exact ⟨_, Rules.answer_awaits hanswer hawaits⟩

/-- Where nobody can step and everything contributed agrees, a party that has not finished waits for
one that has, and that contributed less. -/
theorem finished_of_stuck {program : Rank → Program Act X A} {c : Config Act X A}
    (hc : (system R program).Reachable c) (hstuck : ¬ (system R program).CanStep c)
    (hagree : ∀ (r : Rank) (k : ℕ) (x y : X), (c r).history.contributed[k]? = some x →
      (c r.peer).history.contributed[k]? = some y → R.agree x y = true)
    {r : Rank} (hu : ¬ (c r).Finished) : ∃ s, (c s).Finished ∧
      (c s).history.contributed.length < (c s.peer).history.contributed.length := by
  have hstep : ∀ s p, (c s).next R s (c s.peer).history.contributed ≠ some p := fun s p hp =>
    hstuck ⟨_, s, p, hp, rfl⟩
  -- a party that has not finished is inside a collective that its peer has not come to
  have hwaits : ∀ s, (c s).Finished ∨
      (c s.peer).history.contributed.length ≤ (c s).history.received.length ∧
      (c s).history.contributed.length = (c s).history.received.length + 1 := by
    intro s
    have hnone := Option.eq_none_iff_forall_ne_some.mpr (hstep s)
    unfold Party.next at hnone
    split at hnone
    · rename_i a hprogram
      exact .inl ⟨a, hprogram⟩
    · cases hnone
    · rename_i x next hprogram
      split_ifs at hnone with hinside
      obtain ⟨hlen, x', next', hprogram', hlast⟩ :=
        (reachable_coherent hc s).contributed_last hinside
      rw [hprogram] at hprogram'
      cases hprogram'
      refine .inr ⟨?_, hlen⟩
      by_contra hlt
      obtain ⟨y, hy⟩ : ∃ y, (c s.peer).history.contributed[(c s).history.received.length]? =
          some y := ⟨_, List.getElem?_eq_getElem (by omega)⟩
      have hxy := hagree s _ x y hlast hy
      rw [Option.map_eq_none_iff, hy] at hnone
      unfold Rules.answer at hnone
      split_ifs at hnone
      simp [hxy] at hnone
  rcases hwaits r with hfin | ⟨hle, hlen⟩
  · exact (hu hfin).elim
  rcases hwaits r.peer with hfin | ⟨hle', hlen'⟩
  · exact ⟨r.peer, hfin, by rw [Rank.peer_peer]; omega⟩
  · rw [Rank.peer_peer] at hle'
    omega

/-- What a party has ended with. -/
def Party.result (p : Party Act X A) : Option A :=
  match p.program with
  | .ret a => some a
  | _ => none

theorem Party.result_eq_some {p : Party Act X A} {a : A} : p.result = some a ↔ p.program = .ret a := by
  unfold Party.result
  split <;> simp_all

/-- The step of a party, if it has one it can take. -/
def turn (R : Rules X) (c : Config Act X A) (r : Rank) : Config Act X A :=
  match (c r).next R r (c r.peer).history.contributed with
  | some p => Function.update c r p
  | none => c

/-- An executable schedule leads to a reachable state. -/
theorem reachable_turns {program : Rank → Program Act X A} {c : Config Act X A}
    (hc : (system R program).Reachable c) (schedule : List Rank) :
    (system R program).Reachable (schedule.foldl (turn R) c) := by
  induction schedule generalizing c with
  | nil => exact hc
  | cons r schedule ih =>
    refine ih ?_
    unfold turn
    split
    · rename_i p hp
      exact .step hc ⟨r, p, hp, rfl⟩
    · exact hc

/-- One program after another: what the first ends with is where the second begins. -/
theorem always_bind {r : Rank} {Q : History Act X → Prop} {p : Program Act X A}
    {f : A → Program Act X B} {E : B → History Act X → Prop} {h : History Act X} :
    (p.bind f).Always R r Q E h ↔
      p.Always R r Q (fun a h => (f a).Always R r Q E h) h := by
  induction p generalizing h with
  | ret a => exact ⟨fun hf => ⟨hf.now, hf⟩, fun hf => hf.2⟩
  | act action next ih => exact and_congr_right fun _ => ih
  | collective x next ih =>
    exact and_congr_right fun _ => and_congr_right fun _ => forall_congr' fun y =>
      imp_congr_right fun _ => ih y

end

@[simp] theorem isOk_ok (a : A) : (Except.ok a : Except ε A).isOk = true := rfl

@[simp] theorem isOk_error (e : ε) : (Except.error e : Except ε A).isOk = false := rfl

theorem isOk_map (result : Except ε A) (f : A → B) : (result.map f).isOk = result.isOk := by
  cases result <;> rfl

/-! Programs that may raise: a raised error ends the program. -/

abbrev Fallible (ε Act X A : Type) := ExceptT ε (Program Act X) A

namespace Fallible

def act (action : Act) : Fallible ε Act X Unit :=
  ExceptT.mk (.act action (.ret (.ok ())))

def exchange (x : X) : Fallible ε Act X X :=
  ExceptT.mk (.collective x fun y => .ret (.ok y))

/-- A local computation that may raise. -/
def attempt (result : Except ε A) : Fallible ε Act X A := ExceptT.mk (.ret result)

section
variable (R : Rules X) (r : Rank) (Q : History Act X → Prop)

/-- Q holds throughout, and E of the result and of what has happened by then. -/
def Ensures (p : Fallible ε Act X A) (E : Except ε A → History Act X → Prop)
    (h : History Act X) : Prop :=
  Program.Always R r Q p.run E h

variable {R r Q} {E : Except ε A → History Act X → Prop} {h : History Act X}

@[simp] theorem ensures_pure {a : A} :
    Ensures R r Q (pure a : Fallible ε Act X A) E h ↔ Q h ∧ E (.ok a) h := Iff.rfl

@[simp] theorem ensures_throw {e : ε} :
    Ensures R r Q (throw e : Fallible ε Act X A) E h ↔ Q h ∧ E (.error e) h := Iff.rfl

@[simp] theorem ensures_attempt {result : Except ε A} :
    Ensures R r Q (attempt result) E h ↔ Q h ∧ E result h := Iff.rfl

@[simp] theorem ensures_act {action : Act} {E : Except ε Unit → History Act X → Prop} :
    Ensures R r Q (act action) E h ↔
      Q h ∧ Q (h.act action) ∧ E (.ok ()) (h.act action) := Iff.rfl

@[simp] theorem ensures_exchange {x : X} {E : Except ε X → History Act X → Prop} :
    Ensures R r Q (exchange x) E h ↔ Q h ∧ Q (h.contribute x) ∧ ∀ y, R.Possible r x y →
      Q ((h.contribute x).receive y) ∧ E (.ok y) ((h.contribute x).receive y) := Iff.rfl

/-- What comes second begins only if the first does not raise. -/
@[simp] theorem ensures_bind {p : Fallible ε Act X A} {f : A → Fallible ε Act X B}
    {E : Except ε B → History Act X → Prop} :
    Ensures R r Q (p >>= f) E h ↔ Ensures R r Q p (fun result h => match result with
      | .ok a => Ensures R r Q (f a) E h
      | .error e => Q h ∧ E (.error e) h) h := by
  refine always_bind.trans (iff_of_eq ?_)
  unfold Ensures
  congr 1
  funext result h
  cases result <;> rfl

theorem Ensures.mono {p : Fallible ε Act X A} {E E' : Except ε A → History Act X → Prop}
    (hp : Ensures R r Q p E h) (hE : ∀ result h, E result h → E' result h) :
    Ensures R r Q p E' h := by
  unfold Ensures at hp ⊢
  generalize p.run = program at hp
  induction program generalizing h with
  | ret a => exact ⟨hp.1, hE _ _ hp.2⟩
  | act action next ih => exact ⟨hp.1, ih hp.2⟩
  | collective x next ih => exact ⟨hp.1, hp.2.1, fun y hy => ih y (hp.2.2 y hy)⟩

theorem Ensures.attempt_bind {result : Except ε A} {f : A → Fallible ε Act X B}
    {E : Except ε B → History Act X → Prop} (hnow : Q h)
    (hok : ∀ a, result = .ok a → Ensures R r Q (f a) E h)
    (herror : ∀ e, result = .error e → E (.error e) h) :
    Ensures R r Q (attempt result >>= f) E h := by
  rw [ensures_bind, ensures_attempt]
  cases result with
  | ok a => exact ⟨hnow, hok a rfl⟩
  | error e => exact ⟨hnow, hnow, herror e rfl⟩

/-- Partial correctness: where the program returns, E holds of what it returns. -/
def Returns (R : Rules X) (r : Rank) (p : Fallible ε Act X A) (E : A → History Act X → Prop)
    (h : History Act X) : Prop :=
  Ensures R r (fun _ => True) p (fun result h => ∀ a, result = .ok a → E a h) h

variable {p : Fallible ε Act X A} {f : A → Fallible ε Act X B} {E : A → History Act X → Prop}
  {E' : B → History Act X → Prop}

theorem returns_pure {a : A} : Returns R r (pure a : Fallible ε Act X A) E h ↔ E a h := by
  simp [Returns]

theorem returns_throw (e : ε) : Returns R r (throw e : Fallible ε Act X A) E h := by
  simp [Returns]

theorem returns_attempt {result : Except ε A} :
    Returns R r (attempt result) E h ↔ ∀ a, result = .ok a → E a h := by
  simp [Returns]

theorem returns_exchange {x : X} {E : X → History Act X → Prop} :
    Returns R r (exchange x : Fallible ε Act X X) E h ↔
      ∀ y, R.Possible r x y → E y ((h.contribute x).receive y) := by
  simp [Returns]

/-- The second program begins with what the first returns. -/
theorem Returns.bind (hp : Returns R r p E h)
    (hf : ∀ a h, E a h → Returns R r (f a) E' h) : Returns R r (p >>= f) E' h := by
  unfold Returns
  rw [ensures_bind]
  refine hp.mono fun result h hresult => ?_
  cases result with
  | ok a => exact hf a h (hresult a rfl)
  | error e => exact ⟨trivial, by simp⟩

theorem Returns.attempt_bind {result : Except ε A}
    (hf : ∀ a, result = .ok a → Returns R r (f a) E' h) :
    Returns R r (attempt result >>= f) E' h :=
  Ensures.attempt_bind trivial hf fun _ _ _ hb => nomatch hb

theorem returns_true (p : Fallible ε Act X A) (h : History Act X) :
    Returns R r p (fun _ _ => True) h :=
  Ensures.mono (always_true r p.run h) fun _ _ _ _ _ => trivial

/-- Where a party has returned, whatever the interleaving. -/
theorem Returns.reachable (program : Rank → Fallible ε Act X A)
    (hp : Returns R r (program r) E .start) {c : Config Act X (Except ε A)}
    (hc : (system R fun r => (program r).run).Reachable c) {a : A}
    (ha : (c r).program = .ret (.ok a)) : E a (c r).history :=
  ((reachable_meets (fun r => (program r).run) hp hc).finished ha).1 a rfl

end
end Fallible
end MultiGpuTransport.Collectives
