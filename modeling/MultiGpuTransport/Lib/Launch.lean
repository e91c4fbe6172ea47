import Mathlib.Algebra.BigOperators.Group.Finset.Basic
import MultiGpuTransport.Lib.Runs

/-!
# Kernel launches

The programs of a launch run concurrently on one memory, instruction by instruction. If every program
writes only cells of its own and reads only these and cells that no program writes, every run ends as
if each program had run alone. A program may rely on what it finds in these cells.
-/
namespace MultiGpuTransport.Launches
open Transition

variable {P C : Type*} {R : Type*} {V : C → Type*}

/-- An instruction changes the registers of its program and the memory. -/
abbrev Instr (R : Type*) {C : Type*} (V : C → Type*) := R × (∀ c, V c) → R × (∀ c, V c)

/-- Instructions one after the other. -/
def run (is : List (Instr R V)) (s : R × (∀ c, V c)) : R × (∀ c, V c) := is.foldl (fun s i => i s) s

theorem run_concat (is : List (Instr R V)) (i : Instr R V) (s : R × (∀ c, V c)) :
    run (is ++ [i]) s = i (run is s) := by
  simp [run]

/-- Where ok holds, the instruction writes own cells only, what it does depends on own and shared
cells, and ok holds afterwards. -/
structure Within (own shared : C → Prop) (ok : R → (∀ c, V c) → Prop) (i : Instr R V) : Prop where
  writes : ∀ r m, ok r m → ∀ c, ¬ own c → (i (r, m)).2 c = m c
  reads : ∀ r m m', ok r m → ok r m' → (∀ c, own c ∨ shared c → m c = m' c) →
    (i (r, m)).1 = (i (r, m')).1 ∧ ∀ c, own c → (i (r, m)).2 c = (i (r, m')).2 c
  keeps : ∀ r m, ok r m → ok (i (r, m)).1 (i (r, m)).2

theorem run_ok {own shared : C → Prop} {ok : R → (∀ c, V c) → Prop} {is : List (Instr R V)}
    (h : ∀ i ∈ is, Within own shared ok i) {s : R × (∀ c, V c)} (hs : ok s.1 s.2) :
    ok (run is s).1 (run is s).2 ∧ ∀ c, ¬ own c → (run is s).2 c = s.2 c := by
  induction is using List.reverseRecOn with
  | nil => exact ⟨hs, fun _ _ => rfl⟩
  | append_singleton is i ih =>
    obtain ⟨hok, hframe⟩ := ih fun j hj => h j (List.mem_append_left _ hj)
    have hi := h i (by simp)
    rw [run_concat]
    exact ⟨hi.keeps _ _ hok, fun c hc => (hi.writes _ _ hok c hc).trans (hframe c hc)⟩

structure Launch (P R : Type*) {C : Type*} (V : C → Type*) where
  program : P → List (Instr R V)
  registers : P → R

/-- A launch under way. -/
structure Running (P R : Type*) {C : Type*} (V : C → Type*) where
  left : P → List (Instr R V)
  registers : P → R
  mem : ∀ c, V c

/-- Some program runs its next instruction. -/
inductive Step [DecidableEq P] : Running P R V → Running P R V → Prop
  | run {t : Running P R V} {p : P} {i : Instr R V} {is : List (Instr R V)} (h : t.left p = i :: is) :
      Step t ⟨Function.update t.left p is,
        Function.update t.registers p (i (t.registers p, t.mem)).1, (i (t.registers p, t.mem)).2⟩

namespace Launch
variable [DecidableEq P] (l : Launch P R V) (m m' : ∀ c, V c)

def system : System (Running P R V) where
  init t := t = ⟨l.program, l.registers, m⟩
  step := Step

/-- The launch can turn the one memory into the other. -/
def Finishes : Prop :=
  ∃ t, (l.system m).Reachable t ∧ (∀ p, t.left p = []) ∧ t.mem = m'

/-- No cell has two owners, and every program keeps to its own and to what nobody owns, as long as
what it relies on there is so. -/
structure Separate (own : P → C → Prop) (ok : P → R → (∀ c, V c) → Prop) : Prop where
  disjoint : ∀ p q c, own p c → own q c → p = q
  start : ∀ p, ok p (l.registers p) m
  frame : ∀ p r m m', ok p r m → (∀ c, (own p c ∨ ∀ q, ¬ own q c) → m c = m' c) → ok p r m'
  within : ∀ p, ∀ i ∈ l.program p, Within (own p) (fun c => ∀ q, ¬ own q c) (ok p) i

/-- Each program is where it would be alone. -/
structure Inv (own : P → C → Prop) (t : Running P R V) : Prop where
  alone : ∀ p, ∃ done, l.program p = done ++ t.left p ∧
    t.registers p = (Launches.run done (l.registers p, m)).1 ∧
      ∀ c, own p c → t.mem c = (Launches.run done (l.registers p, m)).2 c
  shared : ∀ c, (∀ p, ¬ own p c) → t.mem c = m c

variable {l m m'} {own : P → C → Prop} {ok : P → R → (∀ c, V c) → Prop}

theorem Inv.step (h : l.Separate m own ok) {t t' : Running P R V} (inv : l.Inv m own t)
    (hst : Step t t') : l.Inv m own t' := by
  cases hst with
  | @run p i is hp =>
    obtain ⟨done, hprogram, hregs, hown⟩ := inv.alone p
    have hi := h.within p i (by simp [hprogram, hp])
    obtain ⟨hdone, hframe⟩ := run_ok (s := (l.registers p, m)) (fun j hj =>
      h.within p j (by rw [hprogram]; exact List.mem_append_left _ hj)) (h.start p)
    -- what the program sees is what it would see alone
    have hsees : ∀ c, (own p c ∨ ∀ q, ¬ own q c) →
        (Launches.run done (l.registers p, m)).2 c = t.mem c := by
      rintro c (hc | hc)
      · exact (hown c hc).symm
      · rw [inv.shared c hc, hframe c (hc p)]
    rw [← hregs] at hdone
    have hok := h.frame p _ _ _ hdone hsees
    obtain ⟨hreads, hmem⟩ := hi.reads _ _ _ hdone hok hsees
    refine ⟨fun q => ?_, fun c hc => ?_⟩
    · by_cases hq : q = p
      · subst hq
        refine ⟨done ++ [i], by simp [hprogram, hp], ?_, fun c hc => ?_⟩
        · rw [run_concat]
          exact (Function.update_self ..).trans (hreads.symm.trans (by rw [hregs]))
        · rw [run_concat]
          exact (hmem c hc).symm.trans (by rw [hregs])
      · obtain ⟨done', hprogram', hregs', hown'⟩ := inv.alone q
        refine ⟨done', by simpa [hq] using hprogram', by simpa [hq] using hregs', fun c hc => ?_⟩
        rw [← hown' c hc]
        exact hi.writes _ _ hok c fun hpc => hq (h.disjoint q p c hc hpc)
    · rw [← inv.shared c hc]
      exact hi.writes _ _ hok c (hc p)

/-- However the instructions interleave, every program has the effect it has alone. -/
theorem Finishes.alone (h : l.Separate m own ok) (hf : l.Finishes m m') :
    (∀ p c, own p c → m' c = (Launches.run (l.program p) (l.registers p, m)).2 c) ∧
      ∀ c, (∀ p, ¬ own p c) → m' c = m c := by
  obtain ⟨t, ht, hleft, rfl⟩ := hf
  have inv : l.Inv m own t := by
    refine System.Reachable.invariant ?_ (fun _ _ _ inv hst => inv.step h hst) ht
    rintro _ rfl
    exact ⟨fun p => ⟨[], rfl, rfl, fun _ _ => rfl⟩, fun _ _ => rfl⟩
  refine ⟨fun p c hc => ?_, inv.shared⟩
  obtain ⟨done, hprogram, -, hown⟩ := inv.alone p
  rw [hprogram, hleft p, List.append_nil]
  exact hown c hc

theorem exists_finishes (l : Launch P R V) (m : ∀ c, V c) (grid : Finset P)
    (hgrid : ∀ p, p ∉ grid → l.program p = []) : ∃ m', l.Finishes m m' := by
  let size : Running P R V → ℕ := fun t => ∑ p ∈ grid, (t.left p).length
  have hin : ∀ t, (l.system m).Reachable t → ∀ p, p ∉ grid → t.left p = [] := by
    intro t ht p hp
    induction ht with
    | init h => exact h ▸ hgrid p hp
    | step _ hst ih =>
      cases hst with
      | @run q i is hq =>
        have hne : p ≠ q := by
          rintro rfl
          simp [ih] at hq
        simpa [hne] using ih
  have hsize : ∀ t t', (l.system m).Reachable t → (l.system m).step t t' → size t' < size t := by
    intro t t' ht hst
    cases hst with
    | @run p i is hp =>
      have hpgrid : p ∈ grid := by
        by_contra hpgrid
        simp [hin t ht p hpgrid] at hp
      have hsum := Streams.sum_length_update t.left hpgrid is
      simp only [hp, List.length_cons] at hsum
      show ∑ q ∈ grid, (Function.update t.left p is q).length < ∑ q ∈ grid, (t.left q).length
      omega
  obtain ⟨t, hrun, hend⟩ := (l.system m).exists_run_to_end Nat.lt_wfRel.wf size hsize (.init rfl)
  refine ⟨t.mem, t, System.Reachable.steps (.init rfl) hrun, fun p => ?_, rfl⟩
  by_contra hleft
  obtain ⟨i, is, hp⟩ := List.exists_cons_of_ne_nil hleft
  exact hend ⟨_, .run hp⟩

end Launch

/-! ### Blocks of lanes -/

section
variable [DecidableEq C]

/-- The lanes store their values, each in its cell. -/
def storeLanes (lanes : List ℕ) (cell : ℕ → C) (value : ∀ l, V (cell l)) (m : ∀ c, V c) : ∀ c, V c :=
  lanes.foldl (fun m l => Function.update m (cell l) (value l)) m

/-- A cell has what one of its lanes stored, if there is any. -/
theorem storeLanes_cases (lanes : List ℕ) (cell : ℕ → C) (value : ∀ l, V (cell l)) (m : ∀ c, V c)
    (c : C) : ((∀ l ∈ lanes, cell l ≠ c) ∧ storeLanes lanes cell value m c = m c) ∨
      ∃ l ∈ lanes, ∃ h : cell l = c, storeLanes lanes cell value m c = h ▸ value l := by
  induction lanes using List.reverseRecOn with
  | nil => exact .inl ⟨by simp, rfl⟩
  | append_singleton lanes l ih =>
    have hconcat : storeLanes (lanes ++ [l]) cell value m =
        Function.update (storeLanes lanes cell value m) (cell l) (value l) := by
      simp [storeLanes]
    rw [hconcat]
    by_cases hc : cell l = c
    · subst hc
      exact .inr ⟨l, by simp, rfl, Function.update_self ..⟩
    · rw [Function.update_of_ne (Ne.symm hc)]
      rcases ih with ⟨hnone, heq⟩ | ⟨l', hl', h, heq⟩
      · refine .inl ⟨fun l' hl' => ?_, heq⟩
        rcases List.mem_append.mp hl' with hl' | hl'
        · exact hnone l' hl'
        · exact List.mem_singleton.mp hl' ▸ hc
      · exact .inr ⟨l', List.mem_append_left _ hl', h, heq⟩

/-- What the lanes store does not depend on the memory. -/
theorem storeLanes_congr {lanes : List ℕ} {cell : ℕ → C} (value : ∀ l, V (cell l))
    {m m' : ∀ c, V c} {c : C} (h : m c = m' c) :
    storeLanes lanes cell value m c = storeLanes lanes cell value m' c := by
  induction lanes using List.reverseRecOn with
  | nil => exact h
  | append_singleton lanes l ih =>
    simp only [storeLanes, List.foldl_append, List.foldl_cons, List.foldl_nil] at ih ⊢
    by_cases hc : c = cell l
    · subst hc
      rw [Function.update_self, Function.update_self]
    · rw [Function.update_of_ne hc, Function.update_of_ne hc, ih]

theorem storeLanes_of_ne {lanes : List ℕ} {cell : ℕ → C} (value : ∀ l, V (cell l)) (m : ∀ c, V c)
    {c : C} (h : ∀ l ∈ lanes, cell l ≠ c) : storeLanes lanes cell value m c = m c := by
  rcases storeLanes_cases lanes cell value m c with ⟨-, heq⟩ | ⟨l, hl, hc, -⟩
  · exact heq
  · exact absurd hc (h l hl)

theorem storeLanes_cell {lanes : List ℕ} {cell : ℕ → C} (value : ∀ l, V (cell l)) (m : ∀ c, V c)
    {l : ℕ} (hl : l ∈ lanes) (hinj : ∀ l' ∈ lanes, cell l' = cell l → l' = l) :
    storeLanes lanes cell value m (cell l) = value l := by
  rcases storeLanes_cases lanes cell value m (cell l) with ⟨hnone, -⟩ | ⟨l', hl', hc, heq⟩
  · exact absurd rfl (hnone l hl)
  · obtain rfl := hinj l' hl' hc
    exact heq

end
end MultiGpuTransport.Launches
