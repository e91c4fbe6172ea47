import Mathlib.Algebra.BigOperators.Group.Finset.Basic
import Mathlib.Algebra.Order.BigOperators.Group.Finset
import MultiGpuTransport.Lib.Streams

/-!
# Runs of hosts and streams

Runs that can always be made: a host enqueues all it has to, a stream runs the operations at its
head while they are ready, a host and its streams take turns. Every run ends, since an instruction
is enqueued once and an operation runs once.
-/
namespace MultiGpuTransport.Streams
open Transition

variable {η σ Op Mem : Type*}

/-- What operations in a row do to the memory. -/
@[simp] def Device.runAll (D : Device Op Mem) : List Op → Mem → Mem
  | [], m => m
  | op :: ops, m => D.runAll ops (D.run op m)

/-- Each of the operations may run when its turn comes. -/
@[simp] def Device.ReadyInOrder (D : Device Op Mem) : List Op → Mem → Prop
  | [], _ => True
  | op :: ops, m => D.ready op m ∧ D.ReadyInOrder ops (D.run op m)

section
variable {D : Device Op Mem}

theorem Device.runAll_append (ops ops' : List Op) (m : Mem) :
    D.runAll (ops ++ ops') m = D.runAll ops' (D.runAll ops m) := by
  induction ops generalizing m with
  | nil => rfl
  | cons op ops ih => exact ih _

theorem Device.readyInOrder_append {ops ops' : List Op} {m : Mem} :
    D.ReadyInOrder (ops ++ ops') m ↔
      D.ReadyInOrder ops m ∧ D.ReadyInOrder ops' (D.runAll ops m) := by
  induction ops generalizing m with
  | nil => simp [ReadyInOrder, runAll]
  | cons op ops ih => simp [ReadyInOrder, runAll, ih, and_assoc]

/-- Blocks of operations that are ready whatever came before. -/
theorem Device.readyInOrder_flatMap {β : Type*} {ops : β → List Op} {blocks : List β}
    (h : ∀ b ∈ blocks, ∀ m, D.ReadyInOrder (ops b) m) (m : Mem) :
    D.ReadyInOrder (blocks.flatMap ops) m := by
  induction blocks generalizing m with
  | nil => trivial
  | cons b blocks ih =>
    obtain ⟨hb, hbs⟩ := List.forall_mem_cons.mp h
    exact readyInOrder_append.mpr ⟨hb m, ih hbs _⟩

theorem Device.ReadyInOrder.take {ops : List Op} {m : Mem} (h : D.ReadyInOrder ops m) (n : ℕ) :
    D.ReadyInOrder (ops.take n) m := by
  rw [← List.take_append_drop n ops] at h
  exact (readyInOrder_append.mp h).1

end

variable [DecidableEq η] [DecidableEq σ] {D : Device Op Mem} {start c : HostConfig η σ Op Mem}

/-- A stream runs the operations at its head. -/
theorem reachable_execute (hc : (hostSystem D start).Reachable c) {s : σ} {ops rest : List Op}
    (hq : c.queue s = ops ++ rest) (hready : D.ReadyInOrder ops c.mem) :
    (hostSystem D start).Reachable
      ⟨c.pending, Function.update c.queue s rest, D.runAll ops c.mem⟩ := by
  induction ops generalizing c with
  | nil => simpa [← show c.queue s = rest from hq] using hc
  | cons op ops ih =>
    simpa using ih (.step hc (.execute hq hready.1)) (by simp) hready.2

/-- A host enqueues operations on empty streams, each of which runs at once. -/
theorem reachable_inOrder (hc : (hostSystem D start).Reachable c) {h : η} {items : List (σ × Op)}
    {is : List (Instr σ Op)}
    (hp : c.pending h = (items.map fun e => .enqueue e.1 e.2) ++ is) (hq : ∀ s, c.queue s = [])
    (hready : D.ReadyInOrder (items.map Prod.snd) c.mem) :
    (hostSystem D start).Reachable
      ⟨Function.update c.pending h is, c.queue, D.runAll (items.map Prod.snd) c.mem⟩ := by
  induction items generalizing c with
  | nil => simpa [← show c.pending h = is from hp] using hc
  | cons e items ih =>
    obtain ⟨s, op⟩ := e
    have henq := System.Reachable.step hc (.enqueue hp)
    have hhead : Function.update c.queue s (c.queue s ++ [op]) s = op :: [] := by simp [hq s]
    have hrun := System.Reachable.step henq (.execute hhead hready.1)
    have hqueue : Function.update (Function.update c.queue s (c.queue s ++ [op])) s [] = c.queue := by
      rw [Function.update_idem, ← hq s, Function.update_eq_self]
    simp only [hqueue] at hrun
    simpa using ih hrun (by simp) hq hready.2

/-- What hosts do does not depend on what they are to do later. -/
theorem reachable_extend {program : η → List (Instr σ Op)} (later : η → List (Instr σ Op)) {m : Mem}
    (hc : (hostSystem D (HostConfig.start program m)).Reachable c) :
    (hostSystem D (HostConfig.start (fun h => program h ++ later h) m)).Reachable
      ⟨fun h => c.pending h ++ later h, c.queue, c.mem⟩ := by
  have hupdate : ∀ (f : η → List (Instr σ Op)) (h : η) (is : List (Instr σ Op)),
      (fun g => Function.update f h is g ++ later g) =
        Function.update (fun g => f g ++ later g) h (is ++ later h) := by
    intro f h is
    funext g
    by_cases hg : g = h
    · subst hg
      simp
    · simp [hg]
  induction hc with
  | init hc =>
    cases hc
    exact .init rfl
  | @step c c' _ hst ih =>
    refine .step ih ?_
    cases hst with
    | @enqueue h s op is hp =>
      rw [hupdate]
      exact .enqueue (by simp [hp])
    | @call h s b op is hp hb hr =>
      rw [hupdate]
      exact .call (by simp [hp]) hb hr
    | execute hq hr => exact .execute hq hr

/-! ### Every run ends -/

/-- What is left of a list that lost its head was in it. -/
theorem mem_of_mem_update {ι α : Type*} [DecidableEq ι] {f : ι → List α} {i j : ι} {a b : α}
    {l : List α} (h : f i = a :: l) (hb : b ∈ Function.update f i l j) : b ∈ f j := by
  by_cases hj : j = i
  · subst hj
    rw [h]
    exact List.mem_cons_of_mem a (by simpa using hb)
  · simpa [hj] using hb

theorem mem_update_concat {ι α : Type*} [DecidableEq ι] {f : ι → List α} {i j : ι} {a b : α}
    (hb : b ∈ Function.update f i (f i ++ [a]) j) : b ∈ f j ∨ b = a := by
  by_cases hj : j = i
  · subst hj
    simpa using hb
  · exact .inl (by simpa [hj] using hb)

theorem sum_length_update {ι α : Type*} [DecidableEq ι] {T : Finset ι} (q : ι → List α) {i : ι}
    (hi : i ∈ T) (l : List α) :
    ∑ j ∈ T, (Function.update q i l j).length + (q i).length =
      ∑ j ∈ T, (q j).length + l.length := by
  have hrest : ∑ j ∈ T.erase i, (Function.update q i l j).length =
      ∑ j ∈ T.erase i, (q j).length := by
    refine Finset.sum_congr rfl fun j hj => ?_
    rw [Function.update_of_ne (Finset.ne_of_mem_erase hj)]
  rw [← Finset.add_sum_erase T _ hi, ← Finset.add_sum_erase T (fun j => (q j).length) hi, hrest,
    Function.update_self]
  omega

/-- The work that is left on the streams of T; to enqueue an operation is work too. -/
def HostConfig.size [Fintype η] (T : Finset σ) (c : HostConfig η σ Op Mem) : ℕ :=
  2 * ∑ h, (c.pending h).length + ∑ s ∈ T, (c.queue s).length

/-- Only the streams of T are in use. -/
def HostConfig.Within (T : Finset σ) (c : HostConfig η σ Op Mem) : Prop :=
  (∀ h, ∀ i ∈ c.pending h, i.stream ∈ T) ∧ ∀ s, c.queue s ≠ [] → s ∈ T

theorem HostConfig.Within.step {T : Finset σ} {c c' : HostConfig η σ Op Mem} (h : c.Within T)
    (hst : HostStep D c c') : c'.Within T := by
  have hpending : ∀ {g : η} {i : Instr σ Op} {is : List (Instr σ Op)}, c.pending g = i :: is →
      ∀ k, ∀ j ∈ Function.update c.pending g is k, j.stream ∈ T := by
    intro g i is hp k j hj
    by_cases hk : k = g
    · subst hk
      exact h.1 k j (by rw [hp]; exact List.mem_cons_of_mem _ (by simpa using hj))
    · exact h.1 k j (by simpa [hk] using hj)
  have hqueue : ∀ {s : σ} {l : List Op}, s ∈ T →
      ∀ t, Function.update c.queue s l t ≠ [] → t ∈ T := by
    intro s l hs t ht
    by_cases hts : t = s
    · exact hts ▸ hs
    · exact h.2 t (by simpa [hts] using ht)
  cases hst with
  | @enqueue g s op is hp =>
    exact ⟨hpending hp, hqueue (h.1 g (.enqueue s op) (by simp [hp]))⟩
  | call hp _ _ => exact ⟨hpending hp, h.2⟩
  | @execute s op rest hq _ => exact ⟨h.1, hqueue (h.2 s (by simp [hq]))⟩

theorem HostConfig.Within.size_lt [Fintype η] {T : Finset σ} {c c' : HostConfig η σ Op Mem}
    (h : c.Within T) (hst : HostStep D c c') : c'.size T < c.size T := by
  cases hst with
  | @enqueue g s op is hp =>
    have hs : s ∈ T := h.1 g (.enqueue s op) (by simp [hp])
    have hpending := sum_length_update c.pending (Finset.mem_univ g) is
    have hqueue := sum_length_update c.queue hs (c.queue s ++ [op])
    simp only [hp, List.length_cons, List.length_append, List.length_nil] at hpending hqueue
    simp only [size]
    omega
  | @call g s b op is hp _ _ =>
    have hpending := sum_length_update c.pending (Finset.mem_univ g) is
    simp only [hp, List.length_cons] at hpending
    simp only [size]
    omega
  | @execute s op rest hq _ =>
    have hqueue := sum_length_update c.queue (h.2 s (by simp [hq])) rest
    simp only [hq, List.length_cons] at hqueue
    simp only [size]
    omega

/-- The streams that the hosts' programs use. -/
def programStreams [Fintype η] (program : η → List (Instr σ Op)) : Finset σ :=
  Finset.univ.biUnion fun h => ((program h).map Instr.stream).toFinset

theorem reachable_within [Fintype η] {program : η → List (Instr σ Op)} {m : Mem}
    (hc : (hostSystem D (HostConfig.start program m)).Reachable c) :
    c.Within (programStreams program) := by
  refine System.Reachable.invariant ?_ (fun c c' _ h hst => h.step hst) hc
  rintro _ rfl
  refine ⟨fun h i hi => ?_, fun s hs => absurd rfl hs⟩
  simp only [programStreams, Finset.mem_biUnion, Finset.mem_univ, true_and, List.mem_toFinset,
    List.mem_map]
  exact ⟨h, i, hi, rfl⟩

/-- Where no run of finitely many hosts is stuck, all that is queued can run: every reachable state
has a run to the end. -/
theorem exists_run_to_finish [Fintype η] {program : η → List (Instr σ Op)} {m : Mem}
    (hlive : (hostSystem D (HostConfig.start program m)).NeverStuck HostConfig.Unfinished)
    (hc : (hostSystem D (HostConfig.start program m)).Reachable c) :
    ∃ t, Relation.ReflTransGen (HostStep D) c t ∧ ¬ t.Unfinished :=
  hlive.exists_run Nat.lt_wfRel.wf (HostConfig.size (programStreams program))
    (fun _ _ hc hst => (reachable_within hc).size_lt hst) hc

end MultiGpuTransport.Streams
