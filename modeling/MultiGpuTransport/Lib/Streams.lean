import Mathlib.Logic.Function.Basic
import Mathlib.Data.List.Basic
import Mathlib.Tactic.Common
import MultiGpuTransport.Lib.Transition

/-!
# FIFO streams

A device owns a memory and runs operations on it; a stream is a FIFO of operations, and any
stream whose head is ready may run it next. Hosts put operations on streams, each in its own
program order, while the streams already run; a host may also perform an operation itself,
blocking or not until the stream has drained.

`Config` has the streams alone with everything enqueued. `HostConfig` adds the hosts, and
`host_simulation` shows that they add no behaviour: a host only delays operations.
-/
namespace MultiGpuTransport.Streams
open Transition

/-- When an operation may run, and what it does to the memory. -/
structure Device (Op Mem : Type*) where
  ready : Op → Mem → Prop
  run : Op → Mem → Mem

/-- The operations still queued on each stream, and the memory. -/
structure Config (σ Op Mem : Type*) where
  queue : σ → List Op
  mem : Mem

variable {η σ Op Mem : Type*} [DecidableEq η] [DecidableEq σ]

inductive Step (D : Device Op Mem) : Config σ Op Mem → Config σ Op Mem → Prop
  | execute {c : Config σ Op Mem} {s : σ} {op : Op} {rest : List Op}
      (hq : c.queue s = op :: rest) (hr : D.ready op c.mem) :
      Step D c ⟨Function.update c.queue s rest, D.run op c.mem⟩

def system (D : Device Op Mem) (start : Config σ Op Mem) : System (Config σ Op Mem) where
  init c := c = start
  step := Step D

def Config.Unfinished (c : Config σ Op Mem) : Prop := ∃ s, c.queue s ≠ []

/-- One instruction of a host: put an operation on a stream, or perform it in the host in the
place it has in the stream's order. A blocking one waits until the stream is empty. -/
inductive Instr (σ Op : Type*)
  | enqueue (s : σ) (op : Op)
  | call (s : σ) (blocking : Bool) (op : Op)

namespace Instr

def stream : Instr σ Op → σ
  | enqueue s _ => s
  | call s _ _ => s

def op : Instr σ Op → Op
  | enqueue _ op => op
  | call _ _ op => op

/-- The operation of an instruction for stream s, if it is one. -/
def opOn (s : σ) (i : Instr σ Op) : Option Op := if i.stream = s then some i.op else none

@[simp] theorem opOn_enqueue (s t : σ) (op : Op) :
    (enqueue s op).opOn t = if s = t then some op else none := rfl

@[simp] theorem opOn_call (s t : σ) (b : Bool) (op : Op) :
    (call s b op).opOn t = if s = t then some op else none := rfl

def IsEnqueue : Instr σ Op → Prop
  | enqueue _ _ => True
  | call _ _ _ => False

/-- A host performs a non-blocking operation only where the stream is known to be empty: a
blocking one came before it and nothing was enqueued since. -/
def Ordered : (σ → Prop) → List (Instr σ Op) → Prop
  | _, [] => True
  | busy, enqueue s _ :: is => Ordered (fun t => t = s ∨ busy t) is
  | busy, call s true _ :: is => Ordered (fun t => t ≠ s ∧ busy t) is
  | busy, call s false _ :: is => ¬ busy s ∧ Ordered busy is

omit [DecidableEq σ] in
theorem Ordered.mono {is : List (Instr σ Op)} {busy busy' : σ → Prop}
    (h : Ordered busy is) (hle : ∀ t, busy' t → busy t) : Ordered busy' is := by
  induction is generalizing busy busy' with
  | nil => trivial
  | cons i is ih =>
    match i with
    | enqueue s _ => exact ih h fun t => Or.imp_right (hle t)
    | call s true _ => exact ih h fun t => And.imp_right (hle t)
    | call s false _ => exact ⟨fun hb => h.1 (hle s hb), ih h.2 hle⟩

omit [DecidableEq σ] in
/-- Blocks that are in order whatever the streams still hold are so one after the other. -/
theorem Ordered.append {is is' : List (Instr σ Op)} {busy : σ → Prop}
    (h : Ordered busy is) (h' : Ordered (fun _ => True) is') : Ordered busy (is ++ is') := by
  induction is generalizing busy with
  | nil => exact h'.mono fun _ _ => trivial
  | cons i is ih =>
    match i with
    | enqueue s _ => exact ih h
    | call s true _ => exact ih h
    | call s false _ => exact ⟨h.1, ih h.2⟩

omit [DecidableEq σ] in
theorem Ordered.of_append {is is' : List (Instr σ Op)} {busy : σ → Prop}
    (h : Ordered busy (is ++ is')) : Ordered busy is := by
  induction is generalizing busy with
  | nil => trivial
  | cons i is ih =>
    match i with
    | enqueue s _ => exact ih h
    | call s true _ => exact ih h
    | call s false _ => exact ⟨h.1, ih h.2⟩

omit [DecidableEq σ] in
theorem ordered_of_enqueue {is : List (Instr σ Op)} (h : ∀ i ∈ is, i.IsEnqueue)
    (busy : σ → Prop) : Ordered busy is := by
  induction is generalizing busy with
  | nil => trivial
  | cons i is ih =>
    obtain ⟨hi, his⟩ := List.forall_mem_cons.mp h
    cases i with
    | enqueue s op => exact ih his _
    | call s b op => exact hi.elim

end Instr

/-- What each host still has to do, the streams, and the memory. -/
structure HostConfig (η σ Op Mem : Type*) where
  pending : η → List (Instr σ Op)
  queue : σ → List Op
  mem : Mem

inductive HostStep (D : Device Op Mem) : HostConfig η σ Op Mem → HostConfig η σ Op Mem → Prop
  | enqueue {c : HostConfig η σ Op Mem} {h : η} {s : σ} {op : Op} {is : List (Instr σ Op)}
      (hp : c.pending h = .enqueue s op :: is) :
      HostStep D c ⟨Function.update c.pending h is,
        Function.update c.queue s (c.queue s ++ [op]), c.mem⟩
  | call {c : HostConfig η σ Op Mem} {h : η} {s : σ} {b : Bool} {op : Op}
      {is : List (Instr σ Op)} (hp : c.pending h = .call s b op :: is)
      (hb : b = true → c.queue s = []) (hr : D.ready op c.mem) :
      HostStep D c ⟨Function.update c.pending h is, c.queue, D.run op c.mem⟩
  | execute {c : HostConfig η σ Op Mem} {s : σ} {op : Op} {rest : List Op}
      (hq : c.queue s = op :: rest) (hr : D.ready op c.mem) :
      HostStep D c ⟨c.pending, Function.update c.queue s rest, D.run op c.mem⟩

/-- All hosts at the start of their programs, all streams empty. -/
def HostConfig.start (program : η → List (Instr σ Op)) (m : Mem) : HostConfig η σ Op Mem :=
  ⟨program, fun _ => [], m⟩

def hostSystem (D : Device Op Mem) (start : HostConfig η σ Op Mem) :
    System (HostConfig η σ Op Mem) where
  init c := c = start
  step := HostStep D

def HostConfig.Unfinished (c : HostConfig η σ Op Mem) : Prop :=
  (∃ h, c.pending h ≠ []) ∨ ∃ s, c.queue s ≠ []

/-- The whole future of stream s when host h is the only one to use it. -/
def HostConfig.future (owner : σ → η) (c : HostConfig η σ Op Mem) (s : σ) : List Op :=
  c.queue s ++ (c.pending (owner s)).filterMap (Instr.opOn s)

/-- A configuration with hosts stands for the one with everything enqueued. -/
structure Flattens (owner : σ → η) (c : HostConfig η σ Op Mem) (a : Config σ Op Mem) : Prop where
  mem_eq : a.mem = c.mem
  queue_eq : ∀ s, a.queue s = c.future owner s
  owned : ∀ h, ∀ i ∈ c.pending h, owner i.stream = h
  ordered : ∀ h, Instr.Ordered (fun s => owner s = h ∧ c.queue s ≠ []) (c.pending h)

section Flattening
variable {owner : σ → η} {D : Device Op Mem} {c : HostConfig η σ Op Mem} {a : Config σ Op Mem}

omit [DecidableEq η] in
theorem Flattens.start {program : η → List (Instr σ Op)} (m : Mem)
    (howned : ∀ h, ∀ i ∈ program h, owner i.stream = h)
    (hord : ∀ h, Instr.Ordered (fun _ => False) (program h)) :
    Flattens owner (HostConfig.start program m)
      ⟨fun s => (program (owner s)).filterMap (Instr.opOn s), m⟩ where
  mem_eq := rfl
  queue_eq _ := rfl
  owned := howned
  ordered h := by simpa [HostConfig.start] using hord h

omit [DecidableEq σ] in
/-- Dropping the head of one host's program keeps every remaining instruction owned. -/
theorem owned_update (howned : ∀ h, ∀ i ∈ c.pending h, owner i.stream = h)
    {h : η} {i : Instr σ Op} {is : List (Instr σ Op)} (hp : c.pending h = i :: is) :
    ∀ k, ∀ j ∈ Function.update c.pending h is k, owner j.stream = k := by
  intro k j hj
  by_cases hk : k = h
  · subst hk
    simp only [Function.update_self] at hj
    exact howned k j (by simp [hp, hj])
  · exact howned k j (by simpa [hk] using hj)

/-- Enqueueing changes nothing in the flattened configuration. -/
theorem Flattens.enqueue (hf : Flattens owner c a) {h : η} {s : σ} {op : Op}
    {is : List (Instr σ Op)} (hp : c.pending h = .enqueue s op :: is) :
    Flattens owner ⟨Function.update c.pending h is,
      Function.update c.queue s (c.queue s ++ [op]), c.mem⟩ a := by
  have hos : owner s = h := hf.owned h (.enqueue s op) (by simp [hp])
  refine ⟨hf.mem_eq, fun t => ?_, owned_update hf.owned hp, fun k => ?_⟩
  · rw [hf.queue_eq]
    by_cases hts : t = s
    · subst hts
      subst hos
      simp [HostConfig.future, hp]
    · by_cases hot : owner t = h
      · subst hot
        simp [HostConfig.future, hp, hts, Ne.symm hts]
      · simp [HostConfig.future, hts, hot]
  · by_cases hk : k = h
    · subst hk
      have ho := hf.ordered k
      rw [hp] at ho
      simp only [Function.update_self]
      refine Instr.Ordered.mono ho fun t ht => ?_
      by_cases hts : t = s
      · exact .inl hts
      · exact .inr (by simpa [hts] using ht)
    · simp only [Function.update_of_ne hk]
      refine Instr.Ordered.mono (hf.ordered k) fun t ht => ⟨ht.1, ?_⟩
      have hts : t ≠ s := by rintro rfl; exact hk (ht.1.symm.trans hos)
      simpa [hts] using ht.2

omit [DecidableEq η] in
/-- The head of a stream is the head of its whole future. -/
theorem Flattens.execute (hf : Flattens owner c a) {s : σ} {op : Op} {rest : List Op}
    (hq : c.queue s = op :: rest) :
    Flattens owner ⟨c.pending, Function.update c.queue s rest, D.run op c.mem⟩
      ⟨Function.update a.queue s (rest ++ (c.pending (owner s)).filterMap (Instr.opOn s)),
        D.run op a.mem⟩ := by
  refine ⟨by rw [hf.mem_eq], fun t => ?_, hf.owned, fun k => ?_⟩
  · by_cases hts : t = s
    · subst hts
      simp [HostConfig.future]
    · simp [HostConfig.future, hts, hf.queue_eq t]
  · refine Instr.Ordered.mono (hf.ordered k) fun t ht => ⟨ht.1, ?_⟩
    by_cases hts : t = s
    · subst hts
      simp [hq]
    · simpa [hts] using ht.2

omit [DecidableEq η] in
/-- Where a host performs an operation itself, the stream has nothing left before it. -/
theorem Flattens.queue_eq_nil (hf : Flattens owner c a) {h : η} {s : σ} {b : Bool} {op : Op}
    {is : List (Instr σ Op)} (hp : c.pending h = .call s b op :: is)
    (hb : b = true → c.queue s = []) : c.queue s = [] := by
  cases b with
  | true => exact hb rfl
  | false =>
    have hos : owner s = h := hf.owned h (.call s false op) (by simp [hp])
    have ho := hf.ordered h
    rw [hp] at ho
    by_contra hne
    exact ho.1 ⟨hos, hne⟩

theorem Flattens.call (hf : Flattens owner c a) {h : η} {s : σ} {b : Bool} {op : Op}
    {is : List (Instr σ Op)} (hp : c.pending h = .call s b op :: is) (hq : c.queue s = []) :
    Flattens owner ⟨Function.update c.pending h is, c.queue, D.run op c.mem⟩
      ⟨Function.update a.queue s (is.filterMap (Instr.opOn s)), D.run op a.mem⟩ := by
  have hos : owner s = h := hf.owned h (.call s b op) (by simp [hp])
  refine ⟨by rw [hf.mem_eq], fun t => ?_, owned_update hf.owned hp, fun k => ?_⟩
  · by_cases hts : t = s
    · subst hts
      subst hos
      simp [HostConfig.future, hq]
    · by_cases hot : owner t = h
      · subst hot
        simp [HostConfig.future, hf.queue_eq, hp, hts, Ne.symm hts]
      · simp [HostConfig.future, hf.queue_eq, hts, hot]
  · by_cases hk : k = h
    · subst hk
      have ho := hf.ordered k
      rw [hp] at ho
      simp only [Function.update_self]
      cases b with
      | true =>
        refine Instr.Ordered.mono ho fun t ht => ⟨?_, ht⟩
        rintro rfl
        exact ht.2 hq
      | false => exact ho.2
    · simpa [hk] using hf.ordered k

/-- Hosts add no behaviour to the streams: they only delay operations. -/
theorem host_simulation {start : HostConfig η σ Op Mem} {start' : Config σ Op Mem}
    (hstart : Flattens owner start start') :
    System.Simulation (hostSystem D start) (system D start') (Flattens owner) where
  init c hc := ⟨start', rfl, by rw [show c = start from hc]; exact hstart⟩
  step c c' a hf hst := by
    cases hst with
    | enqueue hp => exact .inl (hf.enqueue hp)
    | @call h s b op is hp hb hr =>
      have hq := hf.queue_eq_nil hp hb
      have hos : owner s = h := hf.owned h (.call s b op) (by simp [hp])
      refine .inr ⟨_, .execute ?_ (hf.mem_eq ▸ hr), hf.call hp hq⟩
      subst hos
      simp [hf.queue_eq, HostConfig.future, hq, hp]
    | @execute s op rest hq hr =>
      refine .inr ⟨_, .execute ?_ (hf.mem_eq ▸ hr), hf.execute hq⟩
      simp [hf.queue_eq, HostConfig.future, hq]

omit [DecidableEq η] in
theorem Flattens.unfinished (hf : Flattens owner c a) (hu : c.Unfinished) : a.Unfinished := by
  rcases hu with ⟨h, hp⟩ | ⟨s, hq⟩
  · obtain ⟨i, is, hp⟩ := List.exists_cons_of_ne_nil hp
    have hos : owner i.stream = h := hf.owned h i (by simp [hp])
    refine ⟨i.stream, ?_⟩
    subst hos
    simp [hf.queue_eq, HostConfig.future, hp, Instr.opOn]
  · exact ⟨s, by simp [hf.queue_eq, HostConfig.future, hq]⟩

/-- Hosts that only enqueue are never in the way: if the flattened configuration can step, so
can the one with hosts. -/
theorem Flattens.canStep {start : HostConfig η σ Op Mem} {start' : Config σ Op Mem}
    (hf : Flattens owner c a) (henq : ∀ h, ∀ i ∈ c.pending h, i.IsEnqueue)
    (hs : (system D start').CanStep a) : (hostSystem D start).CanStep c := by
  obtain ⟨a', ⟨hq, hr⟩⟩ := hs
  rename_i s op rest
  rw [hf.queue_eq] at hq
  rw [hf.mem_eq] at hr
  cases hqs : c.queue s with
  | cons op' rest' =>
    have : op' = op := by
      rw [HostConfig.future, hqs] at hq
      simpa using congrArg List.head? hq
    subst this
    exact ⟨_, .execute hqs hr⟩
  | nil =>
    cases hp : c.pending (owner s) with
    | nil => simp [HostConfig.future, hqs, hp] at hq
    | cons i is =>
      match i, hp with
      | .enqueue t op', hp => exact ⟨_, .enqueue hp⟩
      | .call t b op', hp => exact False.elim (henq (owner s) (.call t b op') (by simp [hp]))

end Flattening

/-- Hosts that only enqueue keep doing so. -/
theorem pending_enqueue {D : Device Op Mem} {start c : HostConfig η σ Op Mem}
    (hstart : ∀ h, ∀ i ∈ start.pending h, i.IsEnqueue)
    (hc : (hostSystem D start).Reachable c) : ∀ h, ∀ i ∈ c.pending h, i.IsEnqueue := by
  refine System.Reachable.invariant (I := fun c => ∀ h, ∀ i ∈ c.pending h, i.IsEnqueue) ?_ ?_ hc
  · rintro _ rfl
    exact hstart
  · intro c c' _ hI hst
    have drop : ∀ {h : η} {i : Instr σ Op} {is : List (Instr σ Op)}, c.pending h = i :: is →
        ∀ k, ∀ j ∈ Function.update c.pending h is k, j.IsEnqueue := by
      intro h i is hp k j hj
      by_cases hk : k = h
      · subst hk
        simp only [Function.update_self] at hj
        exact hI k j (by simp [hp, hj])
      · exact hI k j (by simpa [hk] using hj)
    cases hst with
    | enqueue hp => exact drop hp
    | call hp _ _ => exact drop hp
    | execute _ _ => exact hI

/-- A host can enqueue all it still has to before any stream runs an operation. -/
theorem reachable_enqueue {D : Device Op Mem} {start c : HostConfig η σ Op Mem}
    (hc : (hostSystem D start).Reachable c) {h : η} {is : List (Instr σ Op)}
    (hp : c.pending h = is) (henq : ∀ i ∈ is, i.IsEnqueue) :
    (hostSystem D start).Reachable ⟨Function.update c.pending h [],
      fun s => c.queue s ++ is.filterMap (Instr.opOn s), c.mem⟩ := by
  induction is generalizing c with
  | nil =>
    rw [← hp, Function.update_eq_self]
    simpa [hp] using hc
  | cons i is ih =>
    obtain ⟨hi, his⟩ := List.forall_mem_cons.mp henq
    cases i with
    | call s b op => exact False.elim hi
    | enqueue s op =>
      convert ih (.step hc (.enqueue hp)) (by simp) his using 2
      · simp
      · funext t
        by_cases hts : t = s
        · subst hts
          simp
        · simp [hts, Ne.symm hts]

/-- So it can its whole program. -/
theorem reachable_enqueued (D : Device Op Mem) (program : η → List (Instr σ Op)) (m : Mem) (h : η)
    (henq : ∀ i ∈ program h, i.IsEnqueue) :
    ∃ c, (hostSystem D (HostConfig.start program m)).Reachable c ∧ c.mem = m ∧
      ∀ s, c.queue s = (program h).filterMap (Instr.opOn s) :=
  ⟨_, reachable_enqueue (.init rfl) rfl henq, rfl, fun _ => rfl⟩

end MultiGpuTransport.Streams
