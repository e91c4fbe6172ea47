import Mathlib.Data.Nat.Find
import MultiGpuTransport.Lib.Streams

/-!
# Progress of jobs on FIFO streams

Every party issues a list of jobs, each a short list of operations for one of the party's
streams. What is left on the streams is then determined by how many operations of each job have
run. `Progress` keeps these counts instead of the queues: an operation may run when it is the
next of its job and every earlier job of its party on the same stream is over.
-/
namespace MultiGpuTransport.Streams
open Transition

/-- The operations of one call and the stream it was made on. -/
structure Job (σ Op : Type*) where
  stream : σ
  ops : List Op

variable {ρ σ Op Mem : Type*}

/-- The operations of job k, none beyond the end of the list. -/
def opsAt (js : List (Job σ Op)) (k : ℕ) : List Op := (js[k]?.map Job.ops).getD []

def streamAt (js : List (Job σ Op)) (k : ℕ) : Option σ := js[k]?.map Job.stream

@[simp] theorem opsAt_zero (j : Job σ Op) (js : List (Job σ Op)) : opsAt (j :: js) 0 = j.ops := rfl
@[simp] theorem opsAt_succ (j : Job σ Op) (js : List (Job σ Op)) (k : ℕ) :
    opsAt (j :: js) (k + 1) = opsAt js k := rfl
@[simp] theorem streamAt_zero (j : Job σ Op) (js : List (Job σ Op)) :
    streamAt (j :: js) 0 = some j.stream := rfl
@[simp] theorem streamAt_succ (j : Job σ Op) (js : List (Job σ Op)) (k : ℕ) :
    streamAt (j :: js) (k + 1) = streamAt js k := rfl

/-- Operation op of job k is the next one to run on stream s. -/
structure Next (s : σ) (js : List (Job σ Op)) (pos : ℕ → ℕ) (k : ℕ) (op : Op) : Prop where
  stream : streamAt js k = some s
  op_eq : (opsAt js k)[pos k]? = some op
  fifo : ∀ j < k, streamAt js j = some s → (opsAt js j).length ≤ pos j

variable [DecidableEq ρ] [DecidableEq σ]

/-- What is left on stream s after pos k operations of each job k. -/
def remaining (s : σ) : List (Job σ Op) → (ℕ → ℕ) → List Op
  | [], _ => []
  | j :: js, pos =>
    (if j.stream = s then j.ops.drop (pos 0) else []) ++ remaining s js (fun k => pos (k + 1))

omit [DecidableEq ρ] in
/-- Before anything has run, what is left of two lists of jobs is left of each. -/
theorem remaining_append (s : σ) (js js' : List (Job σ Op)) :
    remaining s (js ++ js') (fun _ => 0) =
      remaining s js (fun _ => 0) ++ remaining s js' (fun _ => 0) := by
  induction js with
  | nil => rfl
  | cons j js ih => simp [remaining, ih]

omit [DecidableEq ρ] in
theorem remaining_eq_nil_of_ne {s : σ} {js : List (Job σ Op)} {pos : ℕ → ℕ}
    (h : ∀ j ∈ js, j.stream ≠ s) : remaining s js pos = [] := by
  induction js generalizing pos with
  | nil => rfl
  | cons j js ih =>
    obtain ⟨hj, hjs⟩ := List.forall_mem_cons.mp h
    simp [remaining, hj, ih hjs]

theorem update_succ_comp (pos : ℕ → ℕ) (k v : ℕ) :
    (fun i => Function.update pos (k + 1) v (i + 1)) = Function.update (fun i => pos (i + 1)) k v := by
  funext i
  by_cases h : i = k
  · subst h; simp
  · simp [h]

/-- The head of what is left is the next operation of some job, and running it advances that
job alone. -/
theorem remaining_eq_cons {s : σ} {js : List (Job σ Op)} {pos : ℕ → ℕ} {op : Op} {rest : List Op}
    (h : remaining s js pos = op :: rest) :
    ∃ k, Next s js pos k op ∧ ∀ t, remaining t js (Function.update pos k (pos k + 1)) =
      if t = s then rest else remaining t js pos := by
  induction js generalizing pos with
  | nil => simp [remaining] at h
  | cons j js ih =>
    by_cases hd : j.stream = s ∧ j.ops.drop (pos 0) ≠ []
    · obtain ⟨hs, hne⟩ := hd
      obtain ⟨op', tail, hdrop⟩ := List.exists_cons_of_ne_nil hne
      simp only [remaining, hs, if_true, hdrop, List.cons_append, List.cons.injEq] at h
      obtain ⟨rfl, rfl⟩ := h
      have hget : j.ops[pos 0]? = some op' := by
        rw [← List.head?_drop, hdrop]
        rfl
      have htail : j.ops.drop (pos 0 + 1) = tail := by
        rw [← List.tail_drop, hdrop]
        rfl
      refine ⟨0, ⟨by simp [hs], by simpa using hget, by simp⟩, fun t => ?_⟩
      by_cases hts : t = s
      · subst hts
        simp [remaining, hs, htail]
      · have : j.stream ≠ t := fun he => hts (he.symm.trans hs)
        simp [remaining, hts, this]
    · have hnil : (if j.stream = s then j.ops.drop (pos 0) else []) = [] := by
        by_cases hs : j.stream = s
        · simpa [hs] using fun hne => hd ⟨hs, hne⟩
        · simp [hs]
      simp only [remaining, hnil, List.nil_append] at h
      obtain ⟨k, hk, hrest⟩ := ih h
      refine ⟨k + 1, ⟨by simpa using hk.stream, by simpa using hk.op_eq, ?_⟩, fun t => ?_⟩
      · intro i hi his
        cases i with
        | zero =>
          have hs : j.stream = s := by simpa using his
          simpa [hs] using hnil
        | succ i => simpa using hk.fifo i (by omega) (by simpa using his)
      · simp only [remaining, update_succ_comp, hrest t]
        by_cases hts : t = s
        · subst hts
          simpa using hnil
        · simp [hts]

/-- The next operation of a job is the head of what is left on its stream. -/
theorem Next.remaining_eq {s : σ} {js : List (Job σ Op)} {pos : ℕ → ℕ} {k : ℕ} {op : Op}
    (h : Next s js pos k op) : ∃ rest, remaining s js pos = op :: rest := by
  induction js generalizing pos k with
  | nil => simpa [opsAt] using h.op_eq
  | cons j js ih =>
    cases k with
    | zero =>
      have hs : j.stream = s := by simpa using h.stream
      have hget : j.ops[pos 0]? = some op := by simpa using h.op_eq
      obtain ⟨hlt, rfl⟩ := List.getElem?_eq_some_iff.mp hget
      refine ⟨_, by rw [remaining, if_pos hs, List.drop_eq_getElem_cons hlt]; rfl⟩
    | succ k =>
      have hnil : (if j.stream = s then j.ops.drop (pos 0) else []) = [] := by
        by_cases hs : j.stream = s
        · simpa [hs] using h.fifo 0 (by omega) (by simp [hs])
        · simp [hs]
      obtain ⟨rest, hrest⟩ := @ih (fun i => pos (i + 1)) k
        ⟨by simpa using h.stream, by simpa using h.op_eq,
          fun i hi his => by simpa using h.fifo (i + 1) (by omega) (by simpa using his)⟩
      exact ⟨rest, by simp [remaining, hnil, hrest]⟩

/-- Nothing is left on a stream once its jobs have run all their operations. -/
theorem le_pos_of_remaining_eq_nil {s : σ} {js : List (Job σ Op)} {pos : ℕ → ℕ} {k : ℕ}
    (h : remaining s js pos = []) (hs : streamAt js k = some s) : (opsAt js k).length ≤ pos k := by
  induction js generalizing pos k with
  | nil => simp [streamAt] at hs
  | cons j js ih =>
    obtain ⟨hhead, htail⟩ := List.append_eq_nil_iff.mp h
    cases k with
    | zero =>
      have hj : j.stream = s := by simpa using hs
      simpa [hj] using hhead
    | succ k => simpa using ih htail (by simpa using hs)

omit [DecidableEq ρ] in
theorem length_remaining_le (s : σ) (js : List (Job σ Op)) (pos : ℕ → ℕ) :
    (remaining s js pos).length ≤ (remaining s js fun _ => 0).length := by
  induction js generalizing pos with
  | nil => exact Nat.le_refl _
  | cons j js ih =>
    have hjs := ih fun k => pos (k + 1)
    simp only [remaining, List.length_append]
    by_cases hj : j.stream = s
    · simp only [hj, if_true, List.length_drop]
      omega
    · simpa [hj] using hjs

omit [DecidableEq ρ] in
/-- A job that has begun leaves less on its stream. -/
theorem length_remaining_lt {s : σ} {js : List (Job σ Op)} {pos : ℕ → ℕ} {k : ℕ}
    (hs : streamAt js k = some s) (hk : 0 < pos k) (hops : 0 < (opsAt js k).length) :
    (remaining s js pos).length < (remaining s js fun _ => 0).length := by
  induction js generalizing pos k with
  | nil => simp [opsAt] at hops
  | cons j js ih =>
    simp only [remaining, List.length_append]
    cases k with
    | zero =>
      have hj : j.stream = s := by simpa using hs
      have hjs := length_remaining_le s js fun k => pos (k + 1)
      rw [opsAt_zero] at hops
      simp only [hj, if_true, List.length_drop]
      omega
    | succ k =>
      have hjs := @ih (fun k => pos (k + 1)) k hs hk hops
      by_cases hj : j.stream = s
      · simp only [hj, if_true, List.length_drop]
        omega
      · simpa [hj] using hjs

/-- How many operations of each job of each party have run. -/
structure Progress (ρ Mem : Type*) where
  pos : ρ → ℕ → ℕ
  mem : Mem

def Progress.advance (p : Progress ρ Mem) (D : Device Op Mem) (r : ρ) (k : ℕ) (op : Op) :
    Progress ρ Mem :=
  ⟨Function.update p.pos r (Function.update (p.pos r) k (p.pos r k + 1)), D.run op p.mem⟩

theorem Progress.advance_pos (p : Progress ρ Mem) (D : Device Op Mem) (r q : ρ) (k i : ℕ)
    (op : Op) : (p.advance D r k op).pos q i =
      if q = r ∧ i = k then p.pos r k + 1 else p.pos q i := by
  by_cases hq : q = r
  · subst hq
    by_cases hi : i = k
    · subst hi; simp [advance]
    · simp [advance, hi]
  · simp [advance, hq]

theorem Progress.le_advance_pos (p : Progress ρ Mem) (D : Device Op Mem) (r q : ρ) (k i : ℕ)
    (op : Op) : p.pos q i ≤ (p.advance D r k op).pos q i := by
  rw [advance_pos]
  split_ifs with h
  · obtain ⟨rfl, rfl⟩ := h
    omega
  · exact Nat.le_refl _

/-- Only the job whose operation runs gets any further. -/
theorem Progress.le_advance_pos_iff (p : Progress ρ Mem) (D : Device Op Mem) (r q : ρ) (k i n : ℕ)
    (op : Op) : n ≤ (p.advance D r k op).pos q i ↔
      n ≤ p.pos q i ∨ q = r ∧ i = k ∧ n = p.pos r k + 1 := by
  rw [advance_pos]
  split_ifs with h
  · obtain ⟨rfl, rfl⟩ := h
    simp
    omega
  · exact ⟨.inl, fun hor => hor.resolve_right fun hand => h ⟨hand.1, hand.2.1⟩⟩

@[simp] theorem Progress.advance_mem (p : Progress ρ Mem) (D : Device Op Mem) (r : ρ) (k : ℕ)
    (op : Op) : (p.advance D r k op).mem = D.run op p.mem := rfl

/-- One step: the next operation of some job runs. -/
inductive Advance (D : Device Op Mem) (jobs : ρ → List (Job σ Op)) :
    Progress ρ Mem → Progress ρ Mem → Prop
  | run {p : Progress ρ Mem} {r : ρ} {s : σ} {k : ℕ} {op : Op}
      (hn : Next s (jobs r) (p.pos r) k op) (hr : D.ready op p.mem) :
      Advance D jobs p (p.advance D r k op)

def progress (D : Device Op Mem) (jobs : ρ → List (Job σ Op)) (m : Mem) : System (Progress ρ Mem) where
  init p := p = ⟨fun _ _ => 0, m⟩
  step := Advance D jobs

/-- The streams hold exactly what the progress of the jobs leaves on them. -/
structure Tracks (jobs : ρ → List (Job σ Op)) (c : Config (ρ × σ) Op Mem) (p : Progress ρ Mem) :
    Prop where
  mem_eq : p.mem = c.mem
  queue_eq : ∀ r s, c.queue (r, s) = remaining s (jobs r) (p.pos r)

/-- All jobs enqueued, none begun. -/
def enqueued (jobs : ρ → List (Job σ Op)) (m : Mem) : Config (ρ × σ) Op Mem :=
  ⟨fun rs => remaining rs.2 (jobs rs.1) (fun _ => 0), m⟩

theorem progress_simulation (D : Device Op Mem) (jobs : ρ → List (Job σ Op)) (m : Mem) :
    System.Simulation (system D (enqueued jobs m)) (progress D jobs m) (Tracks jobs) where
  init c hc := by
    subst hc
    exact ⟨_, rfl, rfl, fun _ _ => rfl⟩
  step c c' p ht hst := by
    obtain ⟨hq, hr⟩ := hst
    rename_i rs op rest
    obtain ⟨r, s⟩ := rs
    rw [ht.queue_eq] at hq
    obtain ⟨k, hk, hrest⟩ := remaining_eq_cons hq
    refine .inr ⟨p.advance D r k op, .run hk (ht.mem_eq ▸ hr), by simp [ht.mem_eq], fun q t => ?_⟩
    by_cases hqr : q = r
    · subst hqr
      simp only [Progress.advance, Function.update_self, hrest t]
      by_cases hts : t = s
      · subst hts; simp
      · rw [if_neg hts, ← ht.queue_eq]
        exact Function.update_of_ne (by simpa using hts) _ _
    · change Function.update c.queue (r, s) rest (q, t) = _
      rw [Function.update_of_ne (by simp [hqr]), ht.queue_eq]
      simp [Progress.advance, hqr]

theorem Tracks.canStep {D : Device Op Mem} {jobs : ρ → List (Job σ Op)} {m : Mem}
    {c : Config (ρ × σ) Op Mem} {p : Progress ρ Mem} (ht : Tracks jobs c p)
    (hs : (progress D jobs m).CanStep p) : (system D (enqueued jobs m)).CanStep c := by
  obtain ⟨p', ⟨hn, hr⟩⟩ := hs
  obtain ⟨rest, hrest⟩ := hn.remaining_eq
  exact ⟨_, .execute ((ht.queue_eq _ _).trans hrest) (ht.mem_eq ▸ hr)⟩

omit [DecidableEq ρ] in
/-- An unfinished stream has a job with operations left. -/
theorem Tracks.unfinished {jobs : ρ → List (Job σ Op)} {c : Config (ρ × σ) Op Mem}
    {p : Progress ρ Mem} (ht : Tracks jobs c p) (hu : c.Unfinished) :
    ∃ r k, p.pos r k < (opsAt (jobs r) k).length := by
  obtain ⟨⟨r, s⟩, hq⟩ := hu
  obtain ⟨op, rest, hcons⟩ := List.exists_cons_of_ne_nil hq
  rw [ht.queue_eq] at hcons
  obtain ⟨k, hk, _⟩ := remaining_eq_cons hcons
  exact ⟨r, k, (List.getElem?_eq_some_iff.mp hk.op_eq).1⟩

omit [DecidableEq σ] in
theorem pos_le {D : Device Op Mem} {jobs : ρ → List (Job σ Op)} {m : Mem} {p : Progress ρ Mem}
    (h : (progress D jobs m).Reachable p) (r : ρ) (k : ℕ) :
    p.pos r k ≤ (opsAt (jobs r) k).length := by
  refine System.Reachable.invariant (I := fun p => ∀ r k, p.pos r k ≤ (opsAt (jobs r) k).length)
    ?_ ?_ h r k
  · rintro _ rfl r k
    exact Nat.zero_le _
  · intro p p' _ hI hst r k
    obtain ⟨hn, _⟩ := hst
    have hlt := (List.getElem?_eq_some_iff.mp hn.op_eq).1
    rw [Progress.advance_pos]
    split_ifs with h
    · obtain ⟨rfl, rfl⟩ := h
      omega
    · exact hI r k

omit [DecidableEq σ] in
/-- A job that has begun has all earlier jobs of its stream behind it. -/
theorem pos_fifo {D : Device Op Mem} {jobs : ρ → List (Job σ Op)} {m : Mem} {p : Progress ρ Mem}
    (h : (progress D jobs m).Reachable p) (r : ρ) {j k : ℕ} (hjk : j < k)
    (hs : streamAt (jobs r) j = streamAt (jobs r) k) (hk : 0 < p.pos r k) :
    p.pos r j = (opsAt (jobs r) j).length := by
  refine Nat.le_antisymm (pos_le h r j) ?_
  refine System.Reachable.invariant (I := fun p => ∀ r j k, j < k →
    streamAt (jobs r) j = streamAt (jobs r) k → 0 < p.pos r k → (opsAt (jobs r) j).length ≤ p.pos r j)
    ?_ ?_ h r j k hjk hs hk
  · rintro _ rfl r j k _ _ hk
    exact absurd hk (Nat.lt_irrefl 0)
  · intro p p' _ hI hst q i l hil his hpos
    cases hst with
    | @run r s k op hn hr =>
      rw [Progress.advance_pos] at hpos ⊢
      have hi : p.pos q i ≤ if q = r ∧ i = k then p.pos r k + 1 else p.pos q i := by
        split_ifs with hc
        · obtain ⟨rfl, rfl⟩ := hc; omega
        · exact Nat.le_refl _
      refine Nat.le_trans ?_ hi
      by_cases hc : q = r ∧ l = k
      · obtain ⟨rfl, rfl⟩ := hc
        exact hn.fifo i hil (his.trans hn.stream)
      · rw [if_neg hc] at hpos
        exact hI q i l hil his hpos

/-- All jobs of a party are on one stream. -/
def OneStream (js : List (Job σ Op)) : Prop :=
  ∀ j k s t, streamAt js j = some s → streamAt js k = some t → s = t

omit [DecidableEq σ] in
theorem streamAt_isSome_of_lt {js : List (Job σ Op)} {j k : ℕ} (hjk : j ≤ k)
    (hk : (streamAt js k).isSome) : ∃ s, streamAt js j = some s := by
  simp only [streamAt, Option.isSome_map, isSome_getElem?] at hk
  exact ⟨_, by rw [streamAt, List.getElem?_eq_getElem (Nat.lt_of_le_of_lt hjk hk)]; rfl⟩

omit [DecidableEq σ] in
theorem streamAt_of_op {js : List (Job σ Op)} {k n : ℕ} {op : Op}
    (h : (opsAt js k)[n]? = some op) : (streamAt js k).isSome := by
  cases hj : js[k]? with
  | some j => simp [streamAt, hj]
  | none => simp [opsAt, hj] at h

omit [DecidableEq σ] in
/-- On one stream, a job that has begun has all earlier jobs behind it. -/
theorem begun_after {D : Device Op Mem} {jobs : ρ → List (Job σ Op)} {m : Mem} {p : Progress ρ Mem}
    {r : ρ} (hone : OneStream (jobs r)) (h : (progress D jobs m).Reachable p) {j k : ℕ} (hjk : j < k)
    (hk : 0 < p.pos r k) : p.pos r j = (opsAt (jobs r) j).length := by
  have hlt := Nat.lt_of_lt_of_le hk (pos_le h r k)
  have hsome := streamAt_of_op (List.getElem?_eq_getElem hlt)
  obtain ⟨s, hs⟩ := streamAt_isSome_of_lt (Nat.le_of_lt hjk) hsome
  obtain ⟨t, ht⟩ := Option.isSome_iff_exists.mp hsome
  refine pos_fifo h r hjk ?_ hk
  rw [hs, ht, hone j k s t hs ht]

omit [DecidableEq σ] in
/-- On one stream, nothing later has begun when an operation is next. -/
theorem not_begun_of_next {D : Device Op Mem} {jobs : ρ → List (Job σ Op)} {m : Mem}
    {p : Progress ρ Mem} {r : ρ} (hone : OneStream (jobs r)) (h : (progress D jobs m).Reachable p)
    {s : σ} {k : ℕ} {op : Op} (hn : Next s (jobs r) (p.pos r) k op) {j : ℕ} (hkj : k < j) :
    p.pos r j = 0 := by
  by_contra hne
  have hdone := begun_after hone h hkj (Nat.pos_of_ne_zero hne)
  have hlt := (List.getElem?_eq_some_iff.mp hn.op_eq).1
  omega

omit [DecidableEq ρ] [DecidableEq σ] in
/-- The first job not yet over has an operation that is next. -/
theorem exists_next {js : List (Job σ Op)} {pos : ℕ → ℕ} {i : ℕ} (hi : pos i < (opsAt js i).length) :
    ∃ s k op, k ≤ i ∧ Next s js pos k op ∧ ∀ j < k, (opsAt js j).length ≤ pos j := by
  have hex : ∃ k, pos k < (opsAt js k).length := ⟨i, hi⟩
  classical
  have hspec := Nat.find_spec hex
  have hmin : ∀ j < Nat.find hex, (opsAt js j).length ≤ pos j := fun j hj =>
    Nat.le_of_not_lt (Nat.find_min hex hj)
  have hop := List.getElem?_eq_getElem hspec
  obtain ⟨s, hs⟩ := Option.isSome_iff_exists.mp (streamAt_of_op hop)
  exact ⟨s, _, _, Nat.find_min' hex hi, ⟨hs, hop, fun j hj _ => hmin j hj⟩, hmin⟩

/-- The programs of the hosts put the jobs on the streams, those of party r on the streams
(r, s), each stream fed by one host. -/
structure Realizes {η : Type*} (owner : ρ × σ → η) (program : η → List (Instr (ρ × σ) Op))
    (jobs : ρ → List (Job σ Op)) : Prop where
  owned : ∀ h, ∀ i ∈ program h, owner i.stream = h
  ordered : ∀ h, Instr.Ordered (fun _ => False) (program h)
  queue_eq : ∀ r s, (program (owner (r, s))).filterMap (Instr.opOn (r, s)) =
    remaining s (jobs r) (fun _ => 0)

/-- The jobs as one sequence of operations, each with its stream. -/
def flatten (js : List (Job σ Op)) : List (σ × Op) :=
  js.flatMap fun j => j.ops.map fun op => (j.stream, op)

/-- The instructions of party r that enqueue the operations. -/
def enqueues (r : ρ) (ops : List (σ × Op)) : List (Instr (ρ × σ) Op) :=
  ops.map fun e => .enqueue (r, e.1) e.2

omit [DecidableEq ρ] [DecidableEq σ] in
theorem enqueues_isEnqueue (r : ρ) (ops : List (σ × Op)) :
    ∀ i ∈ enqueues r ops, i.IsEnqueue := by
  intro i hi
  obtain ⟨e, _, rfl⟩ := List.mem_map.mp hi
  trivial

omit [DecidableEq ρ] [DecidableEq σ] in
theorem enqueues_append (r : ρ) (ops ops' : List (σ × Op)) :
    enqueues r (ops ++ ops') = enqueues r ops ++ enqueues r ops' := List.map_append

/-- On one stream, enqueueing the jobs puts all their operations there in order. -/
theorem filterMap_enqueues (r : ρ) (s : σ) (js : List (Job σ Op)) :
    (enqueues r (flatten js)).filterMap (Instr.opOn (r, s)) = remaining s js (fun _ => 0) := by
  induction js with
  | nil => rfl
  | cons j js ih =>
    have hj : (enqueues r (j.ops.map fun op => (j.stream, op))).filterMap (Instr.opOn (r, s)) =
        if j.stream = s then j.ops else [] := by
      rw [enqueues, List.map_map, List.filterMap_map]
      by_cases hs : j.stream = s <;> simp [Function.comp_def, hs]
    simp [flatten, enqueues_append, remaining, hj, ← ih]

/-- Nothing of one party goes to the streams of another. -/
theorem filterMap_enqueues_of_ne {q r : ρ} (hqr : q ≠ r) (s : σ) (ops : List (σ × Op)) :
    (enqueues q ops).filterMap (Instr.opOn (r, s)) = [] := by
  simp [enqueues, List.filterMap_map, Function.comp_def, hqr]

/-- Every party has a host of its own, which enqueues its jobs in order. -/
theorem realizes_flatten (jobs : ρ → List (Job σ Op)) :
    Realizes Prod.fst (fun r => enqueues r (flatten (jobs r))) jobs where
  owned r i hi := by
    obtain ⟨e, _, rfl⟩ := List.mem_map.mp hi
    rfl
  ordered r := Instr.ordered_of_enqueue (enqueues_isEnqueue r _) _
  queue_eq r s := filterMap_enqueues r s (jobs r)

/-- Every party has a host of its own, whose program is a sequence of blocks, each for one stream
of the party and in order whatever that stream still holds. -/
theorem realizes_blocks {β : Type*} (blocks : ρ → List β) (stream : β → σ)
    (instrs : ρ → β → List (Instr (ρ × σ) Op))
    (hon : ∀ r, ∀ b ∈ blocks r, ∀ i ∈ instrs r b, i.stream = (r, stream b))
    (hord : ∀ r, ∀ b ∈ blocks r, Instr.Ordered (fun _ => True) (instrs r b)) :
    Realizes Prod.fst (fun r => (blocks r).flatMap (instrs r))
      (fun r => (blocks r).map fun b => ⟨stream b, (instrs r b).map Instr.op⟩) where
  owned r i hi := by
    obtain ⟨b, hb, hib⟩ := List.mem_flatMap.mp hi
    rw [hon r b hb i hib]
  ordered r := by
    have hr := hord r
    refine Instr.Ordered.mono (?_ : Instr.Ordered (fun _ => True) _) fun _ _ => trivial
    generalize blocks r = bs at hr
    induction bs with
    | nil => trivial
    | cons b bs ih =>
      obtain ⟨hb, hbs⟩ := List.forall_mem_cons.mp hr
      exact hb.append (ih hbs)
  queue_eq r s := by
    have hr := hon r
    change ((blocks r).flatMap (instrs r)).filterMap _ = _
    generalize blocks r = bs at hr
    induction bs with
    | nil => rfl
    | cons b bs ih =>
      obtain ⟨hb, hbs⟩ := List.forall_mem_cons.mp hr
      have hblock : (instrs r b).filterMap (Instr.opOn (r, s)) =
          if stream b = s then (instrs r b).map Instr.op else [] := by
        by_cases hs : stream b = s
        · rw [if_pos hs, ← List.filterMap_eq_map]
          refine List.filterMap_congr fun i hi => ?_
          simp [Instr.opOn, hb i hi, hs]
        · rw [if_neg hs, List.filterMap_eq_nil_iff]
          intro i hi
          simp [Instr.opOn, hb i hi, hs]
      rw [List.flatMap_cons, List.filterMap_append, hblock, ih hbs]
      simp [remaining]

/-- A sequence of blocks, each with operations for at most one stream of every party. -/
theorem filterMap_blocks {β : Type*} {blocks : List β} {stream : ρ → β → σ}
    {items : β → List ((ρ × σ) × Op)} {ops : ρ → β → List Op}
    (hitems : ∀ b ∈ blocks, ∀ r s,
      (items b).filterMap (fun e => if e.1 = (r, s) then some e.2 else none) =
        if stream r b = s then ops r b else []) (r : ρ) (s : σ) :
    ((blocks.flatMap items).map fun e => Instr.enqueue e.1 e.2).filterMap (Instr.opOn (r, s)) =
      remaining s (blocks.map fun b => ⟨stream r b, ops r b⟩) (fun _ => 0) := by
  have hop : (Instr.opOn (r, s) ∘ fun e : (ρ × σ) × Op => Instr.enqueue e.1 e.2) =
      fun e => if e.1 = (r, s) then some e.2 else none := rfl
  rw [List.filterMap_map, hop]
  induction blocks with
  | nil => rfl
  | cons b blocks ih =>
    obtain ⟨hb, hbs⟩ := List.forall_mem_cons.mp hitems
    rw [List.flatMap_cons, List.filterMap_append, hb r s, ih hbs]
    simp [remaining]

/-- One host for all parties, which enqueues such blocks. -/
theorem realizes_oneHost {β : Type*} {blocks : List β} {stream : ρ → β → σ}
    {items : β → List ((ρ × σ) × Op)} {ops : ρ → β → List Op}
    (hitems : ∀ b ∈ blocks, ∀ r s,
      (items b).filterMap (fun e => if e.1 = (r, s) then some e.2 else none) =
        if stream r b = s then ops r b else []) :
    Realizes (fun _ => ()) (fun _ => (blocks.flatMap items).map fun e => .enqueue e.1 e.2)
      (fun r => blocks.map fun b => ⟨stream r b, ops r b⟩) where
  owned _ _ _ := rfl
  ordered _ := by
    refine Instr.ordered_of_enqueue (fun i hi => ?_) _
    obtain ⟨e, -, rfl⟩ := List.mem_map.mp hi
    trivial
  queue_eq r s := filterMap_blocks hitems r s

section Realizing
variable {η : Type*} [DecidableEq η] {owner : ρ × σ → η} {program : η → List (Instr (ρ × σ) Op)}
  {jobs : ρ → List (Job σ Op)} {D : Device Op Mem} {m : Mem} {c : HostConfig η (ρ × σ) Op Mem}

/-- Hosts, streams and progress side by side. -/
structure Follows (owner : ρ × σ → η) (D : Device Op Mem) (jobs : ρ → List (Job σ Op)) (m : Mem)
    (c : HostConfig η (ρ × σ) Op Mem) (p : Progress ρ Mem) : Prop where
  flat : ∃ a, Flattens owner c a ∧ Tracks jobs a p
  reachable : (progress D jobs m).Reachable p

/-- Every run of the hosts and streams is a run of the jobs' progress. -/
theorem Realizes.follows (hr : Realizes owner program jobs)
    (hc : (hostSystem D (HostConfig.start program m)).Reachable c) :
    ∃ p, Follows owner D jobs m c p := by
  have hstart : Flattens owner (HostConfig.start program m) (enqueued jobs m) := by
    have hf : Flattens owner (HostConfig.start program m) _ := .start m hr.owned hr.ordered
    refine ⟨hf.mem_eq, fun rs => ?_, hf.owned, hf.ordered⟩
    rw [← hf.queue_eq rs]
    exact (hr.queue_eq rs.1 rs.2).symm
  obtain ⟨a, ha, hf⟩ := (host_simulation hstart).reachable hc
  obtain ⟨p, hp, ht⟩ := (progress_simulation D jobs m).reachable ha
  exact ⟨p, ⟨a, hf, ht⟩, hp⟩

omit [DecidableEq η] in
theorem Follows.mem_eq {p : Progress ρ Mem} (h : Follows owner D jobs m c p) : p.mem = c.mem := by
  obtain ⟨a, hf, ht⟩ := h.flat
  exact ht.mem_eq.trans hf.mem_eq

omit [DecidableEq η] in
/-- The head of a stream is the next operation of some job. -/
theorem Follows.next {p : Progress ρ Mem} (h : Follows owner D jobs m c p) {r : ρ} {s : σ} {op : Op}
    {rest : List Op} (hq : c.queue (r, s) = op :: rest) : ∃ k, Next s (jobs r) (p.pos r) k op := by
  obtain ⟨a, hf, ht⟩ := h.flat
  have hcons : remaining s (jobs r) (p.pos r) =
      op :: (rest ++ (c.pending (owner (r, s))).filterMap (Instr.opOn (r, s))) := by
    rw [← ht.queue_eq, hf.queue_eq, HostConfig.future, hq, List.cons_append]
  obtain ⟨k, hk, _⟩ := remaining_eq_cons hcons
  exact ⟨k, hk⟩

omit [DecidableEq η] in
/-- A party for which nothing is left to do has run all operations of its jobs. -/
theorem Follows.finished_party {p : Progress ρ Mem} (h : Follows owner D jobs m c p) {r : ρ}
    (hpending : ∀ s, c.pending (owner (r, s)) = []) (hqueue : ∀ s, c.queue (r, s) = []) (k : ℕ) :
    (opsAt (jobs r) k).length ≤ p.pos r k := by
  obtain ⟨a, hf, ht⟩ := h.flat
  cases hj : (jobs r)[k]? with
  | none => simp [opsAt, hj]
  | some j =>
    refine le_pos_of_remaining_eq_nil (s := j.stream) ?_ (by simp [streamAt, hj])
    rw [← ht.queue_eq, hf.queue_eq, HostConfig.future, hpending, hqueue]
    rfl

omit [DecidableEq η] in
/-- When nothing is left to do, every job has run all its operations. -/
theorem Follows.finished {p : Progress ρ Mem} (h : Follows owner D jobs m c p)
    (hu : ¬ c.Unfinished) (r : ρ) (k : ℕ) : (opsAt (jobs r) k).length ≤ p.pos r k := by
  simp only [HostConfig.Unfinished, not_or, not_exists, not_not] at hu
  exact h.finished_party (fun s => hu.1 _) (fun s => hu.2 _) k

omit [DecidableEq η] in
/-- A party that has still to issue all its jobs has begun none. -/
theorem Follows.not_begun {p : Progress ρ Mem} (h : Follows owner D jobs m c p)
    (hr : Realizes owner program jobs) {r : ρ}
    (hpending : ∀ s, c.pending (owner (r, s)) = program (owner (r, s))) (k : ℕ) : p.pos r k = 0 := by
  obtain ⟨a, hf, ht⟩ := h.flat
  by_contra hk
  have hops := Nat.lt_of_lt_of_le (Nat.pos_of_ne_zero hk) (pos_le h.reachable r k)
  obtain ⟨s, hs⟩ := Option.isSome_iff_exists.mp (streamAt_of_op (List.getElem?_eq_getElem hops))
  have hlt := length_remaining_lt hs (Nat.pos_of_ne_zero hk) (Nat.zero_lt_of_lt hops)
  have hqueue := congrArg List.length (ht.queue_eq r s)
  rw [hf.queue_eq, HostConfig.future, hpending, hr.queue_eq, List.length_append] at hqueue
  omega

/-- With hosts that only enqueue, nothing is stuck unless the progress of the jobs is. -/
theorem Follows.canStep {p : Progress ρ Mem} (h : Follows owner D jobs m c p)
    (henq : ∀ h, ∀ i ∈ program h, i.IsEnqueue)
    (hc : (hostSystem D (HostConfig.start program m)).Reachable c) (hu : c.Unfinished)
    (hlive : (∃ r k, p.pos r k < (opsAt (jobs r) k).length) → (progress D jobs m).CanStep p) :
    (hostSystem D (HostConfig.start program m)).CanStep c := by
  obtain ⟨a, hf, ht⟩ := h.flat
  exact hf.canStep (pending_enqueue henq hc) (ht.canStep (hlive (ht.unfinished (hf.unfinished hu))))

end Realizing
end MultiGpuTransport.Streams
