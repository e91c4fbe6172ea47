import Mathlib.Data.List.Infix
import MultiGpuTransport.Lib.Runs

/-!
# Shutting down

Hosts that release what their operations use. A host whose program is done waits for its streams,
tells the others that it has arrived, waits for them, and then releases its resources one by one,
while the other hosts and all streams go on.

`quiet_of_released` is what a host gets from waiting for its own streams, `finished_of_released`
what it gets from a barrier that lets nobody through too early. With a barrier of the whole group no
shutdown is stuck (`neverStuck_closing`), and then all hosts come to the end
(`exists_run_to_closed`).
-/
namespace MultiGpuTransport.Streams
open Transition

/-- What a host does after its program. -/
inductive Shutdown (ρ : Type*)
  | synchronize
  | arrive
  | pass
  | release (resource : ρ)
  deriving DecidableEq, Repr

/-- How the hosts wait for each other: what an arrival and a passage do to the memory, and when a
host may pass, given who has arrived. -/
structure Barrier (η Mem : Type*) where
  arrive : η → Mem → Mem
  ready : η → (η → Prop) → Mem → Prop
  pass : η → Mem → Mem

/-- A barrier of the whole group, apart from the memory. -/
def Barrier.group (η Mem : Type*) : Barrier η Mem where
  arrive _ m := m
  ready _ arrived _ := ∀ g, arrived g
  pass _ m := m

/-- The work, and what each host still does after its own. -/
structure Closing (η σ Op Mem ρ : Type*) where
  work : HostConfig η σ Op Mem
  left : η → List (Shutdown ρ)

variable {η σ Op Mem ρ : Type*}

def Closing.Arrived (c : Closing η σ Op Mem ρ) (h : η) : Prop := Shutdown.arrive ∉ c.left h

namespace Shutdown

/-- When host h may take the step. -/
def Ready (B : Barrier η Mem) (owner : σ → η) (h : η) (c : Closing η σ Op Mem ρ) :
    Shutdown ρ → Prop
  | synchronize => ∀ s, owner s = h → c.work.queue s = []
  | pass => B.ready h c.Arrived c.work.mem
  | arrive | release _ => True

def run (B : Barrier η Mem) (h : η) : Shutdown ρ → Mem → Mem
  | arrive, m => B.arrive h m
  | pass, m => B.pass h m
  | synchronize, m | release _, m => m

@[simp] theorem run_group (h : η) (x : Shutdown ρ) (m : Mem) :
    x.run (Barrier.group η Mem) h m = m := by
  cases x <;> rfl

/-- Wait for the streams and for the other hosts, then release. -/
def steps (resources : List ρ) : List (Shutdown ρ) :=
  synchronize :: arrive :: pass :: resources.map release

/-- The steps are taken in their order. -/
theorem steps_ordered {resources : List ρ} {left : List (Shutdown ρ)}
    (h : left <:+ steps resources) :
    (arrive ∉ left → synchronize ∉ left) ∧ (pass ∉ left → arrive ∉ left) ∧
      ∀ r ∈ resources, release r ∉ left → pass ∉ left := by
  simp only [steps, List.suffix_cons_iff] at h
  rcases h with rfl | rfl | rfl | h
  · simp
  · simp
  · simp_all
  · have hreleases : ∀ x ∈ left, ∃ r, x = release r := by
      intro x hx
      obtain ⟨r, -, rfl⟩ := List.mem_map.mp (h.subset hx)
      exact ⟨r, rfl⟩
    have hnot : ∀ x, (∀ r, x ≠ release r) → x ∉ left := by
      intro x hx hmem
      obtain ⟨r, rfl⟩ := hreleases x hmem
      exact hx r rfl
    simp [hnot]

/-- A step that is no release is left once or not at all. -/
theorem countP_eq {resources : List ρ} [DecidableEq ρ] {left : List (Shutdown ρ)}
    (h : left <:+ steps resources) {x : Shutdown ρ} (hx : ∀ r, x ≠ release r) :
    left.countP (· = x) = if x ∈ left then 1 else 0 := by
  have hreleases : (resources.map release).countP (· = x) = 0 := by
    simp [List.countP_eq_zero, Ne.symm (hx _)]
  have hsteps : (steps resources).countP (· = x) ≤ 1 := by
    cases x with
    | release r => exact absurd rfl (hx r)
    | synchronize | arrive | pass => simp [steps, hreleases]
  have hle := Nat.le_trans h.sublist.countP_le hsteps
  split_ifs with hmem
  · have hpos : 0 < left.countP (· = x) := List.countP_pos_iff.mpr ⟨x, hmem, decide_eq_true rfl⟩
    omega
  · apply List.countP_eq_zero.mpr
    rintro y hy heq
    exact hmem (of_decide_eq_true heq ▸ hy)

/-- Who is to arrive next has waited for its streams. -/
theorem synchronize_notMem_of_arrive {resources : List ρ} {rest : List (Shutdown ρ)}
    (h : arrive :: rest <:+ steps resources) : synchronize ∉ rest := by
  simp only [steps, List.suffix_cons_iff, List.cons.injEq, reduceCtorEq, false_and, true_and,
    false_or] at h
  rcases h with rfl | h
  · simp
  · obtain ⟨r, -, hr⟩ := List.mem_map.mp (h.subset List.mem_cons_self)
    exact absurd hr (by simp)

/-- Who is to pass next has arrived. -/
theorem arrive_notMem_of_pass {resources : List ρ} {rest : List (Shutdown ρ)}
    (h : pass :: rest <:+ steps resources) : arrive ∉ rest := by
  simp only [steps, List.suffix_cons_iff, List.cons.injEq, reduceCtorEq, false_and, true_and,
    false_or] at h
  rcases h with rfl | h
  · simp
  · obtain ⟨r, -, hr⟩ := List.mem_map.mp (h.subset List.mem_cons_self)
    exact absurd hr (by simp)

end Shutdown

variable [DecidableEq η] [DecidableEq σ]

/-- The hosts and streams go on with the work; a host whose program is done takes its next step. -/
inductive CloseStep (D : Device Op Mem) (B : Barrier η Mem) (owner : σ → η) :
    Closing η σ Op Mem ρ → Closing η σ Op Mem ρ → Prop
  | work {c : Closing η σ Op Mem ρ} {w : HostConfig η σ Op Mem} (hst : HostStep D c.work w) :
      CloseStep D B owner c ⟨w, c.left⟩
  | shutdown {c : Closing η σ Op Mem ρ} {h : η} {x : Shutdown ρ} {rest : List (Shutdown ρ)}
      (hp : c.work.pending h = []) (hl : c.left h = x :: rest) (hr : x.Ready B owner h c) :
      CloseStep D B owner c
        ⟨⟨c.work.pending, c.work.queue, x.run B h c.work.mem⟩, Function.update c.left h rest⟩

/-- Hosts that run their programs and then each shut down. -/
def closing (D : Device Op Mem) (B : Barrier η Mem) (owner : σ → η)
    (start : HostConfig η σ Op Mem) (plan : η → List (Shutdown ρ)) :
    System (Closing η σ Op Mem ρ) where
  init c := c = ⟨start, plan⟩
  step := CloseStep D B owner

def Closing.Unfinished (c : Closing η σ Op Mem ρ) : Prop :=
  c.work.Unfinished ∨ ∃ h, c.left h ≠ []

/-- Host h has nothing to do any more, and neither have its streams. -/
def HostConfig.Quiet (owner : σ → η) (c : HostConfig η σ Op Mem) (h : η) : Prop :=
  c.pending h = [] ∧ ∀ s, owner s = h → c.queue s = []

section
variable {D : Device Op Mem} {B : Barrier η Mem} {owner : σ → η} {start : HostConfig η σ Op Mem}
  {resources : η → List ρ} {c c' : Closing η σ Op Mem ρ}

omit [DecidableEq η] [DecidableEq σ] in
theorem HostConfig.not_unfinished_of_quiet {c : HostConfig η σ Op Mem}
    (h : ∀ g, c.Quiet owner g) : ¬ c.Unfinished := by
  rintro (⟨g, hp⟩ | ⟨s, hq⟩)
  · exact hp (h g).1
  · exact hq ((h (owner s)).2 s rfl)

/-- Only the host itself puts operations on its streams, so that it stays quiet. -/
theorem HostConfig.Quiet.step {c c' : HostConfig η σ Op Mem} {h : η} (hquiet : c.Quiet owner h)
    (howned : ∀ g, ∀ i ∈ c.pending g, owner i.stream = g) (hst : HostStep D c c') :
    c'.Quiet owner h := by
  obtain ⟨hpending, hqueue⟩ := hquiet
  have hother : ∀ {g : η} {i : Instr σ Op} {is : List (Instr σ Op)}, c.pending g = i :: is →
      g ≠ h := by
    rintro g i is hp rfl
    simp [hpending] at hp
  cases hst with
  | @enqueue g s op is hp =>
    have hg := hother hp
    have hs : owner s = g := howned g (.enqueue s op) (by simp [hp])
    refine ⟨by simpa [Ne.symm hg] using hpending, fun t ht => ?_⟩
    have hts : t ≠ s := by
      rintro rfl
      exact hg (hs.symm.trans ht)
    simpa [hts] using hqueue t ht
  | call hp _ _ => exact ⟨by simpa [Ne.symm (hother hp)] using hpending, hqueue⟩
  | @execute s op rest hq _ =>
    refine ⟨hpending, fun t ht => ?_⟩
    have hts : t ≠ s := by
      rintro rfl
      simp [hqueue t ht] at hq
    simpa [hts] using hqueue t ht

theorem owned_step {c c' : HostConfig η σ Op Mem}
    (howned : ∀ g, ∀ i ∈ c.pending g, owner i.stream = g) (hst : HostStep D c c') :
    ∀ g, ∀ i ∈ c'.pending g, owner i.stream = g := by
  cases hst with
  | enqueue hp => exact owned_update howned hp
  | call hp _ _ => exact owned_update howned hp
  | execute _ _ => exact howned

/-- What holds while hosts shut down: they are somewhere in their steps, and a host that has waited
for its streams is quiet. -/
structure Closing.Inv (owner : σ → η) (resources : η → List ρ) (c : Closing η σ Op Mem ρ) :
    Prop where
  owned : ∀ h, ∀ i ∈ c.work.pending h, owner i.stream = h
  suffix : ∀ h, c.left h <:+ Shutdown.steps (resources h)
  quiet : ∀ h, .synchronize ∉ c.left h → c.work.Quiet owner h

theorem Closing.Inv.step (inv : c.Inv owner resources) (hst : CloseStep D B owner c c') :
    c'.Inv owner resources := by
  cases hst with
  | work hst =>
    exact ⟨owned_step inv.owned hst, inv.suffix,
      fun h hsync => (inv.quiet h hsync).step inv.owned hst⟩
  | @shutdown h x rest hp hl hr =>
    have hrest : rest <:+ c.left h := hl ▸ List.suffix_cons x rest
    refine ⟨inv.owned, fun g => ?_, fun g hsync => ?_⟩
    · by_cases hg : g = h
      · subst hg
        simpa using hrest.trans (inv.suffix g)
      · simpa [hg] using inv.suffix g
    · by_cases hg : g = h
      · subst hg
        by_cases hx : x = .synchronize
        · subst hx
          exact ⟨hp, hr⟩
        · exact inv.quiet g (by simpa [hl, Ne.symm hx] using hsync)
      · exact inv.quiet g (by simpa [hg] using hsync)

/-- The plan of every host. -/
abbrev shutdownPlan (resources : η → List ρ) (h : η) : List (Shutdown ρ) := Shutdown.steps (resources h)

theorem closing_inv (howned : ∀ h, ∀ i ∈ start.pending h, owner i.stream = h)
    (hc : (closing D B owner start (shutdownPlan resources)).Reachable c) : c.Inv owner resources := by
  refine System.Reachable.invariant ?_ (fun _ _ _ inv hst => inv.step hst) hc
  rintro _ rfl
  exact ⟨howned, fun h => List.suffix_rfl, fun h hsync => absurd (by simp [Shutdown.steps]) hsync⟩

/-- Host h has released the resource. -/
def Closing.Released (resources : η → List ρ) (c : Closing η σ Op Mem ρ) (h : η) (r : ρ) : Prop :=
  r ∈ resources h ∧ .release r ∉ c.left h

/-- Nobody is past the barrier before all have arrived. -/
def Closing.Sound (c : Closing η σ Op Mem ρ) : Prop :=
  ∀ h, .pass ∉ c.left h → ∀ g, c.Arrived g

/-- A host that releases has nothing to do any more, and neither have its streams. -/
theorem quiet_of_released (howned : ∀ h, ∀ i ∈ start.pending h, owner i.stream = h)
    (hc : (closing D B owner start (shutdownPlan resources)).Reachable c) {h : η} {r : ρ}
    (hr : c.Released resources h r) : c.work.Quiet owner h := by
  have inv := closing_inv howned hc
  obtain ⟨harrive, hpass, hrelease⟩ := Shutdown.steps_ordered (inv.suffix h)
  exact inv.quiet h (harrive (hpass (hrelease r hr.1 hr.2)))

/-- Behind a sound barrier nobody has. -/
theorem finished_of_released (howned : ∀ h, ∀ i ∈ start.pending h, owner i.stream = h)
    (hc : (closing D B owner start (shutdownPlan resources)).Reachable c) (hsound : c.Sound) {h : η} {r : ρ}
    (hr : c.Released resources h r) : ¬ c.work.Unfinished := by
  have inv := closing_inv howned hc
  have hpass := (Shutdown.steps_ordered (inv.suffix h)).2.2 r hr.1 hr.2
  refine HostConfig.not_unfinished_of_quiet fun g => inv.quiet g ?_
  exact (Shutdown.steps_ordered (inv.suffix g)).1 (hsound h hpass g)

/-! ### A barrier of the whole group -/

omit [DecidableEq σ] in
/-- Who has arrived stays so. -/
theorem Closing.Arrived.update {h g : η} {x : Shutdown ρ} {rest : List (Shutdown ρ)}
    (hl : c.left h = x :: rest) (ha : c.Arrived g) :
    Shutdown.arrive ∉ Function.update c.left h rest g := by
  by_cases hg : g = h
  · subst hg
    rw [Arrived, hl] at ha
    simpa using fun hmem => ha (List.mem_cons_of_mem _ hmem)
  · rwa [Function.update_of_ne hg]

/-- The barrier of the group is sound. -/
theorem sound_group
    (hc : (closing D (Barrier.group η Mem) owner start (shutdownPlan resources)).Reachable c) : c.Sound := by
  refine System.Reachable.invariant (I := Closing.Sound) ?_ ?_ hc
  · rintro _ rfl h hpass
    exact absurd (by simp [Shutdown.steps]) hpass
  · intro c c' _ hsound hst
    cases hst with
    | work _ => exact hsound
    | @shutdown h x rest hp hl hr =>
      intro g hpass k
      refine Closing.Arrived.update hl ?_
      by_cases hg : g = h
      · subst hg
        by_cases hx : x = .pass
        · subst hx
          exact hr k
        · exact hsound g (by simpa [hl, Ne.symm hx] using hpass) k
      · exact hsound g (by simpa [hg] using hpass) k

/-- The work goes on as if nobody shut down. -/
theorem reachable_work
    (hc : (closing D (Barrier.group η Mem) owner start (shutdownPlan resources)).Reachable c) :
    (hostSystem D start).Reachable c.work := by
  refine System.Reachable.invariant (I := fun c => (hostSystem D start).Reachable c.work) ?_ ?_ hc
  · rintro _ rfl
    exact .init rfl
  · intro c c' _ hwork hst
    cases hst with
    | work hst => exact .step hwork hst
    | shutdown _ _ _ => simpa using hwork

/-- Once the work is done, shutting down leaves it as it is. -/
theorem CloseStep.work_eq (hst : CloseStep D (Barrier.group η Mem) owner c c') (hu : ¬ c.work.Unfinished) :
    c'.work = c.work := by
  cases hst with
  | work hst =>
    cases hst with
    | enqueue hp | call hp _ _ => exact absurd (.inl ⟨_, hp ▸ List.cons_ne_nil _ _⟩) hu
    | execute hq _ => exact absurd (.inr ⟨_, hq ▸ List.cons_ne_nil _ _⟩) hu
  | shutdown _ _ _ => simp

/-- Where the work is never stuck, neither is the shutdown. -/
theorem neverStuck_closing (howned : ∀ h, ∀ i ∈ start.pending h, owner i.stream = h)
    (hlive : (hostSystem D start).NeverStuck HostConfig.Unfinished) :
    (closing D (Barrier.group η Mem) owner start (shutdownPlan resources)).NeverStuck
      Closing.Unfinished := by
  intro c hc hu
  have inv := closing_inv howned hc
  by_cases hwork : c.work.Unfinished
  · obtain ⟨w, hst⟩ := hlive c.work (reachable_work hc) hwork
    exact ⟨_, .work hst⟩
  obtain ⟨h, hleft⟩ := hu.resolve_left hwork
  have hpending : ∀ g, c.work.pending g = [] := fun g => not_not.mp fun hp => hwork (.inl ⟨g, hp⟩)
  have hqueue : ∀ s, c.work.queue s = [] := fun s => not_not.mp fun hq => hwork (.inr ⟨s, hq⟩)
  -- only a passage can have to wait, and then for a host that has not arrived
  by_cases hall : ∀ g, c.Arrived g
  · obtain ⟨x, rest, hl⟩ := List.exists_cons_of_ne_nil hleft
    refine ⟨_, .shutdown (hpending h) hl ?_⟩
    cases x with
    | synchronize => exact fun s _ => hqueue s
    | pass => exact hall
    | arrive => trivial
    | release r => trivial
  · simp only [Closing.Arrived, not_forall, not_not] at hall
    obtain ⟨g, hg⟩ := hall
    obtain ⟨x, rest, hl⟩ := List.exists_cons_of_ne_nil (List.ne_nil_of_mem hg)
    refine ⟨_, .shutdown (hpending g) hl ?_⟩
    cases x with
    | synchronize => exact fun s _ => hqueue s
    | pass =>
      have hrest := Shutdown.arrive_notMem_of_pass (hl ▸ inv.suffix g)
      exact absurd (hl ▸ hg) (by simpa using hrest)
    | arrive => trivial
    | release r => trivial

/-! ### Every shutdown ends -/

/-- What is left to do of the work and of the shutdown. -/
def Closing.size [Fintype η] (T : Finset σ) (c : Closing η σ Op Mem ρ) : ℕ :=
  c.work.size T + ∑ h, (c.left h).length

theorem CloseStep.size_lt [Fintype η] {T : Finset σ} (hst : CloseStep D B owner c c')
    (hwithin : c.work.Within T) : c'.size T < c.size T := by
  cases hst with
  | work hst => exact Nat.add_lt_add_right (hwithin.size_lt hst) _
  | @shutdown h x rest hp hl hr =>
    have hleft := sum_length_update c.left (Finset.mem_univ h) rest
    simp only [hl, List.length_cons] at hleft
    simp only [Closing.size, HostConfig.size]
    omega

/-- Where no shutdown is stuck, every reachable state has a run to the end. -/
theorem exists_run_to_closed [Fintype η] {program : η → List (Instr σ Op)} {m : Mem}
    {plan : η → List (Shutdown ρ)}
    (hlive : (closing D B owner (HostConfig.start program m) plan).NeverStuck Closing.Unfinished)
    (hc : (closing D B owner (HostConfig.start program m) plan).Reachable c) :
    ∃ t, Relation.ReflTransGen (CloseStep D B owner) c t ∧ ¬ t.Unfinished := by
  have hwithin : ∀ c, (closing D B owner (HostConfig.start program m) plan).Reachable c →
      c.work.Within (programStreams program) := by
    intro c hc
    refine System.Reachable.invariant (I := fun c => c.work.Within (programStreams program)) ?_ ?_ hc
    · rintro _ rfl
      exact reachable_within (D := D) (.init rfl)
    · intro c c' _ hw hst
      cases hst with
      | work hst => exact hw.step hst
      | shutdown _ _ _ => exact hw
  exact hlive.exists_run Nat.lt_wfRel.wf (Closing.size (programStreams program))
    (fun c c' hc hst => hst.size_lt (hwithin c hc)) hc

end
end MultiGpuTransport.Streams
