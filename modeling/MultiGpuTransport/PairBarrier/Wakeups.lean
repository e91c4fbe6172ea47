import MultiGpuTransport.PairBarrier
import MultiGpuTransport.Lib.Streams

/-!
# Wake-ups of the pair barrier

Two ranks each call wait a number of times, with other work in between. An event remembers one
signal: a rank that sets its event again before its peer has consumed the last signal loses one,
and the peer waits for it in vain. As long as no signal is lost, the signals a rank still has to
make, with the one its event holds, are the waits its peer still has to make.
-/
namespace MultiGpuTransport.Win32PairBarrier
open Transition Streams

/-- What a rank does next: other work, or a system call of the barrier. -/
inductive HostOp
  | work
  | event (op : EventOp)
  deriving DecidableEq, Repr

namespace HostOp

def ready : HostOp → Events → Prop
  | work, _ => True
  | event op, events => op.ready events

def run : HostOp → Events → Events
  | work, events => events
  | event op, events => op.run events

def isSet : HostOp → Bool
  | event (.set _) => true
  | _ => false

def isWait : HostOp → Bool
  | event (.wait _) => true
  | _ => false

end HostOp

def device : Device HostOp Events := ⟨HostOp.ready, HostOp.run⟩

/-- The calls of wait a rank still makes, each after some other work. -/
def calls (work : ℕ → ℕ) (r : Rank) : ℕ → List HostOp
  | 0 => []
  | n + 1 => List.replicate (work n) .work ++ (wait r).map .event ++ calls work r n

/-- Each rank makes N calls of wait; both events start clear. -/
def barrierSystem (work : Rank → ℕ → ℕ) (N : ℕ) : System (Config Rank HostOp Events) :=
  system device ⟨fun r => calls (work r) r N, fun _ => false⟩

def setsLeft (q : List HostOp) : ℕ := q.countP HostOp.isSet

def waitsLeft (q : List HostOp) : ℕ := q.countP HostOp.isWait

/-- The sets of the own event and the waits for the peer's alternate; work is done between two
calls only. -/
def Alternates (r : Rank) : Bool → List HostOp → Prop
  | waiting, [] => waiting = false
  | waiting, .work :: q => waiting = false ∧ Alternates r false q
  | false, .event op :: q => op = .set r ∧ Alternates r true q
  | true, .event op :: q => op = .wait r.peer ∧ Alternates r false q

@[simp] theorem setsLeft_cons (op : HostOp) (q : List HostOp) :
    setsLeft (op :: q) = setsLeft q + if op.isSet then 1 else 0 := List.countP_cons

@[simp] theorem waitsLeft_cons (op : HostOp) (q : List HostOp) :
    waitsLeft (op :: q) = waitsLeft q + if op.isWait then 1 else 0 := List.countP_cons

theorem Alternates.work {r : Rank} {q : List HostOp} (h : Alternates r false q) (m : ℕ) :
    Alternates r false (List.replicate m .work ++ q) := by
  induction m with
  | zero => exact h
  | succ m ih => exact ⟨rfl, ih⟩

theorem calls_alternates (work : ℕ → ℕ) (r : Rank) (n : ℕ) :
    Alternates r false (calls work r n) := by
  induction n with
  | zero => rfl
  | succ n ih =>
    have hwait : Alternates r false ((wait r).map .event ++ calls work r n) := ⟨rfl, rfl, ih⟩
    simpa [calls] using hwait.work (work n)

/-- A rank inside a call has one more wait to make than sets. -/
theorem Alternates.waitsLeft_eq {r : Rank} {waiting : Bool} {q : List HostOp}
    (h : Alternates r waiting q) : waitsLeft q = setsLeft q + waiting.toNat := by
  induction q generalizing waiting with
  | nil => cases h; rfl
  | cons op q ih =>
    match waiting, op, h with
    | false, .work, h => simpa [HostOp.isWait, HostOp.isSet] using ih h.2
    | false, .event _, ⟨rfl, h⟩ => simpa [HostOp.isWait, HostOp.isSet] using ih h
    | true, .event _, ⟨rfl, h⟩ => simpa [HostOp.isWait, HostOp.isSet] using ih h

theorem waitsLeft_calls (work : ℕ → ℕ) (r : Rank) (n : ℕ) : waitsLeft (calls work r n) = n := by
  induction n with
  | zero => rfl
  | succ n ih =>
    have hwork : waitsLeft (List.replicate (work n) .work) = 0 := by
      simp [waitsLeft, HostOp.isWait, List.countP_replicate]
    rw [calls, waitsLeft, List.countP_append, List.countP_append, ← waitsLeft, ← waitsLeft,
      ← waitsLeft, hwork, ih]
    simp [wait, HostOp.isWait, waitsLeft, Nat.add_comm]

theorem setsLeft_calls (work : ℕ → ℕ) (r : Rank) (n : ℕ) : setsLeft (calls work r n) = n := by
  simpa [waitsLeft_calls] using (calls_alternates work r n).waitsLeft_eq.symm

section
variable {work : Rank → ℕ → ℕ} {N : ℕ} {c c' : Config Rank HostOp Events}

/-- The signals of rank r that its peer has still to get: those to be made, and the one its event
holds. -/
def signals (c : Config Rank HostOp Events) (r : Rank) : ℕ :=
  setsLeft (c.queue r) + (c.mem r).toNat

/-- The waits for a signal of rank r that its peer has still to make. -/
def waits (c : Config Rank HostOp Events) (r : Rank) : ℕ := waitsLeft (c.queue r.peer)

/-- Every reachable state: the ranks are in the order of their calls, and a rank has no more signals
for its peer than the peer waits for. -/
structure Inv (N : ℕ) (c : Config Rank HostOp Events) : Prop where
  alternates : ∀ r, ∃ waiting, Alternates r waiting (c.queue r)
  signals_le : ∀ r, signals c r ≤ waits c r
  waits_le : ∀ r, waits c r ≤ N

/-- Setting an event that is still set loses a signal. -/
def Loses (c c' : Config Rank HostOp Events) (r : Rank) : Prop :=
  c.mem r = true ∧ ∃ q, c.queue r = .event (.set r) :: q ∧ c'.queue r = q

/-- The step sets no event that is still set. -/
def Clear (c c' : Config Rank HostOp Events) : Prop := ∀ r, ¬ Loses c c' r

/-- The steps of a rank: other work, the set that begins a call, the wait that ends it. -/
theorem step_cases (hc : ∀ r, ∃ waiting, Alternates r waiting (c.queue r))
    (hst : Step device c c') : ∃ r q,
      (∃ waiting, Alternates r waiting q) ∧
      (c.queue r = .work :: q ∧ c' = ⟨Function.update c.queue r q, c.mem⟩ ∨
       c.queue r = .event (.set r) :: q ∧
        c' = ⟨Function.update c.queue r q, Function.update c.mem r true⟩ ∨
       c.queue r = .event (.wait r.peer) :: q ∧ c.mem r.peer = true ∧
        c' = ⟨Function.update c.queue r q, Function.update c.mem r.peer false⟩) := by
  cases hst with
  | @execute r op q hq hr =>
    obtain ⟨waiting, h⟩ := hc r
    rw [hq] at h
    match waiting, op, h with
    | false, .work, h => exact ⟨r, q, ⟨_, h.2⟩, .inl ⟨hq, rfl⟩⟩
    | false, .event _, ⟨rfl, h⟩ => exact ⟨r, q, ⟨_, h⟩, .inr (.inl ⟨hq, rfl⟩)⟩
    | true, .event _, ⟨rfl, h⟩ => exact ⟨r, q, ⟨_, h⟩, .inr (.inr ⟨hq, hr, rfl⟩)⟩

/-- What a step does to the signals and the waits of a rank: nothing, or one of each is gone, or a
signal is lost. -/
theorem step_balance (hc : ∀ r, ∃ waiting, Alternates r waiting (c.queue r))
    (hst : Step device c c') (e : Rank) :
    (signals c' e = signals c e ∧ waits c' e = waits c e) ∨
    (signals c' e + 1 = signals c e ∧ waits c' e + 1 = waits c e) ∨
    (Loses c c' e ∧ signals c' e + 1 = signals c e ∧ waits c' e = waits c e) := by
  obtain ⟨r, q, -, ⟨hq, rfl⟩ | ⟨hq, rfl⟩ | ⟨hq, hset, rfl⟩⟩ := step_cases hc hst
  · refine .inl ?_
    rcases Rank.eq_or_eq_peer e r with rfl | rfl <;>
      simp [signals, waits, hq, HostOp.isSet, HostOp.isWait]
  · rcases Rank.eq_or_eq_peer e r with rfl | rfl
    · cases hclear : c.mem e with
      | false => exact .inl (by simp [signals, waits, hq, HostOp.isSet, hclear])
      | true =>
        exact .inr (.inr ⟨⟨hclear, q, hq, by simp⟩,
          by simp [signals, hq, HostOp.isSet, hclear], by simp [waits]⟩)
    · exact .inl (by simp [signals, waits, hq, HostOp.isWait])
  · rcases Rank.eq_or_eq_peer e r with rfl | rfl
    · exact .inl (by simp [signals, waits, hq, HostOp.isSet])
    · exact .inr (.inl (by simp [signals, waits, hq, hset, HostOp.isWait]))

theorem Inv.step (inv : Inv N c) (hst : Step device c c') : Inv N c' where
  alternates e := by
    have hother : ∀ (r : Rank) (q : List HostOp), (∃ waiting, Alternates r waiting q) →
        ∃ waiting, Alternates e waiting (Function.update c.queue r q e) := by
      intro r q h
      by_cases he : e = r
      · subst he
        simpa using h
      · simpa [he] using inv.alternates e
    obtain ⟨r, q, h, ⟨-, rfl⟩ | ⟨-, rfl⟩ | ⟨-, -, rfl⟩⟩ := step_cases inv.alternates hst <;>
      exact hother r q h
  signals_le e := by
    have := inv.signals_le e
    rcases step_balance inv.alternates hst e with h | h | ⟨-, h⟩ <;> omega
  waits_le e := by
    have := inv.waits_le e
    rcases step_balance inv.alternates hst e with h | h | ⟨-, h⟩ <;> omega

theorem reachable_inv (hc : (barrierSystem work N).Reachable c) : Inv N c := by
  refine System.Reachable.invariant ?_ (fun _ _ _ inv hst => inv.step hst) hc
  rintro _ rfl
  exact ⟨fun r => ⟨false, calls_alternates (work r) r N⟩,
    fun r => by simp [signals, waits, setsLeft_calls, waitsLeft_calls],
    fun r => by simp [waits, waitsLeft_calls]⟩

/-- When no signal is lost, the signals and the waits stay balanced. -/
theorem balanced_of_clear (hc : ((barrierSystem work N).restrict Clear).Reachable c) (r : Rank) :
    signals c r = waits c r := by
  refine System.Reachable.invariant (I := fun c => ∀ r, signals c r = waits c r)
    ?_ ?_ hc r
  · rintro _ rfl r
    simp [signals, waits, setsLeft_calls, waitsLeft_calls]
  · intro c c' hc heq hst r
    have hr := heq r
    rcases step_balance (reachable_inv hc.of_restrict).alternates hst.1 r with h | h | ⟨hlost, -⟩
    · omega
    · omega
    · exact (hst.2 r hlost).elim

/-- Where no step is possible, a rank has finished or waits for an event that is not set. -/
theorem blocked_of_not_canStep (inv : Inv N c) (hno : ¬ (barrierSystem work N).CanStep c)
    (r : Rank) : c.queue r = [] ∨
      c.mem r.peer = false ∧ waitsLeft (c.queue r) = setsLeft (c.queue r) + 1 := by
  obtain ⟨waiting, h⟩ := inv.alternates r
  match hq : c.queue r, waiting, h with
  | [], _, _ => exact .inl rfl
  | .work :: q, false, _ => exact (hno ⟨_, .execute hq trivial⟩).elim
  | .event _ :: q, false, ⟨rfl, _⟩ => exact (hno ⟨_, .execute hq trivial⟩).elim
  | .event _ :: q, true, ⟨rfl, h⟩ =>
    refine .inr ⟨?_, ?_⟩
    · by_contra hset
      exact hno ⟨_, .execute hq (by simpa [device, HostOp.ready, EventOp.ready] using hset)⟩
    · simpa [HostOp.isWait, HostOp.isSet] using h.waitsLeft_eq

/-- With as many signals to come as waits, both ranks cannot be blocked. -/
theorem canStep_of_balanced (inv : Inv N c) (hbal : ∀ r, signals c r = waits c r)
    (hu : c.Unfinished) : (barrierSystem work N).CanStep c := by
  by_contra hno
  obtain ⟨r, hne⟩ := hu
  obtain hnil | ⟨hclear, hleft⟩ := blocked_of_not_canStep inv hno r
  · exact hne hnil
  have hpeer := hbal r.peer
  simp only [signals, waits, hclear, Rank.peer_peer, Bool.toNat_false] at hpeer
  obtain hnil | ⟨hclear', hleft'⟩ := blocked_of_not_canStep inv hno r.peer
  · -- a rank that has finished has made all its signals
    simp only [hnil, setsLeft, List.countP_nil] at hpeer
    omega
  · have hr := hbal r
    rw [Rank.peer_peer] at hclear'
    simp only [signals, waits, hclear', Bool.toNat_false] at hr
    omega

theorem reachable_execute {r : Rank} (op : HostOp) (q : List HostOp)
    (hc : (barrierSystem work N).Reachable c) (hq : c.queue r = op :: q) (hr : op.ready c.mem) :
    (barrierSystem work N).Reachable ⟨Function.update c.queue r q, op.run c.mem⟩ :=
  .step hc (.execute hq hr)

theorem reachable_work {r : Rank} {m : ℕ} {q : List HostOp}
    (hc : (barrierSystem work N).Reachable c) (hq : c.queue r = List.replicate m .work ++ q) :
    (barrierSystem work N).Reachable ⟨Function.update c.queue r q, c.mem⟩ := by
  induction m generalizing c with
  | zero =>
    rw [← show c.queue r = q from hq, Function.update_eq_self]
    exact hc
  | succ m ih =>
    have hstep := reachable_execute .work (List.replicate m .work ++ q) hc hq trivial
    simpa [HostOp.run] using ih hstep (by simp)

/-- A rank comes to its next wait whatever the other does. -/
theorem reachable_set {r : Rank} {n : ℕ} (hc : (barrierSystem work N).Reachable c)
    (hq : c.queue r = calls (work r) r (n + 1)) :
    (barrierSystem work N).Reachable
      ⟨Function.update c.queue r (.event (.wait r.peer) :: calls (work r) r n),
        Function.update c.mem r true⟩ := by
  have hready := reachable_work
    (q := .event (.set r) :: .event (.wait r.peer) :: calls (work r) r n) hc
    (by simpa [calls, wait] using hq)
  have hset := reachable_execute (r := r) (.event (.set r))
    (.event (.wait r.peer) :: calls (work r) r n) hready (by simp) trivial
  simpa [HostOp.run, EventOp.run] using hset

theorem reachable_wait {r : Rank} {q : List HostOp} (hc : (barrierSystem work N).Reachable c)
    (hq : c.queue r = .event (.wait r.peer) :: q) (hset : c.mem r.peer = true) :
    (barrierSystem work N).Reachable
      ⟨Function.update c.queue r q, Function.update c.mem r.peer false⟩ :=
  reachable_execute _ _ hc hq hset

/-- Rank one is through with its first call and sets its event again, while rank zero has still to
consume the first signal. -/
theorem reachable_lost (work : Rank → ℕ → ℕ) (n : ℕ) :
    ∃ c, (barrierSystem work (n + 2)).Reachable c ∧ signals c .one < waits c .one := by
  have hstart : (barrierSystem work (n + 2)).Reachable _ := .init rfl
  have hone := reachable_set (r := .one) hstart rfl
  have hzero := reachable_set (r := .zero) hone rfl
  have hwait := reachable_wait (r := .one) hzero rfl rfl
  have hagain := reachable_set (r := .one) hwait rfl
  refine ⟨_, hagain, ?_⟩
  simp [signals, waits, Rank.peer, HostOp.isSet, HostOp.isWait, setsLeft_calls, waitsLeft_calls]

theorem step_shrinks {D : Device HostOp Events} (hst : Step D c c') :
    (c'.queue .zero).length + (c'.queue .one).length <
      (c.queue .zero).length + (c.queue .one).length := by
  cases hst with
  | @execute r op q hq _ => cases r <;> simp [hq]

/-- A lost signal is never made up for: the run ends with the peer waiting for it. -/
theorem stuck_of_lost {e : Rank} (hc : (barrierSystem work N).Reachable c)
    (hlost : signals c e < waits c e) : ¬ (barrierSystem work N).NeverStuck Config.Unfinished := by
  intro hnever
  obtain ⟨d, hrun, hend⟩ := (barrierSystem work N).exists_run_to_end Nat.lt_wfRel.wf _
    (fun _ _ _ hst => step_shrinks hst) hc
  have hd : (barrierSystem work N).Reachable d ∧ signals d e < waits d e := by
    clear hend
    induction hrun with
    | refl => exact ⟨hc, hlost⟩
    | tail _ hst ih =>
      refine ⟨.step ih.1 hst, ?_⟩
      rcases step_balance (reachable_inv ih.1).alternates hst e with h | h | ⟨-, h⟩ <;> omega
  refine hend (hnever d hd.1 ⟨e.peer, fun hnil => ?_⟩)
  have hwaits := hd.2
  simp [waits, hnil, waitsLeft] at hwaits

/-- With one call on each rank no event is set twice. -/
theorem clear_of_le_one (hN : N ≤ 1) (hc : (barrierSystem work N).Reachable c) : Clear c c' := by
  rintro r ⟨hset, q, hq, -⟩
  have hle := (reachable_inv hc).signals_le r
  have hN' := (reachable_inv hc).waits_le r
  simp only [signals, hset, hq, setsLeft_cons, HostOp.isSet, if_true, Bool.toNat_true] at hle
  omega

end

/-- No run is stuck as long as no rank sets its event while the last signal is still in it; over all
interleavings this is so exactly when each rank calls wait at most once. -/
theorem wait_neverStuck_iff (work : Rank → ℕ → ℕ) (N : ℕ) :
    (∀ c, ((barrierSystem work N).restrict Clear).Reachable c → c.Unfinished →
      (barrierSystem work N).CanStep c) ∧
    ((barrierSystem work N).NeverStuck Config.Unfinished ↔ N ≤ 1) := by
  have hclear : ∀ c, ((barrierSystem work N).restrict Clear).Reachable c → c.Unfinished →
      (barrierSystem work N).CanStep c := fun c hc hu =>
    canStep_of_balanced (reachable_inv hc.of_restrict) (balanced_of_clear hc) hu
  refine ⟨hclear, fun hnever => ?_, fun hN c hc hu => ?_⟩
  · by_contra hN
    obtain ⟨n, rfl⟩ : ∃ n, N = n + 2 := ⟨N - 2, by omega⟩
    obtain ⟨c, hc, hlost⟩ := reachable_lost work n
    exact stuck_of_lost hc hlost hnever
  · exact hclear c (hc.restrict fun _ _ hs _ => clear_of_le_one hN hs) hu

/-- With two calls on each rank, rank one can finish and leave rank zero in its second wait. -/
theorem two_calls_stuck :
    ¬ (barrierSystem (fun _ _ => 0) 2).NeverStuck Config.Unfinished := by
  intro hnever
  have hstart : (barrierSystem (fun _ _ => 0) 2).Reachable _ := .init rfl
  have hone := reachable_set (r := .one) (n := 1) hstart rfl
  have hzero := reachable_set (r := .zero) (n := 1) hone rfl
  have hwait := reachable_wait (r := .one) hzero rfl rfl
  -- the event of rank one is still set from its first call
  have hagain := reachable_set (r := .one) (n := 0) hwait rfl
  have hwait' := reachable_wait (r := .zero) hagain rfl rfl
  have hzero' := reachable_set (r := .zero) (n := 0) hwait' rfl
  have hlast := reachable_wait (r := .one) hzero' rfl rfl
  obtain ⟨d, @⟨r, op, q, hq, hr⟩⟩ := hnever _ hlast ⟨.zero, by simp⟩
  cases r with
  | one => cases hq
  | zero =>
    cases hq
    cases hr

end MultiGpuTransport.Win32PairBarrier
