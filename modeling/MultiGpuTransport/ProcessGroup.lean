import MultiGpuTransport.Host
import MultiGpuTransport.Lib.Collectives

/-!
# Collectives of a two-rank process group

What the constructors of the communicators exchange with the other rank. Rank 0 is the source of all
broadcasts and does not wait in them; in every other collective both ranks wait for each other. Two
collectives of different kinds never complete.
-/
namespace MultiGpuTransport
open Collectives Transition

inductive BroadcastObject
  | name (text : String)
  | mapping (mappingName eventPrefix : String) (maxSizeBytes : ℤ)
  | uniqueId (bytes : Bytes)
  deriving DecidableEq, Repr

/-- A collective with what a rank contributes to it: an object, a flag (0 or 1, as int32). To
initialize a real communicator and to wait in the pair barrier are collectives too, though not of the
process group. -/
inductive GroupCollective
  | broadcastObjectList (object : Option BroadcastObject)
  | allReduceMin (flag : Bool)
  | commInitRank (uniqueId : Bytes)
  | barrierWait
  deriving DecidableEq, Repr

inductive CollectiveKind
  | broadcastObjectList | allReduceMin | commInitRank | barrierWait
  deriving DecidableEq, Repr

def GroupCollective.kind : GroupCollective → CollectiveKind
  | broadcastObjectList _ => .broadcastObjectList
  | allReduceMin _ => .allReduceMin
  | commInitRank _ => .commInitRank
  | barrierWait => .barrierWait

namespace GroupCollective

@[simp] theorem kind_broadcastObjectList (object : Option BroadcastObject) :
    (broadcastObjectList object).kind = .broadcastObjectList := rfl

@[simp] theorem kind_allReduceMin (flag : Bool) : (allReduceMin flag).kind = .allReduceMin := rfl

end GroupCollective

def processGroup : Rules GroupCollective where
  awaits rank x := !(x.kind == .broadcastObjectList && rank == .zero)
  agree x y := x.kind == y.kind

def PyError.message : PyError → String
  | runtimeError message | osError message | timeoutError message | valueError message
  | typeError message => message

/-- A constructor: its local actions, its collectives, and the error it may raise. -/
abbrev Constructor (Act A : Type) := Fallible PyError Act GroupCollective A

namespace Constructor
open Fallible
variable {Act A : Type}

/-- The object of the source. -/
def broadcastObjectList (object : Option BroadcastObject) :
    Constructor Act (Option BroadcastObject) := do
  match ← exchange (.broadcastObjectList object) with
  | .broadcastObjectList received => return received
  | _ => return object

/-- The smaller of the two ranks' flags. -/
def allReduceMin (flag : Bool) : Constructor Act Bool := do
  match ← exchange (.allReduceMin flag) with
  | .allReduceMin peer => return flag && peer
  | _ => return flag

section
variable {rank : Rank} {Q : History Act GroupCollective → Prop} {h : History Act GroupCollective}

@[simp] theorem ensures_broadcastObjectList {object : Option BroadcastObject}
    {E : Except PyError (Option BroadcastObject) → History Act GroupCollective → Prop} :
    Ensures processGroup rank Q (broadcastObjectList object) E h ↔
      Q h ∧ Q (h.contribute (.broadcastObjectList object)) ∧
      ∀ received, (rank = .zero → received = object) →
        Q ((h.contribute (.broadcastObjectList object)).receive (.broadcastObjectList received)) ∧
        E (.ok received) ((h.contribute (.broadcastObjectList object)).receive
          (.broadcastObjectList received)) := by
  simp only [broadcastObjectList, ensures_bind, ensures_exchange]
  refine and_congr_right fun _ => and_congr_right fun _ => ⟨fun hall received hsame => ?_,
    fun hall y hy => ?_⟩
  · refine (hall (.broadcastObjectList received) ?_).imp_right And.right
    cases rank with
    | zero => simp [Rules.Possible, processGroup, GroupCollective.kind, hsame rfl]
    | one => simp [Rules.Possible, processGroup, GroupCollective.kind]
  · cases rank with
    | zero =>
      obtain rfl : y = .broadcastObjectList object := by
        simpa [Rules.Possible, processGroup, GroupCollective.kind] using hy
      exact (hall object fun _ => rfl).imp_right fun hE => ⟨(hall object fun _ => rfl).1, hE⟩
    | one =>
      cases y with
      | broadcastObjectList received =>
        have hnow := hall received (by simp)
        exact ⟨hnow.1, hnow.1, hnow.2⟩
      | _ => simp [Rules.Possible, processGroup, GroupCollective.kind] at hy

@[simp] theorem ensures_allReduceMin {flag : Bool}
    {E : Except PyError Bool → History Act GroupCollective → Prop} :
    Ensures processGroup rank Q (allReduceMin flag) E h ↔
      Q h ∧ Q (h.contribute (.allReduceMin flag)) ∧ ∀ peer,
        Q ((h.contribute (.allReduceMin flag)).receive (.allReduceMin peer)) ∧
        E (.ok (flag && peer))
          ((h.contribute (.allReduceMin flag)).receive (.allReduceMin peer)) := by
  simp only [allReduceMin, ensures_bind, ensures_exchange]
  refine and_congr_right fun _ => and_congr_right fun _ => ⟨fun hall peer => ?_,
    fun hall y hy => ?_⟩
  · exact (hall (.allReduceMin peer)
      (by simp [Rules.Possible, processGroup, GroupCollective.kind])).imp_right And.right
  · cases y with
    | allReduceMin peer => exact ⟨(hall peer).1, (hall peer).1, (hall peer).2⟩
    | _ => simp [Rules.Possible, processGroup, GroupCollective.kind] at hy

end
end Constructor
/-! ### Constructors that make the same collectives -/

section
variable {Act A : Type} {program : Rank → Program Act GroupCollective A}
  {c : Config Act GroupCollective A} {kinds : List CollectiveKind}

/-- Both ranks have made the first of the given collectives, each so many of them. -/
def KeepsTo (kinds : List CollectiveKind) (c : Config Act GroupCollective A) : Prop :=
  ∀ r, (c r).history.contributed.map GroupCollective.kind <+: kinds

/-- Collectives of the same number are of the same kind. -/
theorem KeepsTo.agree (h : KeepsTo kinds c) (r : Rank) (k : ℕ) (x y : GroupCollective)
    (hx : (c r).history.contributed[k]? = some x)
    (hy : (c r.peer).history.contributed[k]? = some y) : processGroup.agree x y = true := by
  have hkind : ∀ s z, (c s).history.contributed[k]? = some z → some z.kind = kinds[k]? := by
    intro s z hz
    have hmap : ((c s).history.contributed.map GroupCollective.kind)[k]? = some z.kind := by
      simp [hz]
    obtain ⟨rest, hrest⟩ := h s
    rw [← hrest, List.getElem?_append_left (List.getElem?_eq_some_iff.mp hmap).1, hmap]
  have := (hkind r x hx).trans (hkind r.peer y hy).symm
  simpa [processGroup] using this

/-- Two ranks that have made equally many collectives have made the same. -/
theorem KeepsTo.kinds_eq (h : KeepsTo kinds c)
    (hlen : (c .zero).history.contributed.length = (c .one).history.contributed.length) :
    (c .zero).history.contributed.map GroupCollective.kind =
      (c .one).history.contributed.map GroupCollective.kind :=
  List.prefix_of_prefix_length_le (h .zero) (h .one) (by simp [hlen]) |>.eq_of_length
    (by simp [hlen])

/-- Nobody waits for a rank that has finished as long as that has come to every collective its peer
has come to. -/
theorem neverStuck_of_length_le
    (hkinds : ∀ c, (Collectives.system processGroup program).Reachable c → KeepsTo kinds c)
    (hle : ∀ c, (Collectives.system processGroup program).Reachable c → ∀ r, (c r).Finished →
      (c r.peer).history.contributed.length ≤ (c r).history.contributed.length) :
    (Collectives.system processGroup program).NeverStuck fun c => ∃ r, ¬ (c r).Finished := by
  rintro c hc ⟨r, hr⟩
  by_contra hstuck
  obtain ⟨s, hfin, hlt⟩ := finished_of_stuck hc hstuck (hkinds c hc).agree hr
  have := hle c hc s hfin
  omega

/-- Where nobody is ever stuck, some run ends with both ranks finished. -/
theorem exists_finished
    (h : (Collectives.system processGroup program).NeverStuck fun c => ∃ r, ¬ (c r).Finished) :
    ∃ c, (Collectives.system processGroup program).Reachable c ∧ ∀ r, (c r).Finished := by
  have hstart : (Collectives.system processGroup program).Reachable
      fun r => ⟨program r, .start⟩ := .init rfl
  obtain ⟨c, hrun, hend⟩ := Collectives.exists_run_to_end hstart
  have hc : (Collectives.system processGroup program).Reachable c := hstart.steps hrun
  refine ⟨c, hc, ?_⟩
  by_contra hu
  push Not at hu
  exact hend (h c hc hu)

/-- A flag that was received is the one the peer contributed. -/
theorem contributed_of_received (hc : (Collectives.system processGroup program).Reachable c)
    {r : Rank} {k : ℕ} {flag : Bool}
    (h : (c r).history.received[k]? = some (.allReduceMin flag)) :
    (c r.peer).history.contributed[k]? = some (.allReduceMin flag) := by
  obtain ⟨x, -, hanswer⟩ := reachable_answered hc r k _ h
  by_cases hawaits : processGroup.awaits r x = true
  · exact (Rules.answer_awaits hanswer hawaits).1
  · rw [Rules.answer, if_neg hawaits] at hanswer
    cases hanswer
    simp [processGroup] at hawaits

/-- What both ranks get from a broadcast is what rank zero contributed. -/
theorem broadcast_of_received (hc : (Collectives.system processGroup program).Reachable c)
    {r : Rank} {k : ℕ} {object : Option BroadcastObject}
    (h : (c r).history.received[k]? = some (.broadcastObjectList object)) :
    (c .zero).history.contributed[k]? = some (.broadcastObjectList object) := by
  obtain ⟨x, hx, hanswer⟩ := reachable_answered hc r k _ h
  have hkind : x.kind = .broadcastObjectList := by
    have := Rules.possible_of_answer hanswer
    unfold Rules.Possible at this
    split_ifs at this
    · simpa [processGroup] using this
    · rw [← this]
      rfl
  cases r with
  | zero =>
    have hnot : processGroup.awaits .zero x = false := by simp [processGroup, hkind]
    simp only [Rules.answer, hnot, Bool.false_eq_true, if_false] at hanswer
    rw [hx, hanswer]
  | one =>
    exact (Rules.answer_awaits hanswer (by simp [processGroup])).1

end

end MultiGpuTransport
