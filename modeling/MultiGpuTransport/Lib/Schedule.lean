import MultiGpuTransport.Lib.Streams

/-! Executable schedules of hosts and streams, to exhibit a run: every state a schedule leads to
is reachable. -/
namespace MultiGpuTransport.Streams
open Transition

/-- Whose turn it is. -/
inductive Turn (η σ : Type*)
  | host (h : η)
  | stream (s : σ)

variable {η σ Op Mem : Type*} [DecidableEq η] [DecidableEq σ]

section
variable (D : Device Op Mem) [∀ op m, Decidable (D.ready op m)]

/-- The step of the host or stream whose turn it is, if it has one it can take. -/
def HostConfig.turn (c : HostConfig η σ Op Mem) : Turn η σ → Option (HostConfig η σ Op Mem)
  | .host h =>
    match c.pending h with
    | [] => none
    | .enqueue s op :: is => some ⟨Function.update c.pending h is,
        Function.update c.queue s (c.queue s ++ [op]), c.mem⟩
    | .call s b op :: is =>
      if (!b || (c.queue s).isEmpty) = true ∧ D.ready op c.mem then
        some ⟨Function.update c.pending h is, c.queue, D.run op c.mem⟩
      else none
  | .stream s =>
    match c.queue s with
    | [] => none
    | op :: rest =>
      if D.ready op c.mem then some ⟨c.pending, Function.update c.queue s rest, D.run op c.mem⟩
      else none

def HostConfig.turns (c : HostConfig η σ Op Mem) : List (Turn η σ) → Option (HostConfig η σ Op Mem)
  | [] => some c
  | t :: ts => (c.turn D t).bind fun c' => c'.turns ts

variable {D} {c c' : HostConfig η σ Op Mem}

theorem turn_step {t : Turn η σ} (h : c.turn D t = some c') : HostStep D c c' := by
  cases t with
  | host r =>
    simp only [HostConfig.turn] at h
    split at h
    · cases h
    · rename_i hp
      cases h
      exact .enqueue hp
    · rename_i s b op is hp
      split_ifs at h with hif
      cases h
      refine .call hp (fun hb => ?_) hif.2
      simpa [hb] using hif.1
  | stream s =>
    simp only [HostConfig.turn] at h
    split at h
    · cases h
    · rename_i hq
      split_ifs at h with hr
      cases h
      exact .execute hq hr

theorem reachable_turns {start : HostConfig η σ Op Mem} {ts : List (Turn η σ)}
    (hc : (hostSystem D start).Reachable c) (h : c.turns D ts = some c') :
    (hostSystem D start).Reachable c' := by
  induction ts generalizing c with
  | nil => cases h; exact hc
  | cons t ts ih =>
    obtain ⟨d, hd, hrest⟩ := Option.bind_eq_some_iff.mp h
    exact ih (.step hc (turn_step hd)) hrest

end
end MultiGpuTransport.Streams
