import MultiGpuTransport.Bridge.Threads

/-!
# Delivery from many threads

Threads that all transfer under one source stream, without failures, and close whenever they like:
nobody waits for ever, for the lock or for a device, and every transfer that returned has been
delivered once the bridge is closed. Whatever else they do, the calls of one thread keep their order.
-/
namespace MultiGpuTransport.Bridge.Threads
open Streams Transition

variable {τ : Type} [DecidableEq τ] {bridge : D3D12TensorBridge} {heap : Bytes} {t t' : Threads τ}
  {requests : τ → List Request} {k : τ} {P : Call NativeStep → Prop}

/-- All transfers that are asked for or under way meet P. -/
structure All (P : Call NativeStep → Prop) (t : Threads τ) : Prop where
  requests : ∀ k call, .transfer call ∈ t.requests k → P call
  checked : ∀ k call, t.stage k = .checked call → P call
  order : ∀ call ∈ t.order, P call

theorem All.moveTo (h : All P t) (stage : Stage) (hstage : ∀ call, stage = .checked call → P call) :
    All P (t.moveTo k stage) := by
  refine ⟨h.requests, fun g call hg => ?_, h.order⟩
  by_cases hgk : g = k
  · subst hgk
    exact hstage call (by simpa [Threads.moveTo] using hg)
  · exact h.checked g call (by simpa [Threads.moveTo, hgk] using hg)

theorem order_append {call : Call NativeStep} {order : List (Call NativeStep)}
    (h : ∀ call ∈ order, P call) (hcall : P call) : ∀ call' ∈ order ++ [call], P call' := by
  intro call' hmem
  rcases List.mem_append.mp hmem with hmem | hmem
  · exact h call' hmem
  · exact List.mem_singleton.mp hmem ▸ hcall

theorem All.begin (h : All P t) {request : Request} (hreq : ∀ call, request = .transfer call → P call) :
    All P (t.begin bridge k request) := by
  cases request with
  | close =>
    simp only [Threads.begin]
    split_ifs
    · exact h
    · exact h.moveTo .toClose (by simp)
  | transfer call =>
    have hcall := hreq call rfl
    simp only [Threads.begin]
    split_ifs
    · exact ⟨h.requests, h.checked, h.order⟩
    · cases bridge.beforeLock call with
      | some result => exact ⟨h.requests, h.checked, order_append h.order hcall⟩
      | none =>
        refine h.moveTo (.checked call) ?_
        rintro _ ⟨rfl⟩
        exact hcall

theorem All.lockTransfer (h : All P t) {call : Call NativeStep} (hk : t.stage k = .checked call) :
    All P (t.lockTransfer k call) := by
  unfold Threads.lockTransfer
  split_ifs
  · have hmoved := h.moveTo (k := k) (.transferring t.order.length
      (withLock call (t.epoch + 1)).2 (withLock call (t.epoch + 1)).1) (by simp)
    exact ⟨h.requests, hmoved.checked, order_append h.order (h.checked k call hk)⟩
  · have hmoved := h.moveTo (k := k) .idle (by simp)
    exact ⟨h.requests, hmoved.checked, h.order⟩

theorem All.closeStep (h : All P t) (point : ClosePoint) : All P (t.closeStep k point) := by
  have hmoved := h.moveTo (k := k) (ClosePoint.next point)
    (by cases point <;> simp [ClosePoint.next])
  cases point <;> exact ⟨h.requests, hmoved.checked, h.order⟩

theorem All.step (h : All P t) (hst : Step bridge t t') : All P t' := by
  cases hst with
  | execute hq hr => exact ⟨h.requests, h.checked, h.order⟩
  | act hr ha =>
    rename_i k
    cases acts_of_act ha with
    | @begin request rest hk hreq =>
      refine All.begin ?_ fun call hcall => ?_
      · exact ⟨fun g call hmem => h.requests g call (mem_of_mem_update hreq hmem), h.checked, h.order⟩
      · exact h.requests k call (by rw [hreq, hcall]; exact List.mem_cons_self)
    | lockTransfer hk => exact h.lockTransfer hk
    | @enqueue index item items result =>
      have hmoved := h.moveTo (k := k) (.transferring index items result) (by simp)
      exact ⟨h.requests, hmoved.checked, h.order⟩
    | finish =>
      have hmoved := h.moveTo (k := k) .idle (by simp)
      exact ⟨h.requests, hmoved.checked, h.order⟩
    | lockClose =>
      have hmoved := h.moveTo (k := k) (.closing .syncSource) (by simp)
      exact ⟨h.requests, hmoved.checked, h.order⟩
    | closeStep => exact h.closeStep _

theorem reachable_all (hreq : ∀ k call, .transfer call ∈ requests k → P call)
    (ht : (threads bridge requests heap).Reachable t) : All P t := by
  refine System.Reachable.invariant ?_ (fun _ _ _ h hst => h.step hst) ht
  rintro _ rfl
  exact ⟨hreq, by simp [Threads.start], by simp [Threads.start]⟩

/-! ### Nobody waits for ever -/

def Unfinished (t : Threads τ) : Prop :=
  (∃ k, t.requests k ≠ [] ∨ t.stage k ≠ .idle) ∨ ∃ s, t.queue s ≠ []

/-- No step of the call fails, and it is made under the stream. -/
def PlainOn (s : StreamId) (call : Call NativeStep) : Prop := call.fault = none ∧ call.stream = s

omit [DecidableEq τ] in
theorem delivers_order {s : StreamId} (h : All (PlainOn s) t) :
    Delivers bridge t.order (system bridge t.order heap) := by
  have hmem : ∀ call ∈ moving bridge t.order, PlainOn s call := fun call hcall =>
    h.order call (List.mem_of_mem_filter hcall)
  refine delivers_of (fun call hcall call' hcall' => ?_) (NoFault.lateFailuresLast fun call hcall => ?_)
  · exact (hmem call hcall).2.trans (hmem call' hcall').2.symm
  · exact (hmem call hcall).1

/-- Some stream can run its next operation if nothing is to be enqueued and a stream has any left. -/
theorem Inv.exists_execute (inv : Inv bridge heap t) {s : StreamId} (h : All (PlainOn s) t)
    (hitems : t.current.items = []) {q : Side × StreamId} (hq : t.queue q ≠ []) :
    ∃ t', Step bridge t t' := by
  have hu : t.sequential.Unfinished := .inr ⟨q, hq⟩
  have hdelivers : Delivers bridge t.order (system bridge t.order heap) := delivers_order h
  obtain ⟨c, hst⟩ := hdelivers.live _ inv.serial.reachable hu
  cases hst with
  | enqueue hp => simp [sequential, hitems] at hp
  | call hp _ _ => simp [sequential, hitems] at hp
  | execute hq hr => exact ⟨_, .execute hq hr⟩

theorem neverStuck_threads (hcreator : bridge.creatorOpen = true) (hopener : bridge.openerOpen = true)
    {s : StreamId} (hreq : ∀ k call, .transfer call ∈ requests k → PlainOn s call) :
    (threads bridge requests heap).NeverStuck Unfinished := by
  intro t ht hu
  have inv := reachable_inv hcreator hopener ht
  have hall := reachable_all hreq ht
  cases hh : t.holder with
  | some g =>
    have hin := (inv.locked.holder_iff g).mpr hh
    have hcurrent : t.current = t.stage g := by simp [current, hh]
    cases hg : t.stage g with
    | idle | checked _ | toClose => simp [hg, Stage.Inside] at hin
    | transferring index items result =>
      cases items with
      | nil => exact ⟨_, .act (k := g) (by rw [hg]; trivial) (by simp [Threads.act, hg]; rfl)⟩
      | cons item items =>
        exact ⟨_, .act (k := g) (by rw [hg]; trivial) (by simp [Threads.act, hg]; rfl)⟩
    | closing point =>
      have hitems : t.current.items = [] := by rw [hcurrent, hg]; rfl
      by_cases hready : t.Ready (t.stage g)
      · exact ⟨_, .act hready (by simp [Threads.act, hg]; rfl)⟩
      · -- it waits for a device, which has work left
        obtain ⟨q, hq⟩ : ∃ q, t.queue q ≠ [] := by
          by_contra hnone
          push Not at hnone
          refine hready ?_
          rw [hg]
          cases point <;> first | trivial | exact fun _ => hnone _
        exact inv.exists_execute hall hitems hq
  | none =>
    have hitems : t.current.items = [] := by simp [current, hh, Stage.items]
    have hact : ∀ g, (t.requests g ≠ [] ∨ t.stage g ≠ .idle) →
        ∃ t', Step bridge t t' := by
      intro g hcase
      have hout : ¬ (t.stage g).Inside := by simp [inv.locked.holder_iff, hh]
      cases hg : t.stage g with
      | transferring _ _ _ | closing _ => exact absurd (by simp [hg, Stage.Inside]) hout
      | checked call =>
        exact ⟨_, .act (k := g) (by rw [hg]; trivial) (by simp [Threads.act, hg, hh]; rfl)⟩
      | toClose =>
        exact ⟨_, .act (k := g) (by rw [hg]; trivial) (by simp [Threads.act, hg, hh]; rfl)⟩
      | idle =>
        have hne : t.requests g ≠ [] := by simpa [hg] using hcase
        obtain ⟨request, rest, hrest⟩ := List.exists_cons_of_ne_nil hne
        exact ⟨_, .act (k := g) (by rw [hg]; trivial) (by simp [Threads.act, hg, hrest]; rfl)⟩
    rcases hu with ⟨g, hcase⟩ | ⟨q, hq⟩
    · exact hact g hcase
    · exact inv.exists_execute hall hitems hq

/-! ### Every run ends -/

/-- How many steps a thread takes at most from there, an operation counted once more. -/
def weight : Stage → ℕ
  | .idle => 0
  | .checked _ => 14
  | .transferring _ items _ => 2 * items.length + 1
  | .toClose => 6
  | .closing .syncSource => 5
  | .closing .syncDestination => 4
  | .closing .closeOpener => 3
  | .closing .closeCreator => 2
  | .closing .unlock => 1

def size [Fintype τ] (T : Finset (Side × StreamId)) (t : Threads τ) : ℕ :=
  15 * ∑ k, (t.requests k).length + ∑ k, weight (t.stage k) + ∑ q ∈ T, (t.queue q).length

/-- Only the streams of T are in use. -/
structure Uses (T : Finset (Side × StreamId)) (t : Threads τ) : Prop where
  queue : ∀ q, t.queue q ≠ [] → q ∈ T
  items : ∀ k index items result, t.stage k = .transferring index items result →
    ∀ item ∈ items, item.1 ∈ T

theorem sum_weight_update [Fintype τ] (f : τ → Stage) (k : τ) (stage : Stage) :
    ∑ g, weight (Function.update f k stage g) + weight (f k) = ∑ g, weight (f g) + weight stage := by
  rw [← Finset.add_sum_erase Finset.univ _ (Finset.mem_univ k),
    ← Finset.add_sum_erase Finset.univ (fun g => weight (f g)) (Finset.mem_univ k),
    Function.update_self, Finset.sum_congr rfl fun g hg => by
      rw [Function.update_of_ne (Finset.ne_of_mem_erase hg)]]
  omega

/-- A transfer enqueues six operations at most, under its own stream and the default one. -/
theorem withLock_items (call : Call NativeStep) (epoch : ℕ) :
    (withLock call epoch).2.length ≤ 6 ∧ ∀ item ∈ (withLock call epoch).2,
      item.1 = (.creator, call.stream) ∨ item.1 = (.opener, defaultStream) := by
  have hprefix := before_prefix call.fault (nativeSteps epoch call.tensor call.stream)
  have hitems : (withLock call epoch).2 =
      (before call.fault (nativeSteps epoch call.tensor call.stream)).flatMap Prod.snd := by
    simp [withLock, perform_enqueued]
  obtain ⟨rest, hrest⟩ := hprefix
  have hall : (withLock call epoch).2 ++ rest.flatMap Prod.snd =
      (nativeSteps epoch call.tensor call.stream).flatMap Prod.snd := by
    rw [hitems, ← List.flatMap_append, hrest]
  constructor
  · have hlength := congrArg List.length hall
    simp [nativeSteps] at hlength
    omega
  · intro item hitem
    have hmem : item ∈ (nativeSteps epoch call.tensor call.stream).flatMap Prod.snd :=
      hall ▸ List.mem_append_left _ hitem
    simp [nativeSteps] at hmem
    rcases hmem with rfl | rfl | rfl | rfl | rfl | rfl <;> simp

section
variable {T : Finset (Side × StreamId)}

theorem Uses.move (h : Uses T t) (stage : Stage) (hstage : ∀ item ∈ stage.items, item.1 ∈ T)
    (hnew : t'.stage = Function.update t.stage k stage) (hqueue : ∀ q, t'.queue q ≠ [] → q ∈ T) :
    Uses T t' := by
  refine ⟨hqueue, fun g index items result hg item hitem => ?_⟩
  by_cases hgk : g = k
  · subst hgk
    obtain rfl : stage = .transferring index items result := by simpa [hnew] using hg
    exact hstage item hitem
  · exact h.items g index items result (by simpa [hnew, hgk] using hg) item hitem

theorem size_move [Fintype τ] (T : Finset (Side × StreamId)) (stage : Stage)
    (hrequests : t'.requests = t.requests)
    (hnew : t'.stage = Function.update t.stage k stage) {queue : Side × StreamId → List Op}
    (hqueue : t'.queue = queue) :
    t'.size T + weight (t.stage k) + ∑ q ∈ T, (t.queue q).length =
      t.size T + weight stage + ∑ q ∈ T, (queue q).length := by
  have hsum := sum_weight_update t.stage k stage
  simp only [size, hrequests, hnew, hqueue]
  omega

theorem size_lt_move [Fintype τ] (stage : Stage) (hrequests : t'.requests = t.requests)
    (hnew : t'.stage = Function.update t.stage k stage) (hqueue : t'.queue = t.queue)
    (hlt : weight stage < weight (t.stage k)) : t'.size T < t.size T := by
  have hsize := size_move T stage hrequests hnew hqueue
  omega

/-- An operation is worth less on its stream than before. -/
theorem size_lt_enqueue [Fintype τ] (stage : Stage) (hrequests : t'.requests = t.requests)
    (hnew : t'.stage = Function.update t.stage k stage) {q : Side × StreamId} (hqT : q ∈ T) {op : Op}
    (hqueue : t'.queue = Function.update t.queue q (t.queue q ++ [op]))
    (hlt : weight stage + 1 < weight (t.stage k)) : t'.size T < t.size T := by
  have hsize := size_move T stage hrequests hnew hqueue
  have hsum := sum_length_update t.queue hqT (t.queue q ++ [op])
  simp only [List.length_append, List.length_cons, List.length_nil] at hsum
  omega

theorem size_begin [Fintype τ] (bridge : D3D12TensorBridge) (T : Finset (Side × StreamId))
    (t : Threads τ) (hk : t.stage k = .idle) (request : Request) :
    (t.begin bridge k request).size T ≤ t.size T + 14 := by
  have hmove : ∀ stage, (t.moveTo k stage).size T = t.size T + weight stage := by
    intro stage
    have hrequests : (t.moveTo k stage).requests = t.requests := rfl
    have hsize := size_move T stage hrequests rfl rfl
    rw [hk] at hsize
    exact Nat.add_right_cancel hsize
  cases request with
  | close =>
    simp only [Threads.begin]
    split_ifs
    · omega
    · simp [hmove, weight]
  | transfer call =>
    simp only [Threads.begin]
    split_ifs
    · exact Nat.le_add_right _ _
    · cases bridge.beforeLock call with
      | some result => exact Nat.le_add_right _ _
      | none => simp [hmove, weight]

theorem Uses.begin (h : Uses T t) (request : Request) : Uses T (t.begin bridge k request) := by
  cases request with
  | close =>
    simp only [Threads.begin]
    split_ifs
    · exact h
    · exact h.move .toClose (by simp [Stage.items]) rfl h.queue
  | transfer call =>
    simp only [Threads.begin]
    split_ifs
    · exact ⟨h.queue, h.items⟩
    · cases bridge.beforeLock call with
      | some result => exact ⟨h.queue, h.items⟩
      | none => exact h.move (.checked call) (by simp [Stage.items]) rfl h.queue

/-- Every step makes what is left to do less. -/
theorem Step.size_lt [Fintype τ] {s : StreamId} (hst : Step bridge t t') (h : Uses T t)
    (hall : All (PlainOn s) t) (hs : (.creator, s) ∈ T) (hd : (.opener, defaultStream) ∈ T) :
    Uses T t' ∧ t'.size T < t.size T := by
  cases hst with
  | @execute q op rest hq hr =>
    have hqT := h.queue q (by simp [hq])
    refine ⟨⟨fun q' hq' => ?_, h.items⟩, ?_⟩
    · by_cases hqq : q' = q
      · exact hqq ▸ hqT
      · exact h.queue q' (by simpa [hqq] using hq')
    · have hsum := sum_length_update t.queue hqT rest
      simp only [hq, List.length_cons] at hsum
      simp only [size]
      omega
  | act hr ha =>
    rename_i k
    cases acts_of_act ha with
    | @begin request rest hk hreq =>
      constructor
      · refine Uses.begin ?_ request
        exact ⟨h.queue, h.items⟩
      · have hsum := sum_length_update t.requests (Finset.mem_univ k) rest
        simp only [hreq, List.length_cons] at hsum
        have hle := size_begin bridge T { t with
          requests := Function.update t.requests k rest } hk request
        simp only [size] at hle ⊢
        omega
    | @lockTransfer call hk =>
      have hcall := hall.checked k call hk
      obtain ⟨hlength, hitems⟩ := withLock_items call (t.epoch + 1)
      unfold lockTransfer
      split_ifs
      · refine ⟨h.move (k := k) (.transferring t.order.length
          (withLock call (t.epoch + 1)).2 (withLock call (t.epoch + 1)).1) ?_ rfl h.queue,
          size_lt_move (.transferring t.order.length (withLock call (t.epoch + 1)).2
            (withLock call (t.epoch + 1)).1) rfl rfl rfl ?_⟩
        · intro item hitem
          rcases hitems item hitem with h | h
          · exact h ▸ hcall.2 ▸ hs
          · exact h ▸ hd
        · simp only [hk, weight]
          omega
      · exact ⟨h.move (k := k) .idle (by simp [Stage.items]) rfl h.queue,
          size_lt_move (k := k) .idle rfl rfl rfl (by simp [hk, weight])⟩
    | @enqueue index item items result hk =>
      have hitem := h.items k index (item :: items) result hk
      refine ⟨h.move (k := k) (.transferring index items result)
        (fun i hi => hitem i (List.mem_cons_of_mem _ hi)) rfl fun q hq => ?_, ?_⟩
      · by_cases hqi : q = item.1
        · exact hqi ▸ hitem item List.mem_cons_self
        · exact h.queue q (by simpa [hqi] using hq)
      · refine size_lt_enqueue (k := k) (.transferring index items result) rfl rfl
          (hitem item List.mem_cons_self) rfl ?_
        simp only [hk, weight, List.length_cons]
        omega
    | finish hk =>
      exact ⟨h.move (k := k) .idle (by simp [Stage.items]) rfl h.queue,
        size_lt_move (k := k) .idle rfl rfl rfl (by simp [hk, weight])⟩
    | lockClose hk =>
      exact ⟨h.move (k := k) (.closing .syncSource) (by simp [Stage.items]) rfl h.queue,
        size_lt_move (k := k) (.closing .syncSource) rfl rfl rfl (by simp [hk, weight])⟩
    | @closeStep point hk =>
      refine ⟨h.move (k := k) (ClosePoint.next point) ?_ ?_ ?_,
        size_lt_move (k := k) (ClosePoint.next point) ?_ ?_ ?_ ?_⟩
      all_goals
        cases point <;> first | rfl | exact h.queue | simp [hk, weight, ClosePoint.next, Stage.items]

theorem exists_run_to_rest [Fintype τ] (hcreator : bridge.creatorOpen = true)
    (hopener : bridge.openerOpen = true) {s : StreamId}
    (hreq : ∀ k call, .transfer call ∈ requests k → PlainOn s call)
    (ht : (threads bridge requests heap).Reachable t) :
    ∃ t', Relation.ReflTransGen (Step bridge) t t' ∧ ¬ t'.Unfinished := by
  let T : Finset (Side × StreamId) := {(.creator, s), (.opener, defaultStream)}
  have huses : ∀ t, (threads bridge requests heap).Reachable t → Uses T t := by
    intro t ht
    induction ht with
    | init h =>
      cases h
      exact ⟨by simp [Threads.start], by simp [Threads.start]⟩
    | step ht hst ih =>
      exact (hst.size_lt ih (reachable_all hreq ht) (by simp [T]) (by simp [T])).1
  exact (neverStuck_threads hcreator hopener hreq).exists_run Nat.lt_wfRel.wf (size T)
    (fun t t' ht hst => (hst.size_lt (huses t ht) (reachable_all hreq ht) (by simp [T])
      (by simp [T])).2) ht

/-! ### Whose calls these are -/

/-- The calls of transfer among these. -/
def transfers (requests : List Request) : List (Call NativeStep) :=
  requests.filterMap fun
    | .transfer call => some call
    | .close => none

/-- A call that waits for the lock. -/
def waiting : Stage → List (Call NativeStep)
  | .checked call => [call]
  | _ => []

/-- The transfers of a thread that are not yet over and have no place in the order. -/
def pending (t : Threads τ) (k : τ) : List (Call NativeStep) :=
  waiting (t.stage k) ++ transfers (t.requests k)

/-- The order with the threads that made the calls: those of one thread are among its own requests, in
the order in which it asks for them, and all others were refused or are still to come. -/
structure Owned [Fintype τ] (requests : τ → List Request) (t : Threads τ)
    (owned : List (τ × Call NativeStep)) : Prop where
  order : owned.map Prod.snd = t.order
  sublist : ∀ k, ((owned.filter fun own => own.1 = k).map Prod.snd ++ t.pending k).Sublist
    (transfers (requests k))
  count : ∑ k, (transfers (requests k)).length =
    t.order.length + t.refused.length + ∑ k, (t.pending k).length

section
variable [Fintype τ] {owned : List (τ × Call NativeStep)}

theorem Owned.keep (h : Owned requests t owned) (horder : t'.order = t.order)
    (hrefused : t'.refused = t.refused) (hpending : t'.pending = t.pending) :
    Owned requests t' owned := by
  refine ⟨h.order.trans horder.symm, fun k => ?_, ?_⟩
  · rw [hpending]
    exact h.sublist k
  · rw [horder, hrefused, hpending]
    exact h.count

/-- The next transfer of a thread gets its place in the order. -/
theorem Owned.made (h : Owned requests t owned) {call : Call NativeStep}
    {rest : List (Call NativeStep)} (hk : t.pending k = call :: rest)
    (horder : t'.order = t.order ++ [call]) (hrefused : t'.refused = t.refused)
    (hpending : t'.pending = Function.update t.pending k rest) :
    Owned requests t' (owned ++ [(k, call)]) := by
  refine ⟨?_, fun g => ?_, ?_⟩
  · rw [List.map_append, h.order, horder]
    rfl
  · have hg := h.sublist g
    rw [hpending, List.filter_append, List.map_append]
    by_cases hgk : g = k
    · subst hgk
      simpa [hk] using hg
    · simpa [hgk, Ne.symm hgk] using hg
  · have hsum := sum_length_update t.pending (Finset.mem_univ k) rest
    rw [hk, List.length_cons] at hsum
    rw [h.count, horder, hrefused, hpending, List.length_append, List.length_singleton]
    omega

/-- It is refused. -/
theorem Owned.refuse (h : Owned requests t owned) {call : Call NativeStep}
    {rest : List (Call NativeStep)} {refusal : Refusal} (hk : t.pending k = call :: rest)
    (horder : t'.order = t.order) (hrefused : t'.refused = t.refused ++ [refusal])
    (hpending : t'.pending = Function.update t.pending k rest) : Owned requests t' owned := by
  refine ⟨h.order.trans horder.symm, fun g => ?_, ?_⟩
  · have hg := h.sublist g
    rw [hpending]
    by_cases hgk : g = k
    · subst hgk
      rw [Function.update_self]
      rw [hk] at hg
      exact ((List.Sublist.refl _).append (List.sublist_cons_self call rest)).trans hg
    · rwa [Function.update_of_ne hgk]
  · have hsum := sum_length_update t.pending (Finset.mem_univ k) rest
    rw [hk, List.length_cons] at hsum
    rw [h.count, horder, hrefused, hpending, List.length_append, List.length_singleton]
    omega

omit [Fintype τ] in
/-- Only what thread k waits for or asks for changes. -/
theorem pending_update (stage : Stage) (rest : List Request)
    (hstage : t'.stage = Function.update t.stage k stage)
    (hrequests : t'.requests = Function.update t.requests k rest) :
    t'.pending = Function.update t.pending k (waiting stage ++ transfers rest) := by
  funext g
  by_cases hgk : g = k
  · subst hgk
    simp [pending, hstage, hrequests]
  · simp [pending, hstage, hrequests, hgk]

omit [Fintype τ] in
theorem pending_same (stage : Stage) (rest : List Request)
    (hstage : t'.stage = Function.update t.stage k stage)
    (hrequests : t'.requests = Function.update t.requests k rest)
    (hk : t.pending k = waiting stage ++ transfers rest) : t'.pending = t.pending := by
  rw [pending_update stage rest hstage hrequests, ← hk, Function.update_eq_self]

/-- Who moves between two stages in neither of which it waits with a transfer changes nothing. -/
theorem Owned.move (h : Owned requests t owned) (stage : Stage) (hold : waiting (t.stage k) = [])
    (hstage : waiting stage = []) (hnew : t'.stage = Function.update t.stage k stage)
    (hrequests : t'.requests = t.requests) (horder : t'.order = t.order)
    (hrefused : t'.refused = t.refused) : Owned requests t' owned := by
  refine h.keep horder hrefused (pending_same stage (t.requests k) hnew ?_ ?_)
  · rw [hrequests, Function.update_eq_self]
  · rw [pending, hold, hstage]

theorem Owned.begin (h : Owned requests t owned) (hk : t.stage k = .idle) {request : Request}
    {rest : List Request} (hrequests : t.requests k = request :: rest) :
    ∃ owned', Owned requests
      ({ t with requests := Function.update t.requests k rest }.begin bridge k request) owned' := by
  have hstage : t.stage = Function.update t.stage k .idle := by rw [← hk, Function.update_eq_self]
  cases request with
  | close =>
    have hpending : t.pending k = transfers rest := by
      rw [pending, hk, hrequests]
      rfl
    simp only [Threads.begin]
    split_ifs
    · exact ⟨owned, h.keep rfl rfl (pending_same .idle rest hstage rfl hpending)⟩
    · exact ⟨owned, h.keep rfl rfl (pending_same .toClose rest rfl rfl hpending)⟩
  | transfer call =>
    have hpending : t.pending k = call :: transfers rest := by
      rw [pending, hk, hrequests]
      rfl
    simp only [Threads.begin]
    split_ifs
    · exact ⟨owned, h.refuse hpending rfl rfl (pending_update .idle rest hstage rfl)⟩
    · cases bridge.beforeLock call with
      | some result => exact ⟨_, h.made hpending rfl rfl (pending_update .idle rest hstage rfl)⟩
      | none =>
        exact ⟨owned, h.keep rfl rfl (pending_same (.checked call) rest rfl rfl hpending)⟩

theorem Owned.lockTransfer (h : Owned requests t owned) {call : Call NativeStep}
    (hk : t.stage k = .checked call) : ∃ owned', Owned requests (t.lockTransfer k call) owned' := by
  have hpending : t.pending k = call :: transfers (t.requests k) := by
    rw [pending, hk]
    rfl
  have hrequests : t.requests = Function.update t.requests k (t.requests k) :=
    (Function.update_eq_self k t.requests).symm
  unfold Threads.lockTransfer
  split_ifs
  · exact ⟨_, h.made hpending rfl rfl (pending_update (.transferring t.order.length
      (withLock call (t.epoch + 1)).2 (withLock call (t.epoch + 1)).1) _ rfl hrequests)⟩
  · exact ⟨owned, h.refuse hpending rfl rfl (pending_update .idle _ rfl hrequests)⟩

theorem Owned.step (h : Owned requests t owned) (hst : Step bridge t t') :
    ∃ owned', Owned requests t' owned' := by
  cases hst with
  | execute hq hr => exact ⟨owned, h.keep rfl rfl rfl⟩
  | act hr ha =>
    rename_i k
    cases acts_of_act ha with
    | begin hk hrequests => exact h.begin hk hrequests
    | lockTransfer hk => exact h.lockTransfer hk
    | @enqueue index item items result hk =>
      exact ⟨owned, h.move (k := k) (.transferring index items result) (by rw [hk]; rfl) rfl rfl rfl
        rfl rfl⟩
    | finish hk => exact ⟨owned, h.move (k := k) .idle (by rw [hk]; rfl) rfl rfl rfl rfl rfl⟩
    | lockClose hk =>
      exact ⟨owned, h.move (k := k) (.closing .syncSource) (by rw [hk]; rfl) rfl rfl rfl rfl rfl⟩
    | @closeStep point hk =>
      refine ⟨owned, h.move (k := k) (ClosePoint.next point) (by rw [hk]; rfl) ?_ ?_ ?_ ?_ ?_⟩
      all_goals cases point <;> rfl

theorem reachable_owned (ht : (threads bridge requests heap).Reachable t) :
    ∃ owned, Owned requests t owned := by
  refine System.Reachable.invariant (I := fun t => ∃ owned, Owned requests t owned) ?_
    (fun t t' _ ih hst => ?_) ht
  · rintro _ rfl
    exact ⟨[], rfl, fun k => List.Sublist.refl _, by simp [Threads.start, pending, waiting]⟩
  · obtain ⟨owned, h⟩ := ih
    exact h.step hst

end

/-! ### What the threads can rely on -/

/-- A transfer of the tensor returned ref. -/
def Returned (t : Threads τ) (tensor : Tensor) (ref : TensorRef) : Prop :=
  ∃ i call, t.order[i]? = some call ∧ call.tensor = tensor ∧ t.results i = some (.ok ref)

omit [DecidableEq τ] in
theorem Inv.read_returned (inv : Inv bridge heap t) {s : StreamId} (hall : All (PlainOn s) t)
    {tensor : Tensor} {ref : TensorRef} (href : t.Returned tensor ref) :
    (∀ bytes, t.mem.read ref = some bytes → bytes = tensor.data) ∧
      (¬ t.sequential.Unfinished → t.mem.read ref = some tensor.data) := by
  obtain ⟨i, call, hcall, rfl, hres⟩ := href
  have hdelivers : Delivers bridge t.order (system bridge t.order heap) := delivers_order hall
  have hret := inv.serial.results i _ hres
  exact ⟨fun bytes => hdelivers.payloads _ inv.serial.reachable i call ref bytes hcall hret,
    fun hu => hdelivers.complete _ inv.serial.reachable hu i call ref hcall hret⟩

/-- A result is final. -/
theorem Inv.results_step (inv : Inv bridge heap t) (hst : Step bridge t t') {i : ℕ}
    {r : Except PyError TensorRef} (hr : t.results i = some r) :
    t.order <+: t'.order ∧ t'.results i = some r := by
  have hi : i < t.order.length := by
    have hrun := inv.serial.results i r hr
    have hlength : (hostRun bridge t.order).1.length = t.order.length := length_makeCalls ..
    exact hlength ▸ (List.getElem?_eq_some_iff.mp hrun).1
  cases hst with
  | execute hq hr' => exact ⟨List.prefix_rfl, hr⟩
  | act hready ha =>
    rename_i k
    cases acts_of_act ha with
    | @begin request =>
      cases request with
      | close =>
        simp only [Threads.begin]
        split_ifs <;> exact ⟨List.prefix_rfl, hr⟩
      | transfer call =>
        simp only [Threads.begin]
        split_ifs
        · exact ⟨List.prefix_rfl, hr⟩
        · cases bridge.beforeLock call with
          | some result =>
            exact ⟨List.prefix_append _ _, (Function.update_of_ne hi.ne _ _).trans hr⟩
          | none => exact ⟨List.prefix_rfl, hr⟩
    | lockTransfer =>
      unfold Threads.lockTransfer
      split_ifs
      · exact ⟨List.prefix_append _ _, hr⟩
      · exact ⟨List.prefix_rfl, hr⟩
    | enqueue => exact ⟨List.prefix_rfl, hr⟩
    | @finish index result hk =>
      refine ⟨List.prefix_rfl, ?_⟩
      by_cases hindex : i = index
      · -- its own result, which the order gives already
        subst hindex
        have hholder : t.holder = some k := (inv.locked.holder_iff k).mp (by simp [hk, Stage.Inside])
        have hrun := inv.serial.transferring i [] result (by simp [current, hholder, hk])
        exact (Function.update_self ..).trans (hrun.symm.trans (inv.serial.results i r hr))
      · exact (Function.update_of_ne hindex _ _).trans hr
    | lockClose => exact ⟨List.prefix_rfl, hr⟩
    | @closeStep point => cases point <;> exact ⟨List.prefix_rfl, hr⟩

theorem returned_run (hcreator : bridge.creatorOpen = true) (hopener : bridge.openerOpen = true)
    (ht : (threads bridge requests heap).Reachable t)
    (hrun : Relation.ReflTransGen (threads bridge requests heap).step t t') {tensor : Tensor}
    {ref : TensorRef} (href : t.Returned tensor ref) : t'.Returned tensor ref := by
  induction hrun with
  | refl => exact href
  | tail hsteps hst ih =>
    obtain ⟨i, call, hcall, htensor, hr⟩ := ih
    have inv := reachable_inv hcreator hopener (ht.steps hsteps)
    obtain ⟨⟨more, horder⟩, hr'⟩ := inv.results_step hst hr
    refine ⟨i, call, ?_, htensor, hr'⟩
    rw [← horder, List.getElem?_append_left (List.getElem?_eq_some_iff.mp hcall).1, hcall]

/-- However the threads' steps interleave, the bridge and its streams are as if one thread had made
the calls in the order in which they got through, with the same results; the calls of each thread are
in that order as it asked for them, but for those that are refused; and a buffer is closed only when
all that was enqueued has run. If no step fails and all transfers are made under one source
stream, every run can be completed, and what a transfer returned holds its payload, at the latest
when a buffer is closed or all is done. -/
theorem threads_serialize [Fintype τ] (bridge : D3D12TensorBridge)
    (hcreator : bridge.creatorOpen = true) (hopener : bridge.openerOpen = true)
    (requests : τ → List Request) (heap : Bytes) :
    (∀ t, (threads bridge requests heap).Reachable t →
      (system bridge t.order heap).Reachable t.sequential ∧
      (∀ i r, t.results i = some r → (hostRun bridge t.order).1[i]? = some r) ∧
      (∃ owned, Owned requests t owned) ∧
      (t.creatorOpen = false ∨ t.openerOpen = false → ¬ t.sequential.Unfinished)) ∧
    ∀ s, (∀ k call, .transfer call ∈ requests k → PlainOn s call) →
      ∀ t, (threads bridge requests heap).Reachable t →
        (∃ t', Relation.ReflTransGen (threads bridge requests heap).step t t' ∧ ¬ t'.Unfinished) ∧
        ∀ tensor ref, t.Returned tensor ref →
          (∀ bytes, t.mem.read ref = some bytes → bytes = tensor.data) ∧
          (t.creatorOpen = false ∨ t.openerOpen = false ∨ ¬ t.Unfinished →
            t.mem.read ref = some tensor.data) := by
  have hclosed : ∀ t, (threads bridge requests heap).Reachable t →
      t.creatorOpen = false ∨ t.openerOpen = false → ¬ t.sequential.Unfinished := by
    intro t ht hc
    have inv := reachable_inv hcreator hopener ht
    obtain ⟨hitems, hqueue⟩ := inv.closes.closed (hc.elim inv.closes.openerFirst id)
    rintro (⟨_, hp⟩ | ⟨q, hq⟩)
    · exact hp (by simp [sequential, hitems])
    · exact hq (hqueue q)
  refine ⟨fun t ht => ?_, fun s hreq t ht => ⟨exists_run_to_rest hcreator hopener hreq ht, ?_⟩⟩
  · have inv := reachable_inv hcreator hopener ht
    exact ⟨inv.serial.reachable, inv.serial.results, reachable_owned ht, hclosed t ht⟩
  · intro tensor ref href
    have inv := reachable_inv hcreator hopener ht
    obtain ⟨hpayload, hcomplete⟩ := inv.read_returned (reachable_all hreq ht) href
    refine ⟨hpayload, fun hcase => hcomplete ?_⟩
    rcases hcase with hc | ho | hdone
    · exact hclosed t ht (.inl hc)
    · exact hclosed t ht (.inr ho)
    · -- at rest nobody has the lock
      simp only [Unfinished, not_or, not_exists, not_not] at hdone
      have hfree : t.holder = none := by
        cases hh : t.holder with
        | none => rfl
        | some g =>
          have hin := (inv.locked.holder_iff g).mpr hh
          simp [(hdone.1 g).2, Stage.Inside] at hin
      rintro (⟨_, hp⟩ | ⟨q, hq⟩)
      · exact hp (by simp [sequential, current, hfree, Stage.items])
      · exact hq (hdone.2 q)

/-- One thread transfers twice while another transfers and then closes the bridge. -/
def sampleRequests (k : Bool) : List Request :=
  if k then [.transfer (sampleTransfer 1 7 none), .transfer (sampleTransfer 2 7 none)]
  else [.transfer (sampleTransfer 3 7 none), .close]

/-- The first thread takes so many steps. -/
def sampleSteps : ℕ → Threads Bool
  | 0 => start sampleRequests [0]
  | n + 1 => ((sampleSteps n).act sampleBridge true).getD (sampleSteps n)

theorem sampleSteps_reachable :
    (threads sampleBridge sampleRequests [0]).Reachable (sampleSteps 9) := by
  have hstep : ∀ n < 9, Step sampleBridge (sampleSteps n) (sampleSteps (n + 1)) := by
    intro n hn
    interval_cases n <;> exact .act (k := true) trivial rfl
  have hreach : ∀ n ≤ 9, (threads sampleBridge sampleRequests [0]).Reachable (sampleSteps n) := by
    intro n hn
    induction n with
    | zero => exact .init rfl
    | succ n ih => exact .step (ih (by omega)) (hstep n (by omega))
  exact hreach 9 le_rfl

theorem sampleSteps_returned :
    (sampleSteps 9).Returned (sampleTransfer 1 7 none).tensor (.output 1) :=
  ⟨0, sampleTransfer 1 7 none, rfl, rfl, rfl⟩

theorem threads_serialize_sample :
    ∃ t, (threads sampleBridge sampleRequests [0]).Reachable t ∧ ¬ t.Unfinished ∧
      (∃ owned, Owned sampleRequests t owned) ∧
      t.Returned (sampleTransfer 1 7 none).tensor (.output 1) ∧ t.mem.read (.output 1) = some [1] := by
  obtain ⟨hserial, hplain⟩ := threads_serialize sampleBridge rfl rfl sampleRequests [0]
  have hreq : ∀ k call, .transfer call ∈ sampleRequests k → PlainOn 7 call := by
    intro k call hmem
    cases k <;> simp only [sampleRequests, Bool.false_eq_true, if_true, if_false, List.mem_cons,
      Request.transfer.injEq, reduceCtorEq, List.not_mem_nil, or_false] at hmem
    · exact hmem ▸ ⟨rfl, rfl⟩
    · rcases hmem with rfl | rfl <;> exact ⟨rfl, rfl⟩
  obtain ⟨⟨t, hrun, hdone⟩, -⟩ := hplain 7 hreq _ sampleSteps_reachable
  have ht := sampleSteps_reachable.steps hrun
  have href := returned_run rfl rfl sampleSteps_reachable hrun sampleSteps_returned
  exact ⟨t, ht, hdone, (hserial t ht).2.2.1, href,
    ((hplain 7 hreq t ht).2 _ _ href).2 (.inr (.inr hdone))⟩

end
end MultiGpuTransport.Bridge.Threads
