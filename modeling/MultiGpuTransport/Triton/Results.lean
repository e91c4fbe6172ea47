import MultiGpuTransport.Triton.Stores

/-!
# What a call returns

With the lengths that its callers give, triton_mla_prefill returns the attention of all rows. Where a
causal sequence has more queries than keys, the rows that see no key get theirs if they fill whole
blocks; in a block with a row that sees a key they get nan.
-/
namespace MultiGpuTransport.Triton
open Backends Strided

namespace PrefillArgs
variable (args : PrefillArgs)

/-- Row m is stored once, with these values, and is read back from what the call returns. -/
structure RowGets (launch : Launch) (seq head m : ℕ) (value : ℕ → Extended) (lseValue : Extended) :
    Prop where
  out_stored : ∀ d < args.v.shape 2, ⟨args.outIndex seq head m d, value d⟩ ∈ launch.outStores
  out_once : ∀ d < args.v.shape 2,
    (launch.outStores.map Store.index).count (args.outIndex seq head m d) = 1
  lse_stored : args.returnLse = true → ⟨args.lseIndex seq head m, lseValue⟩ ∈ launch.lseStores
  lse_once : args.returnLse = true →
    (launch.lseStores.map Store.index).count (args.lseIndex seq head m) = 1
  out_read : ∀ out lse, launch.Returns out lse → Nonoverlapping out.shape out.strides →
    ∀ d < args.v.shape 2, out.read (args.outIndex seq head m d) = value d
  lse_read : ∀ out lse, launch.Returns out lse →
    ∀ l ∈ lse, l.read (args.lseIndex seq head m) = lseValue

/-- Row m gets its attention. -/
def RowAttends (launch : Launch) (seq head m : ℕ) : Prop :=
  args.RowGets launch seq head m (fun d => .real (args.attention seq head m d))
    (args.attentionLse seq head m)

variable {args} (hp : args.Packed) (freshOut freshLse : ℕ → Extended) {seq head m : ℕ}
include hp

theorem outTensor_shape :
    (args.outTensor freshOut).shape = ![args.q.shape 0, args.q.shape 1, args.v.shape 2] := by
  rw [outTensor]
  cases hout : args.out with
  | none => rfl
  | some out => exact (hp.accepted.2.2.2.2.2.2.2.2 out hout).1

theorem out_read_of_returns {out : StridedTensor Extended 3}
    {lse : Option (StridedTensor Extended 2)}
    (h : (args.launch freshOut freshLse).Returns out lse)
    (hno : Nonoverlapping out.shape out.strides) (hr : args.IsRow seq head m) {d : ℕ}
    (hd : d < args.v.shape 2) :
    out.read (args.outIndex seq head m d) = args.outValue freshOut freshLse seq head m d := by
  obtain ⟨⟨stores, hperm, rfl⟩, -⟩ := h
  have hplaces : Nonoverlapping (args.launch freshOut freshLse).kernel.out.shape
      (args.launch freshOut freshLse).kernel.out.strides := hno
  have hstore := (mem_outStores hp freshOut freshLse).mpr ⟨seq, head, m, d, hr, hd, rfl⟩
  refine stored_read_of_nodup hperm (nodup_outStores hp freshOut freshLse) (fun s hs => ?_) hplaces
    hstore
  obtain ⟨_, _, _, _, hr, hd, rfl⟩ := (mem_outStores hp freshOut freshLse).mp hs
  rw [launch_kernel, show (args.kernel freshOut freshLse).out.shape =
    ![args.q.shape 0, args.q.shape 1, args.v.shape 2] from outTensor_shape hp freshOut]
  exact outIndex_inBounds hp hr hd

theorem lse_read_of_returns {out : StridedTensor Extended 3}
    {lse : Option (StridedTensor Extended 2)}
    (h : (args.launch freshOut freshLse).Returns out lse) (hr : args.IsRow seq head m)
    {l : StridedTensor Extended 2} (hl : l ∈ lse) :
    l.read (args.lseIndex seq head m) = args.lseValue freshOut freshLse seq head m := by
  obtain ⟨-, stores, hperm, rfl⟩ := h
  obtain ⟨hlse, hl⟩ := Option.mem_ite_none_right.mp hl
  rw [← Option.mem_some.mp hl]
  have hstore := (mem_lseStores hp freshOut freshLse hlse).mpr ⟨seq, head, m, hr, rfl⟩
  refine stored_read_of_nodup hperm (nodup_lseStores hp freshOut freshLse) (fun s hs => ?_)
    (rowMajor_rowMajor _).nonoverlapping hstore
  obtain ⟨_, _, _, hr, rfl⟩ := (mem_lseStores hp freshOut freshLse hlse).mp hs
  exact lseIndex_inBounds hp hr

omit hp in
theorem RowGets.congr {launch : Launch} {value value' : ℕ → Extended} {lseValue lseValue' : Extended}
    (h : args.RowGets launch seq head m value lseValue)
    (hvalue : ∀ d < args.v.shape 2, value d = value' d) (hlse : lseValue = lseValue') :
    args.RowGets launch seq head m value' lseValue' where
  out_stored d hd := hvalue d hd ▸ h.out_stored d hd
  out_once := h.out_once
  lse_stored := hlse ▸ h.lse_stored
  lse_once := h.lse_once
  out_read _ _ hreturns hno d hd := (h.out_read _ _ hreturns hno d hd).trans (hvalue d hd)
  lse_read _ _ hreturns _ hl := (h.lse_read _ _ hreturns _ hl).trans hlse

/-- Every row gets the values at its lane. -/
theorem rowGets (hr : args.IsRow seq head m) :
    args.RowGets (args.launch freshOut freshLse) seq head m
      (args.outValue freshOut freshLse seq head m)
      (args.lseValue freshOut freshLse seq head m) where
  out_stored d hd := (mem_outStores hp freshOut freshLse).mpr ⟨seq, head, m, d, hr, hd, rfl⟩
  out_once d hd := by
    have hstore := (mem_outStores hp freshOut freshLse).mpr ⟨seq, head, m, d, hr, hd, rfl⟩
    exact List.count_eq_one_of_mem (nodup_outStores hp freshOut freshLse)
      (List.mem_map_of_mem hstore)
  lse_stored hlse := (mem_lseStores hp freshOut freshLse hlse).mpr ⟨seq, head, m, hr, rfl⟩
  lse_once hlse := by
    have hstore := (mem_lseStores hp freshOut freshLse hlse).mpr ⟨seq, head, m, hr, rfl⟩
    exact List.count_eq_one_of_mem (nodup_lseStores hp freshOut freshLse)
      (List.mem_map_of_mem hstore)
  out_read _ _ hreturns hno d hd := out_read_of_returns hp freshOut freshLse hreturns hno hr hd
  lse_read _ _ hreturns _ hl := lse_read_of_returns hp freshOut freshLse hreturns hr hl

/-- A row gets no other values than those. -/
theorem outValue_of_rowGets (hr : args.IsRow seq head m) {value : ℕ → Extended} {lseValue : Extended}
    (h : args.RowGets (args.launch freshOut freshLse) seq head m value lseValue) {d : ℕ}
    (hd : d < args.v.shape 2) : value d = args.outValue freshOut freshLse seq head m d :=
  congrArg Store.value (List.inj_on_of_nodup_map (nodup_outStores hp freshOut freshLse)
    (h.out_stored d hd) ((rowGets hp freshOut freshLse hr).out_stored d hd) rfl)

/-- Exactly the rows that are not starved get their attention. -/
theorem rowAttends_iff (hr : args.IsRow seq head m) :
    args.RowAttends (args.launch freshOut freshLse) seq head m ↔ ¬ args.Starved seq m := by
  constructor
  · intro h hstarved
    have hvalue := outValue_of_rowGets hp freshOut freshLse hr h hp.vHeadDim_pos
    rw [(values_of_starved hp freshOut freshLse hr.seq_lt hstarved 0).1] at hvalue
    exact Extended.noConfusion hvalue
  · intro hfed
    exact (rowGets hp freshOut freshLse hr).congr
      (fun d hd => outValue_of_not_starved hp freshOut freshLse hr.seq_lt hr.row_lt hd hfed)
      (lseValue_eq hp freshOut freshLse hr.seq_lt hr.row_lt)

/-! ### Exact attention -/

variable (args) in
/-- All rows get their attention, and nothing else is stored. -/
structure Attends (launch : Launch) : Prop where
  row : ∀ seq head m, args.IsRow seq head m → args.RowAttends launch seq head m
  out_only : ∀ store ∈ launch.outStores, ∃ seq head m d, args.IsRow seq head m ∧
    d < args.v.shape 2 ∧ store.index = args.outIndex seq head m d
  lse_only : ∀ store ∈ launch.lseStores, ∃ seq head m, args.IsRow seq head m ∧
    store.index = args.lseIndex seq head m
  out_frame : ∀ out lse, launch.Returns out lse → ∀ place,
    (∀ seq head m, args.IsRow seq head m → ∀ d < args.v.shape 2,
      offset out.strides (args.outIndex seq head m d) ≠ place) →
    out.memory place = launch.kernel.out.memory place
  lse_frame : ∀ out lse, launch.Returns out lse → ∀ l ∈ lse, ∀ place,
    (∀ seq head m, args.IsRow seq head m →
      offset l.strides (args.lseIndex seq head m) ≠ place) →
    l.memory place = launch.kernel.lse.memory place
  visible : ∀ seq < args.batch, ∀ m n, n ∈ args.visible seq m ↔
    n < args.kLen seq ∧ (args.causal = true → n ≤ m)
  no_keys : ∀ seq head m, args.visible seq m = ∅ →
    (∀ d, args.attention seq head m d = 0) ∧ args.attentionLse seq head m = .negInf

omit hp in
theorem not_starved_of_callerMode (hmode : args.CallerMode) (h : seq < args.batch) :
    ¬ args.Starved seq m := by
  intro hstarved
  have hlen := hmode hstarved.causal seq h
  have hnone := hstarved.sees_none
  omega

theorem attends_of_callerMode (hmode : args.CallerMode) :
    args.Attends (args.launch freshOut freshLse) where
  row seq head m hr :=
    (rowAttends_iff hp freshOut freshLse hr).mpr (not_starved_of_callerMode hmode hr.seq_lt)
  out_only store hs := by
    obtain ⟨seq, head, m, d, hr, hd, rfl⟩ := (mem_outStores hp freshOut freshLse).mp hs
    exact ⟨seq, head, m, d, hr, hd, rfl⟩
  lse_only store hs := by
    by_cases hlse : args.returnLse = true
    · obtain ⟨seq, head, m, hr, rfl⟩ := (mem_lseStores hp freshOut freshLse hlse).mp hs
      exact ⟨seq, head, m, hr, rfl⟩
    · rw [lseStores_of_not freshOut freshLse hlse] at hs
      exact absurd hs List.not_mem_nil
  out_frame out lse hreturns place hplace := by
    obtain ⟨⟨stores, hperm, rfl⟩, -⟩ := hreturns
    refine stored_memory fun s hs => ?_
    obtain ⟨seq, head, m, d, hr, hd, rfl⟩ :=
      (mem_outStores hp freshOut freshLse).mp (hperm.mem_iff.mp hs)
    exact hplace seq head m hr d hd
  lse_frame out lse hreturns l hl place hplace := by
    obtain ⟨-, stores, hperm, rfl⟩ := hreturns
    obtain ⟨hlse, hl⟩ := Option.mem_ite_none_right.mp hl
    rw [← Option.mem_some.mp hl] at hplace ⊢
    refine stored_memory fun s hs => ?_
    obtain ⟨seq, head, m, hr, rfl⟩ :=
      (mem_lseStores hp freshOut freshLse hlse).mp (hperm.mem_iff.mp hs)
    exact hplace seq head m hr
  visible seq hseq m n := by
    rw [visible, mem_seen]
    refine and_congr_right fun hn => forall_congr' fun hcausal => ?_
    rw [hmode hcausal seq hseq]
    omega
  no_keys seq head m hempty := by
    rw [attentionLse, hempty, logSumExp_empty]
    refine ⟨fun d => ?_, rfl⟩
    rw [attention, hempty, softmaxAverage_empty]

/-- With the lengths that callers give, triton_mla_prefill computes attention. -/
theorem tritonMlaPrefill_attends (hmode : args.CallerMode) :
    ∃ launch, args.tritonMlaPrefill freshOut freshLse = some launch ∧ args.Attends launch :=
  ⟨_, if_pos hp.accepted, attends_of_callerMode hp freshOut freshLse hmode⟩

/-! ### A sequence of two queries -/

/-- A causal call for one sequence with two queries and so many keys. -/
noncomputable def twoQueries (keys : ℕ) : PrefillArgs where
  q := .empty .float32 (.cuda 0) ![2, 1, 1] fun _ => 0
  k := .empty .float32 (.cuda 0) ![keys, 1, 1] fun _ => 0
  v := .empty .float32 (.cuda 0) ![keys, 1, 1] fun _ => 0
  qStartLoc := ⟨.cuda 0, [0, 2]⟩
  kStartLoc := ⟨.cuda 0, [0, keys]⟩
  maxQueryLen := 2
  scale := 1
  causal := true
  returnLse := true
  out := none

omit hp in
theorem twoQueries_packed (keys : ℕ) : (twoQueries keys).Packed where
  accepted := ⟨rfl, rfl, one_ne_zero, Nat.mod_self 1, rfl, ⟨rfl, rfl⟩, ⟨rfl, rfl⟩, ⟨rfl, rfl⟩,
    fun _ h => absurd h (Option.not_mem_none _)⟩
  qkHeadDim_pos := Nat.one_pos
  vHeadDim_pos := Nat.one_pos
  qStart_le := fun
    | 0, _ => Nat.zero_le 2
  kStart_le := fun
    | 0, _ => Nat.zero_le keys
  qStart_batch := le_refl 2
  kStart_batch := ⟨le_refl keys, le_refl keys⟩
  qLen_le := fun
    | 0, _ => le_refl 2

omit hp in
theorem tritonMlaPrefill_attends_sample :
    ∃ launch, (twoQueries 2).tritonMlaPrefill (fun _ => 0) (fun _ => 0) = some launch ∧
      (twoQueries 2).Attends launch :=
  tritonMlaPrefill_attends (twoQueries_packed 2) _ _ fun _ => fun
    | 0, _ => rfl

/-! ### Causal sequences with other lengths -/

omit hp in
/-- A sequence has no starved row where the rows that see no key fill whole blocks. -/
theorem not_starved_iff (hcausal : args.causal = true) :
    (∀ m < args.qLen seq, ¬ args.Starved seq m) ↔
      args.kLen seq = 0 ∨ args.qLen seq ≤ args.kLen seq ∨
        64 ∣ args.qLen seq - args.kLen seq := by
  constructor
  · intro hfed
    refine or_iff_not_imp_left.mpr fun hpos => or_iff_not_imp_left.mpr fun hlt => ?_
    -- the last row that sees no key
    by_contra hdvd
    exact hfed (args.qLen seq - args.kLen seq - 1) (by omega)
      ⟨hcausal, by omega, by omega, by omega⟩
  · intro hlen m hm hstarved
    have hpos := hstarved.kLen_pos
    have hnone := hstarved.sees_none
    have hsees := hstarved.block_sees
    omega

/-- Rows that see a key get their attention, and a causal sequence with other lengths has all of its
rows right exactly where those that see none fill whole blocks. -/
theorem tritonMlaPrefill_causal (hcausal : args.causal = true) (hseq : seq < args.batch)
    (hhead : head < args.q.shape 1) (hlen : args.qLen seq ≠ args.kLen seq) :
    ∃ launch, args.tritonMlaPrefill freshOut freshLse = some launch ∧
      (∀ m n, launch.kernel.Mask seq m n ↔
        n < args.kLen seq ∧ (n : ℤ) ≤ m + args.kLen seq - args.qLen seq) ∧
      (∀ m < args.qLen seq, (args.visible seq m).Nonempty →
        args.RowAttends launch seq head m) ∧
      ((∀ m < args.qLen seq, args.RowAttends launch seq head m) ↔
        args.kLen seq = 0 ∨ args.qLen seq < args.kLen seq ∨
          64 ∣ args.qLen seq - args.kLen seq) := by
  have hrow : ∀ m < args.qLen seq,
      (args.RowAttends (args.launch freshOut freshLse) seq head m ↔ ¬ args.Starved seq m) :=
    fun m hm => rowAttends_iff hp freshOut freshLse ⟨hseq, hhead, hm⟩
  refine ⟨_, if_pos hp.accepted, fun m n => ?_, fun m hm hkeys => (hrow m hm).mpr ?_, ?_⟩
  · rw [launch_kernel, kernel_mask hp freshOut freshLse hseq, visible, mem_seen, hcausal]
    exact and_congr_right fun _ => forall_prop_of_true rfl
  · exact fun hstarved => hkeys.ne_empty
      (visible_eq_empty.mpr (.inr ⟨hstarved.causal, hstarved.sees_none⟩))
  · rw [forall₂_congr hrow, not_starved_iff hcausal, hlen.le_iff_lt]

omit hp in
theorem tritonMlaPrefill_causal_sample :
    ∃ launch, (twoQueries 1).tritonMlaPrefill (fun _ => 0) (fun _ => 0) = some launch ∧
      (∀ m n, launch.kernel.Mask 0 m n ↔ n < (twoQueries 1).kLen 0 ∧
        (n : ℤ) ≤ m + (twoQueries 1).kLen 0 - (twoQueries 1).qLen 0) ∧
      (∀ m < (twoQueries 1).qLen 0, ((twoQueries 1).visible 0 m).Nonempty →
        (twoQueries 1).RowAttends launch 0 0 m) ∧
      ((∀ m < (twoQueries 1).qLen 0, (twoQueries 1).RowAttends launch 0 0 m) ↔
        (twoQueries 1).kLen 0 = 0 ∨ (twoQueries 1).qLen 0 < (twoQueries 1).kLen 0 ∨
          64 ∣ (twoQueries 1).qLen 0 - (twoQueries 1).kLen 0) :=
  tritonMlaPrefill_causal (twoQueries_packed 1) _ _ rfl Nat.one_pos Nat.one_pos (by decide)

omit hp in
/-- With one key, the first of the two rows sees none, and nan is stored as its output. -/
theorem twoQueries_starved :
    ∃ launch, (twoQueries 1).tritonMlaPrefill (fun _ => 0) (fun _ => 0) = some launch ∧
      ⟨(twoQueries 1).outIndex 0 0 0 0, .nan⟩ ∈ launch.outStores ∧
      ¬ (twoQueries 1).RowAttends launch 0 0 0 := by
  have hp := twoQueries_packed 1
  have hr : (twoQueries 1).IsRow 0 0 0 := ⟨Nat.one_pos, Nat.one_pos, Nat.two_pos⟩
  have hstarved : (twoQueries 1).Starved 0 0 := ⟨rfl, Nat.one_pos, Nat.one_lt_two, by decide⟩
  refine ⟨_, if_pos hp.accepted, ?_, ?_⟩
  · have hstored := (rowGets hp (fun _ => 0) (fun _ => 0) hr).out_stored 0 Nat.one_pos
    rwa [(values_of_starved hp (fun _ => 0) (fun _ => 0) Nat.one_pos hstarved 0).1] at hstored
  · exact fun h => (rowAttends_iff hp (fun _ => 0) (fun _ => 0) hr).mp h hstarved

end PrefillArgs
end MultiGpuTransport.Triton
