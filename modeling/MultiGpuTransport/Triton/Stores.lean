import MultiGpuTransport.Triton.Attention

/-!
# What the programs store

Every element of every row is stored exactly once, and nothing else is stored. So the order in which
the programs run does not matter.
-/
namespace MultiGpuTransport.Triton
open Backends Strided

/-- Lanes of programs that have different keys have them all over a grid. -/
theorem nodup_flatMap_map {P L K : Type*} {programs : List P} {lanes : P → List L} {key : P → L → K}
    (hprograms : programs.Nodup) (hlanes : ∀ p ∈ programs, (lanes p).Nodup)
    (hkey : ∀ p ∈ programs, ∀ l ∈ lanes p, ∀ p' ∈ programs, ∀ l' ∈ lanes p',
      key p l = key p' l' → p = p' ∧ l = l') :
    (programs.flatMap fun p => (lanes p).map (key p)).Nodup := by
  refine List.nodup_flatMap.mpr ⟨fun p hp => ?_, hprograms.pairwise_of_forall_ne ?_⟩
  · exact (hlanes p hp).map_on fun l hl l' hl' heq => (hkey p hp l hl p hp l' hl' heq).2
  · intro p hp p' hp' hne k hk hk'
    obtain ⟨l, hl, rfl⟩ := List.mem_map.mp hk
    obtain ⟨l', hl', heq⟩ := List.mem_map.mp hk'
    exact hne (hkey p hp l hl p' hp' l' hl' heq.symm).1

/-- A tensor whose stores go to different places has what is stored. -/
theorem stored_read {n : ℕ} {t : StridedTensor Extended n} {stores : List (Store n)}
    (hinj : ∀ s ∈ stores, ∀ s' ∈ stores,
      offset t.strides s.index = offset t.strides s'.index → s = s') {s : Store n}
    (hs : s ∈ stores) : (Launch.stored t stores).read s.index = s.value := by
  classical
  exact foldl_update_place (fun s : Store n => offset t.strides s.index) Store.value hinj hs

/-- In whatever order the programs run. -/
theorem stored_read_of_nodup {n : ℕ} {t : StridedTensor Extended n} {stores stores' : List (Store n)}
    (hperm : stores.Perm stores') (hnodup : (stores'.map Store.index).Nodup)
    (hin : ∀ s ∈ stores', InBounds t.shape s.index) (hno : Nonoverlapping t.shape t.strides)
    {s : Store n} (hs : s ∈ stores') : (Launch.stored t stores).read s.index = s.value := by
  refine stored_read (fun r hr r' hr' heq => ?_) (hperm.mem_iff.mpr hs)
  have hindex : r.index = r'.index :=
    hno _ (mem_indices.mpr (hin r (hperm.mem_iff.mp hr))) _
      (mem_indices.mpr (hin r' (hperm.mem_iff.mp hr'))) heq
  exact List.inj_on_of_nodup_map hnodup (hperm.mem_iff.mp hr) (hperm.mem_iff.mp hr') hindex

theorem stored_memory {n : ℕ} {t : StridedTensor Extended n} {stores : List (Store n)} {place : ℕ}
    (h : ∀ s ∈ stores, offset t.strides s.index ≠ place) :
    (Launch.stored t stores).memory place = t.memory place :=
  foldl_update_of_ne (fun s : Store n => offset t.strides s.index) Store.value h

namespace PrefillArgs
variable (args : PrefillArgs)

/-- A query row of a sequence, and a query head. -/
structure IsRow (seq head m : ℕ) : Prop where
  seq_lt : seq < args.batch
  head_lt : head < args.q.shape 1
  row_lt : m < args.qLen seq

def outIndex (seq head m d : ℕ) : Fin 3 → ℕ := ![args.qStart seq + m, head, d]

def lseIndex (seq head m : ℕ) : Fin 2 → ℕ := ![head, args.qStart seq + m]

variable {args} (hp : args.Packed) {seq seq' head head' m m' d d' : ℕ}
include hp

/-! ### Rows are apart -/

theorem qStart_mono (hle : seq ≤ seq') (h : seq' ≤ args.batch) :
    args.qStart seq ≤ args.qStart seq' := by
  induction seq', hle using Nat.le_induction with
  | base => exact le_rfl
  | succ seq' hle ih => exact (ih (by omega)).trans (hp.qStart_le seq' (by omega))

theorem row_lt_next (hr : args.IsRow seq head m) : args.qStart seq + m < args.qStart (seq + 1) := by
  have hle := hp.qStart_le seq hr.seq_lt
  have hlt := hr.row_lt
  rw [qLen] at hlt
  omega

theorem row_unique (hr : args.IsRow seq head m) (hr' : args.IsRow seq' head' m')
    (heq : args.qStart seq + m = args.qStart seq' + m') : seq = seq' ∧ m = m' := by
  have hlt := row_lt_next hp hr
  have hlt' := row_lt_next hp hr'
  rcases lt_trichotomy seq seq' with h | rfl | h
  · have hmono : args.qStart (seq + 1) ≤ args.qStart seq' := qStart_mono hp h hr'.seq_lt.le
    omega
  · exact ⟨rfl, by omega⟩
  · have hmono : args.qStart (seq' + 1) ≤ args.qStart seq := qStart_mono hp h hr.seq_lt.le
    omega

theorem outIndex_inj (hr : args.IsRow seq head m) (hr' : args.IsRow seq' head' m')
    (heq : args.outIndex seq head m d = args.outIndex seq' head' m' d') :
    seq = seq' ∧ head = head' ∧ m = m' ∧ d = d' := by
  have hrow : args.qStart seq + m = args.qStart seq' + m' := congrFun heq 0
  obtain ⟨hseq, hm⟩ := row_unique hp hr hr' hrow
  exact ⟨hseq, congrFun heq 1, hm, congrFun heq 2⟩

theorem lseIndex_inj (hr : args.IsRow seq head m) (hr' : args.IsRow seq' head' m')
    (heq : args.lseIndex seq head m = args.lseIndex seq' head' m') :
    seq = seq' ∧ head = head' ∧ m = m' := by
  have hrow : args.qStart seq + m = args.qStart seq' + m' := congrFun heq 1
  obtain ⟨hseq, hm⟩ := row_unique hp hr hr' hrow
  exact ⟨hseq, congrFun heq 0, hm⟩

theorem row_lt_shape (hr : args.IsRow seq head m) : args.qStart seq + m < args.q.shape 0 := by
  have hlt := row_lt_next hp hr
  have hle : args.qStart (seq + 1) ≤ args.qStart args.batch := qStart_mono hp hr.seq_lt le_rfl
  have hbatch := hp.qStart_batch
  omega

theorem outIndex_inBounds (hr : args.IsRow seq head m) (hd : d < args.v.shape 2) :
    InBounds ![args.q.shape 0, args.q.shape 1, args.v.shape 2] (args.outIndex seq head m d) := by
  rw [InBounds, Fin.forall_fin_succ, Fin.forall_fin_succ, Fin.forall_fin_one]
  exact ⟨row_lt_shape hp hr, hr.head_lt, hd⟩

theorem lseIndex_inBounds (hr : args.IsRow seq head m) :
    InBounds ![args.q.shape 1, args.q.shape 0] (args.lseIndex seq head m) := by
  rw [InBounds, Fin.forall_fin_two]
  exact ⟨hr.head_lt, row_lt_shape hp hr⟩

/-! ### What is stored -/

variable (freshOut freshLse : ℕ → Extended)

omit hp in
@[simp] theorem mem_programs {qBlockIdx : ℕ} :
    (seq, head, qBlockIdx) ∈ (args.launch freshOut freshLse).programs ↔
      seq < args.batch ∧ head < args.q.shape 1 ∧ qBlockIdx < cdiv args.maxQueryLen 64 := by
  simp [Launch.programs, launch, batch]

omit hp in
theorem launch_kernel :
    (args.launch freshOut freshLse).kernel = args.kernel freshOut freshLse := rfl

/-- The lane of a row in its block. -/
theorem exists_lane (hr : args.IsRow seq head m) :
    m / 64 < cdiv args.maxQueryLen 64 ∧ m % 64 < 64 := by
  have hle := hp.qLen_le seq hr.seq_lt
  have hlt := hr.row_lt
  rw [cdiv]
  omega

variable (args) in
omit hp in
theorem lane_of_offsM (qBlockIdx : ℕ) {i : ℕ} (hi : i < 64) :
    (args.kernel freshOut freshLse).offsM qBlockIdx i / 64 = qBlockIdx ∧
      (args.kernel freshOut freshLse).offsM qBlockIdx i % 64 = i := by
  rw [Kernel.offsM, show (args.kernel freshOut freshLse).blockM = 64 from rfl]
  omega

variable (args) in
omit hp in
theorem offsM_inj {qBlockIdx qBlockIdx' i i' : ℕ} (hi : i < 64) (hi' : i' < 64)
    (heq : (args.kernel freshOut freshLse).offsM qBlockIdx i =
      (args.kernel freshOut freshLse).offsM qBlockIdx' i') : qBlockIdx = qBlockIdx' ∧ i = i' := by
  obtain ⟨hblock, hlane⟩ := lane_of_offsM args freshOut freshLse qBlockIdx hi
  obtain ⟨hblock', hlane'⟩ := lane_of_offsM args freshOut freshLse qBlockIdx' hi'
  rw [heq] at hblock hlane
  exact ⟨hblock.symm.trans hblock', hlane.symm.trans hlane'⟩

/-- What a program stores is of a row. -/
theorem isRow_of_lane {qBlockIdx i : ℕ}
    (h : (seq, head, qBlockIdx) ∈ (args.launch freshOut freshLse).programs)
    (hm : ((args.kernel freshOut freshLse).offsM qBlockIdx i : ℤ) <
      (args.kernel freshOut freshLse).qLen seq) :
    args.IsRow seq head ((args.kernel freshOut freshLse).offsM qBlockIdx i) := by
  obtain ⟨hseq, hhead, -⟩ := (mem_programs freshOut freshLse).mp h
  exact ⟨hseq, hhead, Int.ofNat_lt.mp (hm.trans_eq (kernel_qLen hp freshOut freshLse hseq))⟩

theorem lane_of_isRow (hr : args.IsRow seq head m) :
    ((args.kernel freshOut freshLse).offsM (m / 64) (m % 64) : ℤ) <
      (args.kernel freshOut freshLse).qLen seq := by
  rw [kernel_offsM, kernel_qLen hp freshOut freshLse hr.seq_lt]
  exact Int.ofNat_lt.mpr hr.row_lt

/-- The programs store the outputs of all rows and nothing else. -/
theorem mem_outStores {store : Store 3} :
    store ∈ (args.launch freshOut freshLse).outStores ↔
      ∃ seq head m d, args.IsRow seq head m ∧ d < args.v.shape 2 ∧
        store = ⟨args.outIndex seq head m d, args.outValue freshOut freshLse seq head m d⟩ := by
  simp only [Launch.outStores, List.mem_flatMap, Kernel.outStores, List.mem_map, List.mem_filter,
    decide_eq_true_eq, Prod.exists, List.mem_product, List.mem_range]
  constructor
  · rintro ⟨seq, head, qBlockIdx, hmem, i, d, ⟨⟨hi, -⟩, hm, hd⟩, rfl⟩
    obtain ⟨hblock, hlane⟩ := lane_of_offsM args freshOut freshLse qBlockIdx hi
    refine ⟨seq, head, _, d, isRow_of_lane hp freshOut freshLse hmem hm, hd, ?_⟩
    rw [outValue, hblock, hlane]
    rfl
  · rintro ⟨seq, head, m, d, hr, hd, rfl⟩
    obtain ⟨hblock, hi⟩ := exists_lane hp hr
    refine ⟨seq, head, m / 64, (mem_programs freshOut freshLse).mpr
      ⟨hr.seq_lt, hr.head_lt, hblock⟩, m % 64, d, ⟨⟨hi, hd.trans_le (le_nextPowerOf2 _)⟩,
        lane_of_isRow hp freshOut freshLse hr, hd⟩, ?_⟩
    rw [launch_kernel, kernel_offsM]
    rfl

theorem mem_lseStores (hlse : args.returnLse = true) {store : Store 2} :
    store ∈ (args.launch freshOut freshLse).lseStores ↔
      ∃ seq head m, args.IsRow seq head m ∧
        store = ⟨args.lseIndex seq head m, args.lseValue freshOut freshLse seq head m⟩ := by
  have hreturn : (args.launch freshOut freshLse).kernel.returnLse = true := hlse
  simp only [Launch.lseStores, List.mem_flatMap, Kernel.lseStores, hreturn, if_true, List.mem_map,
    List.mem_filter, decide_eq_true_eq, Prod.exists, List.mem_range]
  constructor
  · rintro ⟨seq, head, qBlockIdx, hmem, i, ⟨hi, hm⟩, rfl⟩
    obtain ⟨hblock, hlane⟩ := lane_of_offsM args freshOut freshLse qBlockIdx hi
    refine ⟨seq, head, _, isRow_of_lane hp freshOut freshLse hmem hm, ?_⟩
    rw [lseValue, hblock, hlane]
    rfl
  · rintro ⟨seq, head, m, hr, rfl⟩
    obtain ⟨hblock, hi⟩ := exists_lane hp hr
    refine ⟨seq, head, m / 64, (mem_programs freshOut freshLse).mpr
      ⟨hr.seq_lt, hr.head_lt, hblock⟩, m % 64, ⟨hi, lane_of_isRow hp freshOut freshLse hr⟩, ?_⟩
    rw [launch_kernel, kernel_offsM]
    rfl

omit hp in
theorem nodup_programs : (args.launch freshOut freshLse).programs.Nodup :=
  List.nodup_range.product (List.nodup_range.product List.nodup_range)

/-- No element is stored twice. -/
theorem nodup_outStores :
    ((args.launch freshOut freshLse).outStores.map Store.index).Nodup := by
  simp only [Launch.outStores, List.map_flatMap, Kernel.outStores, List.map_map]
  refine nodup_flatMap_map (nodup_programs freshOut freshLse) (fun p _ => ?_) ?_
  · exact (List.nodup_range.product List.nodup_range).filter _
  · rintro ⟨seq, head, b⟩ hp' ⟨i, d⟩ hl ⟨seq', head', b'⟩ hp'' ⟨i', d'⟩ hl' heq
    simp only [List.mem_filter, List.mem_product, List.mem_range, decide_eq_true_eq] at hl hl'
    obtain ⟨rfl, rfl, hm, rfl⟩ := outIndex_inj hp (isRow_of_lane hp freshOut freshLse hp' hl.2.1)
      (isRow_of_lane hp freshOut freshLse hp'' hl'.2.1) heq
    obtain ⟨rfl, rfl⟩ := offsM_inj args freshOut freshLse hl.1.1 hl'.1.1 hm
    exact ⟨rfl, rfl⟩

omit hp in
theorem lseStores_of_not (hlse : ¬ args.returnLse = true) :
    (args.launch freshOut freshLse).lseStores = [] :=
  List.flatMap_eq_nil_iff.mpr fun _ _ => if_neg hlse

theorem nodup_lseStores :
    ((args.launch freshOut freshLse).lseStores.map Store.index).Nodup := by
  by_cases hlse : args.returnLse = true
  · have hreturn : (args.launch freshOut freshLse).kernel.returnLse = true := hlse
    simp only [Launch.lseStores, List.map_flatMap, Kernel.lseStores, hreturn, if_true, List.map_map]
    refine nodup_flatMap_map (nodup_programs freshOut freshLse)
      (fun p _ => List.nodup_range.filter _) ?_
    rintro ⟨seq, head, b⟩ hp' i hl ⟨seq', head', b'⟩ hp'' i' hl' heq
    simp only [List.mem_filter, List.mem_range, decide_eq_true_eq] at hl hl'
    obtain ⟨rfl, rfl, hm⟩ := lseIndex_inj hp (isRow_of_lane hp freshOut freshLse hp' hl.2)
      (isRow_of_lane hp freshOut freshLse hp'' hl'.2) heq
    obtain ⟨rfl, rfl⟩ := offsM_inj args freshOut freshLse hl.1 hl'.1 hm
    exact ⟨rfl, rfl⟩
  · rw [lseStores_of_not freshOut freshLse hlse]
    exact List.nodup_nil

end PrefillArgs
end MultiGpuTransport.Triton
