import Mathlib.Algebra.BigOperators.Fin
import Mathlib.Data.Fintype.Card
import Mathlib.Data.Fin.Tuple.Basic
import Mathlib.Tactic.Common
import Mathlib.Tactic.Ring

/-!
# Strided arrays

An index of an array of rank n gives a position in each of its n dimensions. Strides put every index
at an offset from the first element; the row-major strides put the indices of a shape one after the
other. Moving a dimension to another place moves indices, shape and strides alike.
-/
namespace MultiGpuTransport.Strided

variable {n : ℕ}

/-- The first dimension of an array is 0 : Fin (n + 1), everywhere by this instance. -/
scoped instance (priority := 2000) instNeZeroRank (n : ℕ) : NeZero (n + 1) :=
  Nat.instNeZeroSucc

scoped instance (priority := 2001) instNeZeroRankThree : NeZero 3 := ⟨Nat.succ_ne_zero 2⟩

def InBounds (shape idx : Fin n → ℕ) : Prop := ∀ k, idx k < shape k

instance (shape idx : Fin n → ℕ) : Decidable (InBounds shape idx) :=
  inferInstanceAs (Decidable (∀ _, _ < _))

def offset (strides idx : Fin n → ℕ) : ℕ := ∑ k, idx k * strides k

def numel (shape : Fin n → ℕ) : ℕ := ∏ k, shape k

/-- The strides of an array whose elements follow one another, the last dimension fastest. -/
def rowMajor : {n : ℕ} → (Fin n → ℕ) → Fin n → ℕ
  | 0, _ => Fin.elim0
  | _ + 1, shape => Fin.cons (numel (Fin.tail shape)) (rowMajor (Fin.tail shape))

/-- The place of an index in row-major order. -/
def flat (shape idx : Fin n → ℕ) : ℕ := offset (rowMajor shape) idx

theorem inBounds_succ {shape idx : Fin (n + 1) → ℕ} :
    InBounds shape idx ↔ idx 0 < shape 0 ∧ InBounds (Fin.tail shape) (Fin.tail idx) :=
  Fin.forall_fin_succ

theorem offset_succ (strides idx : Fin (n + 1) → ℕ) :
    offset strides idx = idx 0 * strides 0 + offset (Fin.tail strides) (Fin.tail idx) :=
  Fin.sum_univ_succ _

theorem numel_succ (shape : Fin (n + 1) → ℕ) :
    numel shape = shape 0 * numel (Fin.tail shape) := Fin.prod_univ_succ _

theorem flat_succ (shape idx : Fin (n + 1) → ℕ) :
    flat shape idx = idx 0 * numel (Fin.tail shape) + flat (Fin.tail shape) (Fin.tail idx) := by
  rw [flat, offset_succ]
  rfl

/-! ### Row-major order -/

theorem flat_lt {shape idx : Fin n → ℕ} (h : InBounds shape idx) : flat shape idx < numel shape := by
  induction n with
  | zero => simp [flat, offset, numel]
  | succ n ih =>
    obtain ⟨h0, ht⟩ := inBounds_succ.mp h
    rw [flat_succ, numel_succ]
    calc idx 0 * numel (Fin.tail shape) + flat (Fin.tail shape) (Fin.tail idx)
        < idx 0 * numel (Fin.tail shape) + numel (Fin.tail shape) := by
          have := ih ht
          omega
      _ = (idx 0 + 1) * numel (Fin.tail shape) := by rw [Nat.succ_mul]
      _ ≤ shape 0 * numel (Fin.tail shape) := Nat.mul_le_mul_right _ h0

theorem flat_inj {shape idx idx' : Fin n → ℕ} (h : InBounds shape idx) (h' : InBounds shape idx')
    (heq : flat shape idx = flat shape idx') : idx = idx' := by
  induction n with
  | zero => exact funext fun k => k.elim0
  | succ n ih =>
    have ht := (inBounds_succ.mp h).2
    have ht' := (inBounds_succ.mp h').2
    rw [flat_succ, flat_succ] at heq
    have hlt := flat_lt ht
    have hlt' := flat_lt ht'
    -- the first position is the quotient by the size of the rest
    have hdiv := congrArg (· / numel (Fin.tail shape)) heq
    simp only [Nat.mul_comm _ (numel (Fin.tail shape)),
      Nat.mul_add_div (Nat.zero_lt_of_lt hlt), Nat.div_eq_of_lt hlt, Nat.div_eq_of_lt hlt',
      Nat.add_zero] at hdiv
    rw [hdiv] at heq
    have htail := ih ht ht' (Nat.add_left_cancel heq)
    refine funext (Fin.cases hdiv fun k => congrFun htail k)

theorem exists_flat (shape : Fin n → ℕ) {i : ℕ} (h : i < numel shape) :
    ∃ idx, InBounds shape idx ∧ flat shape idx = i := by
  induction n generalizing i with
  | zero =>
    refine ⟨Fin.elim0, fun k => k.elim0, ?_⟩
    have : i < 1 := h
    simp [flat, offset]
    omega
  | succ n ih =>
    rw [numel_succ] at h
    have hpos : 0 < numel (Fin.tail shape) := by
      refine Nat.pos_of_ne_zero fun hzero => ?_
      rw [hzero] at h
      omega
    obtain ⟨idx, hidx, hflat⟩ := ih (Fin.tail shape) (Nat.mod_lt i hpos)
    refine ⟨Fin.cons (i / numel (Fin.tail shape)) idx, inBounds_succ.mpr ⟨?_, by simpa using hidx⟩, ?_⟩
    · exact (Nat.div_lt_iff_lt_mul hpos).mpr h
    · rw [flat_succ, Fin.tail_cons, Fin.cons_zero, hflat, Nat.div_add_mod']

/-- The indices of a shape, in row-major order. -/
def indices : {n : ℕ} → (Fin n → ℕ) → List (Fin n → ℕ)
  | 0, _ => [Fin.elim0]
  | _ + 1, shape =>
    (List.range (shape 0)).flatMap fun i => (indices (Fin.tail shape)).map fun idx => Fin.cons i idx

@[simp] theorem mem_indices {shape idx : Fin n → ℕ} : idx ∈ indices shape ↔ InBounds shape idx := by
  induction n with
  | zero => simp [indices, InBounds, Subsingleton.elim idx Fin.elim0]
  | succ n ih =>
    simp only [indices, List.mem_flatMap, List.mem_range, List.mem_map, ih, inBounds_succ]
    constructor
    · rintro ⟨i, hi, rest, hrest, rfl⟩
      exact ⟨by simpa using hi, by simpa using hrest⟩
    · exact fun ⟨h0, ht⟩ => ⟨idx 0, h0, Fin.tail idx, ht, Fin.cons_self_tail idx⟩

/-! ### Layouts -/

/-- No two elements share a place. -/
def Nonoverlapping (shape strides : Fin n → ℕ) : Prop :=
  ∀ idx ∈ indices shape, ∀ idx' ∈ indices shape, offset strides idx = offset strides idx' → idx = idx'

/-- All elements lie among the first numel places. -/
def Dense (shape strides : Fin n → ℕ) : Prop :=
  ∀ idx ∈ indices shape, offset strides idx < numel shape

/-- The elements lie in row-major order. -/
def RowMajor (shape strides : Fin n → ℕ) : Prop :=
  ∀ idx ∈ indices shape, offset strides idx = flat shape idx

instance (shape strides : Fin n → ℕ) : Decidable (Nonoverlapping shape strides) :=
  inferInstanceAs (Decidable (∀ _ ∈ indices shape, _))

instance (shape strides : Fin n → ℕ) : Decidable (Dense shape strides) :=
  inferInstanceAs (Decidable (∀ _ ∈ indices shape, _))

theorem rowMajor_rowMajor (shape : Fin n → ℕ) : RowMajor shape (rowMajor shape) := fun _ _ => rfl

theorem RowMajor.nonoverlapping {shape strides : Fin n → ℕ} (h : RowMajor shape strides) :
    Nonoverlapping shape strides := by
  intro idx hidx idx' hidx' heq
  rw [h idx hidx, h idx' hidx'] at heq
  exact flat_inj (mem_indices.mp hidx) (mem_indices.mp hidx') heq

theorem RowMajor.dense {shape strides : Fin n → ℕ} (h : RowMajor shape strides) :
    Dense shape strides := by
  intro idx hidx
  rw [h idx hidx]
  exact flat_lt (mem_indices.mp hidx)

/-- Elements that share no place and lie among the first numel fill these. -/
theorem exists_offset {shape strides : Fin n → ℕ} (hno : Nonoverlapping shape strides)
    (hdense : Dense shape strides) {i : ℕ} (hi : i < numel shape) :
    ∃ idx, InBounds shape idx ∧ offset strides idx = i := by
  have hflat := fun j : Fin (numel shape) => exists_flat shape j.isLt
  choose at' hbounds hplace using hflat
  let f : Fin (numel shape) → Fin (numel shape) := fun j =>
    ⟨offset strides (at' j), hdense _ (mem_indices.mpr (hbounds j))⟩
  have hinj : Function.Injective f := by
    intro j j' heq
    have hidx := hno _ (mem_indices.mpr (hbounds j)) _ (mem_indices.mpr (hbounds j'))
      (congrArg Fin.val heq)
    exact Fin.ext (by rw [← hplace j, hidx, hplace j'])
  obtain ⟨j, hj⟩ := (Finite.injective_iff_surjective.mp hinj) ⟨i, hi⟩
  exact ⟨at' j, hbounds j, congrArg Fin.val hj⟩

/-! ### Writing all elements -/

section
variable {α : Type*}

/-- The memory after a value for every index of the shape has been put at its offset, in row-major
order. -/
def scatter (shape strides : Fin n → ℕ) (value : (Fin n → ℕ) → α) (memory : ℕ → α) : ℕ → α :=
  (indices shape).foldl (fun m idx => Function.update m (offset strides idx) (value idx)) memory

theorem foldl_update_of_ne {ι : Type*} (place : ι → ℕ) (value : ι → α) {l : List ι} {m : ℕ → α}
    {i : ℕ} (h : ∀ x ∈ l, place x ≠ i) :
    l.foldl (fun m x => Function.update m (place x) (value x)) m i = m i := by
  induction l generalizing m with
  | nil => rfl
  | cons x l ih =>
    obtain ⟨hx, hl⟩ := List.forall_mem_cons.mp h
    rw [List.foldl_cons, ih hl, Function.update_of_ne (Ne.symm hx)]

theorem foldl_update_place {ι : Type*} [DecidableEq ι] (place : ι → ℕ) (value : ι → α) {l : List ι}
    {m : ℕ → α} (hinj : ∀ x ∈ l, ∀ y ∈ l, place x = place y → x = y) {x : ι} (hx : x ∈ l) :
    l.foldl (fun m x => Function.update m (place x) (value x)) m (place x) = value x := by
  induction l generalizing m with
  | nil => simp at hx
  | cons y l ih =>
    rw [List.foldl_cons]
    by_cases hl : x ∈ l
    · exact ih (fun a ha b hb => hinj a (by simp [ha]) b (by simp [hb])) hl
    · obtain rfl : x = y := (List.mem_cons.mp hx).resolve_right hl
      rw [foldl_update_of_ne place value fun z hz heq => ?_, Function.update_self]
      exact hl (hinj z (by simp [hz]) x (by simp) heq ▸ hz)

variable {shape strides : Fin n → ℕ} {value : (Fin n → ℕ) → α} {memory : ℕ → α}

theorem scatter_offset (hno : Nonoverlapping shape strides) {idx : Fin n → ℕ}
    (h : InBounds shape idx) : scatter shape strides value memory (offset strides idx) = value idx :=
  foldl_update_place _ _ hno (mem_indices.mpr h)

theorem scatter_of_ne {i : ℕ} (h : ∀ idx, InBounds shape idx → offset strides idx ≠ i) :
    scatter shape strides value memory i = memory i :=
  foldl_update_of_ne _ _ fun idx hidx => h idx (mem_indices.mp hidx)

end

/-! ### Moving a dimension -/

section
variable {β : Type*}

/-- The entry at src is taken out and put in again at dst. -/
def movedim (src dst : Fin (n + 1)) (f : Fin (n + 1) → β) : Fin (n + 1) → β :=
  dst.insertNth (f src) (src.removeNth f)

@[simp] theorem movedim_apply_same (src dst : Fin (n + 1)) (f : Fin (n + 1) → β) :
    movedim src dst f dst = f src := Fin.insertNth_apply_same _ _ _

@[simp] theorem movedim_apply_succAbove (src dst : Fin (n + 1)) (f : Fin (n + 1) → β) (k : Fin n) :
    movedim src dst f (dst.succAbove k) = f (src.succAbove k) :=
  Fin.insertNth_apply_succAbove _ _ _ _

theorem movedim_update (src dst : Fin (n + 1)) (f : Fin (n + 1) → β) (b : β) :
    movedim src dst (Function.update f src b) = Function.update (movedim src dst f) dst b := by
  funext k
  rcases Fin.eq_self_or_eq_succAbove dst k with rfl | ⟨j, rfl⟩ <;>
    simp [Fin.succAbove_ne]

@[simp] theorem movedim_movedim (src dst : Fin (n + 1)) (f : Fin (n + 1) → β) :
    movedim dst src (movedim src dst f) = f := by
  funext k
  rcases Fin.eq_self_or_eq_succAbove src k with rfl | ⟨j, rfl⟩ <;> simp

end

variable {src dst : Fin (n + 1)} {shape idx : Fin (n + 1) → ℕ}

@[simp] theorem offset_movedim (strides : Fin (n + 1) → ℕ) :
    offset (movedim src dst strides) (movedim src dst idx) = offset strides idx := by
  rw [offset, offset, Fin.sum_univ_succAbove _ dst, Fin.sum_univ_succAbove _ src]
  simp

@[simp] theorem inBounds_movedim :
    InBounds (movedim src dst shape) (movedim src dst idx) ↔ InBounds shape idx := by
  rw [InBounds, InBounds, Fin.forall_iff_succAbove dst, Fin.forall_iff_succAbove src]
  simp

/-! ### Chunks -/

/-- The positions of chunk q along dimension k, in chunks of extent d. -/
def inChunk (k : Fin n) (d q : ℕ) (idx : Fin n → ℕ) : Fin n → ℕ :=
  Function.update idx k (q * d + idx k)

@[simp] theorem inChunk_self (k : Fin n) (d q : ℕ) (idx : Fin n → ℕ) :
    inChunk k d q idx k = q * d + idx k := Function.update_self ..

theorem movedim_inChunk (src dst : Fin (n + 1)) (d q : ℕ) (idx : Fin (n + 1) → ℕ) :
    movedim src dst (inChunk src d q idx) = inChunk dst d q (movedim src dst idx) := by
  simp [inChunk, movedim_update]

section
variable {shape idx : Fin n → ℕ} {k : Fin n} {d W : ℕ}

theorem inBounds_inChunk (h : InBounds (Function.update shape k d) idx) {q : ℕ} (hq : q < W) :
    InBounds (Function.update shape k (W * d)) (inChunk k d q idx) := by
  intro j
  have hj := h j
  by_cases hjk : j = k
  · subst hjk
    simp only [Function.update_self] at hj
    simp only [Function.update_self, inChunk]
    calc q * d + idx j < (q + 1) * d := by rw [Nat.succ_mul]; omega
      _ ≤ W * d := Nat.mul_le_mul_right d hq
  · simpa [inChunk, hjk] using hj

/-- Every index is in one of the chunks. -/
theorem exists_inChunk (h : InBounds (Function.update shape k (W * d)) idx) :
    ∃ q < W, ∃ idx', InBounds (Function.update shape k d) idx' ∧ inChunk k d q idx' = idx := by
  have hk := h k
  rw [Function.update_self] at hk
  have hd : 0 < d := Nat.pos_of_mul_pos_left (Nat.zero_lt_of_lt hk)
  refine ⟨idx k / d, Nat.div_lt_of_lt_mul (by rwa [Nat.mul_comm]),
    Function.update idx k (idx k % d), fun j => ?_, ?_⟩
  · by_cases hjk : j = k
    · subst hjk
      simpa using Nat.mod_lt _ hd
    · simpa [hjk] using h j
  · simp [inChunk, Nat.div_add_mod']

end

/-- In row-major order the chunks along the first dimension follow one another. -/
theorem flat_inChunk (shape idx : Fin (n + 1) → ℕ) (d q : ℕ) :
    flat shape (inChunk 0 d q idx) =
      q * numel (Function.update shape 0 d) + flat (Function.update shape 0 d) idx := by
  rw [flat_succ, flat_succ, numel_succ, inChunk_self, Function.update_self]
  have htail : Fin.tail (inChunk 0 d q idx) = Fin.tail idx := by
    funext j
    simp [Fin.tail, inChunk]
  have hshape : Fin.tail (Function.update shape 0 d) = Fin.tail shape := by
    funext j
    simp [Fin.tail]
  rw [htail, hshape]
  ring

end MultiGpuTransport.Strided
