import MultiGpuTransport.Lib.Sizes
import MultiGpuTransport.Shim.Comm

/-!
# The shim's settings

ncclCommInitAll reads its settings from the process environment, and the sizes of the D3D12 transport
follow from them: the buffer's, the largest routed payload's and that of the heap the buffer is
mapped from.
-/
namespace MultiGpuTransport.Shim
open Lib

/-- What ends a C string. -/
def nul : Char := Char.ofNat 0

/-- A C string, by the characters before its end. -/
structure CString where
  chars : List Char
  terminated : nul ∉ chars

def CString.charAt (value : CString) (i : ℕ) : Char := value.chars.getD i nul

@[simp] lemma CString.charAt_eq_nul {value : CString} {i : ℕ} :
    value.charAt i = nul ↔ value.chars.length ≤ i := by
  constructor
  · intro h
    by_contra hi
    have hget : value.charAt i = value.chars[i] := List.getD_eq_getElem _ _ (by omega)
    apply value.terminated
    rw [← h, hget]
    exact List.getElem_mem _
  · exact fun hi => List.getD_eq_default _ _ hi

/-- The process environment, as std::getenv reads it. -/
abbrev Environment := String → Option CString

def lowercase (value : CString) : List Char := value.chars.map Char.toLower

section Configured
variable (getenv : Environment)

def configuredTransportMode : TransportMode :=
  match getenv "WAC_MODE" with
  | none => .hybrid
  | some value =>
    if lowercase value = "d3d12".toList then .d3d12
    else if lowercase value = "rccl".toList then .rccl
    else .hybrid

def configuredDispatchMode : RcclDispatchMode :=
  match getenv "WAC_RCCL_DISPATCH" with
  | none => .threaded
  | some value => if lowercase value = "native-group".toList then .nativeGroup else .threaded

def configuredSize (name : String) (fallback : UInt64) : UInt64 :=
  match getenv name with
  | none => fallback
  | some value =>
    if value.charAt 0 = nul then fallback
    else
      let parsed := strtoull 64 value.chars
      if parsed.2 = 0 ∨ value.charAt parsed.2 ≠ nul ∨ sizeMax < parsed.1 then fallback
      else UInt64.ofNat parsed.1

def configuredSwitch (name : String) (fallback : Bool) : Bool :=
  match getenv name with
  | none => fallback
  | some value =>
    if value.charAt 0 = nul then fallback
    else lowercase value ∈ ["1".toList, "true".toList, "on".toList, "yes".toList]

/-- What ncclCommInitAll reads, before it clamps the largest payload to the buffer. -/
def configured : Configured :=
  let bufferBytes := configuredSize getenv "WAC_D3D12_BUFFER_BYTES" (64 * 1024 * 1024)
  { mode := configuredTransportMode getenv
    rcclDispatch := configuredDispatchMode getenv
    rcclExperimental := configuredSwitch getenv "WAC_LLAMA_RCCL_EXPERIMENTAL" false
    d3d12BufferBytes := bufferBytes.toNat
    d3d12RouteMinBytes := (configuredSize getenv "WAC_D3D12_MIN_BYTES" 0).toNat
    d3d12RouteMaxBytes := (configuredSize getenv "WAC_D3D12_MAX_BYTES" bufferBytes).toNat }

end Configured

section Sizes

/-- D3D12_DEFAULT_RESOURCE_PLACEMENT_ALIGNMENT. -/
def placementAlignment : UInt64 := 65536

def alignHeapSize (size : UInt64) : UInt64 :=
  (size + placementAlignment - 1) &&& ~~~(placementAlignment - 1)

/-- The sizes a shared buffer is made and opened with: of the buffer, and of the heap it is in. -/
structure SharedBufferSizes where
  size : UInt64
  heapSize : UInt64

def initializeSizes (sizeBytes : UInt64) : SharedBufferSizes :=
  { size := sizeBytes
    heapSize := alignHeapSize sizeBytes }

/-- The heap's size is the least aligned one the buffer fits in, unless rounding up wraps. -/
theorem isLeast_alignHeapSize_iff (size : UInt64) :
    IsLeast {m : ℕ | 65536 ∣ m ∧ size.toNat ≤ m} (alignHeapSize size).toNat ↔
      size.toNat ≤ 2 ^ 64 - 65536 :=
  isLeast_alignUp_iff (by decide : 16 < 64) size.toBitVec

end Sizes

section Reading

/-- The decimal of a size: digits only, and of a number that fits. -/
def IsSize (text : List Char) (n : UInt64) : Prop :=
  text ≠ [] ∧ (∀ c ∈ text, c.isDigit) ∧ Nat.ofDigitChars 10 text 0 = n.toNat

/-- A size is read for what it is, and everything else as the fallback. -/
structure ReadsExactly (text : List Char) (read : UInt64 → UInt64) : Prop where
  size : ∀ n, IsSize text n → ∀ fallback, read fallback = n
  other : (∀ n, ¬ IsSize text n) → ∀ fallback, read fallback = fallback

/-- A numeral with blanks or a sign, or of a number that does not fit. -/
def Misread (text : List Char) : Prop :=
  ∃ blanks sign digits, IsNumeral text blanks sign digits ∧
    (blanks ≠ [] ∨ sign ≠ [] ∨ sizeMax < Nat.ofDigitChars 10 digits 0)

/-- The numerals that are the decimal of a size. -/
lemma isSize_iff_of_numeral {text blanks sign digits : List Char}
    (h : IsNumeral text blanks sign digits) (n : UInt64) :
    IsSize text n ↔ blanks = [] ∧ sign = [] ∧ Nat.ofDigitChars 10 digits 0 = n.toNat := by
  constructor
  · rintro ⟨-, hdigit, hvalue⟩
    rw [h.text_eq] at hdigit hvalue
    have hblanks : blanks = [] := by
      rw [List.eq_nil_iff_forall_not_mem]
      intro c hc
      have hspace := h.space c hc
      rw [not_isSpace_of_isDigit (hdigit c (List.mem_append_left _ hc))] at hspace
      exact absurd hspace (by decide)
    have hsign : sign = [] := by
      have hhead : ∀ c, sign = [c] → c.isDigit := by
        rintro c rfl
        exact hdigit c (by simp)
      obtain hnone | hplus | hminus := h.signed
      · exact hnone
      · exact absurd (hhead _ hplus) (by decide)
      · exact absurd (hhead _ hminus) (by decide)
    subst hblanks hsign
    exact ⟨rfl, rfl, hvalue⟩
  · rintro ⟨rfl, rfl, hvalue⟩
    have htext : text = digits := h.text_eq
    subst htext
    exact ⟨h.digits_ne, h.digit, hvalue⟩

lemma Misread.not_isSize {text : List Char} (h : Misread text) (n : UInt64) : ¬ IsSize text n := by
  obtain ⟨blanks, sign, digits, hnumeral, hodd⟩ := h
  rw [isSize_iff_of_numeral hnumeral]
  rintro ⟨hblanks, hsign, hn⟩
  obtain h | h | hbig := hodd
  · exact h hblanks
  · exact h hsign
  · have hlt := n.toNat_lt
    unfold sizeMax at hbig
    omega

variable {getenv : Environment} {name : String} {value : CString} (hvalue : getenv name = some value)
include hvalue

lemma configuredSize_of_numeral {blanks sign digits : List Char}
    (h : IsNumeral value.chars blanks sign digits) (fallback : UInt64) :
    configuredSize getenv name fallback =
      UInt64.ofNat ((⟨blanks, sign, digits, []⟩ : NumeralParts).value 64) := by
  have hlength : 0 < value.chars.length := List.length_pos_iff.mpr h.ne_nil
  have hfits := NumeralParts.value_lt 64 ⟨blanks, sign, digits, []⟩
  simp only [configuredSize, hvalue, h.strtoull]
  rw [if_neg (by simpa using h.ne_nil), if_neg]
  simp only [ne_eq, CString.charAt_eq_nul, le_refl, not_true_eq_false, false_or, not_or]
  refine ⟨by omega, ?_⟩
  unfold sizeMax
  omega

lemma configuredSize_of_not_numeral
    (h : ∀ blanks sign digits, ¬ IsNumeral value.chars blanks sign digits) (fallback : UInt64) :
    configuredSize getenv name fallback = fallback := by
  simp only [configuredSize, hvalue]
  split
  · rfl
  · apply if_pos
    by_contra htaken
    simp only [ne_eq, CString.charAt_eq_nul, not_or, not_not] at htaken
    exact h _ _ _ (isNumeral_of_strtoull htaken.1 htaken.2.1)

/-- A set variable is read exactly, unless strtoull takes all of it though it is no size. -/
theorem readsExactly_iff :
    ReadsExactly value.chars (configuredSize getenv name) ↔ ¬ Misread value.chars := by
  constructor
  · intro hreads hmisread
    have hfallback := hreads.other hmisread.not_isSize
    obtain ⟨blanks, sign, digits, hnumeral, -⟩ := hmisread
    have hone := hfallback 1
    have hzero := hfallback 0
    rw [configuredSize_of_numeral hvalue hnumeral] at hone hzero
    exact absurd (hzero.symm.trans hone) (by decide)
  · intro hplain
    constructor
    · rintro n ⟨hne, hdigit, hn⟩ fallback
      rw [configuredSize_of_numeral hvalue (IsNumeral.of_digits hne hdigit)]
      have hlt := n.toNat_lt
      simp only [NumeralParts.value, hn]
      rw [if_neg (by omega), if_neg (by simp)]
      exact UInt64.ofNat_toNat
    · intro hother
      apply configuredSize_of_not_numeral hvalue
      intro blanks sign digits hnumeral
      have hplainParts : blanks = [] ∧ sign = [] ∧ Nat.ofDigitChars 10 digits 0 ≤ sizeMax := by
        by_contra hodd
        apply hplain
        refine ⟨blanks, sign, digits, hnumeral, ?_⟩
        by_contra hnone
        push Not at hnone
        exact hodd hnone
      apply hother (UInt64.ofNat (Nat.ofDigitChars 10 digits 0))
      rw [isSize_iff_of_numeral hnumeral]
      refine ⟨hplainParts.1, hplainParts.2.1, ?_⟩
      have hle := hplainParts.2.2
      unfold sizeMax at hle
      rw [UInt64.toNat_ofNat', Nat.mod_eq_of_lt (by omega)]

end Reading

section Configuration

/-- The largest payload ncclCommInitAll routes to D3D12: never more than the buffer holds. -/
def Configured.clampedRouteMaxBytes (config : Configured) : ℕ :=
  if config.d3d12BufferBytes < config.d3d12RouteMaxBytes then config.d3d12BufferBytes
  else config.d3d12RouteMaxBytes

/-- Every communicator made has the sizes of the configuration. -/
lemma ncclCommInitAll_sizes (env : Env) (args : InitArgs) (st : ThreadState) :
    ∀ comm ∈ (ncclCommInitAll env args st).1.2,
      comm.clique.d3d12BufferBytes = args.config.d3d12BufferBytes ∧
      comm.clique.d3d12RouteMinBytes = args.config.d3d12RouteMinBytes ∧
      comm.clique.d3d12RouteMaxBytes = args.config.clampedRouteMaxBytes := by
  have hclamp : min args.config.d3d12RouteMaxBytes args.config.d3d12BufferBytes =
      args.config.clampedRouteMaxBytes := by
    unfold Configured.clampedRouteMaxBytes
    split <;> omega
  unfold ncclCommInitAll
  dsimp only
  split
  · simp
  split
  · simp
  split
  · simp
  split
  · simp
  · intro comm hcomm
    obtain ⟨rank, -, rfl⟩ := List.mem_map.mp hcomm
    exact ⟨rfl, rfl, hclamp⟩

def sizeVariables : List String :=
  ["WAC_D3D12_BUFFER_BYTES", "WAC_D3D12_MIN_BYTES", "WAC_D3D12_MAX_BYTES"]

/-- What the sizes of a clique are good for: what is routed fits in the buffer, and the buffer in the
heap, which is as small as it can be. -/
structure Usable (getenv : Environment) : Prop where
  carried : ∀ env args st, args.config = configured getenv →
    ∀ comm ∈ (ncclCommInitAll env args st).1.2,
      comm.clique.d3d12BufferBytes = (configured getenv).d3d12BufferBytes ∧
      comm.clique.d3d12RouteMaxBytes = (configured getenv).clampedRouteMaxBytes
  clamped : (configured getenv).clampedRouteMaxBytes ≤ (configured getenv).d3d12BufferBytes
  heap : ∀ sizes, sizes = initializeSizes (UInt64.ofNat (configured getenv).d3d12BufferBytes) →
    IsLeast {m : ℕ | 65536 ∣ m ∧ sizes.size.toNat ≤ m} sizes.heapSize.toNat

lemma configured_bufferBytes (getenv : Environment) :
    UInt64.ofNat (configured getenv).d3d12BufferBytes =
      configuredSize getenv "WAC_D3D12_BUFFER_BYTES" (64 * 1024 * 1024) :=
  UInt64.ofNat_toNat

/-- The sizes are usable whenever rounding the buffer up does not wrap. -/
theorem usable_iff (getenv : Environment) :
    Usable getenv ↔
      (configuredSize getenv "WAC_D3D12_BUFFER_BYTES" (64 * 1024 * 1024)).toNat ≤
        2 ^ 64 - 65536 := by
  rw [← isLeast_alignHeapSize_iff]
  constructor
  · intro h
    have hheap := h.heap _ rfl
    rw [configured_bufferBytes] at hheap
    exact hheap
  · intro hleast
    refine ⟨?_, ?_, ?_⟩
    · rintro env args st hconfig comm hcomm
      have hsizes := ncclCommInitAll_sizes env args st comm hcomm
      rw [← hconfig]
      exact ⟨hsizes.1, hsizes.2.2⟩
    · unfold Configured.clampedRouteMaxBytes
      split <;> omega
    · rintro sizes rfl
      rw [configured_bufferBytes]
      exact hleast

/-- Exactly when the three sizes are read for what they are and usable: when none is taken by strtoull
though it is no size, and the buffer's leaves room for rounding it up. -/
theorem sizeSettings_exact_iff (getenv : Environment) :
    ((∀ name ∈ sizeVariables, ∀ value, getenv name = some value →
        ReadsExactly value.chars (configuredSize getenv name)) ∧ Usable getenv) ↔
      (∀ name ∈ sizeVariables, ∀ value, getenv name = some value → ¬ Misread value.chars) ∧
      ∀ value n, getenv "WAC_D3D12_BUFFER_BYTES" = some value → IsSize value.chars n →
        n.toNat ≤ 2 ^ 64 - 65536 := by
  have hreading : (∀ name ∈ sizeVariables, ∀ value, getenv name = some value →
      ReadsExactly value.chars (configuredSize getenv name)) ↔
      ∀ name ∈ sizeVariables, ∀ value, getenv name = some value → ¬ Misread value.chars := by
    constructor
    · intro h name hname value hvalue
      exact (readsExactly_iff hvalue).mp (h name hname value hvalue)
    · intro h name hname value hvalue
      exact (readsExactly_iff hvalue).mpr (h name hname value hvalue)
  rw [hreading, usable_iff]
  apply and_congr_right
  intro hplain
  have hdefault : (64 * 1024 * 1024 : UInt64).toNat ≤ 2 ^ 64 - 65536 := by decide
  cases hvalue : getenv "WAC_D3D12_BUFFER_BYTES" with
  | none =>
    simp [configuredSize, hvalue]
  | some value =>
    have hreads := (readsExactly_iff hvalue).mpr (hplain _ (by simp [sizeVariables]) value hvalue)
    constructor
    · rintro hle v n ⟨⟩ hsize
      rw [hreads.size n hsize] at hle
      exact hle
    · intro hfits
      by_cases hsize : ∃ n, IsSize value.chars n
      · obtain ⟨n, hn⟩ := hsize
        rw [hreads.size n hn]
        exact hfits value n rfl hn
      · push Not at hsize
        rw [hreads.other hsize]
        exact hdefault

/-- A buffer of 2⁶⁴-1 bytes, a least payload one more and a largest one of -1. -/
def hugeSettings : Environment := fun name =>
  if name = "WAC_D3D12_BUFFER_BYTES" then some ⟨"18446744073709551615".toList, by decide⟩
  else if name = "WAC_D3D12_MIN_BYTES" then some ⟨"18446744073709551616".toList, by decide⟩
  else if name = "WAC_D3D12_MAX_BYTES" then some ⟨"-1".toList, by decide⟩
  else none

/-- The number that does not fit and the negative one are read as 2⁶⁴-1, and the heap is empty. -/
lemma hugeSettings_read :
    configuredSize hugeSettings "WAC_D3D12_MIN_BYTES" 0 = 18446744073709551615 ∧
    configuredSize hugeSettings "WAC_D3D12_MAX_BYTES" 0 = 18446744073709551615 ∧
    configuredSize hugeSettings "WAC_D3D12_BUFFER_BYTES" (64 * 1024 * 1024) =
      18446744073709551615 ∧
    alignHeapSize 18446744073709551615 = 0 := by
  decide +kernel

/-- Neither is read exactly, and the buffer is larger than the heap it is mapped from. -/
theorem hugeSettings_not_exact :
    ¬ ReadsExactly "18446744073709551616".toList
        (configuredSize hugeSettings "WAC_D3D12_MIN_BYTES") ∧
    ¬ ReadsExactly "-1".toList (configuredSize hugeSettings "WAC_D3D12_MAX_BYTES") ∧
    ¬ Usable hugeSettings := by
  refine ⟨fun hreads => ?_, fun hreads => ?_, fun husable => ?_⟩
  · have hdigits : "18446744073709551616".toList.all Char.isDigit = true := by decide +kernel
    have hmisread : Misread "18446744073709551616".toList :=
      ⟨[], [], _, .of_digits (by simp) (List.all_eq_true.mp hdigits), .inr (.inr (by decide +kernel))⟩
    have hzero := hreads.other hmisread.not_isSize 0
    rw [hugeSettings_read.1] at hzero
    exact absurd hzero (by decide +kernel)
  · have hmisread : Misread "-1".toList :=
      ⟨[], ['-'], ['1'], ⟨rfl, by simp, by simp, by simp, by simp⟩, by simp⟩
    have hzero := hreads.other hmisread.not_isSize 0
    rw [hugeSettings_read.2.1] at hzero
    exact absurd hzero (by decide +kernel)
  · have hfits := (usable_iff hugeSettings).mp husable
    rw [hugeSettings_read.2.2.1] at hfits
    exact absurd hfits (by decide +kernel)

end Configuration
end MultiGpuTransport.Shim
