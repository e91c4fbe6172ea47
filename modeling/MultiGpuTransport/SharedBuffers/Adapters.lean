import Mathlib.Data.Int.Notation
import MultiGpuTransport.Lib.Triples

/-!
# The adapter of a HIP device

The native library and the shim bind a HIP device in the same way: of the adapters in the order DXGI
lists them, the first one of AMD's with the LUID of the device gets a D3D12 device.
-/
namespace MultiGpuTransport.SharedBuffers
open Lib

structure Adapter where
  software : Bool
  vendorId : ℕ
  luid : ℕ
  deriving DecidableEq, Repr

/-- The adapter is hardware of AMD's with this LUID. -/
def Adapter.Matches (luid : ℕ) (adapter : Adapter) : Prop :=
  adapter.software = false ∧ adapter.vendorId = 0x1002 ∧ adapter.luid = luid

instance (luid : ℕ) (adapter : Adapter) : Decidable (adapter.Matches luid) :=
  inferInstanceAs (Decidable (_ ∧ _))

section
variable {σ : Type} (check : String → EStateM String σ Unit)
  (createDevice : Adapter → EStateM String σ Unit) (device : ℤ) (luid : ℕ)

def enumAdapters : List Adapter → EStateM String σ Unit
  | [] => do
    -- where the call succeeds, it has found no adapter
    check "EnumAdapterByGpuPreference"
    throw ("No D3D12 adapter LUID matched HIP device " ++ toString device)
  | candidate :: rest => do
    check "EnumAdapterByGpuPreference"
    check "IDXGIAdapter4::GetDesc3"
    if candidate.Matches luid then createDevice candidate else enumAdapters rest

def bindDevice (adapters : List Adapter) : EStateM String σ Unit := do
  check "hipGetDeviceProperties"
  check "CreateDXGIFactory2"
  enumAdapters check createDevice device luid adapters

variable {check createDevice} {P E : σ → Prop} {Q : Unit → σ → Prop}

theorem enumAdapters_spec (hcheck : ∀ operation, Triple P (check operation) (fun _ => P) E)
    {adapters : List Adapter}
    (hcreate : ∀ a ∈ adapters, a.Matches luid → Triple P (createDevice a) Q E)
    (hnone : (∀ a ∈ adapters, ¬ a.Matches luid) → ∀ s, P s → E s) :
    Triple P (enumAdapters check createDevice device luid adapters) Q E := by
  induction adapters with
  | nil =>
    apply Triple.bind (hcheck _)
    intro _
    exact .throw (hnone (List.forall_mem_nil _))
  | cons candidate rest ih =>
    obtain ⟨hcandidate, hrest⟩ := List.forall_mem_cons.mp hcreate
    unfold enumAdapters
    apply Triple.bind (hcheck _)
    intro _
    apply Triple.bind (hcheck _)
    intro _
    split_ifs with hmatches
    · exact hcandidate hmatches
    · apply ih hrest
      intro hothers
      exact hnone (List.forall_mem_cons.mpr ⟨hmatches, hothers⟩)

/-- Unless a call fails or no adapter is the device's, the device of its adapter is made. -/
theorem bindDevice_spec (hcheck : ∀ operation, Triple P (check operation) (fun _ => P) E)
    {adapters : List Adapter}
    (hcreate : ∀ a ∈ adapters, a.Matches luid → Triple P (createDevice a) Q E)
    (hnone : (∀ a ∈ adapters, ¬ a.Matches luid) → ∀ s, P s → E s) :
    Triple P (bindDevice check createDevice device luid adapters) Q E := by
  unfold bindDevice
  apply Triple.bind (hcheck _)
  intro _
  apply Triple.bind (hcheck _)
  intro _
  exact enumAdapters_spec device luid hcheck hcreate hnone

end
end MultiGpuTransport.SharedBuffers
