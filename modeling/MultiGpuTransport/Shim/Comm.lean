import MultiGpuTransport.Shim.Api

/-!
# Communicators of the shim

ncclCommInitAll makes the communicators of a clique: with real ones where these are asked for and the
real library gives them, and with a D3D12 transport where the clique is a pair.
-/
namespace MultiGpuTransport.Shim

/-- What ncclCommInitAll reads from the process environment. -/
structure Configured where
  mode : TransportMode
  rcclDispatch : RcclDispatchMode
  rcclExperimental : Bool
  d3d12BufferBytes : ℕ
  d3d12RouteMinBytes : ℕ
  d3d12RouteMaxBytes : ℕ

/-- The arguments of ncclCommInitAll, and where the clique is allocated. -/
structure InitArgs where
  commsNull : Bool
  ndev : ℤ
  devlist : Option (ℕ → ℤ)
  config : Configured
  address : ℕ

def InitArgs.devices (args : InitArgs) : List ℤ :=
  (List.range args.ndev.toNat).map fun (rank : ℕ) =>
    match args.devlist with
    | none => (rank : ℤ)
    | some devlist => devlist rank

def rcclDisabledError : String :=
  "Direct-RCCL is disabled by default for llama.cpp's same-process ncclCommInitAll path"

section
variable (env : Env)

/-- The result of the real library, and its communicators. -/
def initReal (args : InitArgs) (st : ThreadState) :
    (NcclResult × (ℕ → Option ℕ)) × ThreadState :=
  let noComms : ℕ → Option ℕ := fun _ => none
  if args.config.mode ≠ .d3d12 then
    if args.config.rcclExperimental then
      match env.realError with
      | none => st.call env.commInitAll (.commInitAll args.devices)
      | some error => ((.systemError, noComms), { st with lastError := error })
    else ((.systemError, noComms), { st with lastError := rcclDisabledError })
  else ((.systemError, noComms), st)

/-- Whether there is a transport, and why there is none if creating it failed. -/
def initD3D12 (args : InitArgs) (st : ThreadState) : (Bool × Option String) × ThreadState :=
  match args.devices with
  | [zero, one] =>
    if args.config.mode ≠ .rccl then
      let (created, st) := st.call env.d3d12Create
        (.d3d12Create zero one args.config.d3d12BufferBytes)
      match created with
      | .ok () => ((true, none), st)
      | .error error => ((false, some error), st)
    else ((false, none), st)
  | _ => ((false, none), st)

theorem initD3D12_pair {args : InitArgs} {st : ThreadState}
    (h : (initD3D12 env args st).1.1 = true) : args.devices.length = 2 := by
  unfold initD3D12 at h
  split at h
  · rename_i hdevices
    rw [hdevices]
    rfl
  · simp at h

/-- The communicators it makes, if it succeeds. -/
def ncclCommInitAll (args : InitArgs) (st : ThreadState) :
    (NcclResult × List PluginComm) × ThreadState :=
  if args.commsNull = true ∨ args.ndev ≤ 0 then ((.invalidArgument, []), st)
  else
    let real := initReal env args st
    let transport := initD3D12 env args real.2
    let st := transport.2
    let realReady := real.1.1 = .success
    let d3d12Error := transport.1.2.getD ""
    if args.config.mode = .rccl ∧ ¬ realReady then ((real.1.1, []), st)
    else if args.config.mode = .d3d12 ∧ transport.1.1 = false then
      ((.systemError, []), { st with lastError := d3d12Error })
    else if ¬ realReady ∧ transport.1.1 = false then
      ((real.1.1, []), if d3d12Error ≠ "" then { st with lastError := d3d12Error } else st)
    else
      let clique : CliqueContext :=
        { address := args.address
          devices := args.devices
          d3d12 := transport.1.1
          mode := args.config.mode
          rcclDispatch := args.config.rcclDispatch
          d3d12BufferBytes := args.config.d3d12BufferBytes
          d3d12RouteMinBytes := args.config.d3d12RouteMinBytes
          d3d12RouteMaxBytes := min args.config.d3d12RouteMaxBytes args.config.d3d12BufferBytes
          d3d12_pair := initD3D12_pair env }
      let wrapper := fun rank : Fin args.devices.length =>
        ({ clique := clique
           realComm := if realReady then real.1.2 rank else none
           rank := rank
           rank_lt := rank.isLt } : PluginComm)
      ((.success, (List.finRange args.devices.length).map wrapper), st)

def ncclCommDestroy (comm : Option PluginComm) (st : ThreadState) : NcclResult × ThreadState :=
  match comm with
  | none => (.invalidArgument, st)
  | some wrapper =>
    match wrapper.realComm with
    | none => (.success, st)
    | some realComm =>
      match env.realError with
      | some _ => (.systemError, st)
      | none => st.call env.commDestroy (.commDestroy realComm)

/-- Making communicators issues nothing and leaves the group alone. -/
theorem ncclCommInitAll_frame (args : InitArgs) (st : ThreadState) :
    (ncclCommInitAll env args st).2.group = st.group ∧
    (ncclCommInitAll env args st).2.issues = st.issues := by
  have hreal : (initReal env args st).2.group = st.group ∧
      (initReal env args st).2.issues = st.issues := by
    unfold initReal
    split_ifs
    · cases env.realError <;> simp [Event.issues]
    · exact ⟨rfl, rfl⟩
    · exact ⟨rfl, rfl⟩
  have hd3d12 : ∀ st', (initD3D12 env args st').2.group = st'.group ∧
      (initD3D12 env args st').2.issues = st'.issues := by
    intro st'
    unfold initD3D12
    split
    · split_ifs
      · cases hcreate : env.d3d12Create st'.log.length <;> simp [hcreate, Event.issues]
      · exact ⟨rfl, rfl⟩
    · exact ⟨rfl, rfl⟩
  have hboth := hd3d12 (initReal env args st).2
  rw [hreal.1, hreal.2] at hboth
  unfold ncclCommInitAll
  dsimp only
  split_ifs
  · exact ⟨rfl, rfl⟩
  all_goals exact hboth

theorem ncclCommDestroy_frame (comm : Option PluginComm) (st : ThreadState) :
    (ncclCommDestroy env comm st).2.group = st.group ∧
    (ncclCommDestroy env comm st).2.issues = st.issues := by
  unfold ncclCommDestroy
  split
  · exact ⟨rfl, rfl⟩
  · split
    · exact ⟨rfl, rfl⟩
    · cases env.realError <;> simp [Event.issues]

end
end MultiGpuTransport.Shim
