import MultiGpuTransport.SharedBuffers.NativeContext
import MultiGpuTransport.Host
import MultiGpuTransport.Lib.Transition

/-!
# D3D12SharedBuffer

A Python object that is given a context and closes it. Its constructor may raise at any point, and
the object is still there to be closed; it may be closed again and again, and by its finalizer.
-/
namespace MultiGpuTransport.SharedBuffers
open Lib Transition

/-- What an object holds: its `_context`, once __init__ has set it, and where its buffer is mapped. -/
structure SharedBuffer where
  context : Option (Option ContextPtr)
  devicePointer : Option ℕ
  deriving DecidableEq, Repr

/-- The objects of the process, and its contexts: a ledger of those that calls have returned and those
that were passed to wavmg_d3d12_close. What there was after each call into the library so far is seen,
the last call first. -/
structure Process where
  native : Native
  contexts : Ledger Context
  objects : List SharedBuffer
  seen : List (Native × Ledger Context)

abbrev Py := EStateM PyError Process

def Process.called (p : Process) (native : Native) (contexts : Ledger Context) : Process :=
  { p with
    native := native
    contexts := contexts
    seen := (native, contexts) :: p.seen }

/-- A context the call writes to its output variable is one the process has from then on. -/
def nativeOpen (f : Outputs → Native → (ℕ × Outputs) × Native) : Py (ℕ × Outputs) := fun p =>
  let (result, native) := f ⟨none, none⟩ p.native
  .ok result (p.called native (match result.2.context with
    | none => p.contexts
    | some pointer => p.contexts.acquire pointer.1))

/-- The context is closed for the process from then on, whatever the call does with it. -/
def nativeClose (context : ContextPtr) : Py ℕ := fun p =>
  let (code, native) := wavmgD3d12Close (some context) p.native
  .ok code (p.called native (p.contexts.release context))

def Process.setObject (p : Process) (i : ℕ) (object : SharedBuffer) : Process :=
  { p with objects := p.objects.set i object }

/-- The arguments of __init__, and what comes of loading the library and converting them for it. -/
structure BufferArgs where
  name : Option String
  size : ℤ
  device : ℤ
  create : Bool
  library : Except PyError Unit
  conversion : Except PyError Unit

def attempt : Except PyError Unit → Py Unit
  | .ok () => return ()
  | .error error => throw error

namespace D3D12SharedBuffer

def checkCode (code : ℕ) (operation : String) : Py Unit := do
  if code = 0 then return ()
  else
    let p ← get
    let message := if p.native.lastError = "" then "unknown error" else p.native.lastError
    throw (.runtimeError ("D3D12 transport " ++ operation ++ " failed: " ++ message))

/-- Setting the `_context` of an object. -/
def setContext (i : ℕ) (context : Option ContextPtr) : Py Unit :=
  modify fun p => match p.objects[i]? with
    | none => p
    | some object => p.setObject i { object with context := some context }

def setDevicePointer (i : ℕ) (pointer : ℕ) : Py Unit :=
  modify fun p => match p.objects[i]? with
    | none => p
    | some object => p.setObject i { object with devicePointer := some pointer }

def close (i : ℕ) : Py Unit := do
  let p ← get
  match p.objects[i]? with
  | some ⟨some (some context), _⟩ =>
    setContext i none
    let code ← nativeClose context
    checkCode code "close"
  | _ => return ()

section
variable (answers : NativeAnswers)

/-- A c_size_t and a c_int keep the low bits of what they are given. -/
def BufferArgs.contextArgs (args : BufferArgs) : ContextArgs :=
  { hipDevice := args.device.bmod (2 ^ 32)
    baseName := args.name
    size := (args.size % 2 ^ 64).toNat
    outputsNull := false }

/-- The native function that __init__ calls. -/
def operation (create : Bool) : ContextArgs → Outputs → Native → (ℕ × Outputs) × Native :=
  if create then wavmgD3d12Create answers else wavmgD3d12Open answers

def init (i : ℕ) (args : BufferArgs) : Py Unit := do
  if args.size ≤ 0 then throw (.valueError "size must be positive")
  else
    attempt args.library
    setContext i none
    attempt args.conversion
    let result ← nativeOpen (operation answers args.create (BufferArgs.contextArgs args))
    setContext i result.2.context
    checkCode result.1 (if args.create then "create" else "open")
    match result.2.pointer with
    | none =>
      close i
      throw (.runtimeError "D3D12 transport returned a null HIP pointer")
    | some pointer => setDevicePointer i pointer

end

/-- The finalizer ignores what closing raises. -/
def del (i : ℕ) : Py Unit := tryCatch (close i) fun _ => return ()

end D3D12SharedBuffer

/-- What a program does with buffers: it makes one, or uses one there is. -/
inductive BufferCall
  | construct (args : BufferArgs)
  | init (i : ℕ) (args : BufferArgs)
  | close (i : ℕ)
  | exit (i : ℕ)
  | del (i : ℕ)

section
variable (answers : NativeAnswers)

def construct (args : BufferArgs) : Py Unit := do
  let p ← get
  modify fun p => { p with objects := p.objects ++ [⟨none, none⟩] }
  D3D12SharedBuffer.init answers p.objects.length args

def BufferCall.run : BufferCall → Py Unit
  | construct args => SharedBuffers.construct answers args
  | init i args => do
    let p ← get
    if i < p.objects.length then D3D12SharedBuffer.init answers i args else return ()
  | close i => D3D12SharedBuffer.close i
  | exit i => D3D12SharedBuffer.close i
  | del i => D3D12SharedBuffer.del i

/-- The process after a call, whether it has returned or raised. -/
def BufferCall.after (call : BufferCall) (p : Process) : Process :=
  finalState (call.run answers) p

/-- A process that has used no buffers yet makes any calls, one after the other. -/
def bufferSystem : System Process where
  init p := ∃ calls lastError, p = ⟨⟨.empty, 0, calls, lastError⟩, .empty, [], []⟩
  step p q := ∃ call : BufferCall, q = call.after answers p

end

/-! ### Who owns what -/

/-- The contexts that the objects hold. -/
def held (objects : List SharedBuffer) : List ContextPtr :=
  objects.filterMap fun object => object.context.join

/-- Putting an object in the place of another exchanges what they hold. -/
lemma held_set {objects : List SharedBuffer} {i : ℕ} {object : SharedBuffer}
    (h : objects[i]? = some object) (new : SharedBuffer) :
    (object.context.join.toList ++ held (objects.set i new)).Perm
      (new.context.join.toList ++ held objects) := by
  obtain ⟨hi, hget⟩ := List.getElem?_eq_some_iff.mp h
  have hcons : ∀ x : SharedBuffer, held (x :: objects.eraseIdx i) =
      x.context.join.toList ++ held (objects.eraseIdx i) := by
    intro x
    unfold held
    rw [List.filterMap_cons]
    cases x.context.join <;> rfl
  have hold : (held objects).Perm (held (object :: objects.eraseIdx i)) := by
    rw [← hget]
    exact (List.getElem_cons_eraseIdx_perm hi).symm.filterMap _
  have hnew : (held (objects.set i new)).Perm (held (new :: objects.eraseIdx i)) :=
    (List.set_perm_cons_eraseIdx hi new).filterMap _
  rw [hcons] at hold hnew
  refine (hnew.append_left _).trans (.trans ?_ (hold.symm.append_left _))
  exact List.perm_append_comm_assoc _ _ _

/-- The contexts that have not been closed own what is open. -/
structure OwnedBy (native : Native) (contexts : Ledger Context) (owners : List ContextPtr) :
    Prop where
  returned : native.returned = contexts.acquired.length
  contexts : contexts.Balanced owners
  resources : native.resources.Balanced (owners.flatMap fun pointer => pointer.1.resources)

lemma OwnedBy.perm {native : Native} {contexts : Ledger Context} {owners owners' : List ContextPtr}
    (h : OwnedBy native contexts owners) (hperm : owners'.Perm owners) :
    OwnedBy native contexts owners' :=
  ⟨h.returned, h.contexts.perm hperm, h.resources.perm (hperm.flatMap_right _)⟩

/-- The open contexts are those that the objects hold, and some that no object holds any more. -/
structure Tidy (lost : List ContextPtr) (p : Process) : Prop where
  owned : OwnedBy p.native p.contexts (lost ++ held p.objects)
  seen : ∀ s ∈ p.seen, ∃ owners, OwnedBy s.1 s.2 owners

lemma Tidy.called {lost lost' : List ContextPtr} {p : Process} (h : Tidy lost p) {native : Native}
    {contexts : Ledger Context} (howned : OwnedBy native contexts (lost' ++ held p.objects)) :
    Tidy lost' (p.called native contexts) := by
  refine ⟨howned, ?_⟩
  intro s hs
  obtain rfl | hs := List.mem_cons.mp hs
  · exact ⟨_, howned⟩
  · exact h.seen s hs

namespace D3D12SharedBuffer
variable {answers : NativeAnswers} {lost : List ContextPtr} {i : ℕ} {object : SharedBuffer}
  {E : Process → Prop}

lemma setContext_spec (context : Option ContextPtr) :
    Triple (fun p => p.objects[i]? = some object ∧ Tidy (context.toList ++ lost) p)
      (setContext i context)
      (fun _ p => p.objects[i]? = some { object with context := some context } ∧
        Tidy (object.context.join.toList ++ lost) p) E := by
  apply Triple.modify
  rintro p ⟨hobject, htidy⟩
  obtain ⟨hi, -⟩ := List.getElem?_eq_some_iff.mp hobject
  simp only [hobject]
  refine ⟨List.getElem?_set_self hi, htidy.owned.perm ?_, htidy.seen⟩
  have hset := held_set hobject { object with context := some context }
  rw [List.append_assoc, List.append_assoc]
  refine (List.perm_append_comm_assoc _ _ _).trans (.trans ?_ (List.perm_append_comm_assoc _ _ _))
  exact hset.append_left lost

lemma setDevicePointer_spec (pointer : ℕ) :
    Triple (Tidy lost) (setDevicePointer i pointer) (fun _ => Tidy lost) E := by
  apply Triple.modify
  intro p htidy
  cases hobject : p.objects[i]? with
  | none => exact htidy
  | some object =>
    have hset := held_set hobject { object with devicePointer := some pointer }
    refine ⟨htidy.owned.perm (List.Perm.append_left lost ?_), htidy.seen⟩
    exact (List.perm_append_left_iff _).mp hset

lemma checkCode_spec {P : Process → Prop} (code : ℕ) (operation : String) (hE : ∀ p, P p → E p) :
    Triple P (checkCode code operation) (fun _ => P) E := by
  intro p hp
  unfold checkCode
  by_cases hcode : code = 0
  · simp only [if_pos hcode]
    exact hp
  · simp only [if_neg hcode]
    exact hE p hp

lemma attempt_spec {P : Process → Prop} (result : Except PyError Unit) (hE : ∀ p, P p → E p) :
    Triple P (attempt result) (fun _ => P) E := by
  cases result with
  | ok value => exact .pure fun p hp => hp
  | error error => exact .throw hE

/-- Closing a context takes it from those that are open. -/
lemma nativeClose_spec (context : ContextPtr) :
    Triple (Tidy (context :: lost)) (nativeClose context) (fun code p => code = 0 ∧ Tidy lost p)
      E := by
  intro p htidy
  have howned := htidy.owned
  have hclose := wavmgD3d12Close_spec context howned.resources
  refine ⟨hclose.1, htidy.called ⟨?_, howned.contexts.release, hclose.2.2⟩⟩
  exact hclose.2.1.trans howned.returned

/-- A context that is returned is open, and its object does not hold it yet. -/
lemma nativeOpen_spec (create : Bool) (args : ContextArgs) :
    Triple (fun p => p.objects[i]? = some object ∧ Tidy lost p)
      (nativeOpen (operation answers create args))
      (fun result p => p.objects[i]? = some object ∧ Tidy (result.2.context.toList ++ lost) p)
      E := by
  rintro p ⟨hobject, htidy⟩
  have howned := htidy.owned
  have hcreated : Created p.native ⟨none, none⟩
      ((lost ++ held p.objects).flatMap fun pointer => pointer.1.resources)
      (operation answers create args ⟨none, none⟩ p.native) := by
    cases create with
    | true => exact wavmgD3d12Create_spec args _ howned.resources
    | false => exact wavmgD3d12Open_spec args _ howned.resources
  unfold nativeOpen
  revert hcreated
  generalize operation answers create args ⟨none, none⟩ p.native = result
  intro hcreated
  cases hcreated with
  | returned context pointer after hreturned hbalanced =>
    refine ⟨hobject, htidy.called ⟨?_, ?_, hbalanced⟩⟩
    · rw [hreturned, howned.returned]
      simp [Ledger.acquire]
    · rw [howned.returned]
      exact howned.contexts.acquire context
  | failed after hreturned hbalanced =>
    exact ⟨hobject, htidy.called ⟨hreturned.trans howned.returned, howned.contexts, hbalanced⟩⟩

lemma close_spec : Triple (Tidy lost) (close i) (fun _ => Tidy lost) (Tidy lost) := by
  unfold close
  have hget : Triple (Tidy lost) (get : Py Process) (fun p q => q = p ∧ Tidy lost q)
      (Tidy lost) :=
    .get fun p hp => ⟨rfl, hp⟩
  apply Triple.bind hget
  intro p
  split
  · rename_i context devicePointer hobject
    have hspec : Triple
        (fun q => q.objects[i]? = some ⟨some (some context), devicePointer⟩ ∧ Tidy lost q)
        (setContext i none)
        (fun _ q => q.objects[i]? = some ⟨some none, devicePointer⟩ ∧ Tidy (context :: lost) q)
        (Tidy lost) :=
      setContext_spec none
    have hset : Triple (fun q => q = p ∧ Tidy lost q) (setContext i none)
        (fun _ => Tidy (context :: lost)) (Tidy lost) := by
      refine hspec.consequence ?_ (fun _ q hq => hq.2) fun q hq => hq
      rintro q ⟨rfl, htidy⟩
      exact ⟨hobject, htidy⟩
    apply Triple.bind hset
    intro _
    apply Triple.bind (nativeClose_spec context)
    intro code
    exact (checkCode_spec code _ fun p hp => hp).consequence (fun q hq => hq.2)
      (fun _ q hq => hq) fun q hq => hq
  · exact .pure fun q hq => hq.2

lemma del_spec : Triple (Tidy lost) (del i) (fun _ => Tidy lost) (Tidy lost) :=
  .tryCatch close_spec fun _ => .pure fun _ hp => hp

/-- What __init__ does with the results of the native call. -/
lemma finish_spec (code : ℕ) (operation : String) (pointer : Option ℕ) :
    Triple (Tidy lost)
      (do
        checkCode code operation
        match pointer with
        | none =>
          close i
          throw (.runtimeError "D3D12 transport returned a null HIP pointer")
        | some pointer => setDevicePointer i pointer)
      (fun _ => Tidy lost) (Tidy lost) := by
  apply Triple.bind (checkCode_spec code operation fun p hp => hp)
  intro _
  cases pointer with
  | none =>
    apply Triple.bind close_spec
    intro _
    exact .throw fun p hp => hp
  | some pointer => exact setDevicePointer_spec pointer

/-- Where __init__ sets the context of an object, the one it has held before is lost. -/
lemma init_spec (args : BufferArgs) :
    Triple (fun p => p.objects[i]? = some object ∧ Tidy lost p) (init answers i args)
      (fun _ => Tidy (object.context.join.toList ++ lost))
      (fun p => Tidy lost p ∨ Tidy (object.context.join.toList ++ lost) p) := by
  unfold init
  split
  · exact .throw fun p hp => .inl hp.2
  apply Triple.bind (attempt_spec _ fun p hp => .inl hp.2)
  intro _
  apply Triple.bind (setContext_spec none)
  intro _
  apply Triple.bind (attempt_spec _ fun p hp => .inr hp.2)
  intro _
  apply Triple.bind (nativeOpen_spec args.create (BufferArgs.contextArgs args))
  intro result
  apply Triple.bind (setContext_spec result.2.context)
  intro _
  exact (finish_spec result.1 _ result.2.pointer).consequence (fun p hp => hp.2)
    (fun _ p hp => hp) fun p hp => .inr hp

end D3D12SharedBuffer

lemma construct_spec {answers : NativeAnswers} {lost : List ContextPtr} (args : BufferArgs) :
    Triple (Tidy lost) (construct answers args) (fun _ => Tidy lost) (Tidy lost) := by
  have hget : Triple (Tidy lost) (get : Py Process) (fun p q => q = p ∧ Tidy lost q)
      (Tidy lost) :=
    .get fun p hp => ⟨rfl, hp⟩
  unfold construct
  apply Triple.bind hget
  intro p
  have hmodify : Triple (fun q => q = p ∧ Tidy lost q)
      (modify fun p => { p with objects := p.objects ++ [⟨none, none⟩] } : Py Unit)
      (fun _ q => q.objects[p.objects.length]? = some ⟨none, none⟩ ∧ Tidy lost q)
      (Tidy lost) := by
    apply Triple.modify
    rintro q ⟨rfl, htidy⟩
    have hheld : held (q.objects ++ [⟨none, none⟩]) = held q.objects := by
      simp [held, List.filterMap_append]
    refine ⟨by simp, ?_, htidy.seen⟩
    rw [hheld]
    exact htidy.owned
  apply Triple.bind hmodify
  intro _
  exact (D3D12SharedBuffer.init_spec args).consequence (fun q hq => hq) (fun _ q hq => hq)
    fun q hq => hq.elim id id

/-! ### Whole runs -/

/-- The call makes no object that holds a context forget it. -/
def BufferCall.KeepsContexts (p : Process) : BufferCall → Prop
  | init i _ => ∀ object, p.objects[i]? = some object → object.context.join = none
  | _ => True

/-- A call leaves contexts owned as they were, but for the one that an object forgets. -/
lemma after_tidy {answers : NativeAnswers} {lost : List ContextPtr} {p : Process}
    (h : Tidy lost p) (call : BufferCall) :
    ∃ more, Tidy (more ++ lost) (call.after answers p) ∧ (call.KeepsContexts p → more = []) := by
  cases call with
  | construct args => exact ⟨[], (construct_spec args).finalState h, fun _ => rfl⟩
  | close i => exact ⟨[], D3D12SharedBuffer.close_spec.finalState h, fun _ => rfl⟩
  | exit i => exact ⟨[], D3D12SharedBuffer.close_spec.finalState h, fun _ => rfl⟩
  | del i => exact ⟨[], D3D12SharedBuffer.del_spec.finalState h, fun _ => rfl⟩
  | init i args =>
    have hafter : (BufferCall.init i args).after answers p =
        finalState (if i < p.objects.length then D3D12SharedBuffer.init answers i args
          else return ()) p := rfl
    rw [hafter]
    by_cases hi : i < p.objects.length
    · have hobject : p.objects[i]? = some p.objects[i] := List.getElem?_eq_getElem hi
      rw [if_pos hi]
      have hkept : (BufferCall.init i args).KeepsContexts p →
          p.objects[i].context.join.toList = [] := by
        intro hkeeps
        rw [hkeeps _ hobject]
        rfl
      obtain hreturned | hkept' | hlost :=
        (D3D12SharedBuffer.init_spec args).finalState_or ⟨hobject, h⟩
      · exact ⟨_, hreturned, hkept⟩
      · exact ⟨[], hkept', fun _ => rfl⟩
      · exact ⟨_, hlost, hkept⟩
    · rw [if_neg hi]
      exact ⟨[], h, fun _ => rfl⟩

section
variable {answers : NativeAnswers}

lemma start_tidy (calls : ℕ) (lastError : String) :
    Tidy [] ⟨⟨.empty, 0, calls, lastError⟩, .empty, [], []⟩ :=
  ⟨⟨rfl, .empty, .empty⟩, List.forall_mem_nil _⟩

lemma reachable_tidy {p : Process} (h : (bufferSystem answers).Reachable p) :
    ∃ lost, Tidy lost p := by
  apply h.invariant (I := fun p => ∃ lost, Tidy lost p)
  · rintro p ⟨calls, lastError, rfl⟩
    exact ⟨[], start_tidy calls lastError⟩
  · rintro p q - ⟨lost, htidy⟩ ⟨call, rfl⟩
    obtain ⟨more, hafter, -⟩ := after_tidy htidy call
    exact ⟨_, hafter⟩

/-- Runs in which no object is made to forget a context it holds. -/
def keepingSystem (answers : NativeAnswers) : System Process where
  init := (bufferSystem answers).init
  step p q := ∃ call : BufferCall, call.KeepsContexts p ∧ q = call.after answers p

lemma keeping_tidy {p : Process} (h : (keepingSystem answers).Reachable p) : Tidy [] p := by
  apply h.invariant (I := Tidy [])
  · rintro p ⟨calls, lastError, rfl⟩
    exact start_tidy calls lastError
  · rintro p q - htidy ⟨call, hkeeps, rfl⟩
    obtain ⟨more, hafter, hmore⟩ := after_tidy htidy call
    rw [hmore hkeeps] at hafter
    exact hafter

/-- What is released by hand is balanced, and so are the contexts: live are those that were returned
and not passed to wavmg_d3d12_close. -/
structure HandlesBalanced (native : Native) (contexts : Ledger Context) : Prop where
  open_iff : ∀ resource, native.resources.Open resource ↔
    ∃ pointer, contexts.Open pointer ∧ resource ∈ pointer.1.resources
  owner_unique : ∀ resource pointer pointer', contexts.Open pointer → contexts.Open pointer' →
    resource ∈ pointer.1.resources → resource ∈ pointer'.1.resources → pointer = pointer'
  released_nodup : native.resources.released.Nodup
  released_acquired : ∀ resource ∈ native.resources.released,
    resource ∈ native.resources.acquired.zipIdx
  released_once : ∀ resource ∈ native.resources.acquired.zipIdx,
    ¬ native.resources.Open resource → native.resources.released.count resource = 1
  closed_nodup : contexts.released.Nodup
  closed_returned : ∀ pointer ∈ contexts.released, pointer ∈ contexts.acquired.zipIdx

lemma OwnedBy.handlesBalanced {native : Native} {contexts : Ledger Context}
    {owners : List ContextPtr} (h : OwnedBy native contexts owners) :
    HandlesBalanced native contexts := by
  have hcontexts := h.contexts
  have hresources := h.resources
  refine ⟨fun resource => ?_, ?_, hresources.released_nodup,
    fun _ => hresources.acquired_of_released, ?_, hcontexts.released_nodup,
    fun _ => hcontexts.acquired_of_released⟩
  · rw [hresources.open_iff, List.mem_flatMap]
    simp only [hcontexts.open_iff]
  · intro resource pointer pointer' hopen hopen' hmem hmem'
    rw [hcontexts.open_iff] at hopen hopen'
    exact hresources.owner_unique hopen hopen' hmem hmem'
  · intro resource hacquired hclosed
    apply List.count_eq_one_of_mem hresources.released_nodup
    by_contra hreleased
    exact hclosed ⟨hacquired, hreleased⟩

/-- Where no object was made to forget a context, the live ones are those that the objects hold. -/
lemma keeping_live {p : Process} (h : (keepingSystem answers).Reachable p) (pointer : ContextPtr) :
    p.contexts.Open pointer ↔ ∃ object ∈ p.objects, object.context = some (some pointer) := by
  rw [(keeping_tidy h).owned.contexts.open_iff, List.nil_append, held, List.mem_filterMap]
  simp only [Option.join_eq_some_iff]

/-- After every call into the library what is open is what the live contexts own, each resource is
released once and each context closed once, wherever calls have failed. A call that fails leaves its
output variables as they were. Where no object was made to forget its context, what is open is owned by
the contexts that the objects still hold. -/
theorem handles_balanced (answers : NativeAnswers) :
    (∀ p, (bufferSystem answers).Reachable p →
      ∀ s ∈ (p.native, p.contexts) :: p.seen, HandlesBalanced s.1 s.2) ∧
    (∀ create args outputs native,
      (D3D12SharedBuffer.operation answers create args outputs native).1.1 ≠ 0 →
      (D3D12SharedBuffer.operation answers create args outputs native).1.2 = outputs) ∧
    ∀ p, (keepingSystem answers).Reachable p →
      (∀ pointer, p.contexts.Open pointer ↔
        ∃ object ∈ p.objects, object.context = some (some pointer)) ∧
      ∀ resource, p.native.resources.Open resource ↔
        ∃ object ∈ p.objects, ∃ pointer, object.context = some (some pointer) ∧
          resource ∈ pointer.1.resources := by
  refine ⟨?_, ?_, ?_⟩
  · intro p hp s hs
    obtain ⟨lost, htidy⟩ := reachable_tidy hp
    obtain rfl | hseen := List.mem_cons.mp hs
    · exact htidy.owned.handlesBalanced
    · obtain ⟨owners, howned⟩ := htidy.seen s hseen
      exact howned.handlesBalanced
  · intro create args outputs native
    cases create with
    | true => exact createContext_failed
    | false => exact createContext_failed
  · intro p hp
    refine ⟨keeping_live hp, fun resource => ?_⟩
    rw [(keeping_tidy hp).owned.handlesBalanced.open_iff]
    simp only [keeping_live hp]
    constructor
    · rintro ⟨pointer, ⟨object, hobject, hcontext⟩, hmem⟩
      exact ⟨object, hobject, pointer, hcontext, hmem⟩
    · rintro ⟨object, hobject, pointer, hcontext, hmem⟩
      exact ⟨pointer, ⟨object, hobject, hcontext⟩, hmem⟩

def workingDrivers : NativeAnswers where
  succeeds _ := true
  detail _ := ""
  mapped _ := some 4096
  adapters := [⟨true, 0x1414, 7⟩, ⟨false, 0x1002, 7⟩]
  deviceLuid _ := 7

def noBuffers : Process := ⟨⟨.empty, 0, 0, ""⟩, .empty, [], []⟩

def oneBufferArgs : BufferArgs := ⟨some "Local\\pair", 65536, 0, true, .ok (), .ok ()⟩

/-- A process in which one buffer has been created. -/
def oneBuffer : Process := (BufferCall.construct oneBufferArgs).after workingDrivers noBuffers

/-- It is closed, and closed again by its finalizer. -/
def closedBuffer : Process :=
  (BufferCall.del 0).after workingDrivers ((BufferCall.close 0).after workingDrivers oneBuffer)

/-- The context owns two handles, a memory and a semaphore, and they are released when it is closed; a
context without a name is not made. -/
theorem handles_balanced_sample :
    (oneBuffer.native.resources.acquired.length = 4 ∧ oneBuffer.native.resources.released = [] ∧
      HandlesBalanced oneBuffer.native oneBuffer.contexts) ∧
    (closedBuffer.native.resources.released.length = 4 ∧
      closedBuffer.contexts.released.length = 1 ∧
      ∀ resource, ¬ closedBuffer.native.resources.Open resource) ∧
    (D3D12SharedBuffer.operation workingDrivers true ⟨0, none, 65536, false⟩ ⟨none, none⟩
      oneBuffer.native).1.2 = ⟨none, none⟩ := by
  have hstart : (keepingSystem workingDrivers).Reachable oneBuffer :=
    .step (.init ⟨0, "", rfl⟩) ⟨.construct oneBufferArgs, trivial, rfl⟩
  have hclosed : (keepingSystem workingDrivers).Reachable closedBuffer :=
    .step (.step hstart ⟨.close 0, trivial, rfl⟩) ⟨.del 0, trivial, rfl⟩
  refine ⟨⟨by decide +kernel, by decide +kernel, ?_⟩, ⟨by decide +kernel, by decide +kernel, ?_⟩, ?_⟩
  · exact (handles_balanced workingDrivers).1 oneBuffer (.step (.init ⟨0, "", rfl⟩) ⟨_, rfl⟩) _
      List.mem_cons_self
  · intro resource hopen
    obtain ⟨object, hobject, pointer, hcontext, -⟩ :=
      (((handles_balanced workingDrivers).2.2 closedBuffer hclosed).2 resource).mp hopen
    have hnone : ∀ object ∈ closedBuffer.objects, object.context = some none := by
      decide +kernel
    rw [hnone object hobject] at hcontext
    cases hcontext
  · exact (handles_balanced workingDrivers).2.1 true ⟨0, none, 65536, false⟩ ⟨none, none⟩
      oneBuffer.native (by decide +kernel)

end

end MultiGpuTransport.SharedBuffers
