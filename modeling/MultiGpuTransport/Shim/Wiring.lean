import MultiGpuTransport.Lib.Transition
import MultiGpuTransport.Shim.BufferSteps

/-!
# How transports are wired

The heap and the fence a rank opens are those the other rank has created, and no other transport of
the process has them. A transport that cannot be made leaves nothing behind, and it can be made unless
a call fails.
-/
namespace MultiGpuTransport.Shim.Buffers
open Lib Transition
open SharedBuffers (NativeKind Slot)

/-! ### Names -/

/-- A decimal numeral ends at the first character that is no digit. -/
theorem numeral_append_inj {m n : ℕ} {rest rest' : List Char}
    (h : (toString m).toList ++ '.' :: rest = (toString n).toList ++ '.' :: rest') :
    m = n ∧ rest = rest' := by
  have hdigits (k : ℕ) : ∀ c ∈ (toString k).toList, c.isDigit = true := by
    intro c hc
    rw [Nat.toString_eq_repr, Nat.toList_repr] at hc
    exact Nat.isDigit_of_mem_toDigits (by decide) (by decide) hc
  have htake (k : ℕ) (rest : List Char) :
      ((toString k).toList ++ '.' :: rest).takeWhile Char.isDigit = (toString k).toList := by
    rw [List.takeWhile_append_of_pos (hdigits k)]
    simp
  have hmn : (toString m).toList = (toString n).toList := by rw [← htake m rest, h, htake]
  have hvalue (k : ℕ) : Nat.ofDigitChars 10 (toString k).toList 0 = k := by
    rw [Nat.toString_eq_repr, Nat.toList_repr, Nat.ofDigitChars_ten_toDigits]
  refine ⟨by rw [← hvalue m, hmn, hvalue], ?_⟩
  rw [hmn] at h
  exact (List.cons.inj (List.append_cancel_left h)).2

section
variable (machine : Machine)

def memoryName (counter : ℕ) (r : Rank) : String := bufferName machine counter r ++ ".memory"

def fenceName (counter : ℕ) (r : Rank) : String := bufferName machine counter r ++ ".fence"

/-- The names a transport gives. -/
def transportNames (counter : ℕ) : List String :=
  [fenceName machine counter .one, memoryName machine counter .one, fenceName machine counter .zero,
    memoryName machine counter .zero]

/-- What follows the number in a name, after a dot. -/
def nameTails : List (List Char) :=
  ["rank1.fence".toList, "rank1.memory".toList, "rank0.fence".toList, "rank0.memory".toList]

theorem name_toList (front rank suffix : String) (counter : ℕ) {tail : String}
    (h : (rank ++ suffix).toList = '.' :: tail.toList) :
    (front ++ toString counter ++ rank ++ suffix).toList =
      front.toList ++ ((toString counter).toList ++ '.' :: tail.toList) := by
  rw [← h]
  simp only [String.toList_append, List.append_assoc]

theorem transportNames_toList (counter : ℕ) :
    (transportNames machine counter).map String.toList = nameTails.map fun tail =>
      (namePrefix machine).toList ++ ((toString (counter % 2 ^ 64)).toList ++ '.' :: tail) := by
  have h1 : (".rank1" ++ ".fence").toList = '.' :: "rank1.fence".toList := by decide
  have h2 : (".rank1" ++ ".memory").toList = '.' :: "rank1.memory".toList := by decide
  have h3 : (".rank0" ++ ".fence").toList = '.' :: "rank0.fence".toList := by decide
  have h4 : (".rank0" ++ ".memory").toList = '.' :: "rank0.memory".toList := by decide
  simp only [transportNames, memoryName, fenceName, bufferName, baseName, nameTails, List.map_cons,
    List.map_nil, name_toList _ _ _ _ h1, name_toList _ _ _ _ h2, name_toList _ _ _ _ h3,
    name_toList _ _ _ _ h4]

/-- The names of a transport are four. -/
theorem transportNames_nodup (counter : ℕ) : (transportNames machine counter).Nodup := by
  apply List.Nodup.of_map String.toList
  rw [transportNames_toList]
  refine List.Nodup.map_on ?_ (by decide)
  intro tail _ tail' _ h
  exact (numeral_append_inj (List.append_cancel_left h)).2

/-- Only transports of the same number give the same name. -/
theorem counter_of_mem_transportNames {machine : Machine} {counter counter' : ℕ} {name : String}
    (h : name ∈ transportNames machine counter) (h' : name ∈ transportNames machine counter') :
    counter % 2 ^ 64 = counter' % 2 ^ 64 := by
  have hmem := List.mem_map_of_mem (f := String.toList) h
  have hmem' := List.mem_map_of_mem (f := String.toList) h'
  rw [transportNames_toList] at hmem hmem'
  obtain ⟨tail, -, heq⟩ := List.mem_map.mp hmem
  obtain ⟨tail', -, heq'⟩ := List.mem_map.mp hmem'
  exact (numeral_append_inj (List.append_cancel_left (heq.trans heq'.symm))).1

end
/-! ### Making the buffers of a transport -/

section
variable {machine : Machine} {p q : Process} {others : List Handle} {terms : Terms machine}
  {allowed : List String}

theorem bound_eq_none {name : String} (h : ∀ b ∈ p.names, b.1 ≠ name) : p.bound name = none := by
  rw [Process.bound, Option.map_eq_none_iff, List.find?_eq_none]
  exact fun b hb => by simpa using h b hb

theorem destroyTransport_spec (buffers : List SharedBuffer)
    (h : p.resources.Balanced (buffers.flatMap SharedBuffer.resources ++ others)) :
    (destroyTransport buffers p).objects = p.objects ∧ (destroyTransport buffers p).names = p.names ∧
    (destroyTransport buffers p).contextCounter = p.contextCounter ∧
    (destroyTransport buffers p).resources.Balanced others := by
  have hloop : ∀ p : Process, p.resources.Balanced (buffers.flatMap SharedBuffer.resources ++ others) →
      let q := buffers.foldl (fun p buffer => buffer.destroy p) p
      q.objects = p.objects ∧ q.names = p.names ∧ q.contextCounter = p.contextCounter ∧
        q.resources.Balanced others := by
    clear h
    induction buffers with
    | nil => exact fun p h => ⟨rfl, rfl, rfl, h⟩
    | cons buffer buffers ih =>
      intro p h
      rw [List.flatMap_cons, List.append_assoc] at h
      exact ih (buffer.destroy p) h.releaseAll
  exact hloop _ h

/-- What there is where a transport could not be made. -/
structure Abandoned (p : Process) (others : List Handle) (terms : Terms machine) (q : Process) :
    Prop where
  grown : Grown terms.allowed p q
  balanced : q.resources.Balanced others
  excused : terms.excuse

/-- Where buffers are made, all of them are, or none is left. -/
def Outcome (p : Process) (others : List Handle) (terms : Terms machine)
    (Q : List SharedBuffer → Process → Prop) : Except String (List SharedBuffer) × Process → Prop
  | (.ok buffers, q) => Q buffers q
  | (.error _, q) => Abandoned p others terms q

theorem Outcome.after {Q : List SharedBuffer → Process → Prop}
    {result : Except String (List SharedBuffer) × Process} (hgrown : Grown terms.allowed p q)
    (h : Outcome q others terms Q result) : Outcome p others terms Q result := by
  obtain ⟨buffers | error, r⟩ := result
  · exact ⟨hgrown.trans h.grown, h.balanced, h.excused⟩
  · exact h

theorem Made.grown {device : ℤ} {sizeBytes : UInt64} {objects : List KernelObject}
    {names : List (String × ℕ)} {heap fence : ℕ} {s : Initializing}
    (h : Made machine p others device sizeBytes objects names heap fence s)
    (hnames : ∀ b ∈ names, b.1 ∈ allowed) : Grown allowed p s.process where
  objects := h.objects ▸ List.prefix_append _ _
  names := by
    intro b hb
    rw [h.names] at hb
    exact (List.mem_append.mp hb).symm.imp_right (hnames b)
  counter := h.counter

/-- One more buffer is made, or all that were made are gone. -/
theorem createBuffers_cons {made : List SharedBuffer} {device : ℤ} {sizeBytes : UInt64}
    {initializer : Initializer Unit} {objects : List KernelObject} {names : List (String × ℕ)}
    {heap fence : ℕ} {rest : List (ℤ × Initializer Unit)} {Q : List SharedBuffer → Process → Prop}
    (hmade : p.resources.Balanced (made.flatMap SharedBuffer.resources ++ others))
    (hmakes : Makes p (made.flatMap SharedBuffer.resources ++ others) terms device sizeBytes initializer
      objects names heap fence)
    (hnames : ∀ b ∈ names, b.1 ∈ terms.allowed)
    (hrest : ∀ s, Made machine p (made.flatMap SharedBuffer.resources ++ others) device sizeBytes objects
        names heap fence s →
      s.process.resources.Balanced ((s.buffer :: made).flatMap SharedBuffer.resources ++ others) →
      Outcome s.process others terms Q (createBuffers sizeBytes (s.buffer :: made) rest s.process)) :
    Outcome p others terms Q (createBuffers sizeBytes made ((device, initializer) :: rest) p) := by
  have hinit := hmakes (.start p device sizeBytes) (At.start hmade)
  unfold createBuffers
  cases hresult : initializer (.start p device sizeBytes) with
  | ok a s =>
    rw [hresult] at hinit
    exact (hrest s hinit (by simpa using hinit.balanced)).after (hinit.grown hnames)
  | error error s =>
    rw [hresult] at hinit
    have howned : s.process.resources.Balanced
        ((s.buffer :: made).flatMap SharedBuffer.resources ++ others) := by
      simpa using hinit.balanced
    obtain ⟨hobjects, hnames, hcounter, hbalanced⟩ := destroyTransport_spec _ howned
    exact ⟨⟨hobjects ▸ hinit.grown.objects, hnames ▸ hinit.grown.names,
      hcounter.trans hinit.grown.counter⟩, hbalanced, hinit.excused⟩

/-- A name is found among bindings of different names. -/
theorem bound_of_mem {bindings rest : List (String × ℕ)} {name : String} {object : ℕ}
    (hnodup : (bindings.map Prod.fst).Nodup) (hmem : (name, object) ∈ bindings)
    (hnames : p.names = bindings ++ rest) : p.bound name = some object := by
  have hfind : bindings.find? (fun b => b.1 = name) = some (name, object) := by
    clear hnames
    induction bindings with
    | nil => exact absurd hmem List.not_mem_nil
    | cons b bindings ih =>
      obtain ⟨hb, hnodup⟩ := List.nodup_cons.mp hnodup
      obtain rfl | hmem := List.mem_cons.mp hmem
      · exact List.find?_cons_of_pos (by simp)
      · have hne : b.1 ≠ name := by
          rintro rfl
          exact hb (List.mem_map.mpr ⟨_, hmem, rfl⟩)
        rw [List.find?_cons_of_neg (by simpa using hne), ih hnodup hmem]
  rw [Process.bound, hnames, List.find?_append, hfind]
  rfl

end

/-- Both ranks have the heap and the fence of each, and the heap holds the buffer. -/
structure Wired (machine : Machine) (objects : List KernelObject) (transport : Transport)
    (heap fence : Rank → ℕ) : Prop where
  length : transport.buffers.length = 4
  own : ∀ r, ∃ buffer, transport.own r = some buffer ∧
    buffer.CompleteFor machine (transport.devices r) transport.maxSizeBytes ∧
    buffer.Holds (heap r) (fence r)
  peer : ∀ r, ∃ buffer, transport.peer r = some buffer ∧
    buffer.CompleteFor machine (transport.devices r) transport.maxSizeBytes ∧
    buffer.Holds (heap r.peer) (fence r.peer)
  apart : heap .zero ≠ heap .one ∧ fence .zero ≠ fence .one
  heaps : ∀ r, ∃ bytes, objects[heap r]? = some (.heap bytes) ∧ transport.maxSizeBytes ≤ bytes
  fences : ∀ r, objects[fence r]? = some .fence

/-- The objects of a transport whose first one has this number. -/
def heapFrom (n : ℕ) : Rank → ℕ
  | .zero => n
  | .one => n + 2

def fenceFrom (n : ℕ) (r : Rank) : ℕ := heapFrom n r + 1

section
variable {machine : Machine} {p : Process} {others : List Handle} {excuse : Prop}
  {excused : (∃ n, machine.succeeds n = false) → excuse}

/-- What has come of making a transport in the process p. -/
structure NewTransport (machine : Machine) (p : Process) (others : List Handle) (counter : ℕ)
    (transport : Transport) (q : Process) : Prop where
  grown : Grown (transportNames machine counter) p q
  length : q.objects.length = p.objects.length + 4
  balanced : q.resources.Balanced (transport.resources ++ others)
  wired : Wired machine q.objects transport (heapFrom p.objects.length) (fenceFrom p.objects.length)

/-- The initializers of a transport's buffers, in the order they run. -/
def initializers (machine : Machine) (devices : Rank → ℤ) (counter : ℕ) :
    List (ℤ × Initializer Unit) :=
  let name := bufferName machine counter
  [(devices .zero, initializeCreator machine (devices .zero) (name .zero)),
   (devices .one, initializeCreator machine (devices .one) (name .one)),
   (devices .zero, initializeOpener machine (devices .zero) (name .one)),
   (devices .one, initializeOpener machine (devices .one) (name .zero))]

theorem mem_transportNames (machine : Machine) (counter : ℕ) (r : Rank) :
    memoryName machine counter r ∈ transportNames machine counter ∧
      fenceName machine counter r ∈ transportNames machine counter := by
  cases r <;> simp [transportNames]

/-- The names a transport has given, where its first object has this number. -/
def bindings (machine : Machine) (counter n : ℕ) : List (String × ℕ) :=
  [(fenceName machine counter .one, n + 3), (memoryName machine counter .one, n + 2),
    (fenceName machine counter .zero, n + 1), (memoryName machine counter .zero, n)]

theorem mem_bindings (machine : Machine) (counter n : ℕ) (r : Rank) :
    (memoryName machine counter r, heapFrom n r) ∈ bindings machine counter n ∧
      (fenceName machine counter r, fenceFrom n r) ∈ bindings machine counter n := by
  cases r <;> simp [bindings, heapFrom, fenceFrom]

theorem creator_makes (devices : Rank → ℤ) (sizeBytes : UInt64) (counter : ℕ) (r : Rank)
    (hmemory : p.bound (memoryName machine counter r) = none ∨ excuse)
    (hfence : p.bound (fenceName machine counter r) = none ∨ excuse)
    (hadapter : ∀ r, (∀ a, ¬ machine.Matches (devices r) a) → excuse)
    (hfits : sizeBytes ≤ alignHeapSize sizeBytes ∨ excuse) :
    Makes p others (.ofNames (transportNames machine counter) excused) (devices r) sizeBytes
      (initializeCreator machine (devices r) (bufferName machine counter r))
      [.heap (alignHeapSize sizeBytes), .fence]
      [(fenceName machine counter r, p.objects.length + 1),
        (memoryName machine counter r, p.objects.length)]
      p.objects.length (p.objects.length + 1) := by
  obtain ⟨hmemoryMem, hfenceMem⟩ := mem_transportNames machine counter r
  have hne : memoryName machine counter r ≠ fenceName machine counter r := by
    have hnodup := transportNames_nodup machine counter
    simp only [transportNames, List.nodup_cons, List.mem_cons, not_or] at hnodup
    cases r
    · exact fun h => hnodup.2.2.1.1 h.symm
    · exact fun h => hnodup.1.1 h.symm
  apply initializeCreator_makes (devices r) sizeBytes _ hmemoryMem hfenceMem hne _ (hadapter r) hfits
  intro name hname
  obtain rfl | rfl := List.mem_pair.mp hname
  · exact hmemory
  · exact hfence

/-- The part of the initializers that open. -/
theorem openers_spec {made : List SharedBuffer} {devices : Rank → ℤ} {sizeBytes bytes : UInt64}
    {counter n : ℕ} {rest : List (String × ℕ)} {Q : List SharedBuffer → Process → Prop}
    (hmade : p.resources.Balanced (made.flatMap SharedBuffer.resources ++ others))
    (hnames : p.names = bindings machine counter n ++ rest)
    (hheaps : ∀ r, p.objects[heapFrom n r]? = some (.heap bytes))
    (hadapter : ∀ r, (∀ a, ¬ machine.Matches (devices r) a) → excuse)
    (hfits : sizeBytes ≤ bytes ∨ excuse)
    (hrest : ∀ s t, Made machine p (made.flatMap SharedBuffer.resources ++ others) (devices .zero)
        sizeBytes [] [] (heapFrom n .one) (fenceFrom n .one) s →
      Made machine s.process ((s.buffer :: made).flatMap SharedBuffer.resources ++ others)
        (devices .one) sizeBytes [] [] (heapFrom n .zero) (fenceFrom n .zero) t →
      t.process.resources.Balanced
        ((t.buffer :: s.buffer :: made).flatMap SharedBuffer.resources ++ others) →
      Q (t.buffer :: s.buffer :: made) t.process) :
    Outcome p others (.ofNames (transportNames machine counter) excused) Q
      (createBuffers sizeBytes made
        [(devices .zero, initializeOpener machine (devices .zero) (bufferName machine counter .one)),
         (devices .one, initializeOpener machine (devices .one) (bufferName machine counter .zero))]
        p) := by
  have hmakes {q : Process} {own : List Handle} (r : Rank)
      (hobjects : q.objects = p.objects ++ []) (hnew : q.names = [] ++ p.names) :
      Makes q own (.ofNames (transportNames machine counter) excused) (devices r) sizeBytes
        (initializeOpener machine (devices r) (bufferName machine counter r.peer)) [] []
        (heapFrom n r.peer) (fenceFrom n r.peer) := by
    rw [List.append_nil] at hobjects
    have hbindings : q.names = bindings machine counter n ++ rest := hnew.trans hnames
    have hnodup : ((bindings machine counter n).map Prod.fst).Nodup :=
      transportNames_nodup machine counter
    obtain ⟨hmemory, hfence⟩ := mem_bindings machine counter n r.peer
    exact initializeOpener_makes (devices r) sizeBytes _ (bound_of_mem hnodup hmemory hbindings)
      (bound_of_mem hnodup hfence hbindings) (hobjects ▸ hheaps r.peer) (hadapter r) hfits
  apply createBuffers_cons hmade (hmakes .zero (List.append_nil _).symm rfl) (by simp)
  intro s hs hbalanced
  apply createBuffers_cons hbalanced (hmakes .one hs.objects hs.names) (by simp)
  intro t ht hbalanced
  exact hrest s t hs ht hbalanced

/-- Each rank creates a buffer and opens that of its peer. -/
theorem createBuffers_spec (excused : (∃ n, machine.succeeds n = false) → excuse)
    (devices : Rank → ℤ) (sizeBytes : UInt64) (counter : ℕ) (hbalanced : p.resources.Balanced others)
    (hunbound : ∀ name ∈ transportNames machine counter, p.bound name = none ∨ excuse)
    (hadapter : ∀ r, (∀ a, ¬ machine.Matches (devices r) a) → excuse)
    (hfits : sizeBytes ≤ alignHeapSize sizeBytes ∨ excuse) :
    Outcome p others (.ofNames (transportNames machine counter) excused)
      (fun buffers => NewTransport machine p others counter ⟨devices, sizeBytes, buffers⟩)
      (createBuffers sizeBytes [] (initializers machine devices counter) p) := by
  have hnodup := transportNames_nodup machine counter
  simp only [transportNames, List.nodup_cons, List.mem_cons, not_or] at hnodup
  have hallowed (r : Rank) (m n : ℕ) : ∀ b ∈ [(fenceName machine counter r, m),
      (memoryName machine counter r, n)], b.1 ∈ transportNames machine counter := by
    intro b hb
    obtain rfl | rfl := List.mem_pair.mp hb
    · exact (mem_transportNames machine counter r).2
    · exact (mem_transportNames machine counter r).1
  have hfirst (r : Rank) := mem_transportNames machine counter r
  unfold initializers
  apply createBuffers_cons hbalanced (creator_makes devices sizeBytes counter .zero
    (hunbound _ (hfirst _).1) (hunbound _ (hfirst _).2) hadapter hfits)
    (hallowed .zero _ _)
  intro s0 h0 hbalanced0
  have hunbound0 (name : String) (hname : name ∈ transportNames machine counter)
      (hfence : fenceName machine counter .zero ≠ name)
      (hmemory : memoryName machine counter .zero ≠ name) :
      s0.process.bound name = none ∨ excuse := by
    have hbound : s0.process.bound name = p.bound name := by
      simp [Process.bound, h0.names, hfence, hmemory]
    exact hbound ▸ hunbound name hname
  have hmemory0 := hunbound0 _ (hfirst .one).1 (Ne.symm hnodup.2.1.1) (Ne.symm hnodup.2.1.2.1)
  have hfence0 := hunbound0 _ (hfirst .one).2 (Ne.symm hnodup.1.2.1) (Ne.symm hnodup.1.2.2.1)
  apply createBuffers_cons hbalanced0 (creator_makes devices sizeBytes counter .one hmemory0 hfence0
    hadapter hfits) (hallowed .one _ _)
  intro s1 h1 hbalanced1
  have hlength : s0.process.objects.length = p.objects.length + 2 := by simp [h0.objects]
  have hnames : s1.process.names = bindings machine counter p.objects.length ++ p.names := by
    rw [h1.names, h0.names, hlength]
    rfl
  have hnew (k : ℕ) : s1.process.objects[p.objects.length + k]? =
      [KernelObject.heap (alignHeapSize sizeBytes), .fence, .heap (alignHeapSize sizeBytes), .fence][k]? := by
    rw [h1.objects, h0.objects, List.append_assoc, List.getElem?_append_right (Nat.le_add_right _ _),
      Nat.add_sub_cancel_left]
    rfl
  have hobjects (r : Rank) : s1.process.objects[heapFrom p.objects.length r]? =
      some (.heap (alignHeapSize sizeBytes)) := by
    cases r
    · exact hnew 0
    · exact hnew 2
  apply openers_spec hbalanced1 hnames hobjects hadapter hfits
  intro s2 s3 h2 h3 hbalanced3
  have hfinal : s3.process.objects = s1.process.objects := by
    rw [h3.objects, h2.objects, List.append_nil, List.append_nil]
  refine ⟨?_, ?_, hbalanced3, rfl, ?_, ?_, by simp [heapFrom, fenceFrom], ?_, ?_⟩
  · have hgrown1 := (h0.grown (hallowed .zero _ _)).trans (h1.grown (hallowed .one _ _))
    exact hgrown1.trans ((h2.grown (by simp)).trans (h3.grown (by simp)))
  · simp [hfinal, h1.objects, hlength]
  · intro r
    cases r
    · exact ⟨s0.buffer, rfl, h0.complete, h0.holds⟩
    · refine ⟨s1.buffer, rfl, h1.complete, ?_⟩
      have hholds := h1.holds
      rw [hlength] at hholds
      exact hholds
  · intro r
    cases r
    · exact ⟨s2.buffer, rfl, h2.complete, h2.holds⟩
    · exact ⟨s3.buffer, rfl, h3.complete, h3.holds⟩
  · have hle : sizeBytes ≤ alignHeapSize sizeBytes := by
      obtain ⟨bytes, hbytes, hle⟩ := h0.fits
      have hheap : s0.process.objects[p.objects.length]? = some (.heap (alignHeapSize sizeBytes)) := by
        simp [h0.objects]
      rw [hheap] at hbytes
      obtain rfl := KernelObject.heap.inj (Option.some.inj hbytes)
      exact hle
    exact fun r => ⟨_, hfinal ▸ hobjects r, hle⟩
  · intro r
    rw [hfinal]
    cases r
    · exact hnew 1
    · exact hnew 3

end

/-! ### The transports of a process -/

/-- Nothing keeps a transport from being made: every call succeeds, each device has an adapter, and
there is a buffer size, which rounding up does not wrap. -/
structure Able (machine : Machine) (devices : Rank → ℤ) (maxSizeBytes : UInt64) (counter : ℕ) :
    Prop where
  succeeds : ∀ n, machine.succeeds n = true
  adapter : ∀ r, ∃ a, machine.Matches (devices r) a
  size_ne_zero : maxSizeBytes ≠ 0
  size_le : maxSizeBytes.toNat ≤ 2 ^ 64 - 65536
  counter_lt : counter < 2 ^ 64

/-- All names there are have been given by the transports so far. -/
def Named (machine : Machine) (p : Process) : Prop :=
  ∀ b ∈ p.names, ∃ counter < p.contextCounter, b.1 ∈ transportNames machine counter

section
variable {machine : Machine} {p q : Process} {others : List Handle}

theorem Named.grown (h : Named machine p)
    (hgrown : Grown (transportNames machine p.contextCounter)
      { p with contextCounter := p.contextCounter + 1 } q) : Named machine q := by
  intro b hb
  rw [hgrown.counter]
  obtain hold | hnew := hgrown.names b hb
  · obtain ⟨counter, hlt, hmem⟩ := h b hold
    exact ⟨counter, hlt.trans (Nat.lt_succ_self _), hmem⟩
  · exact ⟨p.contextCounter, Nat.lt_succ_self _, hnew⟩

/-- Until the counter wraps, the next names are new. -/
theorem Named.bound_eq_none (h : Named machine p) (hcounter : p.contextCounter < 2 ^ 64)
    {name : String} (hname : name ∈ transportNames machine p.contextCounter) :
    p.bound name = none := by
  apply Buffers.bound_eq_none
  rintro b hb rfl
  obtain ⟨counter, hlt, hmem⟩ := h b hb
  have heq := counter_of_mem_transportNames hmem hname
  rw [Nat.mod_eq_of_lt (hlt.trans hcounter), Nat.mod_eq_of_lt hcounter] at heq
  exact hlt.ne heq

/-- What comes of making a transport. -/
inductive Created (machine : Machine) (devices : Option (Rank → ℤ)) (maxSizeBytes : UInt64) (p : Process)
    (others : List Handle) : Except String Transport × Process → Prop
  | made {transport : Transport} {q : Process} (hdevices : devices = some transport.devices)
      (hsize : maxSizeBytes = transport.maxSizeBytes) (hnamed : Named machine q)
      (hnew : NewTransport machine { p with contextCounter := p.contextCounter + 1 } others
        p.contextCounter transport q) :
      Created machine devices maxSizeBytes p others (.ok transport, q)
  | failed (error : String) {q : Process} (hobjects : p.objects <+: q.objects)
      (hnamed : Named machine q) (hbalanced : q.resources.Balanced others)
      (hunable : ∀ ranks, devices = some ranks → ¬ Able machine ranks maxSizeBytes p.contextCounter) :
      Created machine devices maxSizeBytes p others (.error error, q)

theorem wacD3d12Create_spec (devices : Option (Rank → ℤ)) (maxSizeBytes : UInt64)
    (hnamed : Named machine p) (hbalanced : p.resources.Balanced others) :
    Created machine devices maxSizeBytes p others
      (wacD3d12Create machine devices maxSizeBytes p) := by
  cases devices with
  | none => exact .failed _ List.prefix_rfl hnamed hbalanced (by simp)
  | some devices =>
    by_cases hzero : maxSizeBytes = 0
    · have hrefused : wacD3d12Create machine (some devices) maxSizeBytes p =
          (.error "D3D12 AllReduce requires two devices and a nonzero buffer size", p) := if_pos hzero
      rw [hrefused]
      exact .failed _ List.prefix_rfl hnamed hbalanced fun _ _ hable => hable.size_ne_zero hzero
    have hexcused : (∃ n, machine.succeeds n = false) →
        ¬ Able machine devices maxSizeBytes p.contextCounter := by
      rintro ⟨n, hn⟩ hable
      rw [hable.succeeds] at hn
      contradiction
    have hfits : maxSizeBytes ≤ alignHeapSize maxSizeBytes ∨
        ¬ Able machine devices maxSizeBytes p.contextCounter := by
      by_cases hsize : maxSizeBytes.toNat ≤ 2 ^ 64 - 65536
      · exact .inl ((isLeast_alignHeapSize_iff maxSizeBytes).mpr hsize).1.2
      · exact .inr fun hable => hsize hable.size_le
    have hunbound : ∀ name ∈ transportNames machine p.contextCounter, p.bound name = none ∨
        ¬ Able machine devices maxSizeBytes p.contextCounter := by
      intro name hname
      by_cases hcounter : p.contextCounter < 2 ^ 64
      · exact .inl (hnamed.bound_eq_none hcounter hname)
      · exact .inr fun hable => hcounter hable.counter_lt
    have hadapter : ∀ r, (∀ a, ¬ machine.Matches (devices r) a) →
        ¬ Able machine devices maxSizeBytes p.contextCounter := by
      intro r hnone hable
      obtain ⟨a, ha⟩ := hable.adapter r
      exact hnone a ha
    have houtcome := createBuffers_spec hexcused (p := { p with contextCounter := p.contextCounter + 1 })
      devices maxSizeBytes p.contextCounter hbalanced hunbound hadapter hfits
    have hcreate : wacD3d12Create machine (some devices) maxSizeBytes p =
        let result := createBuffers maxSizeBytes [] (initializers machine devices p.contextCounter)
          { p with contextCounter := p.contextCounter + 1 }
        (result.1.map fun buffers => ⟨devices, maxSizeBytes, buffers⟩, result.2) := if_neg hzero
    rw [hcreate]
    generalize createBuffers maxSizeBytes [] _ _ = result at houtcome ⊢
    obtain ⟨error | buffers, q⟩ := result
    · refine .failed _ houtcome.grown.objects (hnamed.grown houtcome.grown) houtcome.balanced ?_
      rintro _ ⟨⟩
      exact houtcome.excused
    · exact .made rfl rfl (hnamed.grown houtcome.grown) houtcome

end

/-- A process, and the transports that have been made and not destroyed. -/
structure Session where
  process : Process
  transports : List Transport

section
variable (machine : Machine)

def Session.create (s : Session) (devices : Option (Rank → ℤ)) (maxSizeBytes : UInt64) : Session :=
  match wacD3d12Create machine devices maxSizeBytes s.process with
  | (.ok transport, p) => ⟨p, s.transports ++ [transport]⟩
  | (.error _, p) => ⟨p, s.transports⟩

def Session.destroy (s : Session) (i : ℕ) : Session :=
  match s.transports[i]? with
  | some transport => ⟨destroyTransport transport.buffers s.process, s.transports.eraseIdx i⟩
  | none => s

/-- A process that has made no transport yet makes and destroys them, in any order. -/
def transportSystem : System Session where
  init s := s.process.names = [] ∧ s.process.resources = .empty ∧ s.transports = []
  step s t := (∃ devices maxSizeBytes, t = s.create machine devices maxSizeBytes) ∨ ∃ i, t = s.destroy i

end

/-- The transports are wired, each with objects of its own, and they own what is to be released. -/
structure Session.Sound (machine : Machine) (s : Session) (parts : List (Transport × ℕ)) : Prop where
  transports : parts.map Prod.fst = s.transports
  named : Named machine s.process
  balanced : s.process.resources.Balanced (s.transports.flatMap Transport.resources)
  wired : ∀ part ∈ parts, part.2 + 4 ≤ s.process.objects.length ∧
    Wired machine s.process.objects part.1 (heapFrom part.2) (fenceFrom part.2)
  apart : parts.Pairwise fun part part' => part.2 + 4 ≤ part'.2

theorem Wired.mono {machine : Machine} {objects objects' : List KernelObject} {transport : Transport}
    {heap fence : Rank → ℕ} (h : Wired machine objects transport heap fence)
    (hinitial : objects <+: objects') : Wired machine objects' transport heap fence := by
  have hkept {i : ℕ} {object : KernelObject} (hi : objects[i]? = some object) :
      objects'[i]? = some object := by
    obtain ⟨more, rfl⟩ := hinitial
    rw [List.getElem?_append_left (List.getElem?_eq_some_iff.mp hi).1, hi]
  refine ⟨h.length, h.own, h.peer, h.apart, fun r => ?_, fun r => hkept (h.fences r)⟩
  obtain ⟨bytes, hbytes, hle⟩ := h.heaps r
  exact ⟨bytes, hkept hbytes, hle⟩

section
variable {machine : Machine}

theorem Session.Sound.created {s : Session} {parts : List (Transport × ℕ)} (h : s.Sound machine parts)
    (devices : Option (Rank → ℤ)) (maxSizeBytes : UInt64) :
    ∃ parts', (s.create machine devices maxSizeBytes).Sound machine parts' := by
  have hcreated := wacD3d12Create_spec devices maxSizeBytes h.named h.balanced
  unfold Session.create
  generalize wacD3d12Create machine devices maxSizeBytes s.process = result at hcreated ⊢
  cases hcreated with
  | made hdevices hsize hnamed hnew =>
    rename_i transport q
    have hinitial := hnew.grown.objects
    refine ⟨parts ++ [(transport, s.process.objects.length)], ?_, hnamed, ?_, ?_, ?_⟩
    · simp [h.transports]
    · apply hnew.balanced.perm
      rw [List.flatMap_append, List.flatMap_singleton]
      exact List.perm_append_comm
    · intro part hpart
      obtain hold | hpart := List.mem_append.mp hpart
      · obtain ⟨hlength, hwired⟩ := h.wired part hold
        exact ⟨hlength.trans hinitial.length_le, hwired.mono hinitial⟩
      · obtain rfl := List.mem_singleton.mp hpart
        exact ⟨hnew.length.ge, hnew.wired⟩
    · rw [List.pairwise_append]
      refine ⟨h.apart, List.pairwise_singleton _ _, fun part hpart part' hpart' => ?_⟩
      obtain rfl := List.mem_singleton.mp hpart'
      exact (h.wired part hpart).1
  | failed error hobjects hnamed hbalanced hunable =>
    refine ⟨parts, h.transports, hnamed, hbalanced, fun part hpart => ?_, h.apart⟩
    obtain ⟨hlength, hwired⟩ := h.wired part hpart
    exact ⟨hlength.trans hobjects.length_le, hwired.mono hobjects⟩

theorem Session.Sound.destroyed {s : Session} {parts : List (Transport × ℕ)}
    (h : s.Sound machine parts) (i : ℕ) :
    ∃ parts', (s.destroy i).Sound machine parts' := by
  unfold Session.destroy
  cases hi : s.transports[i]? with
  | none => exact ⟨parts, by simpa [hi] using h⟩
  | some transport =>
    obtain ⟨hlt, rfl⟩ := List.getElem?_eq_some_iff.mp hi
    have howned : s.process.resources.Balanced
        (s.transports[i].resources ++ (s.transports.eraseIdx i).flatMap Transport.resources) := by
      apply h.balanced.perm
      rw [← List.flatMap_cons]
      exact (List.getElem_cons_eraseIdx_perm hlt).flatMap_right _
    obtain ⟨hobjects, hnames, hcounter, hbalanced⟩ := destroyTransport_spec _ howned
    have hsublist := List.eraseIdx_sublist parts i
    refine ⟨parts.eraseIdx i, ?_, ?_, hbalanced, ?_, h.apart.sublist hsublist⟩
    · rw [← List.eraseIdx_map, h.transports]
    · unfold Named
      rw [hnames, hcounter]
      exact h.named
    · intro part hpart
      rw [hobjects]
      exact h.wired part (hsublist.mem hpart)

theorem reachable_sound {s : Session} (h : (transportSystem machine).Reachable s) :
    ∃ parts, s.Sound machine parts := by
  apply h.invariant (I := fun s => ∃ parts, s.Sound machine parts)
  · rintro s ⟨hnames, hresources, htransports⟩
    refine ⟨[], htransports.symm, ?_, ?_, by simp, .nil⟩
    · simp [Named, hnames]
    · rw [hresources, htransports]
      exact .empty
  · rintro s t - ⟨parts, hsound⟩ (⟨devices, maxSizeBytes, rfl⟩ | ⟨i, rfl⟩)
    · exact hsound.created devices maxSizeBytes
    · exact hsound.destroyed i

theorem SharedBuffer.Holds.object {buffer : SharedBuffer} {heap fence : ℕ}
    (h : buffer.Holds heap fence) {handle : Handle} (hmem : handle ∈ buffer.resources) :
    handle.1.object = heap ∨ handle.1.object = fence := by
  have hkind {slot : Option Handle} {resource : Resource} (hslot : slot.map Prod.fst = some resource)
      (heq : some handle = slot) : handle.1 = resource := by
    rw [← heq] at hslot
    exact Option.some.inj hslot
  simp only [SharedBuffer.resources, List.reduceOption_mem_iff, List.mem_cons, List.not_mem_nil,
    or_false] at hmem
  obtain hsemaphore | hmemory | hfence | hheap := hmem
  · exact .inr (congrArg Resource.object (hkind h.semaphore hsemaphore))
  · exact .inl (congrArg Resource.object (hkind h.memory hmemory))
  · exact .inr (congrArg Resource.object (hkind h.fenceHandle hfence))
  · exact .inl (congrArg Resource.object (hkind h.heapHandle hheap))

/-- What a wired transport has to release is for its own objects. -/
theorem Wired.object {objects : List KernelObject} {transport : Transport} {heap fence : Rank → ℕ}
    (h : Wired machine objects transport heap fence) {handle : Handle}
    (hmem : handle ∈ transport.resources) :
    ∃ r, handle.1.object = heap r ∨ handle.1.object = fence r := by
  obtain ⟨buffer, hbuffer, hmem⟩ := List.mem_flatMap.mp hmem
  obtain ⟨k, hk, rfl⟩ := List.mem_iff_getElem.mp hbuffer
  have hget : transport.buffers[k]? = some transport.buffers[k] := List.getElem?_eq_getElem hk
  have hholds : ∃ r, transport.buffers[k].Holds (heap r) (fence r) := by
    have hown (r : Rank) (heq : transport.own r = transport.buffers[k]?) :
        transport.buffers[k].Holds (heap r) (fence r) := by
      obtain ⟨buffer, hbuffer, -, hholds⟩ := h.own r
      rw [heq, hget] at hbuffer
      exact Option.some.inj hbuffer ▸ hholds
    have hpeer (r : Rank) (heq : transport.peer r = transport.buffers[k]?) :
        transport.buffers[k].Holds (heap r.peer) (fence r.peer) := by
      obtain ⟨buffer, hbuffer, -, hholds⟩ := h.peer r
      rw [heq, hget] at hbuffer
      exact Option.some.inj hbuffer ▸ hholds
    have hlt : k < 4 := h.length ▸ hk
    obtain rfl | rfl | rfl | rfl : k = 0 ∨ k = 1 ∨ k = 2 ∨ k = 3 := by omega
    · exact ⟨_, hpeer .one rfl⟩
    · exact ⟨_, hpeer .zero rfl⟩
    · exact ⟨_, hown .one rfl⟩
    · exact ⟨_, hown .zero rfl⟩
  obtain ⟨r, hholds⟩ := hholds
  exact ⟨r, hholds.object hmem⟩

theorem Session.Sound.object {s : Session} {parts : List (Transport × ℕ)} (h : s.Sound machine parts)
    {part : Transport × ℕ} (hpart : part ∈ parts) {handle : Handle}
    (hmem : handle ∈ part.1.resources) :
    part.2 ≤ handle.1.object ∧ handle.1.object < part.2 + 4 := by
  obtain ⟨r, hobject⟩ := (h.wired part hpart).2.object hmem
  obtain hheap | hfence := hobject
  · cases r <;> simp only [heapFrom] at hheap <;> omega
  · cases r <;> simp only [fenceFrom, heapFrom] at hfence <;> omega

/-- No two transports share an object. -/
theorem Session.Sound.object_ne {s : Session} {parts : List (Transport × ℕ)} (h : s.Sound machine parts)
    {i j : ℕ} (hij : i < j) {transport transport' : Transport} (hi : s.transports[i]? = some transport)
    (hj : s.transports[j]? = some transport') {handle handle' : Handle}
    (hmem : handle ∈ transport.resources) (hmem' : handle' ∈ transport'.resources) :
    handle.1.object < handle'.1.object := by
  rw [← h.transports, List.getElem?_map, Option.map_eq_some_iff] at hi hj
  obtain ⟨part, hpart, rfl⟩ := hi
  obtain ⟨part', hpart', rfl⟩ := hj
  obtain ⟨hlt, rfl⟩ := List.getElem?_eq_some_iff.mp hpart
  obtain ⟨hlt', rfl⟩ := List.getElem?_eq_some_iff.mp hpart'
  have hapart := List.pairwise_iff_getElem.mp h.apart i j hlt hlt' hij
  have hobject := h.object (List.getElem_mem hlt) hmem
  have hobject' := h.object (List.getElem_mem hlt') hmem'
  omega

end

/-- In each transport both ranks have the heap and the fence of each, no two transports share an
object, what is open is what the transports own, and a transport that can be made is made. -/
theorem transports_wired (machine : Machine) {s : Session}
    (h : (transportSystem machine).Reachable s) :
    (∀ transport ∈ s.transports, ∃ heap fence,
      Wired machine s.process.objects transport heap fence) ∧
    (∀ (i j : ℕ) (transport transport' : Transport), i ≠ j → s.transports[i]? = some transport →
      s.transports[j]? = some transport' → ∀ handle ∈ transport.resources,
        ∀ handle' ∈ transport'.resources, handle.1.object ≠ handle'.1.object) ∧
    (∀ handle, s.process.resources.Open handle ↔
      ∃ transport ∈ s.transports, handle ∈ transport.resources) ∧
    s.process.resources.released.Nodup ∧
    ∀ devices maxSizeBytes, Able machine devices maxSizeBytes s.process.contextCounter →
      ∃ transport p, wacD3d12Create machine (some devices) maxSizeBytes s.process = (.ok transport, p) ∧
        transport.devices = devices ∧ transport.maxSizeBytes = maxSizeBytes := by
  obtain ⟨parts, hsound⟩ := reachable_sound h
  refine ⟨?_, ?_, ?_, hsound.balanced.released_nodup, ?_⟩
  · intro transport hmem
    rw [← hsound.transports] at hmem
    obtain ⟨part, hpart, rfl⟩ := List.mem_map.mp hmem
    exact ⟨_, _, (hsound.wired part hpart).2⟩
  · intro i j transport transport' hne hi hj handle hmem handle' hmem'
    obtain hlt | hgt := hne.lt_or_gt
    · exact (hsound.object_ne hlt hi hj hmem hmem').ne
    · exact (hsound.object_ne hgt hj hi hmem' hmem).ne'
  · intro handle
    rw [hsound.balanced.open_iff, List.mem_flatMap]
  · intro devices maxSizeBytes hable
    have hcreated := wacD3d12Create_spec (some devices) maxSizeBytes hsound.named hsound.balanced
    generalize wacD3d12Create machine (some devices) maxSizeBytes s.process = result at hcreated ⊢
    cases hcreated with
    | made hdevices hsize hnamed hnew =>
      exact ⟨_, _, rfl, (Option.some.inj hdevices).symm, hsize.symm⟩
    | failed error hobjects hnamed hbalanced hunable => exact absurd hable (hunable devices rfl)

def twoGpus : Machine where
  succeeds _ := true
  detail _ := ""
  processId := 4242
  adapters := [⟨false, 0x10de, 7⟩, ⟨false, 0x1002, 1⟩, ⟨false, 0x1002, 0⟩]
  deviceLuid device := device.toNat

def bothGpus : Rank → ℤ
  | .zero => 0
  | .one => 1

def emptySession : Session := ⟨⟨[], [], .empty, 0, 0⟩, []⟩

/-- Two transports have been made, and the first destroyed. -/
def sampleSession : Session :=
  (((emptySession.create twoGpus (some bothGpus) 65536).create twoGpus (some bothGpus)
    1048576).destroy 0)

/-- A transport acquires twenty handles, and four of them are closed when it is made. -/
theorem transports_wired_sample :
    sampleSession.process.resources.acquired.length = 40 ∧
    sampleSession.process.resources.released.length = 24 ∧
    (∃ transport, sampleSession.transports = [transport] ∧ ∃ heap fence,
      Wired twoGpus sampleSession.process.objects transport heap fence) ∧
    ∃ transport p, wacD3d12Create twoGpus (some bothGpus) 65536 sampleSession.process =
        (.ok transport, p) ∧
      transport.devices = bothGpus ∧ transport.maxSizeBytes = 65536 := by
  have hreachable : (transportSystem twoGpus).Reachable sampleSession :=
    .step (.step (.step (.init ⟨rfl, rfl, rfl⟩) (.inl ⟨_, _, rfl⟩)) (.inl ⟨_, _, rfl⟩)) (.inr ⟨0, rfl⟩)
  have hone : sampleSession.transports.length = 1 := by decide +kernel
  obtain ⟨transport, htransport⟩ := List.length_eq_one_iff.mp hone
  have hwired := (transports_wired twoGpus hreachable).1 transport (by simp [htransport])
  have hable : Able twoGpus bothGpus 65536 sampleSession.process.contextCounter := by
    refine ⟨fun _ => rfl, fun r => ?_, by decide, by decide, by decide +kernel⟩
    cases r
    · exact ⟨⟨false, 0x1002, 0⟩, by simp [twoGpus], rfl, rfl, rfl⟩
    · exact ⟨⟨false, 0x1002, 1⟩, by simp [twoGpus], rfl, rfl, rfl⟩
  exact ⟨by decide +kernel, by decide +kernel, ⟨transport, htransport, hwired⟩,
    (transports_wired twoGpus hreachable).2.2.2.2 bothGpus 65536 hable⟩

end MultiGpuTransport.Shim.Buffers
