import MultiGpuTransport.Drafter.Copies

/-!
# The tensors that are asked for

Of well-formed sources the first pass finds every requested tensor, or it fails on the first key that
is missing. What it has found after any number of keys determines the header, the copies to make and
the sizes.
-/
namespace MultiGpuTransport.Drafter

/-- What a header says of a tensor: its dtype and shape, and where its bytes are in the data. -/
structure TensorEntry (entry dtype shape : Json) (start length : ℕ) : Prop where
  dtype_eq : entry.getItem "dtype" = .ok dtype
  shape_eq : entry.getItem "shape" = .ok shape
  offsets_eq : entry.getItem "data_offsets" = .ok (.arr [.int start, .int (start + length)])

/-- A file whose header can be read, with an entry like that for every key but the metadata's. -/
def WellFormed (codec : JsonCodec) (files : Files) (path : Path) : Prop :=
  ∃ header dataStart, readSafetensorsHeader codec files path = .ok (.obj header, dataStart) ∧
    ∀ key entry, key ≠ "__metadata__" → header.lookup key = some entry →
      ∃ dtype shape start length, TensorEntry entry dtype shape start length

/-- A requested tensor of a source, with the place of its first byte in the file. -/
structure Requested where
  path : Path
  key : String
  entry : Json
  dtype : Json
  shape : Json
  place : ℕ
  length : ℕ

/-- The key is in the source's header, which says this of it. -/
def IsTensor (codec : JsonCodec) (files : Files) (t : Requested) : Prop :=
  ∃ header dataStart start, readSafetensorsHeader codec files t.path = .ok (.obj header, dataStart) ∧
    header.lookup t.key = some t.entry ∧
    TensorEntry t.entry t.dtype t.shape start t.length ∧ t.place = dataStart + start

def request (t : Requested) : Path × String := (t.path, t.key)

def requests (sources : List (Path × List String)) : List (Path × String) :=
  sources.flatMap fun source => source.2.map fun key => (source.1, key)

/-- What the output's header says of a tensor at an offset. -/
def outputEntry (t : Requested) (offset : ℕ) : Json :=
  .obj [("dtype", t.dtype), ("shape", t.shape),
    ("data_offsets", .arr [.int offset, .int (offset + t.length)])]

/-- The plan with one more tensor. -/
def addTensor (plan : Plan) (offset : ℕ) (t : Requested) : Plan where
  outputHeader := setItem plan.outputHeader t.key (outputEntry t offset)
  outputOffset := offset + t.length
  entries := plan.entries ++ [⟨t.path, t.place, t.length, t.key, t.entry⟩]
  sizes := setItem plan.sizes t.key t.length

/-- The plan with more tensors, whose bytes start at an offset. -/
def addTensors (plan : Plan) (offset : ℕ) : List Requested → Plan
  | [] => plan
  | t :: ts => addTensors (addTensor plan offset t) (offset + t.length) ts

theorem addTensors_append (plan : Plan) (offset : ℕ) (ts us : List Requested) :
    addTensors plan offset (ts ++ us) =
      addTensors (addTensors plan offset ts) (offset + (ts.map Requested.length).sum) us := by
  induction ts generalizing plan offset with
  | nil => rfl
  | cons t ts ih => simp only [List.cons_append, addTensors, ih, List.map_cons, List.sum_cons,
      Nat.add_assoc]

theorem addTensors_outputOffset {plan : Plan} {offset : ℕ} (h : plan.outputOffset = offset)
    (ts : List Requested) :
    (addTensors plan offset ts).outputOffset = (offset + (ts.map Requested.length).sum : ℕ) := by
  induction ts generalizing plan offset with
  | nil => simpa [addTensors] using h
  | cons t ts ih =>
    rw [addTensors, ih (by simp [addTensor]), List.map_cons, List.sum_cons, Nat.add_assoc]

section
variable {codec : JsonCodec} {files : Files} {path : Path} {header : List (String × Json)}
  {dataStart : ℕ} {plan plan' : Plan} {offset : ℕ}

theorem planKey_of_entry {t : Requested} {start : ℕ}
    (hoffset : plan.outputOffset = offset) (hkey : header.lookup t.key = some t.entry)
    (hentry : TensorEntry t.entry t.dtype t.shape start t.length) (hplace : t.place = dataStart + start) :
    planKey t.path (.obj header) dataStart plan t.key = .ok (addTensor plan offset t) := by
  simp [planKey, hkey, hentry.dtype_eq, hentry.shape_eq, hentry.offsets_eq, Json.unpackTwo, Json.asInt,
    addTensor, outputEntry, hoffset, hplace, Except.bind, bind, pure, Except.pure]

theorem planKey_of_missing {key : String} (hkey : header.lookup key = none) :
    planKey path (.obj header) dataStart plan key =
      .error (.valueError s!"{path} is missing tensor {key}") := by
  simp [planKey, hkey, Except.bind, bind, throw, throwThe, MonadExceptOf.throw]

/-- The keys of one source that the first pass accepts are tensors of it. -/
theorem planKeys_ok {keys : List String}
    (hread : readSafetensorsHeader codec files path = .ok (.obj header, dataStart))
    (hwell : ∀ key entry, key ≠ "__metadata__" → header.lookup key = some entry →
      ∃ dtype shape start length, TensorEntry entry dtype shape start length)
    (hmeta : "__metadata__" ∉ keys) (hoffset : plan.outputOffset = offset)
    (h : keys.foldlM (planKey path (.obj header) dataStart) plan = .ok plan') :
    ∃ ts, ts.map request = keys.map (fun key => (path, key)) ∧
      (∀ t ∈ ts, IsTensor codec files t) ∧ plan' = addTensors plan offset ts := by
  induction keys generalizing plan offset with
  | nil =>
    refine ⟨[], rfl, List.forall_mem_nil _, ?_⟩
    exact (Except.ok.inj h).symm
  | cons key keys ih =>
    rw [List.foldlM_cons] at h
    rw [List.mem_cons, not_or] at hmeta
    cases hkey : header.lookup key with
    | none =>
      rw [planKey_of_missing hkey] at h
      cases h
    | some entry =>
      obtain ⟨dtype, shape, start, length, hentry⟩ := hwell key entry (Ne.symm hmeta.1) hkey
      let t : Requested := ⟨path, key, entry, dtype, shape, dataStart + start, length⟩
      have hplan : planKey path (.obj header) dataStart plan key = .ok (addTensor plan offset t) :=
        planKey_of_entry (t := t) hoffset hkey hentry rfl
      have hnext : (addTensor plan offset t).outputOffset = (offset + length : ℕ) := rfl
      rw [hplan] at h
      obtain ⟨ts, hts, htensor, hplan'⟩ := ih hmeta.2 hnext h
      refine ⟨t :: ts, congrArg (List.cons _) hts, List.forall_mem_cons.mpr ⟨?_, htensor⟩, hplan'⟩
      exact ⟨header, dataStart, start, hread, hkey, hentry, rfl⟩

/-- It accepts the keys of tensors. -/
theorem planKeys_of_tensors {keys : List String} {ts : List Requested}
    (hread : readSafetensorsHeader codec files path = .ok (.obj header, dataStart))
    (hts : ts.map request = keys.map (fun key => (path, key)))
    (htensor : ∀ t ∈ ts, IsTensor codec files t) (hoffset : plan.outputOffset = offset) :
    keys.foldlM (planKey path (.obj header) dataStart) plan = .ok (addTensors plan offset ts) := by
  induction keys generalizing plan offset ts with
  | nil =>
    obtain rfl := List.map_eq_nil_iff.mp hts
    rfl
  | cons key keys ih =>
    obtain ⟨t, ts, rfl, hrequest, hrest⟩ := List.map_eq_cons_iff.mp hts
    obtain ⟨rfl, rfl⟩ := Prod.ext_iff.mp hrequest
    rw [List.forall_mem_cons] at htensor
    obtain ⟨header', dataStart', start, hread', hkey, hentry, hplace⟩ := htensor.1
    have hsame := hread'.symm.trans hread
    simp only [Except.ok.injEq, Prod.mk.injEq, Json.obj.injEq] at hsame
    obtain ⟨rfl, rfl⟩ := hsame
    have hplan : planKey t.path (.obj header') dataStart' plan t.key =
        .ok (addTensor plan offset t) := planKey_of_entry hoffset hkey hentry hplace
    have hnext : (addTensor plan offset t).outputOffset = (offset + t.length : ℕ) := rfl
    rw [List.foldlM_cons]
    exact (congrArg (· >>= _) hplan).trans (ih hrest htensor.2 hnext)

/-- The first pass accepts only requests for tensors of the sources. -/
theorem planned_ok {sources : List (Path × List String)}
    (hwell : ∀ source ∈ sources, WellFormed codec files source.1)
    (hmeta : ∀ source ∈ sources, "__metadata__" ∉ source.2) (hoffset : plan.outputOffset = offset)
    (h : sources.foldlM (planSource codec files) plan = .ok plan') :
    ∃ ts, ts.map request = requests sources ∧ (∀ t ∈ ts, IsTensor codec files t) ∧
      plan' = addTensors plan offset ts := by
  induction sources generalizing plan offset with
  | nil =>
    refine ⟨[], rfl, List.forall_mem_nil _, ?_⟩
    exact (Except.ok.inj h).symm
  | cons source sources ih =>
    rw [List.forall_mem_cons] at hwell hmeta
    obtain ⟨header, dataStart, hread, hentries⟩ := hwell.1
    have hplan : planSource codec files plan source =
        source.2.foldlM (planKey source.1 (.obj header) dataStart) plan := by
      rw [planSource, hread]
      rfl
    rw [List.foldlM_cons, hplan] at h
    cases hkeys : source.2.foldlM (planKey source.1 (.obj header) dataStart) plan with
    | error e =>
      rw [hkeys] at h
      cases h
    | ok next =>
      rw [hkeys] at h
      obtain ⟨ts, hts, htensor, rfl⟩ := planKeys_ok hread hentries hmeta.1 hoffset hkeys
      obtain ⟨us, hus, htensor', rfl⟩ := ih hwell.2 hmeta.2 (addTensors_outputOffset hoffset ts) h
      refine ⟨ts ++ us, ?_, List.forall_mem_append.mpr ⟨htensor, htensor'⟩,
        (addTensors_append plan offset ts us).symm⟩
      rw [List.map_append, hts, hus, requests, requests, List.flatMap_cons]

/-- It accepts all of these. -/
theorem planned_of_tensors {sources : List (Path × List String)} {ts : List Requested}
    (hwell : ∀ source ∈ sources, WellFormed codec files source.1)
    (hts : ts.map request = requests sources) (htensor : ∀ t ∈ ts, IsTensor codec files t)
    (hoffset : plan.outputOffset = offset) :
    sources.foldlM (planSource codec files) plan = .ok (addTensors plan offset ts) := by
  induction sources generalizing plan offset ts with
  | nil =>
    obtain rfl := List.map_eq_nil_iff.mp hts
    rfl
  | cons source sources ih =>
    rw [List.forall_mem_cons] at hwell
    rw [requests, List.flatMap_cons] at hts
    obtain ⟨us, vs, rfl, hus, hvs⟩ := List.map_eq_append_iff.mp hts
    rw [List.forall_mem_append] at htensor
    obtain ⟨header, dataStart, hread, -⟩ := hwell.1
    have hplan : planSource codec files plan source = .ok (addTensors plan offset us) := by
      rw [planSource, hread]
      exact planKeys_of_tensors hread hus htensor.1 hoffset
    rw [List.foldlM_cons, addTensors_append]
    exact (congrArg (· >>= _) hplan).trans
      (ih hwell.2 hvs htensor.2 (addTensors_outputOffset hoffset us))

end
end MultiGpuTransport.Drafter
