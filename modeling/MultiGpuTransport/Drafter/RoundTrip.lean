import MultiGpuTransport.Drafter.Requests
import Mathlib.Data.List.Nodup

/-!
# The new file has the tensors

The header that is read back from the output gives for every requested tensor the bytes that the source
has for it. The header and the data are made in separate passes; they agree because both go over the
same tensors in the same order.
-/
namespace MultiGpuTransport.Drafter

section
variable {α : Type} {dict : List (String × α)} {key key' : String} {value : α}

theorem lookup_map_setItem (hmem : key ∈ dict.map Prod.fst) :
    (dict.map fun p => if p.1 = key then (key, value) else p).lookup key = some value := by
  induction dict with
  | nil => exact absurd hmem List.not_mem_nil
  | cons p dict ih =>
    by_cases hp : p.1 = key
    · simp [hp]
    · rw [List.map_cons, List.mem_cons] at hmem
      have hmem := hmem.resolve_left (Ne.symm hp)
      have hne : (key == p.1) = false := beq_eq_false_iff_ne.mpr (Ne.symm hp)
      rw [List.map_cons, if_neg hp, List.lookup_cons, hne]
      exact ih hmem

@[simp] theorem lookup_setItem_self : (setItem dict key value).lookup key = some value := by
  rw [setItem]
  split_ifs with hmem
  · exact lookup_map_setItem hmem
  · rw [List.lookup_append, List.lookup_eq_none_iff.mpr]
    · simp
    · intro p hp
      rw [bne_iff_ne]
      rintro rfl
      exact hmem (List.mem_map_of_mem hp)

theorem lookup_setItem_of_ne (h : key' ≠ key) :
    (setItem dict key value).lookup key' = dict.lookup key' := by
  have hne : (key' == key) = false := beq_eq_false_iff_ne.mpr h
  rw [setItem]
  split_ifs with hmem
  · clear hmem
    induction dict with
    | nil => rfl
    | cons p dict ih =>
      by_cases hp : p.1 = key
      · rw [List.map_cons, if_pos hp, List.lookup_cons, List.lookup_cons, hp, hne, ih]
      · rw [List.map_cons, if_neg hp, List.lookup_cons, List.lookup_cons, ih]
  · rw [List.lookup_append, List.lookup_cons, hne, List.lookup_nil, Option.or_none]

end

/-! ### Header and sizes -/

/-- Later tensors leave what is said of other keys. -/
theorem lookup_addTensors (plan : Plan) (offset : ℕ) {ts : List Requested} {key : String}
    (h : key ∉ ts.map Requested.key) :
    (addTensors plan offset ts).outputHeader.lookup key = plan.outputHeader.lookup key ∧
      (addTensors plan offset ts).sizes.lookup key = plan.sizes.lookup key := by
  induction ts generalizing plan offset with
  | nil => exact ⟨rfl, rfl⟩
  | cons t ts ih =>
    rw [List.map_cons, List.mem_cons, not_or] at h
    rw [addTensors, (ih _ _ h.2).1, (ih _ _ h.2).2]
    exact ⟨lookup_setItem_of_ne h.1, lookup_setItem_of_ne h.1⟩

/-! ### The data -/

/-- The bytes of a tensor in its source. -/
def sourceBytes (files : Files) (t : Requested) : Bytes :=
  slice ((files t.path).getD []) t.place t.length

def entryOf (t : Requested) : Entry := ⟨t.path, t.place, t.length, t.key, t.entry⟩

theorem addTensors_entries (plan : Plan) (offset : ℕ) (ts : List Requested) :
    (addTensors plan offset ts).entries = plan.entries ++ ts.map entryOf := by
  induction ts generalizing plan offset with
  | nil => exact (List.append_nil _).symm
  | cons t ts ih =>
    rw [addTensors, ih, List.map_cons, List.append_cons]
    rfl

section
variable {codec : JsonCodec} {files : Files} {output : Path} {reads : String → ReadPattern}
  {destination destination' : Bytes} {ts : List Requested}

theorem exists_file {t : Requested} (h : IsTensor codec files t) : ∃ bytes, files t.path = some bytes := by
  obtain ⟨header, dataStart, start, hread, -⟩ := h
  rw [readSafetensorsHeader, openRead] at hread
  cases hfile : files t.path with
  | none =>
    rw [hfile] at hread
    cases hread
  | some bytes => exact ⟨bytes, rfl⟩

/-- Where its source is read after that, a tensor is copied from its place. -/
theorem writeEntry_eq {t : Requested} {bytes : Bytes} (hbytes : files t.path = some bytes)
    (hpath : t.path ≠ output) : writeEntry files output reads destination (entryOf t) =
      copyExact (reads t.key) 0 (bytes.drop t.place) destination t.length := by
  have hopen : openRead (Function.update files output (some destination)) t.path = .ok bytes := by
    rw [openRead, Function.update_of_ne hpath, hbytes]
  have hseek : seek bytes t.place = .ok (bytes.drop t.place) := if_neg (by omega)
  simp only [writeEntry, entryOf, hopen, bind, Except.bind, hseek]

theorem sourceBytes_of_file {t : Requested} {bytes : Bytes} (hbytes : files t.path = some bytes) :
    sourceBytes files t = (bytes.drop t.place).take t.length := by
  rw [sourceBytes, hbytes, Option.getD_some, slice]

/-- A tensor that is written is written whole. -/
theorem writeEntry_ok {t : Requested} (ht : IsTensor codec files t) (hpath : t.path ≠ output)
    (h : writeEntry files output reads destination (entryOf t) = .ok destination') :
    (sourceBytes files t).length = t.length ∧ destination' = destination ++ sourceBytes files t := by
  obtain ⟨bytes, hbytes⟩ := exists_file ht
  rw [writeEntry_eq hbytes hpath] at h
  rw [sourceBytes_of_file hbytes]
  by_cases hfits : (0 : ℤ) ≤ t.length ∧ (t.length : ℤ) ≤ (bytes.drop t.place).length
  · rw [copyExact_of_le _ _ _ _ hfits.1 hfits.2] at h
    refine ⟨?_, (Except.ok.inj h).symm⟩
    rw [List.length_take]
    omega
  · rw [copyExact_of_not_le _ _ _ _ hfits] at h
    cases h

theorem writeEntry_of_length {t : Requested} (ht : IsTensor codec files t) (hpath : t.path ≠ output)
    (hlen : (sourceBytes files t).length = t.length) :
    writeEntry files output reads destination (entryOf t) =
      .ok (destination ++ sourceBytes files t) := by
  obtain ⟨bytes, hbytes⟩ := exists_file ht
  rw [sourceBytes_of_file hbytes, List.length_take] at hlen
  rw [writeEntry_eq hbytes hpath, sourceBytes_of_file hbytes]
  exact copyExact_of_le _ _ _ _ (Int.natCast_nonneg _) (by omega)

theorem written_of_length (htensor : ∀ t ∈ ts, IsTensor codec files t)
    (hpath : ∀ t ∈ ts, t.path ≠ output) (hlens : ∀ t ∈ ts, (sourceBytes files t).length = t.length) :
    (ts.map entryOf).foldlM (writeEntry files output reads) destination =
      .ok (destination ++ ts.flatMap (sourceBytes files)) := by
  induction ts generalizing destination with
  | nil =>
    rw [List.flatMap_nil, List.append_nil]
    rfl
  | cons t ts ih =>
    rw [List.forall_mem_cons] at htensor hpath hlens
    rw [List.map_cons, List.foldlM_cons, List.flatMap_cons, ← List.append_assoc]
    exact (congrArg (· >>= _) (writeEntry_of_length htensor.1 hpath.1 hlens.1)).trans
      (ih htensor.2 hpath.2 hlens.2)

theorem written_ok (htensor : ∀ t ∈ ts, IsTensor codec files t) (hpath : ∀ t ∈ ts, t.path ≠ output)
    (h : (ts.map entryOf).foldlM (writeEntry files output reads) destination = .ok destination') :
    (∀ t ∈ ts, (sourceBytes files t).length = t.length) ∧
      destination' = destination ++ ts.flatMap (sourceBytes files) := by
  induction ts generalizing destination with
  | nil =>
    refine ⟨List.forall_mem_nil _, ?_⟩
    rw [List.flatMap_nil, List.append_nil]
    exact (Except.ok.inj h).symm
  | cons t ts ih =>
    rw [List.forall_mem_cons] at htensor hpath
    rw [List.map_cons, List.foldlM_cons] at h
    cases hwrite : writeEntry files output reads destination (entryOf t) with
    | error e =>
      rw [hwrite] at h
      cases h
    | ok next =>
      rw [hwrite] at h
      obtain ⟨hlen, rfl⟩ := writeEntry_ok htensor.1 hpath.1 hwrite
      obtain ⟨hlens, rfl⟩ := ih htensor.2 hpath.2 h
      exact ⟨List.forall_mem_cons.mpr ⟨hlen, hlens⟩, by rw [List.flatMap_cons, List.append_assoc]⟩

end

/-! ### What the new file has -/

/-- From an offset to the end of the file, the tensors follow one another, and header and sizes say so. -/
def Laid (files : Files) (header : List (String × Json)) (sizes : List (String × ℤ)) (file : Bytes)
    (dataStart : ℕ) : ℕ → List Requested → Prop
  | offset, [] => dataStart + offset = file.length
  | offset, t :: ts =>
    header.lookup t.key = some (outputEntry t offset) ∧
      slice file (dataStart + offset) t.length = sourceBytes files t ∧
      (sourceBytes files t).length = t.length ∧ sizes.lookup t.key = some (t.length : ℤ) ∧
      Laid files header sizes file dataStart (offset + t.length) ts

theorem laid_addTensors {files : Files} {plan : Plan} {offset dataStart : ℕ} {ts : List Requested}
    {start : Bytes} (hkeys : (ts.map Requested.key).Nodup)
    (hlens : ∀ t ∈ ts, (sourceBytes files t).length = t.length)
    (hstart : start.length = dataStart + offset) :
    Laid files (addTensors plan offset ts).outputHeader (addTensors plan offset ts).sizes
      (start ++ ts.flatMap (sourceBytes files)) dataStart offset ts := by
  induction ts generalizing plan offset start with
  | nil =>
    rw [Laid, List.flatMap_nil, List.append_nil]
    exact hstart.symm
  | cons t ts ih =>
    rw [List.map_cons, List.nodup_cons] at hkeys
    rw [List.forall_mem_cons] at hlens
    obtain ⟨hheader, hsizes⟩ := lookup_addTensors (addTensor plan offset t)
      (offset + t.length) hkeys.1
    refine ⟨hheader.trans lookup_setItem_self, ?_, hlens.1, hsizes.trans lookup_setItem_self, ?_⟩
    · exact slice_middle hstart hlens.1 _
    · rw [List.flatMap_cons, ← List.append_assoc]
      refine ih hkeys.2 hlens.2 ?_
      rw [List.length_append, hstart, hlens.1, Nat.add_assoc]

/-! ### The header that is read back -/

theorem headerBytes_length (codec : JsonCodec) (header : List (String × Json)) :
    8 ∣ (headerBytes codec header).length := by
  rw [headerBytes, List.length_append, List.length_replicate]
  omega

/-- The codec reads back what it has written of a header, with any blanks behind it. -/
def JsonCodec.Inverts (codec : JsonCodec) (header : List (String × Json)) : Prop :=
  ∀ n, codec.loads (codec.dumps (.obj header) ++ List.replicate n 0x20) = .ok (.obj header)

theorem readSafetensorsHeader_of_file {codec : JsonCodec} {files : Files} {path : Path} {header : Json}
    {text data : Bytes} (hloads : codec.loads text = .ok header) (hsize : text.length < 2 ^ 64)
    (hfile : files path = some (toLittleEndian 8 text.length ++ text ++ data)) :
    readSafetensorsHeader codec files path = .ok (header, 8 + text.length) := by
  have hopen : openRead files path = .ok (toLittleEndian 8 text.length ++ text ++ data) := by
    rw [openRead, hfile]
  have hlen := length_toLittleEndian 8 text.length
  have hraw : slice (toLittleEndian 8 text.length ++ text ++ data) 0 8 =
      toLittleEndian 8 text.length := by
    rw [List.append_assoc]
    exact slice_append_left hlen _
  have htext : slice (toLittleEndian 8 text.length ++ text ++ data) 8 text.length = text := by
    rw [List.append_assoc]
    exact slice_middle hlen rfl data
  have hof : ofLittleEndian (toLittleEndian 8 text.length) = text.length :=
    ofLittleEndian_toLittleEndian hsize
  simp only [readSafetensorsHeader, hopen, bind, Except.bind, hraw, hlen, hof, htext, hloads]
  rfl

/-! ### Whole runs -/

/-- What the new file holds: a header, padded to a multiple of 8, that gives for all requested tensors
what their sources have. -/
def HoldsTensors (codec : JsonCodec) (files : Files) (output : Path)
    (sources : List (Path × List String)) (sizes : List (String × ℤ)) (files' : Files) : Prop :=
  ∃ header dataStart file ts,
    readSafetensorsHeader codec files' output = .ok (.obj header, dataStart) ∧
    files' output = some file ∧ 8 ∣ dataStart ∧ ts.map request = requests sources ∧
    (∀ t ∈ ts, IsTensor codec files t) ∧ Laid files header sizes file dataStart 0 ts

def Missing (codec : JsonCodec) (files : Files) (path : Path) (key : String) : Prop :=
  ∀ header dataStart, readSafetensorsHeader codec files path = .ok (.obj header, dataStart) →
    header.lookup key = none

/-- A byte of the tensor's range lies past the end of its source. -/
def ExtendsPastEnd (files : Files) (t : Requested) : Prop :=
  ∃ bytes i, files t.path = some bytes ∧ t.place ≤ i ∧ i < t.place + t.length ∧ bytes.length ≤ i

theorem IsTensor.unique {codec : JsonCodec} {files : Files} {t t' : Requested}
    (h : IsTensor codec files t) (h' : IsTensor codec files t') (heq : request t = request t') :
    t.place = t'.place ∧ t.length = t'.length := by
  obtain ⟨header, dataStart, start, hread, hkey, hentry, hplace⟩ := h
  obtain ⟨header', dataStart', start', hread', hkey', hentry', hplace'⟩ := h'
  have hpath : t.path = t'.path := congrArg Prod.fst heq
  have hkeys : t.key = t'.key := congrArg Prod.snd heq
  rw [hpath, hread'] at hread
  injection hread with hread
  injection hread with hheader hstart
  injection hheader with hheader
  rw [hkeys, ← hheader, hkey'] at hkey
  injection hkey with hentries
  have hoffsets := hentry.offsets_eq
  rw [← hentries, hentry'.offsets_eq] at hoffsets
  injection hoffsets with hoffsets
  injection hoffsets with hoffsets
  injection hoffsets with hfirst hrest
  injection hfirst with hfirst
  injection hrest with hsecond
  injection hsecond with hsecond
  omega

theorem Laid.length_eq {files : Files} {header : List (String × Json)} {sizes : List (String × ℤ)}
    {file : Bytes} {dataStart offset : ℕ} {ts : List Requested}
    (h : Laid files header sizes file dataStart offset ts) :
    ∀ t ∈ ts, (sourceBytes files t).length = t.length := by
  induction ts generalizing offset with
  | nil => exact List.forall_mem_nil _
  | cons t ts ih => exact List.forall_mem_cons.mpr ⟨h.2.2.1, ih h.2.2.2.2⟩

section
variable {codec : JsonCodec} {files : Files} {reads : String → ReadPattern} {output : Path}
  {sources : List (Path × List String)}

theorem requests_map_snd : (requests sources).map Prod.snd = sources.flatMap Prod.snd := by
  simp only [requests, List.map_flatMap, List.map_map, Function.comp_def, List.map_id']

/-- The passes of a call that returns. -/
theorem buildDraftSafetensors_ok {sizes : List (String × ℤ)} {files' : Files}
    (h : buildDraftSafetensors codec files reads output sources = .ok (sizes, files')) :
    ∃ plan destination, sources.foldlM (planSource codec files) initialPlan = .ok plan ∧
      (headerBytes codec plan.outputHeader).length < 2 ^ 64 ∧
      plan.entries.foldlM (writeEntry files output reads)
        (toLittleEndian 8 (headerBytes codec plan.outputHeader).length ++
          headerBytes codec plan.outputHeader) = .ok destination ∧
      sizes = plan.sizes ∧ files' = Function.update files output (some destination) := by
  obtain ⟨plan, hplan, hpacked⟩ := bind_eq_ok.mp h
  obtain ⟨size, hsize, hcopied⟩ := bind_eq_ok.mp hpacked
  obtain ⟨destination, hwritten, hreturn⟩ := bind_eq_ok.mp hcopied
  obtain ⟨hlt, rfl⟩ := packUInt64_ok.mp hsize
  cases hreturn
  exact ⟨plan, destination, hplan, hlt, hwritten, rfl, rfl⟩

theorem holdsTensors_of_ok (hwell : ∀ source ∈ sources, WellFormed codec files source.1)
    (houtput : ∀ source ∈ sources, source.1 ≠ output)
    (hkeys : (sources.flatMap Prod.snd).Nodup) (hmeta : "__metadata__" ∉ sources.flatMap Prod.snd)
    (hinv : ∀ plan, sources.foldlM (planSource codec files) initialPlan = .ok plan →
      codec.Inverts plan.outputHeader) {sizes : List (String × ℤ)} {files' : Files}
    (h : buildDraftSafetensors codec files reads output sources = .ok (sizes, files')) :
    HoldsTensors codec files output sources sizes files' := by
  obtain ⟨plan, destination, hplan, hsize, hwritten, rfl, rfl⟩ := buildDraftSafetensors_ok h
  have hinverts := hinv plan hplan
  have hmeta' : ∀ source ∈ sources, "__metadata__" ∉ source.2 :=
    fun source hs hmem => hmeta (List.mem_flatMap.mpr ⟨source, hs, hmem⟩)
  have hzero : initialPlan.outputOffset = (0 : ℕ) := rfl
  obtain ⟨ts, hts, htensor, rfl⟩ := planned_ok hwell hmeta' hzero hplan
  have hpath : ∀ t ∈ ts, t.path ≠ output := by
    intro t ht
    have hmem : request t ∈ requests sources := hts ▸ List.mem_map_of_mem ht
    obtain ⟨source, hs, hmem⟩ := List.mem_flatMap.mp hmem
    obtain ⟨key, -, heq⟩ := List.mem_map.mp hmem
    have hsource : source.1 = t.path := congrArg Prod.fst heq
    exact hsource ▸ houtput source hs
  have hnodup : (ts.map Requested.key).Nodup := by
    rw [← requests_map_snd, ← hts, List.map_map] at hkeys
    exact hkeys
  rw [addTensors_entries] at hwritten
  obtain ⟨hlens, rfl⟩ := written_ok htensor hpath hwritten
  have hloads : codec.loads (headerBytes codec (addTensors initialPlan 0 ts).outputHeader) =
      .ok (.obj (addTensors initialPlan 0 ts).outputHeader) := hinverts _
  refine ⟨_, _, _, ts, readSafetensorsHeader_of_file hloads hsize (Function.update_self _ _ _),
    Function.update_self _ _ _, ?_, hts, htensor, laid_addTensors hnodup hlens ?_⟩
  · exact Nat.dvd_add (dvd_refl 8) (headerBytes_length codec _)
  · rw [List.length_append, length_toLittleEndian, Nat.add_zero]

variable (reads) in
/-- A call returns where all that is requested are tensors that their sources have whole. -/
theorem buildDraftSafetensors_of_tensors {ts : List Requested}
    (hwell : ∀ source ∈ sources, WellFormed codec files source.1)
    (hts : ts.map request = requests sources) (htensor : ∀ t ∈ ts, IsTensor codec files t)
    (hpath : ∀ t ∈ ts, t.path ≠ output) (hlens : ∀ t ∈ ts, (sourceBytes files t).length = t.length)
    (hsize : (headerBytes codec (addTensors initialPlan 0 ts).outputHeader).length < 2 ^ 64) :
    ∃ sizes files', buildDraftSafetensors codec files reads output sources = .ok (sizes, files') := by
  have hplan : sources.foldlM (planSource codec files) initialPlan =
      .ok (addTensors initialPlan 0 ts) := planned_of_tensors hwell hts htensor rfl
  let header := headerBytes codec (addTensors initialPlan 0 ts).outputHeader
  have hwritten : (addTensors initialPlan 0 ts).entries.foldlM (writeEntry files output reads)
      (toLittleEndian 8 header.length ++ header) =
        .ok (toLittleEndian 8 header.length ++ header ++ ts.flatMap (sourceBytes files)) := by
    rw [addTensors_entries]
    exact written_of_length htensor hpath hlens
  refine ⟨(addTensors initialPlan 0 ts).sizes, Function.update files output
    (some (toLittleEndian 8 header.length ++ header ++ ts.flatMap (sourceBytes files))),
    bind_eq_ok.mpr ⟨_, hplan, bind_eq_ok.mpr ⟨_, packUInt64_ok.mpr ⟨hsize, rfl⟩, ?_⟩⟩⟩
  exact bind_eq_ok.mpr ⟨_, hwritten, rfl⟩

theorem length_of_mem_requests {sizes : List (String × ℤ)} {files' : Files}
    (h : HoldsTensors codec files output sources sizes files') {t : Requested}
    (ht : IsTensor codec files t) (hmem : request t ∈ requests sources) :
    (sourceBytes files t).length = t.length := by
  obtain ⟨header, dataStart, file, ts, -, -, -, hts, htensor, hlaid⟩ := h
  rw [← hts, List.mem_map] at hmem
  obtain ⟨t', ht', heq⟩ := hmem
  have hpath : t'.path = t.path := congrArg Prod.fst heq
  obtain ⟨hplace, hlength⟩ := (htensor t' ht').unique ht heq
  have hlen := hlaid.length_eq t' ht'
  rwa [sourceBytes, hpath, hplace, hlength] at hlen

/-- The writer round-trips tensors: a call that returns has written a file that holds the tensors of
the sources, and a call with a missing key or a tensor that extends past the end of its source raises. -/
theorem buildDraftSafetensors_round_trips
    (hwell : ∀ source ∈ sources, WellFormed codec files source.1)
    (houtput : ∀ source ∈ sources, source.1 ≠ output)
    (hkeys : (sources.flatMap Prod.snd).Nodup) (hmeta : "__metadata__" ∉ sources.flatMap Prod.snd)
    (hinv : ∀ plan, sources.foldlM (planSource codec files) initialPlan = .ok plan →
      codec.Inverts plan.outputHeader) :
    (∀ sizes files', buildDraftSafetensors codec files reads output sources = .ok (sizes, files') →
      HoldsTensors codec files output sources sizes files') ∧
    (∀ path key, (path, key) ∈ requests sources → Missing codec files path key →
      ∃ e, buildDraftSafetensors codec files reads output sources = .error e) ∧
    (∀ t, request t ∈ requests sources → IsTensor codec files t → ExtendsPastEnd files t →
      ∃ e, buildDraftSafetensors codec files reads output sources = .error e) ∧
    ∀ (pattern : ReadPattern) (i : ℕ) (source destination : Bytes) (length : ℤ),
      copyExact pattern i source destination length =
        if 0 ≤ length ∧ length ≤ source.length then .ok (destination ++ source.take length.toNat)
        else .error (copyError source length) := by
  refine ⟨fun sizes files' => holdsTensors_of_ok hwell houtput hkeys hmeta hinv, ?_, ?_, ?_⟩
  · intro path key hmem hmissing
    cases hbuild : buildDraftSafetensors codec files reads output sources with
    | error e => exact ⟨e, rfl⟩
    | ok result =>
      obtain ⟨-, -, -, ts, -, -, -, hts, htensor, -⟩ :=
        holdsTensors_of_ok hwell houtput hkeys hmeta hinv hbuild
      rw [← hts, List.mem_map] at hmem
      obtain ⟨t, ht, heq⟩ := hmem
      cases heq
      obtain ⟨header, dataStart, start, hread, hkey, -⟩ := htensor t ht
      rw [hmissing header dataStart hread] at hkey
      cases hkey
  · intro t hmem ht hpast
    cases hbuild : buildDraftSafetensors codec files reads output sources with
    | error e => exact ⟨e, rfl⟩
    | ok result =>
      have hlen := length_of_mem_requests
        (holdsTensors_of_ok hwell houtput hkeys hmeta hinv hbuild) ht hmem
      obtain ⟨bytes, i, hbytes, hplace, hi, hend⟩ := hpast
      rw [sourceBytes, hbytes, Option.getD_some, length_slice] at hlen
      omega
  · intro pattern i source destination length
    split_ifs with hfits
    · exact copyExact_of_le pattern i source destination hfits.1 hfits.2
    · exact copyExact_of_not_le pattern i source destination hfits

end

/-! ### Two sources -/

def ascii (pieces : List String) : Bytes :=
  pieces.flatMap fun s => s.toList.map fun c => UInt8.ofNat c.toNat

def bytesEntry (start length : ℕ) : Json :=
  .obj [("dtype", .str "U8"), ("shape", .arr [.int length]),
    ("data_offsets", .arr [.int start, .int (start + length)])]

def firstHeader : List (String × Json) := [("w", bytesEntry 0 2), ("v", bytesEntry 2 3)]
def secondHeader : List (String × Json) := [("u", bytesEntry 0 1)]

def firstText : Bytes := ascii [
  "\x7b\"w\":", "\x7b\"dtype\":\"U8\",", "\"shape\":[2],", "\"data_offsets\":[0,2]\x7d,",
  "\"v\":", "\x7b\"dtype\":\"U8\",", "\"shape\":[3],", "\"data_offsets\":[2,5]\x7d\x7d"]

def secondText : Bytes := ascii [
  "\x7b\"u\":", "\x7b\"dtype\":\"U8\",", "\"shape\":[1],", "\"data_offsets\":[0,1]\x7d\x7d"]

def sampleOutputText : Bytes := ascii [
  "\x7b\"__metadata__\":", "\x7b\"format\":\"pt\",", "\"source_repo\":\"Qwen/Qwen3.8-27B\",",
  "\"source_revision\":", "\"1d4bf0f2ff6012fd82039f2fa52739d0dd7c60c0\",",
  "\"source_shard\":", "\"model-00018-of-00018.safetensors\",",
  "\"purpose\":", "\"standalone Qwen3.8 native MTP drafter for vLLM\"\x7d,",
  "\"v\":", "\x7b\"dtype\":\"U8\",", "\"shape\":[3],", "\"data_offsets\":[0,3]\x7d,",
  "\"w\":", "\x7b\"dtype\":\"U8\",", "\"shape\":[2],", "\"data_offsets\":[3,5]\x7d,",
  "\"u\":", "\x7b\"dtype\":\"U8\",", "\"shape\":[1],", "\"data_offsets\":[5,6]\x7d\x7d"]

def sampleOutputHeader : List (String × Json) :=
  initialPlan.outputHeader ++ [("v", bytesEntry 0 3), ("w", bytesEntry 3 2), ("u", bytesEntry 5 1)]

/-- The codec on these texts. -/
def sampleCodec : JsonCodec where
  loads text :=
    if sampleOutputText <+: text then .ok (.obj sampleOutputHeader)
    else if firstText <+: text then .ok (.obj firstHeader)
    else if secondText <+: text then .ok (.obj secondHeader)
    else .error (.valueError "Expecting value")
  dumps _ := sampleOutputText

def sampleFiles : Files
  | "first.safetensors" => some (toLittleEndian 8 firstText.length ++ firstText ++ [7, 9, 1, 2, 3])
  | "second.safetensors" => some (toLittleEndian 8 secondText.length ++ secondText ++ [5])
  | _ => none

def sampleSources : List (Path × List String) :=
  [("first.safetensors", ["v", "w"]), ("second.safetensors", ["u"])]

def byteByByte : ReadPattern where
  size _ available := min 1 available
  size_pos _ available h := by omega
  size_le _ available := min_le_right 1 available

theorem sample_readFirst : readSafetensorsHeader sampleCodec sampleFiles "first.safetensors" =
    .ok (.obj firstHeader, 8 + firstText.length) := by
  have hnot : ¬ sampleOutputText <+: firstText := by decide +kernel
  have hlen : firstText.length = 105 := by decide +kernel
  have hloads : sampleCodec.loads firstText = .ok (.obj firstHeader) := by
    simp only [sampleCodec, if_neg hnot, List.prefix_refl, if_true]
  refine readSafetensorsHeader_of_file hloads ?_ rfl
  rw [hlen]
  decide

theorem sample_readSecond : readSafetensorsHeader sampleCodec sampleFiles "second.safetensors" =
    .ok (.obj secondHeader, 8 + secondText.length) := by
  have hnot : ¬ sampleOutputText <+: secondText := by decide +kernel
  have hnot' : ¬ firstText <+: secondText := by decide +kernel
  have hlen : secondText.length = 53 := by decide +kernel
  have hloads : sampleCodec.loads secondText = .ok (.obj secondHeader) := by
    simp only [sampleCodec, if_neg hnot, if_neg hnot', List.prefix_refl, if_true]
  refine readSafetensorsHeader_of_file hloads ?_ rfl
  rw [hlen]
  decide

theorem bytesEntry_isEntry (start length : ℕ) : TensorEntry (bytesEntry start length) (.str "U8")
    (.arr [.int length]) start length := ⟨rfl, rfl, rfl⟩

theorem sample_wellFormed : ∀ source ∈ sampleSources,
    WellFormed sampleCodec sampleFiles source.1 := by
  refine List.forall_mem_cons.mpr ⟨⟨_, _, sample_readFirst, fun key entry _ hkey => ?_⟩,
    List.forall_mem_singleton.mpr ⟨_, _, sample_readSecond, fun key entry _ hkey => ?_⟩⟩
  · simp only [firstHeader, List.lookup_cons, List.lookup_nil] at hkey
    split at hkey
    · cases hkey
      exact ⟨_, _, _, _, bytesEntry_isEntry 0 2⟩
    · split at hkey
      · cases hkey
        exact ⟨_, _, _, _, bytesEntry_isEntry 2 3⟩
      · cases hkey
  · simp only [secondHeader, List.lookup_cons, List.lookup_nil] at hkey
    split at hkey
    · cases hkey
      exact ⟨_, _, _, _, bytesEntry_isEntry 0 1⟩
    · cases hkey

def sampleTensors : List Requested :=
  [⟨"first.safetensors", "v", bytesEntry 2 3, .str "U8", .arr [.int 3], 8 + firstText.length + 2, 3⟩,
   ⟨"first.safetensors", "w", bytesEntry 0 2, .str "U8", .arr [.int 2], 8 + firstText.length + 0, 2⟩,
   ⟨"second.safetensors", "u", bytesEntry 0 1, .str "U8", .arr [.int 1], 8 + secondText.length + 0, 1⟩]

theorem sample_isTensor : ∀ t ∈ sampleTensors, IsTensor sampleCodec sampleFiles t := by
  refine List.forall_mem_cons.mpr ⟨?_, List.forall_mem_cons.mpr ⟨?_, List.forall_mem_singleton.mpr ?_⟩⟩
  · exact ⟨_, _, 2, sample_readFirst, rfl, bytesEntry_isEntry 2 3, rfl⟩
  · exact ⟨_, _, 0, sample_readFirst, rfl, bytesEntry_isEntry 0 2, rfl⟩
  · exact ⟨_, _, 0, sample_readSecond, rfl, bytesEntry_isEntry 0 1, rfl⟩

theorem sample_outputHeader :
    (addTensors initialPlan 0 sampleTensors).outputHeader = sampleOutputHeader := rfl

theorem sample_inverts {plan : Plan}
    (h : sampleSources.foldlM (planSource sampleCodec sampleFiles) initialPlan = .ok plan) :
    sampleCodec.Inverts plan.outputHeader := by
  have hplan : sampleSources.foldlM (planSource sampleCodec sampleFiles) initialPlan =
      .ok (addTensors initialPlan 0 sampleTensors) :=
    planned_of_tensors sample_wellFormed rfl sample_isTensor rfl
  obtain rfl := Except.ok.inj (hplan.symm.trans h)
  intro n
  simp only [sample_outputHeader, sampleCodec, List.prefix_append, if_true]

theorem buildDraftSafetensors_round_trips_sample :
    ∃ sizes files', buildDraftSafetensors sampleCodec sampleFiles (fun _ => byteByByte)
        "draft/model.safetensors" sampleSources = .ok (sizes, files') ∧
      HoldsTensors sampleCodec sampleFiles "draft/model.safetensors" sampleSources sizes files' := by
  have hsize : (headerBytes sampleCodec
      (addTensors initialPlan 0 sampleTensors).outputHeader).length < 2 ^ 64 := by decide +kernel
  have hpath : ∀ t ∈ sampleTensors, t.path ≠ "draft/model.safetensors" := by decide
  obtain ⟨sizes, files', hreturns⟩ := buildDraftSafetensors_of_tensors (fun _ => byteByByte)
    sample_wellFormed rfl sample_isTensor hpath (by decide +kernel) hsize
  exact ⟨sizes, files', hreturns, (buildDraftSafetensors_round_trips sample_wellFormed (by decide)
    (by decide) (by decide) fun _ hplan => sample_inverts hplan).1 sizes files' hreturns⟩

end MultiGpuTransport.Drafter
