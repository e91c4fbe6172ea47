import MultiGpuTransport.Lib.Slices
import Mathlib.Algebra.Group.Int.Defs
import Mathlib.Logic.Function.Basic

/-!
# The writer of the drafter's weights

A safetensors file is a length, a JSON header of that many bytes, and the tensors' data, where the
header says which bytes each tensor has. The writer makes the header of the new file from those of the
sources, and then copies the tensors one after the other. JSON texts are read and written by a codec.
-/
namespace MultiGpuTransport.Drafter

inductive Json
  | null
  | bool (b : Bool)
  | int (n : ℤ)
  | float (text : String)
  | str (s : String)
  | arr (elements : List Json)
  | obj (members : List (String × Json))

inductive BuildError
  | osError (message : String)
  | valueError (message : String)
  | keyError (key : String)
  | typeError (message : String)
  | eofError (message : String)
  | structError (message : String)
  deriving DecidableEq, Repr

abbrev Path := String

abbrev Files := Path → Option Bytes

/-- What json.loads makes of decoded bytes, and the encoded text that json.dumps makes. -/
structure JsonCodec where
  loads : Bytes → Except BuildError Json
  dumps : Json → Bytes

/-- A dict keeps its keys in the order in which they were first set. -/
def setItem {α : Type} (dict : List (String × α)) (key : String) (value : α) : List (String × α) :=
  if key ∈ dict.map Prod.fst then dict.map fun p => if p.1 = key then (key, value) else p
  else dict ++ [(key, value)]

def Json.getItem (key : String) : Json → Except BuildError Json
  | .obj members =>
    match members.lookup key with
    | some value => .ok value
    | none => .error (.keyError key)
  | _ => .error (.typeError "object is not subscriptable with a string")

/-- An offset; in Python a bool is an int. -/
def Json.asInt : Json → Except BuildError ℤ
  | .int n => .ok n
  | .bool b => .ok b.toNat
  | _ => .error (.typeError "object cannot be interpreted as an integer")

def Json.unpackTwo : Json → Except BuildError (Json × Json)
  | .arr [a, b] => .ok (a, b)
  | .arr _ => .error (.valueError "expected 2 values to unpack")
  | _ => .error (.typeError "cannot unpack two offsets")

def openRead (files : Files) (path : Path) : Except BuildError Bytes :=
  match files path with
  | some bytes => .ok bytes
  | none => .error (.osError s!"No such file or directory: {path}")

def readSafetensorsHeader (codec : JsonCodec) (files : Files) (path : Path) :
    Except BuildError (Json × ℕ) := do
  let stream ← openRead files path
  let headerSizeRaw := slice stream 0 8
  if headerSizeRaw.length ≠ 8 then
    throw (.valueError s!"Invalid safetensors header: {path}")
  let headerSize := ofLittleEndian headerSizeRaw
  let header ← codec.loads (slice stream 8 headerSize)
  return (header, 8 + headerSize)

/-- How many of the bytes that it could return a read returns, one by one: any number, but not none. -/
structure ReadPattern where
  size : ℕ → ℕ → ℕ
  size_pos : ∀ i available, 0 < available → 0 < size i available
  size_le : ∀ i available, size i available ≤ available

namespace ReadPattern
variable (pattern : ReadPattern)

/-- The i-th read, of at most n bytes or, where n is -1, of all. -/
def read (i : ℕ) (source : Bytes) (n : ℤ) : Bytes :=
  source.take (pattern.size i (if n < 0 then source.length else min n.toNat source.length))

theorem read_length_le (i : ℕ) (source : Bytes) (n : ℤ) :
    (pattern.read i source n).length ≤ source.length := by
  rw [read, List.length_take]
  exact min_le_right _ _

end ReadPattern

def chunkSize : ℤ := 16 * 1024 * 1024

/-- The copy from what is left of the source to the end of the destination. -/
def copyExact (pattern : ReadPattern) (i : ℕ) (source destination : Bytes) (remaining : ℤ) :
    Except BuildError Bytes :=
  if remaining = 0 then .ok destination
  -- the read raises this
  else if min chunkSize remaining < -1 then
    .error (.valueError "read length must be non-negative or -1")
  else
    let chunk := pattern.read i source (min chunkSize remaining)
    if _h : chunk = [] then .error (.eofError "Unexpected end of safetensors data")
    else copyExact pattern (i + 1) (source.drop chunk.length) (destination ++ chunk)
      (remaining - chunk.length)
  termination_by source.length
  decreasing_by
    have hpos := List.length_pos_iff.mpr _h
    have hle := pattern.read_length_le i source (min chunkSize remaining)
    rw [List.length_drop]
    exact Nat.sub_lt (hpos.trans_le hle) hpos

/-! ### The header -/

structure Entry where
  sourcePath : Path
  sourceOffset : ℤ
  length : ℤ
  key : String
  sourceEntry : Json

/-- What the loop over the sources carries. -/
structure Plan where
  outputHeader : List (String × Json)
  outputOffset : ℤ
  entries : List Entry
  sizes : List (String × ℤ)

def initialPlan : Plan where
  outputHeader := [("__metadata__", .obj [
    ("format", .str "pt"),
    ("source_repo", .str "Qwen/Qwen3.8-27B"),
    ("source_revision", .str "1d4bf0f2ff6012fd82039f2fa52739d0dd7c60c0"),
    ("source_shard", .str "model-00018-of-00018.safetensors"),
    ("purpose", .str "standalone Qwen3.8 native MTP drafter for vLLM")])]
  outputOffset := 0
  entries := []
  sizes := []

/-- One requested key of a source. -/
def planKey (sourcePath : Path) (sourceHeader : Json) (sourceDataStart : ℕ) (plan : Plan)
    (key : String) : Except BuildError Plan := do
  let sourceEntry ← match sourceHeader with
    | .obj members =>
      match members.lookup key with
      | some entry => pure entry
      | none => throw (.valueError s!"{sourcePath} is missing tensor {key}")
    | _ => throw (.typeError "header is not an object")
  let offsets ← (← sourceEntry.getItem "data_offsets").unpackTwo
  let sourceStart ← offsets.1.asInt
  let sourceEnd ← offsets.2.asInt
  let length := sourceEnd - sourceStart
  let dtype ← sourceEntry.getItem "dtype"
  let shape ← sourceEntry.getItem "shape"
  return {
    outputHeader := setItem plan.outputHeader key (.obj [("dtype", dtype), ("shape", shape),
      ("data_offsets", .arr [.int plan.outputOffset, .int (plan.outputOffset + length)])])
    outputOffset := plan.outputOffset + length
    entries := plan.entries ++ [⟨sourcePath, sourceDataStart + sourceStart, length, key, sourceEntry⟩]
    sizes := setItem plan.sizes key length }

def planSource (codec : JsonCodec) (files : Files) (plan : Plan) (source : Path × List String) :
    Except BuildError Plan := do
  let (sourceHeader, sourceDataStart) ← readSafetensorsHeader codec files source.1
  source.2.foldlM (planKey source.1 sourceHeader sourceDataStart) plan

/-! ### The file -/

def packUInt64 (n : ℕ) : Except BuildError Bytes :=
  if n < 2 ^ 64 then .ok (toLittleEndian 8 n)
  else .error (.structError "int too large to convert")

def seek (stream : Bytes) (offset : ℤ) : Except BuildError Bytes :=
  if offset < 0 then .error (.osError "Invalid argument") else .ok (stream.drop offset.toNat)

/-- The header's text, padded with blanks to a multiple of 8 bytes. -/
def headerBytes (codec : JsonCodec) (outputHeader : List (String × Json)) : Bytes :=
  let text := codec.dumps (.obj outputHeader)
  text ++ List.replicate (-(text.length : ℤ) % 8).toNat 0x20

/-- The copy of one tensor; what has been written so far is what the output file holds. -/
def writeEntry (files : Files) (output : Path) (reads : String → ReadPattern) (destination : Bytes)
    (entry : Entry) : Except BuildError Bytes := do
  let stream ← openRead (Function.update files output (some destination)) entry.sourcePath
  let source ← seek stream entry.sourceOffset
  copyExact (reads entry.key) 0 source destination entry.length

/-- The sizes of the tensors, and the files with the new one, where nothing is raised. -/
def buildDraftSafetensors (codec : JsonCodec) (files : Files) (reads : String → ReadPattern)
    (output : Path) (sources : List (Path × List String)) :
    Except BuildError (List (String × ℤ) × Files) := do
  let plan ← sources.foldlM (planSource codec files) initialPlan
  let header := headerBytes codec plan.outputHeader
  let size ← packUInt64 header.length
  let destination ← plan.entries.foldlM (writeEntry files output reads) (size ++ header)
  return (plan.sizes, Function.update files output (some destination))

end MultiGpuTransport.Drafter
