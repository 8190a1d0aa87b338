import SuperFunctions.SearchFn.ChunkSerializer

/-!
# Posting chunks (searchfn core-wasm)

The binary format as the wasm engine writes and reads it. Its `usize` has 32 bits and sums of
`usize` wrap; a slice whose bounds are out of order or past the end is a trap.
-/
namespace SuperFunctions.SearchFn.WasmPostings

open Lib.Objects Lib.Utf8 ChunkSerializer

variable {Value : Type} (json : JsonText Value)

structure InputPosting (Value : Type) where
  docId : String
  termFrequency : UInt32
  metadata : Option (Object Value)

def wrap (value : Nat) : Nat := value % 4294967296

/-- `bytes[start..stop]` -/
def slice (bytes : Bytes) (start stop : Nat) : Except Failure Bytes :=
  if start ≤ stop ∧ stop ≤ bytes.length then .ok (subarray bytes start stop) else .error .trap

/-- The number, and the offset after it. -/
def readU32 (bytes : Bytes) (offset : Nat) : Except Failure (Nat × Nat) :=
  if wrap (offset + 4) > bytes.length then
    .error (.error "Invalid posting-bin-v1 payload length")
  else (slice bytes offset (wrap (offset + 4))).bind fun raw =>
    match raw with
    | [a, b, c, d] => .ok (fromUint32 a b c d, wrap (offset + 4))
    | _ => .error .trap

def normaliseTermFrequency (termFrequency : Nat) : Nat := max termFrequency 1

def extraMetadata (metadata : Object Value) [DecidableEq Value] : Object Value :=
  if metadata.lookup "isPrefix" = some json.truth then metadata.erase "isPrefix" else metadata

def encodeMetadata (metadata : Option (Object Value)) [DecidableEq Value] : UInt8 × Option Bytes :=
  match metadata with
  | none => (0, none)
  | some metadata =>
    let extra := extraMetadata json metadata
    let flags := prefixFlags json metadata
    if extra = ∅ ∧ flags ≠ 0 then (flags, none)
    else (flags ||| flagHasExtraMetadata, some (json.toVec extra))

def encodePostingsBinary (postings : List (InputPosting Value)) [DecidableEq Value] : Bytes :=
  magic ++ uint32 postings.length ++ postings.flatMap fun posting =>
    record (encode posting.docId) (normaliseTermFrequency posting.termFrequency.toNat)
      (encodeMetadata json posting.metadata).1 (encodeMetadata json posting.metadata).2

def parseObject (bytes : Bytes) : Except Failure (Object Value) :=
  match json.fromSlice bytes with
  | none => .error (.error "expected value")
  | some (.object members) => .ok members
  | some _ => .error (.error "Decoded posting-bin-v1 metadata is not an object")

/-- A length and as many bytes, and the offset after them. -/
def readSized (endError : String) (bytes : Bytes) (offset : Nat) : Except Failure (Bytes × Nat) :=
  (readU32 bytes offset).bind fun (length, offset) =>
    if wrap (offset + length) > bytes.length then .error (.error endError)
    else (slice bytes offset (wrap (offset + length))).map fun field =>
      (field, wrap (offset + length))

def parseDocId (bytes : Bytes) : Except Failure String :=
  match decode bytes with
  | none => .error (.error "Invalid UTF-8 in posting-bin-v1 docId")
  | some docId => .ok (String.ofList docId)

/-- One pass of the loop over the records: the posting and the next offset. -/
def decodePosting (bytes : Bytes) (offset : Nat) : Except Failure (DecodedPosting Value × Nat) :=
  (readSized "Invalid posting-bin-v1 docId length" bytes offset).bind fun (docIdBytes, offset) =>
  (parseDocId docIdBytes).bind fun docId =>
  (readU32 bytes offset).bind fun (termFrequency, offset) =>
    match bytes[offset]? with
    | none => .error (.error "Invalid posting-bin-v1 payload length")
    | some flags =>
      let metadata := flaggedMetadata json flags
      if flags &&& flagHasExtraMetadata = 0 then
        .ok (⟨docId, normaliseTermFrequency termFrequency, metadata⟩, offset + 1)
      else (readSized "Invalid posting-bin-v1 metadata payload" bytes (offset + 1)).bind
          fun (metadataBytes, offset) =>
        (parseObject json metadataBytes).map fun parsed =>
          (⟨docId, normaliseTermFrequency termFrequency,
            some (Assoc.spread (metadata.getD ∅) parsed)⟩, offset)

def decodePostingsBinary (bytes : Bytes) : Except Failure (List (DecodedPosting Value)) :=
  if bytes = [] then .ok []
  else if bytes.length < magic.length + 4 then .error (.error "Invalid posting-bin-v1 payload")
  else if bytes.take magic.length ≠ magic then .error (.error "Invalid posting-bin-v1 header")
  else (readU32 bytes magic.length).bind fun (count, offset) =>
    if count > (bytes.length - offset) / 9 then
      .error (.error "Invalid posting-bin-v1 payload length")
    else (decodeLoop (decodePosting json bytes) count offset).bind fun (postings, offset) =>
      if offset ≠ bytes.length then .error (.error "Invalid posting-bin-v1 trailing bytes")
      else .ok postings

end SuperFunctions.SearchFn.WasmPostings

/-!
# The records of a chunk

A chunk is a number of records, and both decoders go through the same ones: what they make of a
chunk is what they make of its records one by one.
-/
namespace SuperFunctions.SearchFn.PostingFrames

open Lib.Utf8 Lib.Framing ChunkSerializer Option List

/-- The fields of a record as they lie in the buffer. -/
structure Frame where
  docId : Bytes
  termFrequency : Nat
  flags : UInt8
  metadata : Option Bytes

def takeUint32 : Bytes → Option (Nat × Bytes)
  | a :: b :: c :: d :: rest => some (fromUint32 a b c d, rest)
  | _ => none

def takeFlags : Bytes → Option (UInt8 × Bytes)
  | [] => none
  | flags :: rest => some (flags, rest)

/-- A length and as many bytes. -/
def takeField (bytes : Bytes) : Option (Bytes × Bytes) :=
  (takeUint32 bytes).bind fun (length, rest) => takeItems length rest

def takeFrame (bytes : Bytes) : Option (Frame × Bytes) :=
  (takeField bytes).bind fun (docId, rest) =>
    (takeUint32 rest).bind fun (termFrequency, rest) =>
      (takeFlags rest).bind fun (flags, rest) =>
        if flags &&& flagHasExtraMetadata = 0 then
          some (⟨docId, termFrequency, flags, none⟩, rest)
        else (takeField rest).map fun (metadata, rest) =>
          (⟨docId, termFrequency, flags, some metadata⟩, rest)

def frames (bytes : Bytes) : Option (List Frame) :=
  if bytes = [] then some []
  else if bytes.length < magic.length + 4 ∨ bytes.take magic.length ≠ magic then none
  else (takeUint32 (bytes.drop magic.length)).bind fun (count, rest) =>
    (takeMany takeFrame count rest).bind fun (records, rest) =>
      if rest = [] then some records else none

/-! ## What is written -/

theorem toNat_ofNat (n : Nat) : (UInt8.ofNat n).toNat = n % 256 := UInt8.toNat_ofNat'

theorem takeUint32_uint32 {n : Nat} (h : n < 4294967296) (rest : Bytes) :
    takeUint32 (uint32 n ++ rest) = some (n, rest) := by
  have hvalue : fromUint32 (UInt8.ofNat n) (UInt8.ofNat (n / 256)) (UInt8.ofNat (n / 65536))
      (UInt8.ofNat (n / 16777216)) = n := by
    rw [fromUint32, toNat_ofNat, toNat_ofNat, toNat_ofNat, toNat_ofNat]
    omega
  show some (fromUint32 _ _ _ _, rest) = _
  rw [hvalue]

theorem takeField_append {field : Bytes} (h : field.length < 4294967296) (rest : Bytes) :
    takeField (uint32 field.length ++ (field ++ rest)) = some (field, rest) := by
  rw [takeField, takeUint32_uint32 h, bind_some]
  exact takeItems_append field rest

theorem takeFrame_record {docId : Bytes} {termFrequency : Nat} {flags : UInt8}
    {metadata : Option Bytes} (hdoc : docId.length < 4294967296)
    (hfrequency : termFrequency < 4294967296)
    (hflags : flags &&& flagHasExtraMetadata = 0 ↔ metadata = none)
    (hmetadata : ∀ bytes, metadata = some bytes → bytes.length < 4294967296) (rest : Bytes) :
    takeFrame (record docId termFrequency flags metadata ++ rest) =
      some (⟨docId, termFrequency, flags, metadata⟩, rest) := by
  rw [takeFrame, record.eq_def]
  simp only [append_assoc]
  rw [takeField_append hdoc, bind_some]
  simp only [takeUint32_uint32 hfrequency, bind_some, cons_append, nil_append,
    takeFlags]
  cases metadata with
  | none => rw [if_pos (hflags.mpr rfl), nil_append]
  | some bytes =>
    have hne : ¬ flags &&& flagHasExtraMetadata = 0 := fun h => nomatch hflags.mp h
    rw [if_neg hne]
    simp only [append_assoc, takeField_append (hmetadata bytes rfl), map_some]

/-! ## What is consumed -/

theorem length_of_takeUint32 {bytes rest : Bytes} {n : Nat}
    (h : takeUint32 bytes = some (n, rest)) : rest.length + 4 = bytes.length := by
  cases bytes with
  | nil => cases h
  | cons a bytes =>
    cases bytes with
    | nil => cases h
    | cons b bytes =>
      cases bytes with
      | nil => cases h
      | cons c bytes =>
        cases bytes with
        | nil => cases h
        | cons d bytes =>
          rw [takeUint32, some.injEq, Prod.mk.injEq] at h
          simp only [length_cons, h.2]

theorem length_of_takeField {bytes rest field : Bytes} (h : takeField bytes = some (field, rest)) :
    rest.length + 4 ≤ bytes.length := by
  rw [takeField, bind_eq_some_iff] at h
  obtain ⟨⟨length, mid⟩, hlength, hitems⟩ := h
  have hmid := length_of_takeUint32 hlength
  have htake : takeItems length mid = some (field, rest) := hitems
  rw [takeItems] at htake
  split_ifs at htake
  have hrest : mid.drop length = rest := (Prod.mk.inj (some.inj htake)).2
  rw [← hrest, length_drop]
  omega

theorem length_of_takeFrame (bytes : Bytes) (frame : Frame) (rest : Bytes)
    (h : takeFrame bytes = some (frame, rest)) : rest.length + 9 ≤ bytes.length := by
  rw [takeFrame, bind_eq_some_iff] at h
  obtain ⟨⟨docId, bytes1⟩, hdoc, h⟩ := h
  obtain ⟨⟨termFrequency, bytes2⟩, hfrequency, h⟩ := bind_eq_some_iff.mp h
  obtain ⟨⟨flags, bytes3⟩, hflags, h⟩ := bind_eq_some_iff.mp h
  have h1 := length_of_takeField hdoc
  have h2 := length_of_takeUint32 hfrequency
  have h3 : bytes3.length + 1 = bytes2.length := by
    cases bytes2 with
    | nil => cases hflags
    | cons b bs =>
      rw [takeFlags, some.injEq, Prod.mk.injEq] at hflags
      rw [← hflags.2, length_cons]
  dsimp only at h
  split_ifs at h
  · have hrest : bytes3 = rest := (Prod.mk.inj (some.inj h)).2
    rw [← hrest]
    omega
  · obtain ⟨⟨metadata, bytes4⟩, hmetadata, heq⟩ := map_eq_some_iff.mp h
    have h4 := length_of_takeField hmetadata
    have hrest : bytes4 = rest := (Prod.mk.inj heq).2
    rw [← hrest]
    omega

end SuperFunctions.SearchFn.PostingFrames
