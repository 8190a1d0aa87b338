import SuperFunctions.SearchFn.PostingReaders

/-!
# Postings come back

An encoder writes the records of its postings, and a decoder finds these records in the chunk. A
list comes back exactly when every posting of it does.
-/
namespace SuperFunctions.SearchFn.PostingRoundTrip

open Lib.Utf8 Lib.Framing ChunkSerializer WasmPostings PostingFrames PostingReaders List
open Option

variable {Value : Type} {json : JsonText Value}

/-! ## Chunks of records -/

def writeFrame (frame : Frame) : Bytes :=
  record frame.docId frame.termFrequency frame.flags frame.metadata

def chunk (records : List Frame) : Bytes :=
  magic ++ uint32 records.length ++ records.flatMap writeFrame

/-- The flags say whether there is metadata, and the frequency fits its field. -/
structure WellFlagged (frame : Frame) : Prop where
  frequency : frame.termFrequency < 4294967296
  flags : frame.flags &&& flagHasExtraMetadata = 0 ↔ frame.metadata = none

theorem length_writeFrame (frame : Frame) : (writeFrame frame).length =
    9 + frame.docId.length + ((frame.metadata.map fun bytes => 4 + bytes.length).getD 0) := by
  rw [writeFrame, record.eq_def]
  cases frame.metadata with
  | none =>
    simp only [length_append, uint32, length_cons, length_nil, map_none, getD_none]
    omega
  | some bytes =>
    simp only [length_append, uint32, length_cons, length_nil, map_some, getD_some]
    omega

variable {records : List Frame}

theorem length_le_flatMap {frame : Frame} (h : frame ∈ records) :
    (writeFrame frame).length ≤ (records.flatMap writeFrame).length := by
  induction records with
  | nil => cases h
  | cons first rest ih =>
    rw [flatMap_cons, length_append]
    rcases mem_cons.mp h with hfirst | hrest
    · rw [hfirst]
      omega
    · have hle := ih hrest
      omega

theorem count_le_flatMap (records : List Frame) :
    records.length ≤ (records.flatMap writeFrame).length := by
  induction records with
  | nil => exact le_rfl
  | cons first rest ih =>
    have hfirst := length_writeFrame first
    rw [flatMap_cons, length_append, length_cons]
    omega

theorem frames_chunk (hlen : (chunk records).length < 4294967296)
    (h : ∀ frame ∈ records, WellFlagged frame) : frames (chunk records) = some records := by
  have htotal : (chunk records).length = 8 + (records.flatMap writeFrame).length := by
    rw [chunk, length_append, length_append]
    rfl
  have hcount := count_le_flatMap records
  have hnumber : takeUint32 ((chunk records).drop 4) =
      some (records.length, (chunk records).drop 8) := by
    have hdrop : (chunk records).drop 4 = uint32 records.length ++ records.flatMap writeFrame := rfl
    rw [hdrop, takeUint32_uint32 (by omega)]
    rfl
  have hrecord : ∀ frame ∈ records, ∀ rest,
      takeFrame (writeFrame frame ++ rest) = some (frame, rest) := by
    intro frame hframe rest
    have hle := length_le_flatMap hframe
    rw [length_writeFrame] at hle
    apply takeFrame_record (by omega) (h frame hframe).frequency (h frame hframe).flags
    intro bytes hbytes
    rw [hbytes, Option.map_some, Option.getD_some] at hle
    omega
  have hmany := takeMany_flatMap hrecord []
  have hdrop : (chunk records).drop 8 = records.flatMap writeFrame := rfl
  rw [frames_of_header (by omega) rfl hnumber, hdrop]
  rw [append_nil, List.map_id'] at hmany
  rw [hmany]
  rfl

theorem readAll_eq_ok {read : Frame → Except Failure (DecodedPosting Value)} {α : Type}
    (frameOf : α → Frame) (expected : α → DecodedPosting Value) (postings : List α) :
    readAll read (postings.map frameOf) = .ok (postings.map expected) ↔
      ∀ posting ∈ postings, read (frameOf posting) = .ok (expected posting) := by
  induction postings with
  | nil => exact iff_of_true rfl (List.forall_mem_nil _)
  | cons posting rest ih =>
    rw [map_cons, map_cons, readAll, forall_mem_cons, ← ih]
    cases hposting : read (frameOf posting) with
    | error failure => exact iff_of_false (by simp [Except.bind]) (by simp)
    | ok decoded =>
      cases hrest : readAll read (rest.map frameOf) with
      | error failure => exact iff_of_false (by simp [Except.bind, Except.map]) (by simp)
      | ok postings' =>
        simp only [Except.bind, Except.map, Except.ok.injEq, List.cons.injEq]

/-! ## Engines -/

inductive Engine where
  | ts
  | wasm

def read (json : JsonText Value) : Engine → Frame → Except Failure (DecodedPosting Value)
  | .ts => readTs json
  | .wasm => readWasm json

def decodeChunk (json : JsonText Value) : Engine → Bytes →
    Except Failure (List (DecodedPosting Value))
  | .ts => decodeTermPostings json
  | .wasm => decodePostingsBinary json

variable (json) in
theorem decodeChunk_reads (engine : Engine) {buffer : Bytes} (hlen : buffer.length < 2147483648) :
    ReadsChunk (read json engine) buffer (decodeChunk json engine buffer) := by
  cases engine with
  | ts => exact decodeTermPostings_reads buffer
  | wasm => exact decodePostingsBinary_reads hlen

theorem decodeChunk_chunk (engine : Engine) (hlen : (chunk records).length < 2147483648)
    (h : ∀ frame ∈ records, WellFlagged frame) :
    decodeChunk json engine (chunk records) = readAll (read json engine) records := by
  have hframes := frames_chunk (by omega) h
  rcases decodeChunk_reads json engine hlen with ⟨hnone, -⟩ | ⟨records', hrecords, hread⟩
  · rw [hframes] at hnone
    cases hnone
  · rw [hframes] at hrecords
    rw [hread, some.inj hrecords]

/-! ## The records of the encoders -/

section Encoders

variable [DecidableEq Value]

def frameOfTs (json : JsonText Value) (posting : TermPosting Value) : Frame :=
  ⟨encode posting.docId, ChunkSerializer.normaliseTermFrequency posting.termFrequency,
    (encodePostingMetadata json posting.metadata).1,
    (encodePostingMetadata json posting.metadata).2⟩

def frameOfWasm (json : JsonText Value) (posting : InputPosting Value) : Frame :=
  ⟨encode posting.docId, WasmPostings.normaliseTermFrequency posting.termFrequency.toNat,
    (encodeMetadata json posting.metadata).1, (encodeMetadata json posting.metadata).2⟩

theorem encodeTermPostings_eq_chunk (postings : List (TermPosting Value)) :
    (encodeTermPostings json postings).buffer = chunk (postings.map (frameOfTs json)) := by
  rw [encodeTermPostings, chunk, length_map, flatMap_map]
  rfl

theorem encodePostingsBinary_eq_chunk (postings : List (InputPosting Value)) :
    encodePostingsBinary json postings = chunk (postings.map (frameOfWasm json)) := by
  rw [encodePostingsBinary, chunk, length_map, flatMap_map]
  rfl

theorem plain_flags : (0 : UInt8) &&& flagHasExtraMetadata = 0 := by decide

theorem prefix_flags : flagIsPrefix &&& flagHasExtraMetadata = 0 := by decide

theorem extra_flags : (0 ||| flagHasExtraMetadata) &&& flagHasExtraMetadata ≠ 0 := by decide

theorem both_flags :
    (flagIsPrefix ||| flagHasExtraMetadata) &&& flagHasExtraMetadata ≠ 0 := by decide

variable (json) in
theorem prefixFlags_cases (metadata : Object Value) :
    metadata.lookup "isPrefix" = some json.truth ∧ prefixFlags json metadata = flagIsPrefix ∨
      metadata.lookup "isPrefix" ≠ some json.truth ∧ prefixFlags json metadata = 0 := by
  rw [prefixFlags]
  split_ifs with h
  · exact .inl ⟨h, rfl⟩
  · exact .inr ⟨h, rfl⟩

theorem wellFlagged_ts (posting : TermPosting Value) : WellFlagged (frameOfTs json posting) where
  frequency := by
    show ChunkSerializer.normaliseTermFrequency posting.termFrequency < _
    rw [ChunkSerializer.normaliseTermFrequency.eq_def]
    split
    · split_ifs
      · decide
      · omega
    · decide
  flags := by
    show (encodePostingMetadata json posting.metadata).1 &&& _ = 0 ↔
      (encodePostingMetadata json posting.metadata).2 = none
    cases posting.metadata with
    | none => exact iff_of_true plain_flags rfl
    | some metadata =>
      rw [encodePostingMetadata]
      rcases prefixFlags_cases json metadata with ⟨-, hflags⟩ | ⟨-, hflags⟩
      · rw [hflags]
        split_ifs
        · exact iff_of_false both_flags nofun
        · exact iff_of_true prefix_flags rfl
      · rw [hflags, if_pos (.inr rfl)]
        exact iff_of_false extra_flags nofun

theorem wellFlagged_wasm (posting : InputPosting Value) :
    WellFlagged (frameOfWasm json posting) where
  frequency := by
    have hlt := posting.termFrequency.toNat_lt
    show WasmPostings.normaliseTermFrequency posting.termFrequency.toNat < _
    rw [WasmPostings.normaliseTermFrequency]
    omega
  flags := by
    show (encodeMetadata json posting.metadata).1 &&& _ = 0 ↔
      (encodeMetadata json posting.metadata).2 = none
    cases posting.metadata with
    | none => exact iff_of_true plain_flags rfl
    | some metadata =>
      rw [encodeMetadata]
      rcases prefixFlags_cases json metadata with ⟨-, hflags⟩ | ⟨-, hflags⟩
      · rw [hflags]
        split_ifs
        · exact iff_of_true prefix_flags rfl
        · exact iff_of_false both_flags (by simp)
      · rw [hflags, if_neg (fun h => h.2 rfl)]
        exact iff_of_false extra_flags (by simp)

end Encoders

end SuperFunctions.SearchFn.PostingRoundTrip
