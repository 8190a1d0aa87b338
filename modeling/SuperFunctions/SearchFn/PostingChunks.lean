import SuperFunctions.SearchFn.PostingRoundTrip

/-!
# What comes back of a posting

Where the byte order mark, the `__proto__` member and the infinite frequency do not come in, and
the JSON text of the metadata is read back, a posting comes back from both engines.
-/
namespace SuperFunctions.SearchFn.PostingChunks

open Lib.Objects Lib.Utf8 ChunkSerializer WasmPostings PostingFrames PostingReaders PostingRoundTrip
open Option List String Finmap

variable {Value : Type} {json : JsonText Value}

/-! ## Document ids -/

def readText : Engine → Bytes → Except Failure String
  | .ts => fun bytes => .ok (textDecode bytes)
  | .wasm => parseDocId

def byteOrderMark : Char := Char.ofNat 0xFEFF

theorem encode_byteOrderMark : String.utf8EncodeChar byteOrderMark = [0xEF, 0xBB, 0xBF] := by
  decide

/-- The text decoder drops a byte order mark and nothing else. -/
theorem textDecode_encode (text : String) :
    textDecode (encode text) = text ↔ text.toList.head? ≠ some byteOrderMark := by
  rw [textDecode, encode]
  cases hchars : text.toList with
  | nil =>
    have htext : text = "" := toList_eq_nil_iff.mp hchars
    rw [htext]
    exact iff_of_true rfl nofun
  | cons c rest =>
    have htext : text = String.ofList (c :: rest) := by rw [← hchars, ofList_toList]
    rw [head?_cons]
    by_cases hc : c = byteOrderMark
    · have hbytes : encodeChars (c :: rest) = [0xEF, 0xBB, 0xBF] ++ encodeChars rest := by
        rw [hc, encodeChars, flatMap_cons, encode_byteOrderMark, encodeChars]
      have htake : (encodeChars (c :: rest)).take 3 = [0xEF, 0xBB, 0xBF] := by
        rw [hbytes]
        rfl
      have hdrop : (encodeChars (c :: rest)).drop 3 = encodeChars rest := by
        rw [hbytes]
        rfl
      rw [if_pos htake, hdrop, decodeLossy_encode, htext]
      refine iff_of_false ?_ fun h => h (by rw [hc])
      intro h
      have hlist := congrArg String.toList h
      rw [toList_ofList, toList_ofList] at hlist
      have hlen := congrArg List.length hlist
      rw [length_cons] at hlen
      omega
    · have htake : (encodeChars (c :: rest)).take 3 ≠ [0xEF, 0xBB, 0xBF] := by
        intro h
        have hsplit := take_append_drop 3 (encodeChars (c :: rest))
        have hfirst := decodeChar_append c (encodeChars rest)
        have hmark := decodeChar_append byteOrderMark ((encodeChars (c :: rest)).drop 3)
        rw [encode_byteOrderMark, ← h, hsplit, encodeChars, flatMap_cons, ← encodeChars,
          hfirst] at hmark
        exact hc (some.inj hmark)
      rw [if_neg htake, decodeLossy_encode, htext]
      exact iff_of_true rfl fun h => hc (some.inj h)

def DocIdKept (engine : Engine) (docId : String) : Prop :=
  engine = .ts → docId.toList.head? ≠ some byteOrderMark

theorem readText_encode (engine : Engine) (docId : String) :
    readText engine (encode docId) = .ok docId ↔ DocIdKept engine docId := by
  cases engine with
  | ts =>
    rw [readText, Except.ok.injEq, textDecode_encode]
    exact ⟨fun h _ => h, fun h => h rfl⟩
  | wasm =>
    rw [readText, parseDocId, encode, decode_encode]
    exact iff_of_true (congrArg Except.ok ofList_toList) fun h => by cases h

/-! ## Frequencies -/

def clamped : JsNumber → Nat
  | .finite value => (max 1 (min value.floor 0xffffffff)).toNat
  | .posInfinity => 0xffffffff
  | .negInfinity => 1
  | .nan => 1

theorem normaliseTermFrequency_eq (frequency : JsNumber) :
    max 1 (ChunkSerializer.normaliseTermFrequency frequency) = clamped frequency ↔
      frequency ≠ .posInfinity := by
  cases frequency with
  | nan | negInfinity => exact iff_of_true rfl nofun
  | posInfinity => exact iff_of_false (by decide) fun h => h rfl
  | finite value =>
    refine iff_of_true ?_ nofun
    rw [ChunkSerializer.normaliseTermFrequency, clamped]
    split_ifs with hpos
    · have hfloor : value.floor ≤ 0 := by
        have hle := Rat.floor_monotone hpos
        have hzero : (0 : Rat).floor = 0 := Rat.floor_intCast 0
        omega
      omega
    · omega

/-! ## Metadata -/

def readMembers (json : JsonText Value) : Engine → Bytes → Except Failure (Object Value)
  | .ts => fun bytes => parseMetadata json (textDecode bytes)
  | .wasm => parseObject json

/-- What the JSON libraries read has the members that were written. -/
structure JsonLaws (json : JsonText Value) : Prop where
  stringify : ∀ engine members members',
    readMembers json engine (encode (json.stringify members)) = .ok members' →
      ∀ key, key ∈ members' ↔ key ∈ members
  toVec : ∀ engine members members',
    readMembers json engine (json.toVec members) = .ok members' →
      ∀ key, key ∈ members' ↔ key ∈ members

/-- The metadata of a record, from its flags and its bytes. -/
def decodeMetadata (json : JsonText Value) (engine : Engine) (flags : UInt8) :
    Option Bytes → Except Failure (Option (Object Value))
  | none => .ok (flaggedMetadata json flags)
  | some bytes => (readMembers json engine bytes).map fun parsed =>
      some (Assoc.spread ((flaggedMetadata json flags).getD ∅) parsed)

theorem read_eq (engine : Engine) (frame : Frame) : read json engine frame =
    readFrame json (readText engine) (readMembers json engine) frame := by
  cases engine with
  | ts => rfl
  | wasm => rfl

theorem read_eq_ok (engine : Engine) (frame : Frame) (posting : DecodedPosting Value) :
    read json engine frame = .ok posting ↔
      readText engine frame.docId = .ok posting.docId ∧
        max 1 frame.termFrequency = posting.termFrequency ∧
        decodeMetadata json engine frame.flags frame.metadata = .ok posting.metadata := by
  obtain ⟨docId, termFrequency, flags, metadata⟩ := frame
  obtain ⟨docId', termFrequency', metadata'⟩ := posting
  rw [read_eq, readFrame]
  cases readText engine docId with
  | error failure => exact iff_of_false (by simp [Except.bind]) (by simp)
  | ok text =>
    cases metadata with
    | none =>
      simp only [Except.bind, decodeMetadata, Except.ok.injEq, DecodedPosting.mk.injEq]
    | some bytes =>
      cases hmembers : readMembers json engine bytes with
      | error failure =>
        simp only [Except.bind, decodeMetadata, Except.map, hmembers, reduceCtorEq, and_false]
      | ok parsed =>
        simp only [Except.bind, decodeMetadata, Except.map, hmembers, Except.ok.injEq,
          DecodedPosting.mk.injEq]

theorem lookup_prefixMetadata (key : String) : (prefixMetadata json).lookup key =
    if key = "isPrefix" then some json.truth else none := by
  rw [prefixMetadata, Assoc.lookup_insert_ite, lookup_empty]

theorem decodeMetadata_flag (engine : Engine) :
    decodeMetadata json engine flagIsPrefix none = .ok (some (prefixMetadata json)) := by
  have hmarked : flagIsPrefix &&& flagIsPrefix ≠ 0 := by decide
  rw [decodeMetadata, flaggedMetadata, if_pos hmarked]

theorem decodeMetadata_none (engine : Engine) : decodeMetadata json engine 0 none = .ok none := by
  rw [decodeMetadata, flaggedMetadata, if_neg (by decide)]

section Encoders

variable [DecidableEq Value]

/-- The members the flag stands for. -/
def flagged (json : JsonText Value) (metadata : Object Value) : Object Value :=
  if metadata.lookup "isPrefix" = some json.truth then prefixMetadata json else ∅

variable (json) in
theorem spread_flagged (metadata : Object Value) :
    Assoc.spread (flagged json metadata) (WasmPostings.extraMetadata json metadata) =
      metadata := by
  rw [flagged, WasmPostings.extraMetadata]
  split_ifs with hmarked
  · refine ext_lookup fun key => ?_
    rw [Assoc.lookup_spread, Assoc.lookup_erase_ite, lookup_prefixMetadata]
    split_ifs with hkey
    · rw [hkey, hmarked]
      rfl
    · exact or_none
  · exact Assoc.empty_spread metadata

variable {metadata : Object Value}

theorem spread_eq_iff {parsed : Object Value}
    (hnames : ∀ key, key ∈ parsed ↔ key ∈ WasmPostings.extraMetadata json metadata) :
    Assoc.spread (flagged json metadata) parsed = metadata ↔
      parsed = WasmPostings.extraMetadata json metadata := by
  constructor
  · intro h
    refine ext_lookup fun key => ?_
    have hlookup := congrArg (Finmap.lookup key) h
    have hboth := congrArg (Finmap.lookup key) (spread_flagged json metadata)
    rw [← hlookup, Assoc.lookup_spread, Assoc.lookup_spread] at hboth
    have hkey := hnames key
    rw [mem_iff, mem_iff] at hkey
    cases hparsed : parsed.lookup key with
    | none =>
      cases hextra : (WasmPostings.extraMetadata json metadata).lookup key with
      | none => rfl
      | some value =>
        obtain ⟨value', hvalue'⟩ := hkey.mpr ⟨value, hextra⟩
        rw [hparsed] at hvalue'
        cases hvalue'
    | some value =>
      obtain ⟨value', hvalue'⟩ := hkey.mp ⟨value, hparsed⟩
      rw [hparsed, hvalue'] at hboth
      rw [hvalue']
      exact hboth.symm
  · intro h
    rw [h, spread_flagged]

theorem eq_prefixMetadata_iff (metadata : Object Value) : metadata = prefixMetadata json ↔
    WasmPostings.extraMetadata json metadata = ∅ ∧
      metadata.lookup "isPrefix" = some json.truth := by
  constructor
  · intro h
    have hmarked : metadata.lookup "isPrefix" = some json.truth := by
      rw [h, lookup_prefixMetadata, if_pos rfl]
    refine ⟨?_, hmarked⟩
    refine ext_lookup fun key => ?_
    rw [WasmPostings.extraMetadata, if_pos hmarked, Assoc.lookup_erase_ite, h,
      lookup_prefixMetadata, lookup_empty]
    split_ifs
    · rfl
    · rfl
  · intro ⟨hextra, hmarked⟩
    have hboth := spread_flagged json metadata
    rw [hextra, flagged, if_pos hmarked] at hboth
    exact hboth.symm

theorem flaggedMetadata_extra (metadata : Object Value) :
    (flaggedMetadata json (prefixFlags json metadata ||| flagHasExtraMetadata)).getD ∅ =
      flagged json metadata := by
  have hboth : (flagIsPrefix ||| flagHasExtraMetadata) &&& flagIsPrefix ≠ 0 := by decide
  have hextra : ¬ (0 ||| flagHasExtraMetadata) &&& flagIsPrefix ≠ 0 := by decide
  rw [flagged, flaggedMetadata]
  rcases prefixFlags_cases json metadata with ⟨hmarked, hflags⟩ | ⟨hmarked, hflags⟩
  · rw [hflags, if_pos hboth, if_pos hmarked]
    rfl
  · rw [hflags, if_neg hextra, if_neg hmarked]
    rfl

theorem decodeMetadata_text {engine : Engine} {bytes : Bytes}
    (hnames : ∀ parsed, readMembers json engine bytes = .ok parsed →
      ∀ key, key ∈ parsed ↔ key ∈ WasmPostings.extraMetadata json metadata) :
    decodeMetadata json engine (prefixFlags json metadata ||| flagHasExtraMetadata) (some bytes) =
        .ok (some metadata) ↔
      readMembers json engine bytes = .ok (WasmPostings.extraMetadata json metadata) := by
  rw [decodeMetadata]
  cases hmembers : readMembers json engine bytes with
  | error failure => exact iff_of_false nofun nofun
  | ok parsed =>
    simp only [Except.map, Except.ok.injEq, some.injEq, flaggedMetadata_extra]
    exact spread_eq_iff (hnames parsed hmembers)

/-- The flag alone stands for `{ isPrefix: true }`; other metadata has to come back as a text. -/
def MetadataKept (json : JsonText Value) (engine : Engine) (write : Object Value → Bytes)
    (metadata : Object Value) : Prop :=
  metadata ≠ prefixMetadata json →
    readMembers json engine (write (WasmPostings.extraMetadata json metadata)) =
      .ok (WasmPostings.extraMetadata json metadata)

/-- What both encoders write for metadata, with the library that writes the texts. -/
def metadataOutput (json : JsonText Value) (write : Object Value → Bytes)
    (metadata : Object Value) : UInt8 × Option Bytes :=
  if metadata = prefixMetadata json then (flagIsPrefix, none)
  else (prefixFlags json metadata ||| flagHasExtraMetadata,
    some (write (WasmPostings.extraMetadata json metadata)))

theorem metadataOutput_kept {engine : Engine} {write : Object Value → Bytes}
    (hnames : ∀ parsed, readMembers json engine
        (write (WasmPostings.extraMetadata json metadata)) = .ok parsed →
      ∀ key, key ∈ parsed ↔ key ∈ WasmPostings.extraMetadata json metadata) :
    decodeMetadata json engine (metadataOutput json write metadata).1
        (metadataOutput json write metadata).2 = .ok (some metadata) ↔
      MetadataKept json engine write metadata := by
  rw [metadataOutput, MetadataKept]
  split_ifs with hplain
  · refine iff_of_true ?_ fun h => absurd hplain h
    rw [decodeMetadata_flag, ← hplain]
  · rw [decodeMetadata_text hnames]
    exact ⟨fun h _ => h, fun h => h hplain⟩

theorem flag_alone_iff (metadata : Object Value) :
    WasmPostings.extraMetadata json metadata = ∅ ∧ prefixFlags json metadata ≠ 0 ↔
      metadata = prefixMetadata json := by
  rw [eq_prefixMetadata_iff]
  have hne : flagIsPrefix ≠ 0 := by decide
  rcases prefixFlags_cases json metadata with ⟨hmarked, hflags⟩ | ⟨hmarked, hflags⟩
  · rw [hflags]
    exact ⟨fun h => ⟨h.1, hmarked⟩, fun h => ⟨h.1, hne⟩⟩
  · rw [hflags]
    exact iff_of_false (fun h => h.2 rfl) fun h => hmarked h.2

theorem encodeMetadata_eq (metadata : Object Value) :
    encodeMetadata json (some metadata) = metadataOutput json json.toVec metadata := by
  rw [encodeMetadata, metadataOutput]
  by_cases hplain : metadata = prefixMetadata json
  · have hmarked := ((eq_prefixMetadata_iff metadata).mp hplain).2
    have hflags : prefixFlags json metadata = flagIsPrefix := if_pos hmarked
    rw [if_pos ((flag_alone_iff metadata).mpr hplain), if_pos hplain, hflags]
  · rw [if_neg (mt (flag_alone_iff metadata).mp hplain), if_neg hplain]

theorem extraMetadata_of_safe (h : "__proto__" ∉ metadata) :
    ChunkSerializer.extraMetadata json metadata = WasmPostings.extraMetadata json metadata := by
  have hrest : "__proto__" ∉ WasmPostings.extraMetadata json metadata := by
    rw [WasmPostings.extraMetadata]
    split_ifs
    · exact fun hmem => h (mem_erase.mp hmem).2
    · exact h
  show (WasmPostings.extraMetadata json metadata).erase "__proto__" = _
  refine ext_lookup fun key => ?_
  rw [Assoc.lookup_erase_ite]
  split_ifs with hkey
  · rw [hkey, lookup_eq_none.mpr hrest]
  · rfl

theorem encodePostingMetadata_eq (h : "__proto__" ∉ metadata) :
    encodePostingMetadata json (some metadata) =
      metadataOutput json (fun members => encode (json.stringify members)) metadata := by
  rw [encodePostingMetadata, metadataOutput]
  simp only [extraMetadata_of_safe h]
  by_cases hplain : metadata = prefixMetadata json
  · obtain ⟨hextra, hflag⟩ := (flag_alone_iff metadata).mpr hplain
    have hmarked := ((eq_prefixMetadata_iff metadata).mp hplain).2
    have hflags : prefixFlags json metadata = flagIsPrefix := if_pos hmarked
    rw [if_neg (by tauto), if_pos hplain, hflags]
  · have hnot := mt (flag_alone_iff metadata).mp hplain
    rw [if_pos (by tauto), if_neg hplain]

/-- An assignment to `__proto__` is lost, and nothing brings the member back. -/
theorem encodePostingMetadata_proto (laws : JsonLaws json) (engine : Engine)
    (h : "__proto__" ∈ metadata) :
    decodeMetadata json engine (encodePostingMetadata json (some metadata)).1
      (encodePostingMetadata json (some metadata)).2 ≠ .ok (some metadata) := by
  have hne : ¬ "__proto__" = "isPrefix" := by decide
  obtain ⟨value, hvalue⟩ := mem_iff.mp h
  intro hkept
  rw [encodePostingMetadata] at hkept
  split_ifs at hkept with htext
  · rw [decodeMetadata] at hkept
    cases hmembers : readMembers json engine
        (encode (json.stringify (ChunkSerializer.extraMetadata json metadata))) with
    | error failure =>
      rw [hmembers] at hkept
      cases hkept
    | ok parsed =>
      rw [hmembers] at hkept
      simp only [Except.map, Except.ok.injEq, some.injEq, flaggedMetadata_extra] at hkept
      have hlost : "__proto__" ∉ parsed := by
        rw [laws.stringify engine _ _ hmembers]
        exact notMem_erase_self
      rw [← hkept, Assoc.lookup_spread, lookup_eq_none.mpr hlost, none_or,
        flagged] at hvalue
      split_ifs at hvalue
      · rw [lookup_prefixMetadata, if_neg hne] at hvalue
        cases hvalue
      · cases hvalue
  · have hflags : prefixFlags json metadata = flagIsPrefix := by
      rcases prefixFlags_cases json metadata with ⟨-, hflags⟩ | ⟨-, hflags⟩
      · exact hflags
      · exact absurd (.inr hflags) htext
    rw [hflags, decodeMetadata_flag, Except.ok.injEq, some.injEq] at hkept
    rw [← hkept, lookup_prefixMetadata, if_neg hne] at hvalue
    cases hvalue

/-! ## One posting -/

def expectedTs (posting : TermPosting Value) : DecodedPosting Value :=
  ⟨posting.docId, clamped posting.termFrequency, posting.metadata⟩

def expectedWasm (posting : InputPosting Value) : DecodedPosting Value :=
  ⟨posting.docId, max 1 posting.termFrequency.toNat, posting.metadata⟩

structure KeptTs (json : JsonText Value) (engine : Engine) (posting : TermPosting Value) :
    Prop where
  docId : DocIdKept engine posting.docId
  frequency : posting.termFrequency ≠ .posInfinity
  safe : ∀ metadata, posting.metadata = some metadata → "__proto__" ∉ metadata
  metadata : ∀ metadata, posting.metadata = some metadata →
    MetadataKept json engine (fun members => encode (json.stringify members)) metadata

structure KeptWasm (json : JsonText Value) (engine : Engine) (posting : InputPosting Value) :
    Prop where
  docId : DocIdKept engine posting.docId
  metadata : ∀ metadata, posting.metadata = some metadata →
    MetadataKept json engine json.toVec metadata

theorem read_frameOfTs (laws : JsonLaws json) (engine : Engine) (posting : TermPosting Value) :
    read json engine (frameOfTs json posting) = .ok (expectedTs posting) ↔
      KeptTs json engine posting := by
  obtain ⟨docId, termFrequency, metadata⟩ := posting
  have hmetadata : decodeMetadata json engine (encodePostingMetadata json metadata).1
      (encodePostingMetadata json metadata).2 = .ok metadata ↔
        (∀ m, metadata = some m → "__proto__" ∉ m) ∧ ∀ m, metadata = some m →
          MetadataKept json engine (fun members => encode (json.stringify members)) m := by
    cases metadata with
    | none => exact iff_of_true (decodeMetadata_none engine) ⟨(by simp), (by simp)⟩
    | some m =>
      simp only [some.injEq, forall_eq']
      by_cases hsafe : "__proto__" ∈ m
      · exact iff_of_false (encodePostingMetadata_proto laws engine hsafe) fun h => h.1 hsafe
      · rw [encodePostingMetadata_eq hsafe,
          metadataOutput_kept fun parsed h => laws.stringify engine _ _ h]
        exact ⟨fun h => ⟨hsafe, h⟩, fun h => h.2⟩
  rw [read_eq_ok]
  show readText engine (encode docId) = .ok docId ∧
    max 1 (ChunkSerializer.normaliseTermFrequency termFrequency) = clamped termFrequency ∧
      decodeMetadata json engine (encodePostingMetadata json metadata).1
        (encodePostingMetadata json metadata).2 = .ok metadata ↔ _
  rw [readText_encode, normaliseTermFrequency_eq, hmetadata]
  exact ⟨fun h => ⟨h.1, h.2.1, h.2.2.1, h.2.2.2⟩, fun h => ⟨h.1, h.2, h.3, h.4⟩⟩

theorem read_frameOfWasm (laws : JsonLaws json) (engine : Engine) (posting : InputPosting Value) :
    read json engine (frameOfWasm json posting) = .ok (expectedWasm posting) ↔
      KeptWasm json engine posting := by
  obtain ⟨docId, termFrequency, metadata⟩ := posting
  have hfrequency : max 1 (WasmPostings.normaliseTermFrequency termFrequency.toNat) =
      max 1 termFrequency.toNat := by
    rw [WasmPostings.normaliseTermFrequency]
    omega
  have hmetadata : decodeMetadata json engine (encodeMetadata json metadata).1
      (encodeMetadata json metadata).2 = .ok metadata ↔
        ∀ m, metadata = some m → MetadataKept json engine json.toVec m := by
    cases metadata with
    | none => exact iff_of_true (decodeMetadata_none engine) (by simp)
    | some m =>
      simp only [some.injEq, forall_eq']
      rw [encodeMetadata_eq, metadataOutput_kept fun parsed h => laws.toVec engine _ _ h]
  rw [read_eq_ok]
  show readText engine (encode docId) = .ok docId ∧
    max 1 (WasmPostings.normaliseTermFrequency termFrequency.toNat) = max 1 termFrequency.toNat ∧
      decodeMetadata json engine (encodeMetadata json metadata).1
        (encodeMetadata json metadata).2 = .ok metadata ↔ _
  rw [readText_encode, hfrequency, hmetadata]
  exact ⟨fun h => ⟨h.1, h.2.2⟩, fun h => ⟨h.1, rfl, h.2⟩⟩

/-! ## Lists of postings -/

theorem decodeChunk_encodeTermPostings (laws : JsonLaws json) (engine : Engine)
    {postings : List (TermPosting Value)}
    (hlen : (encodeTermPostings json postings).buffer.length < 2147483648) :
    decodeChunk json engine (encodeTermPostings json postings).buffer =
        .ok (postings.map expectedTs) ↔ ∀ posting ∈ postings, KeptTs json engine posting := by
  rw [encodeTermPostings_eq_chunk] at hlen ⊢
  have hflagged : ∀ frame ∈ postings.map (frameOfTs json), WellFlagged frame :=
    forall_mem_map.mpr fun posting _ => wellFlagged_ts posting
  rw [decodeChunk_chunk engine hlen hflagged, readAll_eq_ok]
  exact forall₂_congr fun posting _ => read_frameOfTs laws engine posting

theorem decodeChunk_encodePostingsBinary (laws : JsonLaws json) (engine : Engine)
    {postings : List (InputPosting Value)}
    (hlen : (encodePostingsBinary json postings).length < 2147483648) :
    decodeChunk json engine (encodePostingsBinary json postings) =
        .ok (postings.map expectedWasm) ↔ ∀ posting ∈ postings, KeptWasm json engine posting := by
  rw [encodePostingsBinary_eq_chunk] at hlen ⊢
  have hflagged : ∀ frame ∈ postings.map (frameOfWasm json), WellFlagged frame :=
    forall_mem_map.mpr fun posting _ => wellFlagged_wasm posting
  rw [decodeChunk_chunk engine hlen hflagged, readAll_eq_ok]
  exact forall₂_congr fun posting _ => read_frameOfWasm laws engine posting

end Encoders

end SuperFunctions.SearchFn.PostingChunks
