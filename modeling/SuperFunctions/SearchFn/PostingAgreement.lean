import SuperFunctions.SearchFn.PostingChunks

/-!
# Document ids come back

A varint of 32 bits is read back, and so are the sorted ids whose gaps fit one. What does not fit is
left to JSON, in the order it came.
-/
namespace SuperFunctions.SearchFn.PostingVarints

open Lib.Utf8 ChunkSerializer Option List

/-! ## Varints -/

theorem or_shiftLeft {result shift payload : Nat} (h : result < 2 ^ shift) :
    result ||| payload <<< shift = result + payload * 2 ^ shift := by
  rw [Nat.or_comm, ← Nat.shiftLeft_add_eq_or_of_lt h, Nat.shiftLeft_eq, Nat.add_comm]

/-- The loop is at a multiple of seven and what is left of the number fits the 32 bits. -/
theorem decodeVarintLoop_varintBytes (value : Nat) {result shift : Nat} (hshift : 7 ∣ shift)
    (hresult : result < 2 ^ shift) (hvalue : value * 2 ^ shift < 2 ^ 32) (h28 : shift ≤ 28)
    (rest : Bytes) : decodeVarintLoop result shift (varintBytes value ++ rest) =
      .ok (result + value * 2 ^ shift, rest) := by
  induction value using Nat.strongRecOn generalizing result shift with
  | ind value ih =>
    have hsmall : shift = 28 → value < 16 := by
      intro h
      rw [h] at hvalue
      omega
    rw [varintBytes]
    split_ifs with hlast
    · have hbyte : (UInt8.ofNat value).toNat = value := by
        rw [UInt8.toNat_ofNat']
        omega
      have hmod : value % 128 = value := Nat.mod_eq_of_lt hlast
      rw [List.singleton_append, decodeVarintLoop]
      simp only [hbyte, hmod]
      rw [if_neg (by omega), if_pos hlast, or_shiftLeft hresult]
    · have hbyte : (UInt8.ofNat (value % 128 + 128)).toNat = value % 128 + 128 := by
        rw [UInt8.toNat_ofNat']
        omega
      have hmod : (value % 128 + 128) % 128 = value % 128 := by omega
      have hnext : shift + 7 ≤ 28 := by omega
      have hpow : 2 ^ (shift + 7) = 128 * 2 ^ shift := by
        rw [Nat.pow_add, Nat.mul_comm]
      have hsplit : value * 2 ^ shift =
          value % 128 * 2 ^ shift + value / 128 * (128 * 2 ^ shift) := by
        rw [← Nat.mul_assoc, ← Nat.add_mul, Nat.mul_comm (value / 128), Nat.mod_add_div]
      have hresult' : result + value % 128 * 2 ^ shift < 2 ^ (shift + 7) := by
        have hle : value % 128 * 2 ^ shift ≤ 127 * 2 ^ shift :=
          Nat.mul_le_mul_right _ (by omega)
        omega
      rw [List.cons_append, decodeVarintLoop]
      simp only [hbyte, hmod]
      rw [if_neg (by omega), if_neg (by omega), if_neg (by omega), or_shiftLeft hresult,
        ih (value / 128) (by omega) (Nat.dvd_add hshift (Nat.dvd_refl 7)) hresult'
          (by rw [hpow]; omega) hnext, hpow, hsplit, Nat.add_assoc]

theorem decodeVarint_varintBytes {value : Nat} (h : value ≤ 0xffffffff) (rest : Bytes) :
    decodeVarint (varintBytes value ++ rest) = .ok (value, rest) := by
  rw [decodeVarint, decodeVarintLoop_varintBytes value (Nat.dvd_zero 7) (by decide) (by omega)
    (by decide)]
  simp

theorem varintBytes_ne_nil (value : Nat) : varintBytes value ≠ [] := by
  rw [varintBytes]
  split_ifs
  · nofun
  · nofun

/-! ## Deltas -/

/-- Every id is within 32 bits of the one before it. -/
def GapsFit (previous : Nat) : List Nat → Prop
  | [] => True
  | current :: rest => current - previous ≤ 0xffffffff ∧ GapsFit current rest

variable {numbers : List Nat}

theorem encodeDeltas_isSome {previous : Nat} :
    (encodeDeltas previous numbers).isSome ↔ GapsFit previous numbers := by
  induction numbers generalizing previous with
  | nil => exact iff_of_true rfl trivial
  | cons current rest ih =>
    rw [encodeDeltas, encodeVarint, GapsFit, ← ih]
    split_ifs with hgap
    · exact iff_of_false nofun fun h => by omega
    · rw [bind_some, isSome_map]
      exact ⟨fun h => ⟨by omega, h⟩, fun h => h.2⟩

theorem decodeDeltas_encodeDeltas {previous fuel : Nat} {output : Bytes}
    (hsorted : (previous :: numbers).Pairwise (· ≤ ·))
    (h : encodeDeltas previous numbers = some output) (hfuel : output.length ≤ fuel) :
    decodeDeltas previous fuel output = .ok (numbers.map fun n => .number ((n : Nat) : Int)) := by
  induction numbers generalizing previous fuel output with
  | nil =>
    have houtput : output = [] := (some.inj h).symm
    rw [houtput, decodeDeltas, map_nil]
  | cons current rest ih =>
    rw [encodeDeltas, encodeVarint] at h
    split_ifs at h with hgap
    · cases h
    obtain ⟨tail, htail, rfl⟩ := map_eq_some_iff.mp h
    obtain ⟨hhead, hrest⟩ := pairwise_cons.mp hsorted
    have hle : previous ≤ current := hhead current mem_cons_self
    obtain ⟨byte, bytes, hbytes⟩ :=
      exists_cons_of_ne_nil (varintBytes_ne_nil (current - previous))
    have hdecoded := decodeVarint_varintBytes (by omega : current - previous ≤ 0xffffffff) tail
    rw [length_append, hbytes, length_cons] at hfuel
    obtain ⟨fuel, rfl⟩ : ∃ n, fuel = n + 1 := ⟨fuel - 1, by omega⟩
    have htail' := ih hrest htail (by omega : tail.length ≤ fuel)
    have hcurrent : previous + (current - previous) = current := by omega
    rw [hbytes, cons_append] at hdecoded ⊢
    rw [decodeDeltas, hdecoded]
    · simp only [Except.bind, hcurrent, htail']
      rfl
    · nofun

/-! ## Lists of ids -/

theorem canDeltaEncode_map (numbers : List Nat) :
    canDeltaEncode (numbers.map fun n => .number ((n : Nat) : Int)) = some numbers := by
  induction numbers with
  | nil => rfl
  | cons n rest ih =>
    have hnonneg : (0 : Rat) ≤ ((n : Int) : Rat) := by exact_mod_cast Nat.zero_le n
    rw [map_cons, canDeltaEncode, if_pos ⟨rfl, hnonneg⟩, ih]
    rfl

theorem eq_map_of_canDeltaEncode {ids : List DocId} (h : canDeltaEncode ids = some numbers) :
    ids = numbers.map fun n => .number ((n : Nat) : Int) := by
  induction ids generalizing numbers with
  | nil =>
    rw [← some.inj h]
    rfl
  | cons id rest ih =>
    cases id with
    | text s => cases h
    | number value =>
      rw [canDeltaEncode] at h
      split_ifs at h with hvalue
      obtain ⟨tail, htail, rfl⟩ := map_eq_some_iff.mp h
      have hnum : 0 ≤ value.num := Rat.num_nonneg.mpr hvalue.2
      have hint : ((value.num.toNat : Nat) : Int) = value.num := Int.toNat_of_nonneg hnum
      have hvalue' : (((value.num.toNat : Nat) : Int) : Rat) = value := by
        rw [hint]
        exact Rat.ext rfl hvalue.1.symm
      rw [map_cons, hvalue', ← ih htail]

end SuperFunctions.SearchFn.PostingVarints

/-!
# Posting chunks decode to what was encoded

Postings come back from both engines, ids from the serializer, and on any bytes the two decoders
give one result, each under the exact condition it does.
-/
namespace SuperFunctions.SearchFn.PostingAgreement

open Lib.Objects Lib.Utf8 ChunkSerializer WasmPostings PostingFrames PostingReaders
open PostingRoundTrip PostingVarints PostingChunks List Option

variable {Value : Type} {json : JsonText Value}

/-! ## Document ids -/

def Integers (ids : List DocId) : Prop := ∀ id ∈ ids, ∃ n : Int, id = .number n

def Ascending (ids : List DocId) : Prop :=
  ids.Pairwise fun a b => ∀ x y, a = .number x → b = .number y → x ≤ y

/-- The ids come back, integers in ascending order. -/
def IdsKept (json : JsonText Value) (ids : List DocId) : Prop :=
  ∃ ids', decodePostings json (encodePostings json ids).buffer (encodePostings json ids).encoding =
      .ok (.ids ids') ∧ ids'.Perm ids ∧ (Integers ids → Ascending ids')

/-- Integers from zero on whose gaps, sorted, fit 32 bits. -/
def GapsOfIdsFit (ids : List DocId) : Prop :=
  ∃ numbers : List Nat, ids = numbers.map (fun n => .number ((n : Nat) : Int)) ∧
    GapsFit 0 (numbers.mergeSort (· ≤ ·))

/-- The JSON text of the ids starts with a bracket and is read back. -/
structure IdsText (json : JsonText Value) (ids : List DocId) : Prop where
  bracket : (json.stringifyIds ids).toList.head? = some '['
  parsed : json.parse (json.stringifyIds ids) = some (.array ids)

variable {numbers : List Nat}

theorem ascending_numbers (h : numbers.Pairwise (· ≤ ·)) :
    Ascending (numbers.map fun n => .number ((n : Nat) : Int)) := by
  rw [Ascending, pairwise_map]
  refine h.imp ?_
  intro a b hab x y hx hy
  rw [← DocId.number.inj hx, ← DocId.number.inj hy]
  exact_mod_cast hab

theorem decodePostings_json {ids : List DocId} (htext : IdsText json ids) :
    decodePostings json (encode (json.stringifyIds ids)) .json = .ok (.ids ids) := by
  have hmark : (json.stringifyIds ids).toList.head? ≠ some byteOrderMark := by
    rw [htext.bracket]
    decide
  have hne : encode (json.stringifyIds ids) ≠ [] := by
    intro h
    have hchars := decode_encode (json.stringifyIds ids).toList
    have hbracket := htext.bracket
    rw [← encode, h] at hchars
    rw [← some.inj hchars] at hbracket
    cases hbracket
  rw [decodePostings]
  simp only [if_neg hne, (textDecode_encode _).mpr hmark, htext.parsed]

theorem sort_perm_map (numbers : List Nat) :
    ((numbers.mergeSort (· ≤ ·)).map fun n => DocId.number ((n : Nat) : Int)).Perm
      (numbers.map fun n => .number ((n : Nat) : Int)) :=
  (mergeSort_perm numbers _).map _

theorem sort_pairwise (numbers : List Nat) : (numbers.mergeSort (· ≤ ·)).Pairwise (· ≤ ·) := by
  have hsorted : (numbers.mergeSort (· ≤ ·)).Pairwise fun a b => decide (a ≤ b) = true := by
    apply pairwise_mergeSort
    · intro a b c hab hbc
      simp only [decide_eq_true_eq] at hab hbc ⊢
      omega
    · intro a b
      simp only [Bool.or_eq_true, decide_eq_true_eq]
      omega
  exact hsorted.imp of_decide_eq_true

theorem idsKept_json {ids : List DocId} (htext : IdsText json ids)
    (h : encodePostings json ids = ⟨encode (json.stringifyIds ids), .json⟩) :
    IdsKept json ids ↔ (Integers ids → Ascending ids) := by
  rw [IdsKept, h]
  simp only [decodePostings_json htext, Except.ok.injEq, DecodedPostings.ids.injEq]
  constructor
  · intro ⟨ids', heq, _, hascending⟩
    rwa [← heq] at hascending
  · intro hascending
    exact ⟨ids, rfl, List.Perm.refl ids, hascending⟩

theorem idsKept_deltas {ids : List DocId} {output : Bytes}
    (hids : ids = numbers.map fun n => .number ((n : Nat) : Int))
    (hdeltas : encodeDeltas 0 (numbers.mergeSort (· ≤ ·)) = some output)
    (h : encodePostings json ids = ⟨output, .deltaVarint⟩) : IdsKept json ids := by
  have hsorted : (0 :: numbers.mergeSort (· ≤ ·)).Pairwise (· ≤ ·) :=
    pairwise_cons.mpr ⟨fun _ _ => Nat.zero_le _, sort_pairwise numbers⟩
  have hdecoded := decodeDeltas_encodeDeltas hsorted hdeltas le_rfl
  refine ⟨_, ?_, ?_, fun _ => ascending_numbers (sort_pairwise numbers)⟩
  · rw [h]
    show (decodeDeltas 0 output.length output).map DecodedPostings.ids = _
    rw [hdecoded]
    rfl
  · rw [hids]
    exact sort_perm_map numbers

theorem gapsOfIdsFit_iff {ids : List DocId} (hcan : canDeltaEncode ids = some numbers) :
    GapsOfIdsFit ids ↔ (encodeDeltas 0 (numbers.mergeSort (· ≤ ·))).isSome := by
  rw [encodeDeltas_isSome]
  constructor
  · intro ⟨numbers', hids, hfit⟩
    rw [hids, canDeltaEncode_map] at hcan
    rwa [← some.inj hcan]
  · intro hfit
    exact ⟨numbers, eq_map_of_canDeltaEncode hcan, hfit⟩

theorem encodePostings_eq (json : JsonText Value) {ids : List DocId} (hids : ids ≠ []) :
    encodePostings json ids = match canDeltaEncode ids with
      | none => ⟨encode (json.stringifyIds ids), .json⟩
      | some numbers => match encodeDeltas 0 (numbers.mergeSort (· ≤ ·)) with
        | some output => ⟨output, .deltaVarint⟩
        | none => ⟨encode (json.stringifyIds ids), .json⟩ := if_neg hids

theorem idsKept_iff {ids : List DocId} (htext : IdsText json ids) :
    IdsKept json ids ↔ ¬ Integers ids ∨ GapsOfIdsFit ids ∨ Ascending ids := by
  by_cases hnil : ids = []
  · rw [hnil]
    refine iff_of_true ⟨[], rfl, List.Perm.refl [], fun _ => List.Pairwise.nil⟩ ?_
    exact .inr (.inr List.Pairwise.nil)
  have hencode := encodePostings_eq json hnil
  cases hcan : canDeltaEncode ids with
  | none =>
    rw [hcan] at hencode
    have hnot : ¬ GapsOfIdsFit ids := by
      rintro ⟨numbers, hids, _⟩
      rw [hids, canDeltaEncode_map] at hcan
      cases hcan
    rw [idsKept_json htext hencode]
    tauto
  | some numbers =>
    have hfit := gapsOfIdsFit_iff hcan
    rw [hcan] at hencode
    cases hdeltas : encodeDeltas 0 (numbers.mergeSort (· ≤ ·)) with
    | some output =>
      simp only [hdeltas] at hencode
      rw [hdeltas] at hfit
      exact iff_of_true (idsKept_deltas (eq_map_of_canDeltaEncode hcan) hdeltas hencode)
        (.inr (.inl (hfit.mpr rfl)))
    | none =>
      simp only [hdeltas] at hencode
      rw [hdeltas] at hfit
      rw [idsKept_json htext hencode]
      tauto

/-! ## Any bytes -/

/-- Both decoders refuse, or both return the same postings. -/
def Alike (a b : Except Failure (List (DecodedPosting Value))) : Prop :=
  (∃ failure, a = .error failure) ∧ (∃ failure, b = .error failure) ∨
    ∃ postings, a = .ok postings ∧ b = .ok postings

/-- The id is UTF-8. -/
def IsText (bytes : Bytes) : Prop := ∃ text : String, bytes = encode text

def MetadataRefused (json : JsonText Value) (engine : Engine) (frame : Frame) : Prop :=
  ∃ bytes failure, frame.metadata = some bytes ∧ readMembers json engine bytes = .error failure

def RefusedBy (json : JsonText Value) (engine : Engine) (frame : Frame) : Prop :=
  engine = .wasm ∧ ¬ IsText frame.docId ∨ MetadataRefused json engine frame

/-- The id is a text without a byte order mark and both JSON libraries read the same members. -/
structure SameRead (json : JsonText Value) (frame : Frame) : Prop where
  docId : ∃ text : String, frame.docId = encode text ∧ text.toList.head? ≠ some byteOrderMark
  metadata : ∀ bytes, frame.metadata = some bytes → ∃ members members',
    readMembers json .ts bytes = .ok members ∧ readMembers json .wasm bytes = .ok members' ∧
      Assoc.spread ((flaggedMetadata json frame.flags).getD ∅) members =
        Assoc.spread ((flaggedMetadata json frame.flags).getD ∅) members'

/-- Each engine refuses a record, or both read all of them alike. -/
def SameRecords (json : JsonText Value) (records : List Frame) : Prop :=
  (∃ frame ∈ records, RefusedBy json .ts frame) ∧ (∃ frame ∈ records, RefusedBy json .wasm frame) ∨
    ∀ frame ∈ records, SameRead json frame

theorem parseDocId_eq_ok {bytes : Bytes} {text : String} :
    parseDocId bytes = .ok text ↔ bytes = encode text := by
  rw [parseDocId]
  constructor
  · intro h
    split at h
    · cases h
    · next chars hchars =>
      rw [← Except.ok.inj h, encode, String.toList_ofList]
      exact encode_of_decode hchars
  · intro h
    rw [h, encode, decode_encode]
    exact congrArg Except.ok String.ofList_toList

theorem read_error_iff (engine : Engine) (frame : Frame) :
    (∃ failure, read json engine frame = .error failure) ↔ RefusedBy json engine frame := by
  obtain ⟨docId, termFrequency, flags, metadata⟩ := frame
  have hmetadata : ∀ text, readText engine docId = .ok text →
      ((∃ failure, read json engine ⟨docId, termFrequency, flags, metadata⟩ = .error failure) ↔
        MetadataRefused json engine ⟨docId, termFrequency, flags, metadata⟩) := by
    intro text htext
    rw [read_eq, readFrame, htext, MetadataRefused]
    cases metadata with
    | none => exact iff_of_false (by simp [Except.bind]) (by simp)
    | some bytes =>
      simp only [Except.bind, some.injEq, exists_and_left, exists_eq_left']
      cases readMembers json engine bytes with
      | error failure => exact iff_of_true ⟨failure, rfl⟩ ⟨failure, rfl⟩
      | ok members => exact iff_of_false (by simp [Except.map]) (by simp)
  cases engine with
  | ts =>
    rw [hmetadata _ rfl, RefusedBy]
    exact ⟨.inr, fun h => h.resolve_left (by simp)⟩
  | wasm =>
    by_cases htext : IsText docId
    · obtain ⟨text, hdocId⟩ := htext
      rw [hmetadata text (parseDocId_eq_ok.mpr hdocId)]
      exact ⟨.inr, fun h => h.resolve_left fun h => h.2 ⟨text, hdocId⟩⟩
    · refine iff_of_true ?_ (.inl ⟨rfl, htext⟩)
      rw [read_eq, readFrame]
      cases hparse : readText .wasm docId with
      | error failure => exact ⟨failure, rfl⟩
      | ok text => exact absurd ⟨text, parseDocId_eq_ok.mp hparse⟩ htext

theorem sameRead_iff (frame : Frame) :
    (∃ posting, read json .ts frame = .ok posting ∧ read json .wasm frame = .ok posting) ↔
      SameRead json frame := by
  obtain ⟨docId, termFrequency, flags, metadata⟩ := frame
  simp only [read_eq_ok]
  constructor
  · rintro ⟨posting, ⟨hdocTs, _, hmetadataTs⟩, hdocWasm, _, hmetadataWasm⟩
    have hdocId : docId = encode posting.docId := parseDocId_eq_ok.mp hdocWasm
    refine ⟨⟨posting.docId, hdocId, ?_⟩, ?_⟩
    · have htext : docId = encode posting.docId := hdocId
      simp only [htext] at hdocTs
      exact (readText_encode .ts posting.docId).mp hdocTs rfl
    intro bytes hbytes
    have hbytes' : metadata = some bytes := hbytes
    simp only [hbytes', decodeMetadata] at hmetadataTs hmetadataWasm
    cases hts : readMembers json .ts bytes with
    | error failure =>
      rw [hts] at hmetadataTs
      cases hmetadataTs
    | ok members =>
      cases hwasm : readMembers json .wasm bytes with
      | error failure =>
        rw [hwasm] at hmetadataWasm
        cases hmetadataWasm
      | ok members' =>
        rw [hts] at hmetadataTs
        rw [hwasm] at hmetadataWasm
        refine ⟨members, members', rfl, rfl, ?_⟩
        have hsame := hmetadataTs.trans hmetadataWasm.symm
        exact some.inj (Except.ok.inj hsame)
  · rintro ⟨⟨text, hdocId, hmark⟩, hmetadata⟩
    have hdocTs : readText .ts docId = .ok text := by
      have htext : docId = encode text := hdocId
      rw [htext]
      exact (readText_encode .ts text).mpr fun _ => hmark
    have hdocWasm : readText .wasm docId = .ok text := parseDocId_eq_ok.mpr hdocId
    cases metadata with
    | none =>
      exact ⟨⟨text, max 1 termFrequency, flaggedMetadata json flags⟩, ⟨hdocTs, rfl, rfl⟩,
        hdocWasm, rfl, rfl⟩
    | some bytes =>
      obtain ⟨members, members', hts, hwasm, hsame⟩ := hmetadata bytes rfl
      refine ⟨⟨text, max 1 termFrequency,
        some (Assoc.spread ((flaggedMetadata json flags).getD ∅) members)⟩, ⟨hdocTs, rfl, ?_⟩,
        hdocWasm, rfl, ?_⟩
      · rw [decodeMetadata, hts]
        rfl
      · rw [decodeMetadata, hwasm, hsame]
        rfl

theorem readAll_error_iff (engine : Engine) (records : List Frame) :
    (∃ failure, readAll (read json engine) records = .error failure) ↔
      ∃ frame ∈ records, RefusedBy json engine frame := by
  induction records with
  | nil => exact iff_of_false (by simp [readAll]) (by simp)
  | cons frame rest ih =>
    rw [readAll, exists_mem_cons_iff, ← read_error_iff, ← ih]
    cases read json engine frame with
    | error failure => exact iff_of_true ⟨failure, rfl⟩ (.inl ⟨failure, rfl⟩)
    | ok posting =>
      cases readAll (read json engine) rest with
      | error failure => exact iff_of_true ⟨failure, rfl⟩ (.inr ⟨failure, rfl⟩)
      | ok postings => exact iff_of_false (by simp [Except.bind, Except.map]) (by simp)

theorem readAll_same_iff (records : List Frame) :
    (∃ postings, readAll (read json .ts) records = .ok postings ∧
        readAll (read json .wasm) records = .ok postings) ↔
      ∀ frame ∈ records, SameRead json frame := by
  induction records with
  | nil => exact iff_of_true ⟨[], rfl, rfl⟩ (List.forall_mem_nil _)
  | cons frame rest ih =>
    rw [readAll, readAll, forall_mem_cons, ← sameRead_iff, ← ih]
    cases read json .ts frame with
    | error failure => exact iff_of_false (by simp [Except.bind]) (by simp)
    | ok posting =>
      cases read json .wasm frame with
      | error failure => exact iff_of_false (by simp [Except.bind, Except.map]) (by simp)
      | ok posting' =>
        cases readAll (read json .ts) rest with
        | error failure => exact iff_of_false (by simp [Except.bind, Except.map]) (by simp)
        | ok postings =>
          cases readAll (read json .wasm) rest with
          | error failure => exact iff_of_false (by simp [Except.bind, Except.map]) (by simp)
          | ok postings' =>
            simp only [Except.bind, Except.map, Except.ok.injEq]
            constructor
            · rintro ⟨all, h, h'⟩
              obtain ⟨hposting, hpostings⟩ := List.cons.inj (h.trans h'.symm)
              exact ⟨⟨posting, rfl, hposting.symm⟩, postings, rfl, hpostings.symm⟩
            · rintro ⟨⟨first, h1, h1'⟩, others, h2, h2'⟩
              exact ⟨first :: others, by rw [h1, h2], by rw [h1', h2']⟩

theorem alike_iff {buffer : Bytes} (hlen : buffer.length < 2147483648) :
    Alike (decodeChunk json .ts buffer) (decodeChunk json .wasm buffer) ↔
      ∀ records, frames buffer = some records → SameRecords json records := by
  rcases decodeChunk_reads json .ts hlen with
    ⟨hnone, failure, hfailure, -⟩ | ⟨records, hrecords, hts⟩
  · rcases decodeChunk_reads json .wasm hlen with
      ⟨-, failure', hfailure', -⟩ | ⟨records, hrecords, -⟩
    · refine iff_of_true (.inl ⟨⟨failure, hfailure⟩, failure', hfailure'⟩) ?_
      intro records hrecords
      rw [hnone] at hrecords
      cases hrecords
    · rw [hnone] at hrecords
      cases hrecords
  · rcases decodeChunk_reads json .wasm hlen with
      ⟨hnone, -⟩ | ⟨records', hrecords', hwasm⟩
    · rw [hnone] at hrecords
      cases hrecords
    · have heq : records = records' := some.inj (hrecords.symm.trans hrecords')
      rw [hts, hwasm, ← heq, Alike, readAll_error_iff, readAll_error_iff, readAll_same_iff, hrecords]
      simp only [some.injEq, forall_eq', SameRecords]

theorem decodeChunk_inBounds (engine : Engine) {buffer : Bytes}
    (hlen : buffer.length < 2147483648) :
    decodeChunk json engine buffer ≠ .error .outOfBounds := by
  have hrefuses : RefusesOnly (read json engine) := by
    cases engine with
    | ts => exact readTs_refuses
    | wasm => exact readWasm_refuses
  intro hbounds
  rcases decodeChunk_reads json engine hlen with
    ⟨-, failure, hfailure, hne⟩ | ⟨records, -, hread⟩
  · rw [hfailure] at hbounds
    exact hne (Except.error.inj hbounds)
  · rw [hread] at hbounds
    exact readAll_refuses hrefuses hbounds rfl

/-! ## Chunks -/

/-- What is encoded comes back, and the decoders agree on any bytes. -/
structure ChunksDecode (json : JsonText Value) [DecidableEq Value] : Prop where
  ts : ∀ engine postings, (encodeTermPostings json postings).buffer.length < 2147483648 →
    decodeChunk json engine (encodeTermPostings json postings).buffer =
      .ok (postings.map expectedTs)
  wasm : ∀ engine postings, (encodePostingsBinary json postings).length < 2147483648 →
    decodeChunk json engine (encodePostingsBinary json postings) = .ok (postings.map expectedWasm)
  ids : ∀ ids, IdsText json ids → IdsKept json ids
  bytes : ∀ buffer : Bytes, buffer.length < 2147483648 →
    Alike (decodeChunk json .ts buffer) (decodeChunk json .wasm buffer)

theorem chunks_decode_iff [DecidableEq Value] (laws : JsonLaws json) :
    (∀ engine postings, (encodeTermPostings json postings).buffer.length < 2147483648 →
      (decodeChunk json engine (encodeTermPostings json postings).buffer =
          .ok (postings.map expectedTs) ↔ ∀ posting ∈ postings, KeptTs json engine posting)) ∧
    (∀ engine postings, (encodePostingsBinary json postings).length < 2147483648 →
      (decodeChunk json engine (encodePostingsBinary json postings) =
          .ok (postings.map expectedWasm) ↔ ∀ posting ∈ postings, KeptWasm json engine posting)) ∧
    (∀ ids, IdsText json ids →
      (IdsKept json ids ↔ ¬ Integers ids ∨ GapsOfIdsFit ids ∨ Ascending ids)) ∧
    ∀ buffer : Bytes, buffer.length < 2147483648 →
      (Alike (decodeChunk json .ts buffer) (decodeChunk json .wasm buffer) ↔
        ∀ records, frames buffer = some records → SameRecords json records) ∧
      ∀ engine, decodeChunk json engine buffer ≠ .error .outOfBounds := by
  refine ⟨?_, ?_, ?_, ?_⟩
  · intro engine postings hlen
    exact decodeChunk_encodeTermPostings laws engine hlen
  · intro engine postings hlen
    exact decodeChunk_encodePostingsBinary laws engine hlen
  · intro ids htext
    exact idsKept_iff htext
  · intro buffer hlen
    exact ⟨alike_iff hlen, fun engine => decodeChunk_inBounds engine hlen⟩

/-! ## Two postings -/

/-- The texts of the empty values. -/
def emptyTexts : JsonText Bool where
  truth := true
  stringify members := if members = ∅ then "{}" else "{members}"
  stringifyIds ids := if ids = [] then "[]" else "[ids]"
  parse text :=
    if text = "{}" then some (.object ∅) else if text = "[]" then some (.array []) else none
  toVec members := if members = ∅ then encode "{}" else encode "{members}"
  fromSlice bytes := if bytes = encode "{}" then some (.object ∅) else none

theorem emptyTexts_empty (engine : Engine) :
    readMembers emptyTexts engine (encode "{}") = .ok ∅ := by
  cases engine with
  | ts | wasm => decide +kernel

theorem emptyTexts_members (engine : Engine) :
    ∃ failure, readMembers emptyTexts engine (encode "{members}") = .error failure := by
  cases engine with
  | ts => exact ⟨.error "Unexpected token", by decide +kernel⟩
  | wasm => exact ⟨.error "expected value", by decide +kernel⟩

theorem emptyTexts_names {engine : Engine} {members members' : Object Bool} {bytes : Bytes}
    (hbytes : bytes = if members = ∅ then encode "{}" else encode "{members}")
    (h : readMembers emptyTexts engine bytes = .ok members') (key : String) :
    key ∈ members' ↔ key ∈ members := by
  rw [hbytes] at h
  split_ifs at h with hempty
  · rw [emptyTexts_empty, Except.ok.injEq] at h
    rw [← h, hempty]
  · obtain ⟨failure, hfailure⟩ := emptyTexts_members engine
    rw [hfailure] at h
    cases h

theorem emptyTexts_laws : JsonLaws emptyTexts where
  stringify engine members members' h := by
    apply emptyTexts_names _ h
    show encode (if members = ∅ then "{}" else "{members}") = _
    split_ifs
    · rfl
    · rfl
  toVec engine members members' h := emptyTexts_names rfl h

def samplePostings : List (TermPosting Bool) :=
  [⟨"doc-1", .finite (5 / 2), some ∅⟩, ⟨"doc-2", .finite 0, none⟩]

theorem samplePostings_decode :
    decodeChunk emptyTexts .ts (encodeTermPostings emptyTexts samplePostings).buffer =
      .ok (samplePostings.map expectedTs) := by
  apply ((chunks_decode_iff emptyTexts_laws).1 .ts samplePostings (by decide +kernel)).mpr
  intro posting hposting
  rcases mem_cons.mp hposting with rfl | hrest
  · refine ⟨fun _ => by decide, nofun, ?_, ?_⟩
    · intro metadata h
      rw [← some.inj h]
      exact Finmap.notMem_empty
    · intro metadata h _
      rw [← some.inj h]
      decide +kernel
  · rw [mem_singleton.mp hrest]
    exact ⟨fun _ => by decide, nofun, nofun, nofun⟩

def markedPosting : TermPosting Bool := ⟨String.ofList [byteOrderMark, 'a'], .finite 1, none⟩

/-- The decoder of the language drops the byte order mark of an id. -/
theorem markedPosting_lost : ¬ ∀ json : JsonText Bool, JsonLaws json → ChunksDecode json := by
  intro h
  have hdecode := (h emptyTexts emptyTexts_laws).ts .ts [markedPosting] (by decide +kernel)
  have hlost : decodeChunk emptyTexts .ts (encodeTermPostings emptyTexts [markedPosting]).buffer =
      .ok [⟨"a", 1, none⟩] := by decide +kernel
  exact absurd hdecode (by decide +kernel)

end SuperFunctions.SearchFn.PostingAgreement
