import SuperFunctions.SearchFn.PostingFrames

/-!
# Both decoders read the records of a chunk

A decoder that steps from record to record returns what it makes of each, or refuses the chunk. It
never reads past the end.
-/
namespace SuperFunctions.SearchFn.PostingReaders

open Lib.Objects Lib.Utf8 Lib.Framing ChunkSerializer WasmPostings PostingFrames List Option

variable {Value : Type} {json : JsonText Value}

def Refused {α : Type} (result : Except Failure α) : Prop :=
  ∃ failure, result = .error failure ∧ failure ≠ .outOfBounds

/-- What an engine makes of a record, from how it reads text and metadata. -/
def readFrame (json : JsonText Value) (text : Bytes → Except Failure String)
    (parse : Bytes → Except Failure (Object Value)) (frame : Frame) :
    Except Failure (DecodedPosting Value) :=
  (text frame.docId).bind fun docId =>
    match frame.metadata with
    | none => .ok ⟨docId, max 1 frame.termFrequency, flaggedMetadata json frame.flags⟩
    | some metadata => (parse metadata).map fun parsed =>
        ⟨docId, max 1 frame.termFrequency,
          some (Assoc.spread ((flaggedMetadata json frame.flags).getD ∅) parsed)⟩

/-- A step of a decoder at an offset reads the record there and goes to its end. -/
def StepsFrame (read : Frame → Except Failure (DecodedPosting Value)) (buffer : Bytes)
    (decodeOne : Nat → Except Failure (DecodedPosting Value × Nat)) (offset : Nat) : Prop :=
  takeFrame (buffer.drop offset) = none ∧ Refused (decodeOne offset) ∨
    ∃ frame next, next ≤ buffer.length ∧
      takeFrame (buffer.drop offset) = some (frame, buffer.drop next) ∧
      decodeOne offset = (read frame).map fun posting => (posting, next)

/-! ## Reads in bounds -/

variable {buffer : Bytes} {offset n : Nat}

theorem getUint32_eq (h : offset + 4 ≤ buffer.length) :
    ∃ n, getUint32 buffer offset = .ok n ∧
      takeUint32 (buffer.drop offset) = some (n, buffer.drop (offset + 4)) := by
  have hlen : 4 ≤ (buffer.drop offset).length := by
    rw [length_drop]
    omega
  have hdrop : buffer.drop (offset + 4) = (buffer.drop offset).drop 4 := by
    rw [drop_drop]
  rw [getUint32, hdrop]
  match hbytes : buffer.drop offset, hlen with
  | a :: b :: c :: d :: rest, _ => exact ⟨fromUint32 a b c d, rfl, rfl⟩

variable {bytes rest : Bytes}

theorem lt_of_takeUint32 (h : takeUint32 bytes = some (n, rest)) : n < 4294967296 := by
  match bytes, h with
  | a :: b :: c :: d :: tail, h =>
    rw [takeUint32, some.injEq, Prod.mk.injEq] at h
    have ha := a.toNat_lt
    have hb := b.toNat_lt
    have hc := c.toNat_lt
    have hd := d.toNat_lt
    rw [← h.1, fromUint32]
    omega

theorem takeUint32_none (h : buffer.length < offset + 4) :
    takeUint32 (buffer.drop offset) = none := by
  have hlen : (buffer.drop offset).length < 4 := by
    rw [length_drop]
    omega
  match hbytes : buffer.drop offset, hlen with
  | [], _ => rfl
  | [_], _ => rfl
  | [_, _], _ => rfl
  | [_, _, _], _ => rfl

theorem takeField_of_takeUint32 (hoffset : offset + 4 ≤ buffer.length)
    (htake : takeUint32 (buffer.drop offset) = some (n, buffer.drop (offset + 4))) :
    takeField (buffer.drop offset) =
      if offset + 4 + n ≤ buffer.length then
        some (subarray buffer (offset + 4) (offset + 4 + n), buffer.drop (offset + 4 + n))
      else none := by
  rw [takeField, htake, bind_some]
  show takeItems n (buffer.drop (offset + 4)) = _
  rw [takeItems_drop hoffset]
  rfl

theorem takeField_none (h : buffer.length < offset + 4) :
    takeField (buffer.drop offset) = none := by
  rw [takeField, takeUint32_none h, bind_none]

theorem takeFlags_eq (h : offset < buffer.length) :
    takeFlags (buffer.drop offset) = some (buffer[offset], buffer.drop (offset + 1)) := by
  rw [drop_eq_getElem_cons h, takeFlags]

theorem takeFlags_none (h : buffer.length ≤ offset) : takeFlags (buffer.drop offset) = none := by
  rw [drop_eq_nil_of_le h, takeFlags]

theorem refused_error (message : String) {α : Type} :
    Refused (.error (.error message) : Except Failure α) := ⟨_, rfl, nofun⟩

theorem Refused.bind {α β : Type} {result : Except Failure α} (h : Refused result)
    (f : α → Except Failure β) : Refused (result.bind f) := by
  obtain ⟨failure, rfl, hne⟩ := h
  exact ⟨failure, rfl, hne⟩

/-- A read of a field at an offset reads the field there and goes to its end. -/
def StepsField (buffer : Bytes) (offset : Nat) (result : Except Failure (Bytes × Nat)) : Prop :=
  takeField (buffer.drop offset) = none ∧ Refused result ∨
    ∃ field next, next ≤ buffer.length ∧
      takeField (buffer.drop offset) = some (field, buffer.drop next) ∧ result = .ok (field, next)

/-! ## The decoder of the language -/

def readTs (json : JsonText Value) (frame : Frame) : Except Failure (DecodedPosting Value) :=
  readFrame json (fun bytes => .ok (textDecode bytes))
    (fun bytes => parseMetadata json (textDecode bytes)) frame

theorem decodeSized_steps (lengthError endError : String) (buffer : Bytes) (offset : Nat) :
    StepsField buffer offset (decodeSized lengthError endError buffer offset) := by
  rw [decodeSized]
  by_cases h4 : offset + 4 ≤ buffer.length
  · obtain ⟨n, hget, htake⟩ := getUint32_eq h4
    have hfield := takeField_of_takeUint32 h4 htake
    rw [if_neg (by omega), hget]
    show StepsField buffer offset (if _ then _ else _)
    by_cases hend : offset + 4 + n ≤ buffer.length
    · rw [if_pos hend] at hfield
      rw [if_neg (by omega)]
      exact .inr ⟨_, _, hend, hfield, rfl⟩
    · rw [if_neg hend] at hfield
      rw [if_pos (by omega)]
      exact .inl ⟨hfield, refused_error _⟩
  · rw [if_pos (by omega)]
    exact .inl ⟨takeField_none (by omega), refused_error _⟩

theorem takeFrame_plain {docId : Bytes} {next termFrequency : Nat}
    (hdoc : takeField (buffer.drop offset) = some (docId, buffer.drop next))
    (hfrequency : takeUint32 (buffer.drop next) = some (termFrequency, buffer.drop (next + 4)))
    (h : next + 4 < buffer.length) : takeFrame (buffer.drop offset) =
      if buffer[next + 4] &&& flagHasExtraMetadata = 0 then
        some (⟨docId, termFrequency, buffer[next + 4], none⟩, buffer.drop (next + 5))
      else (takeField (buffer.drop (next + 5))).map fun (metadata, rest) =>
        (⟨docId, termFrequency, buffer[next + 4], some metadata⟩, rest) := by
  rw [takeFrame, hdoc, bind_some]
  simp only [hfrequency, bind_some, takeFlags_eq h]

variable (json) in
theorem decodeTermPosting_steps (buffer : Bytes) (offset : Nat) :
    StepsFrame (readTs json) buffer (decodeTermPosting json buffer) offset := by
  rw [StepsFrame, decodeTermPosting]
  rcases decodeSized_steps "Invalid posting-bin-v1 payload length"
    "Invalid posting-bin-v1 docId length" buffer offset with
    ⟨hnone, hrefused⟩ | ⟨docId, next, hnext, hdoc, hok⟩
  · left
    rw [takeFrame, hnone, bind_none]
    exact ⟨rfl, hrefused.bind _⟩
  rw [hok]
  simp only [Except.bind]
  by_cases h5 : next + 5 ≤ buffer.length
  · obtain ⟨termFrequency, hget, hfrequency⟩ := getUint32_eq (by omega : next + 4 ≤ buffer.length)
    have hframe := takeFrame_plain hdoc hfrequency (by omega)
    have hflags : (buffer[next + 4]?).getD 0 = buffer[next + 4] := by
      rw [getElem?_eq_getElem (by omega), getD_some]
    rw [if_neg (by omega), hget, hflags, hframe]
    split_ifs with hextra
    · exact .inr ⟨_, _, by omega, rfl, rfl⟩
    rcases decodeSized_steps "Invalid posting-bin-v1 metadata length"
      "Invalid posting-bin-v1 metadata payload" buffer (next + 5) with
      ⟨hnone, hrefused⟩ | ⟨metadata, last, hlast, hmetadata, hok'⟩
    · left
      rw [hnone]
      exact ⟨rfl, hrefused.bind _⟩
    · right
      rw [hmetadata, hok']
      refine ⟨_, last, hlast, rfl, ?_⟩
      simp only [readTs, readFrame, Except.bind]
      cases parseMetadata json (textDecode metadata) with
      | error failure => rfl
      | ok parsed => rfl
  · left
    rw [if_pos (by omega)]
    refine ⟨?_, refused_error _⟩
    rw [takeFrame, hdoc, bind_some]
    by_cases h4 : next + 4 ≤ buffer.length
    · obtain ⟨termFrequency, -, hfrequency⟩ := getUint32_eq h4
      simp only [hfrequency, bind_some, takeFlags_none (by omega : buffer.length ≤ next + 4),
        bind_none]
    · simp only [takeUint32_none (by omega : buffer.length < next + 4), bind_none]

/-! ## The wasm decoder -/

def readWasm (json : JsonText Value) (frame : Frame) : Except Failure (DecodedPosting Value) :=
  readFrame json parseDocId (parseObject json) frame

theorem wrap_eq (h : n < 4294967296) : wrap n = n := Nat.mod_eq_of_lt h

theorem slice_eq {stop : Nat} (h0 : offset ≤ stop) (h1 : stop ≤ buffer.length) :
    slice buffer offset stop = .ok (subarray buffer offset stop) := by
  rw [slice, if_pos ⟨h0, h1⟩]

section

variable (hlen : buffer.length < 2147483648)
include hlen

theorem readU32_eq (h : offset + 4 ≤ buffer.length) :
    ∃ n, readU32 buffer offset = .ok (n, offset + 4) ∧
      takeUint32 (buffer.drop offset) = some (n, buffer.drop (offset + 4)) := by
  have hbytes : subarray buffer offset (offset + 4) = (buffer.drop offset).take 4 := by
    rw [subarray, drop_take, Nat.add_sub_cancel_left]
  have hdrop : buffer.drop (offset + 4) = (buffer.drop offset).drop 4 := by
    rw [drop_drop]
  have hlen4 : 4 ≤ (buffer.drop offset).length := by
    rw [length_drop]
    omega
  rw [readU32, wrap_eq (by omega), if_neg (by omega), slice_eq (by omega) h, hbytes, hdrop]
  match buffer.drop offset, hlen4 with
  | a :: b :: c :: d :: rest, _ => exact ⟨fromUint32 a b c d, rfl, rfl⟩

theorem readU32_refused (hoffset : offset ≤ buffer.length) (h : buffer.length < offset + 4) :
    Refused (readU32 buffer offset) := by
  rw [readU32, wrap_eq (by omega), if_pos (by omega)]
  exact refused_error _

theorem readSized_steps (endError : String) (hoffset : offset ≤ buffer.length) :
    StepsField buffer offset (readSized endError buffer offset) := by
  rw [readSized]
  by_cases h4 : offset + 4 ≤ buffer.length
  · obtain ⟨n, hread, htake⟩ := readU32_eq hlen h4
    have hfield := takeField_of_takeUint32 h4 htake
    rw [hread]
    simp only [Except.bind]
    by_cases hend : offset + 4 + n ≤ buffer.length
    · rw [if_pos hend] at hfield
      rw [wrap_eq (by omega), if_neg (by omega), slice_eq (by omega) hend]
      exact .inr ⟨_, _, hend, hfield, rfl⟩
    rw [if_neg hend] at hfield
    left
    refine ⟨hfield, ?_⟩
    have hn := lt_of_takeUint32 htake
    -- a sum that wraps is before the offset
    by_cases hwrap : offset + 4 + n < 4294967296
    · rw [wrap_eq hwrap, if_pos (by omega)]
      exact refused_error _
    have hbefore : wrap (offset + 4 + n) < offset + 4 := by
      rw [wrap]
      omega
    rw [slice, if_neg (by omega : ¬ (offset + 4 ≤ wrap (offset + 4 + n) ∧ _))]
    split_ifs
    · exact refused_error _
    · exact ⟨.trap, rfl, nofun⟩
  · exact .inl ⟨takeField_none (by omega), (readU32_refused hlen hoffset (by omega)).bind _⟩

end

theorem takeFrame_docId {rest' docId : Bytes} {frame : Frame}
    (hdoc : takeField bytes = some (docId, rest)) (h : takeFrame bytes = some (frame, rest')) :
    frame.docId = docId := by
  rw [takeFrame, hdoc, bind_some] at h
  obtain ⟨⟨termFrequency, bytes2⟩, -, h⟩ := bind_eq_some_iff.mp h
  obtain ⟨⟨flags, bytes3⟩, -, h⟩ := bind_eq_some_iff.mp h
  dsimp only at h
  split_ifs at h
  · rw [← (Prod.mk.inj (some.inj h)).1]
  · obtain ⟨⟨metadata, bytes4⟩, -, heq⟩ := map_eq_some_iff.mp h
    rw [← (Prod.mk.inj heq).1]

variable {failure : Failure}

theorem steps_of_parseDocId {docId : Bytes} {next : Nat}
    (hdoc : takeField (buffer.drop offset) = some (docId, buffer.drop next))
    (hparse : parseDocId docId = .error failure) :
    StepsFrame (readWasm json) buffer (fun _ => .error failure) offset := by
  have hrefused : failure ≠ .outOfBounds := by
    rw [parseDocId] at hparse
    split at hparse
    · rw [← Except.error.inj hparse]
      nofun
    · cases hparse
  rcases decodeTermPosting_steps json buffer offset with
    ⟨hnone, -⟩ | ⟨frame, last, hlast, hframe, -⟩
  · exact .inl ⟨hnone, failure, rfl, hrefused⟩
  · refine .inr ⟨frame, last, hlast, hframe, ?_⟩
    rw [readWasm, readFrame, takeFrame_docId hdoc hframe, hparse]
    rfl

theorem decodePosting_steps (hlen : buffer.length < 2147483648) (hoffset : offset ≤ buffer.length) :
    StepsFrame (readWasm json) buffer (decodePosting json buffer) offset := by
  rw [StepsFrame, decodePosting]
  rcases readSized_steps hlen "Invalid posting-bin-v1 docId length" hoffset with
    ⟨hnone, hrefused⟩ | ⟨docId, next, hnext, hdoc, hok⟩
  · left
    rw [takeFrame, hnone, bind_none]
    exact ⟨rfl, hrefused.bind _⟩
  rw [hok]
  simp only [Except.bind]
  cases hparse : parseDocId docId with
  | error failure => exact steps_of_parseDocId hdoc hparse
  | ok text =>
  by_cases h4 : next + 4 ≤ buffer.length
  · obtain ⟨termFrequency, hread, hfrequency⟩ := readU32_eq hlen h4
    rw [hread]
    simp only
    by_cases h5 : next + 4 < buffer.length
    · rw [takeFrame_plain hdoc hfrequency h5, getElem?_eq_getElem h5]
      simp only
      split_ifs with hextra
      · refine .inr ⟨_, _, by omega, rfl, ?_⟩
        simp only [readWasm, readFrame, hparse, Except.bind, Except.map]
        rw [WasmPostings.normaliseTermFrequency, Nat.max_comm]
      rcases readSized_steps hlen "Invalid posting-bin-v1 metadata payload"
        (by omega : next + 4 + 1 ≤ buffer.length) with
        ⟨hnone, hrefused⟩ | ⟨metadata, last, hlast, hmetadata, hok'⟩
      · left
        rw [hnone]
        exact ⟨rfl, hrefused.bind _⟩
      right
      rw [hmetadata, hok']
      refine ⟨_, last, hlast, rfl, ?_⟩
      simp only [readWasm, readFrame, hparse, Except.bind]
      cases parseObject json metadata with
      | error failure => rfl
      | ok parsed =>
        simp only [Except.map]
        rw [WasmPostings.normaliseTermFrequency, Nat.max_comm]
    · left
      rw [getElem?_eq_none (by omega)]
      refine ⟨?_, refused_error _⟩
      rw [takeFrame, hdoc, bind_some]
      simp only [hfrequency, bind_some, takeFlags_none (by omega : buffer.length ≤ next + 4),
        bind_none]
  · left
    refine ⟨?_, (readU32_refused hlen hnext (by omega)).bind _⟩
    rw [takeFrame, hdoc, bind_some]
    simp only [takeUint32_none (by omega : buffer.length < next + 4), bind_none]

/-! ## Whole chunks -/

def readAll (read : Frame → Except Failure (DecodedPosting Value)) :
    List Frame → Except Failure (List (DecodedPosting Value))
  | [] => .ok []
  | frame :: rest => (read frame).bind fun posting => (readAll read rest).map (posting :: ·)

/-- What is refused of a record is refused with a message or a trap. -/
def RefusesOnly (read : Frame → Except Failure (DecodedPosting Value)) : Prop :=
  ∀ frame failure, read frame = .error failure → failure ≠ .outOfBounds

theorem parseMetadata_refuses {text : String} (h : parseMetadata json text = .error failure) :
    failure ≠ .outOfBounds := by
  rw [parseMetadata] at h
  split at h
  · rw [← Except.error.inj h]
    nofun
  · cases h
  · rw [← Except.error.inj h]
    nofun

theorem parseObject_refuses (h : parseObject json bytes = .error failure) :
    failure ≠ .outOfBounds := by
  rw [parseObject] at h
  split at h
  · rw [← Except.error.inj h]
    nofun
  · cases h
  · rw [← Except.error.inj h]
    nofun

theorem parseDocId_refuses (h : parseDocId bytes = .error failure) : failure ≠ .outOfBounds := by
  rw [parseDocId] at h
  split at h
  · rw [← Except.error.inj h]
    nofun
  · cases h

theorem readFrame_refuses {text : Bytes → Except Failure String}
    {parse : Bytes → Except Failure (Object Value)}
    (htext : ∀ bytes failure, text bytes = .error failure → failure ≠ .outOfBounds)
    (hparse : ∀ bytes failure, parse bytes = .error failure → failure ≠ .outOfBounds) :
    RefusesOnly (readFrame json text parse) := by
  intro frame failure h
  rw [readFrame] at h
  cases hdoc : text frame.docId with
  | error failure' =>
    rw [hdoc] at h
    rw [← Except.error.inj h]
    exact htext _ _ hdoc
  | ok docId =>
    rw [hdoc] at h
    split at h
    · cases h
    next metadata _ =>
    cases hmetadata : parse metadata with
    | error failure' =>
      rw [hmetadata] at h
      rw [← Except.error.inj h]
      exact hparse _ _ hmetadata
    | ok parsed =>
      rw [hmetadata] at h
      cases h

theorem readTs_refuses : RefusesOnly (readTs json) :=
  readFrame_refuses nofun fun _ _ => parseMetadata_refuses

theorem readWasm_refuses : RefusesOnly (readWasm json) :=
  readFrame_refuses (fun _ _ => parseDocId_refuses) fun _ _ => parseObject_refuses

variable {read : Frame → Except Failure (DecodedPosting Value)}

theorem readAll_refuses (hread : RefusesOnly read) {records : List Frame}
    (h : readAll read records = .error failure) : failure ≠ .outOfBounds := by
  induction records generalizing failure with
  | nil => cases h
  | cons frame rest ih =>
    rw [readAll] at h
    cases hposting : read frame with
    | error failure' =>
      rw [hposting] at h
      rw [← Except.error.inj h]
      exact hread _ _ hposting
    | ok posting =>
      cases hrest : readAll read rest with
      | error failure' =>
        rw [hposting, hrest] at h
        rw [← Except.error.inj h]
        exact ih hrest
      | ok postings =>
        rw [hposting, hrest] at h
        cases h

variable {decodeOne : Nat → Except Failure (DecodedPosting Value × Nat)}

theorem decodeLoop_steps
    (hsteps : ∀ offset, offset ≤ buffer.length → StepsFrame read buffer decodeOne offset)
    (hread : RefusesOnly read) (count : Nat) {offset : Nat} (hoffset : offset ≤ buffer.length) :
    takeMany takeFrame count (buffer.drop offset) = none ∧
        Refused (decodeLoop decodeOne count offset) ∨
      ∃ records next, next ≤ buffer.length ∧
        takeMany takeFrame count (buffer.drop offset) = some (records, buffer.drop next) ∧
        decodeLoop decodeOne count offset = (readAll read records).map (·, next) := by
  induction count generalizing offset with
  | zero => exact .inr ⟨[], offset, hoffset, rfl, rfl⟩
  | succ count ih =>
    rw [takeMany, decodeLoop]
    rcases hsteps offset hoffset with ⟨hnone, hrefused⟩ | ⟨frame, next, hnext, hframe, hstep⟩
    · left
      rw [hnone, bind_none]
      exact ⟨rfl, hrefused.bind _⟩
    rw [hframe, hstep, bind_some]
    rcases ih hnext with ⟨hnone, hrefused⟩ | ⟨records, last, hlast, hrecords, hloop⟩
    · left
      simp only [hnone, map_none]
      cases hposting : read frame with
      | error failure => exact ⟨trivial, failure, rfl, hread _ _ hposting⟩
      | ok posting =>
        obtain ⟨failure, hfailure, hne⟩ := hrefused
        refine ⟨trivial, failure, ?_, hne⟩
        simp only [Except.map, Except.bind, hfailure]
    · right
      simp only [hrecords, map_some]
      refine ⟨frame :: records, last, hlast, rfl, ?_⟩
      rw [readAll]
      cases read frame with
      | error failure => rfl
      | ok posting =>
        simp only [Except.map, Except.bind, hloop]
        cases readAll read records with
        | error failure => rfl
        | ok postings => rfl

/-- A decoder returns what it makes of the records of the chunk, or refuses it. -/
def ReadsChunk (read : Frame → Except Failure (DecodedPosting Value)) (buffer : Bytes)
    (result : Except Failure (List (DecodedPosting Value))) : Prop :=
  frames buffer = none ∧ Refused result ∨
    ∃ records, frames buffer = some records ∧ result = readAll read records

variable {count : Nat}

theorem frames_of_header (h8 : 8 ≤ buffer.length) (hmagic : buffer.take 4 = magic)
    (hcount : takeUint32 (buffer.drop 4) = some (count, buffer.drop 8)) :
    frames buffer = (takeMany takeFrame count (buffer.drop 8)).bind
      fun (records, rest) => if rest = [] then some records else none := by
  have hne : buffer ≠ [] := by
    intro h
    rw [h] at h8
    cases h8
  have hlength : magic.length = 4 := rfl
  rw [frames, if_neg hne, if_neg, hlength, hcount, bind_some]
  rw [hlength, hmagic]
  simp only [ne_eq, not_true_eq_false, or_false]
  omega

theorem frames_none_of_count (h8 : 8 ≤ buffer.length) (hmagic : buffer.take 4 = magic)
    (hcount : takeUint32 (buffer.drop 4) = some (count, buffer.drop 8))
    (hmany : count > (buffer.length - 8) / 9) : frames buffer = none := by
  rw [frames_of_header h8 hmagic hcount]
  cases htake : takeMany takeFrame count (buffer.drop 8) with
  | none => rfl
  | some taken =>
    obtain ⟨records, rest⟩ := taken
    have hlen := length_of_takeMany length_of_takeFrame htake
    rw [length_drop] at hlen
    omega

theorem readsChunk_of_header
    (hsteps : ∀ offset, offset ≤ buffer.length → StepsFrame read buffer decodeOne offset)
    (hread : RefusesOnly read) (h8 : 8 ≤ buffer.length) (hmagic : buffer.take 4 = magic)
    (hcount : takeUint32 (buffer.drop 4) = some (count, buffer.drop 8)) :
    ReadsChunk read buffer ((decodeLoop decodeOne count 8).bind fun (postings, offset) =>
      if offset ≠ buffer.length then .error (.error "Invalid posting-bin-v1 trailing bytes")
      else .ok postings) := by
  rw [ReadsChunk, frames_of_header h8 hmagic hcount]
  rcases decodeLoop_steps hsteps hread count h8 with
    ⟨hnone, hrefused⟩ | ⟨records, next, hnext, hrecords, hloop⟩
  · left
    rw [hnone]
    exact ⟨rfl, hrefused.bind _⟩
  rw [hrecords, hloop]
  simp only [bind_some]
  by_cases hend : next = buffer.length
  · right
    rw [if_pos (drop_eq_nil_of_le (by omega))]
    refine ⟨records, rfl, ?_⟩
    cases readAll read records with
    | error failure => rfl
    | ok postings =>
      simp only [Except.map, Except.bind]
      rw [if_neg (by omega : ¬ next ≠ buffer.length)]
  · left
    have hdrop : ¬ buffer.drop next = [] := by
      rw [drop_eq_nil_iff]
      omega
    rw [if_neg hdrop]
    refine ⟨rfl, ?_⟩
    cases hall : readAll read records with
    | error failure => exact ⟨failure, rfl, readAll_refuses hread hall⟩
    | ok postings =>
      simp only [Except.map, Except.bind]
      rw [if_pos hend]
      exact refused_error _

theorem decodeTermPostings_reads (buffer : Bytes) :
    ReadsChunk (readTs json) buffer (decodeTermPostings json buffer) := by
  rw [decodeTermPostings]
  by_cases hempty : buffer = []
  · rw [hempty]
    exact .inr ⟨[], rfl, rfl⟩
  rw [if_neg (by rwa [length_eq_zero_iff])]
  have hlength : magic.length = 4 := rfl
  by_cases h8 : 8 ≤ buffer.length
  · rw [if_neg (by omega)]
    by_cases hmagic : buffer.take 4 = magic
    · obtain ⟨count, hget, hcount⟩ := getUint32_eq (by omega : 4 + 4 ≤ buffer.length)
      rw [if_neg (by rw [hlength]; exact not_not_intro hmagic), hlength, hget]
      exact readsChunk_of_header (fun offset _ => decodeTermPosting_steps json buffer offset)
        readTs_refuses h8 hmagic hcount
    · left
      rw [if_pos (by rwa [hlength]), frames, if_neg hempty, if_pos (.inr (by rwa [hlength]))]
      exact ⟨rfl, refused_error _⟩
  · left
    rw [if_pos (by omega), frames, if_neg hempty, if_pos (.inl (by omega))]
    exact ⟨rfl, refused_error _⟩

theorem decodePostingsBinary_reads (hlen : buffer.length < 2147483648) :
    ReadsChunk (readWasm json) buffer (decodePostingsBinary json buffer) := by
  rw [decodePostingsBinary]
  by_cases hempty : buffer = []
  · rw [hempty]
    exact .inr ⟨[], rfl, rfl⟩
  rw [if_neg hempty]
  have hlength : magic.length = 4 := rfl
  by_cases h8 : 8 ≤ buffer.length
  · rw [if_neg (by omega)]
    by_cases hmagic : buffer.take 4 = magic
    · obtain ⟨count, hread, hcount⟩ := readU32_eq hlen (by omega : 4 + 4 ≤ buffer.length)
      rw [if_neg (by rw [hlength]; exact not_not_intro hmagic), hlength, hread]
      simp only [Except.bind]
      split_ifs with hmany
      · exact .inl ⟨frames_none_of_count h8 hmagic hcount hmany, refused_error _⟩
      · exact readsChunk_of_header (fun offset h => decodePosting_steps hlen h)
          readWasm_refuses h8 hmagic hcount
    · left
      rw [if_pos (by rwa [hlength]), frames, if_neg hempty, if_pos (.inr (by rwa [hlength]))]
      exact ⟨rfl, refused_error _⟩
  · left
    rw [if_pos (by omega), frames, if_neg hempty, if_pos (.inl (by omega))]
    exact ⟨rfl, refused_error _⟩

end SuperFunctions.SearchFn.PostingReaders
