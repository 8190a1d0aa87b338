import SuperFunctions.Lib.Objects
import SuperFunctions.Lib.Encodings
import Mathlib.Algebra.Order.Ring.Unbundled.Rat

/-!
# Posting chunks (searchfn core)

Document ids as varint deltas or JSON, and term postings in the binary format both engines write.
Buffers are lists of bytes. The texts JSON values are written as belong to the JSON libraries and
are parameters; a metadata object is a finite map of its members.
-/
namespace SuperFunctions.SearchFn.ChunkSerializer

open Lib.Objects Lib.Utf8

inductive Failure where
  | error (message : String)
  /-- A read at an index past the end. -/
  | outOfBounds
  /-- An aborted wasm call. -/
  | trap
  deriving DecidableEq

inductive DocId where
  | number (value : Rat)
  | text (value : String)

abbrev Object (Value : Type) := Assoc String Value

/-- What a JSON text denotes. -/
inductive Parsed (Value : Type) where
  | object (members : Object Value)
  | array (items : List DocId)
  | other

/-- The JSON library of the language, `serde_json`, and the JSON value `true`. -/
structure JsonText (Value : Type) where
  truth : Value
  stringify : Object Value → String
  stringifyIds : List DocId → String
  parse : String → Option (Parsed Value)
  toVec : Object Value → Bytes
  fromSlice : Bytes → Option (Parsed Value)

inductive JsNumber where
  | nan
  | negInfinity
  | posInfinity
  | finite (value : Rat)

structure TermPosting (Value : Type) where
  docId : String
  termFrequency : JsNumber
  metadata : Option (Object Value)

/-- What the decoders return. -/
structure DecodedPosting (Value : Type) where
  docId : String
  termFrequency : Nat
  metadata : Option (Object Value)
  deriving DecidableEq

inductive Encoding where
  | deltaVarint
  | json
  | postingBinV1

structure ChunkEncodeResult where
  buffer : Bytes
  encoding : Encoding

inductive DecodedPostings (Value : Type) where
  | ids (ids : List DocId)
  | postings (postings : List (DecodedPosting Value))

/-! ## Document ids -/

def varintBytes (value : Nat) : Bytes :=
  if value < 128 then [UInt8.ofNat value]
  else UInt8.ofNat (value % 128 + 128) :: varintBytes (value / 128)

def encodeVarint (value : Nat) : Option Bytes :=
  if value > 0xffffffff then none else some (varintBytes value)

/-- `result |= payload << shift`, a byte at a time. -/
def decodeVarintLoop (result shift : Nat) : Bytes → Except Failure (Nat × Bytes)
  | [] => .error (.error "Unexpected end of buffer while decoding varint")
  | byte :: rest =>
    let payload := byte.toNat % 128
    if shift = 28 ∧ payload > 0x0f then .error (.error "Varint decoding overflow")
    else
      let result := result ||| payload <<< shift
      if byte.toNat < 128 then .ok (result, rest)
      else if shift + 7 ≥ 35 then .error (.error "Varint decoding overflow")
      else decodeVarintLoop result (shift + 7) rest

def decodeVarint (bytes : Bytes) : Except Failure (Nat × Bytes) := decodeVarintLoop 0 0 bytes

/-- The ids as numbers, where all of them are integers from zero on. -/
def canDeltaEncode : List DocId → Option (List Nat)
  | [] => some []
  | .text _ :: _ => none
  | .number value :: rest =>
    if value.den = 1 ∧ 0 ≤ value then (canDeltaEncode rest).map (value.num.toNat :: ·) else none

def encodeDeltas (previous : Nat) : List Nat → Option Bytes
  | [] => some []
  | current :: rest =>
    (encodeVarint (current - previous)).bind fun bytes =>
      (encodeDeltas current rest).map (bytes ++ ·)

variable {Value : Type} (json : JsonText Value)

def encodePostings (values : List DocId) : ChunkEncodeResult :=
  if values = [] then ⟨[], .deltaVarint⟩
  else
    match canDeltaEncode values with
    | none => ⟨encode (json.stringifyIds values), .json⟩
    | some numbers =>
      match encodeDeltas 0 (numbers.mergeSort (· ≤ ·)) with
      | some output => ⟨output, .deltaVarint⟩
      -- the deltas do not fit
      | none => ⟨encode (json.stringifyIds values), .json⟩

/-- Every varint takes a byte at least. -/
def decodeDeltas (previous : Nat) : Nat → Bytes → Except Failure (List DocId)
  | _, [] => .ok []
  | 0, _ :: _ => .ok []
  | fuel + 1, bytes =>
    (decodeVarint bytes).bind fun (delta, rest) =>
      (decodeDeltas (previous + delta) fuel rest).map
        (.number ((previous + delta : Nat) : Int) :: ·)

/-! ## Term postings -/

def magic : Bytes := [0x53, 0x46, 0x50, 0x31]

def flagIsPrefix : UInt8 := 1

def flagHasExtraMetadata : UInt8 := 2

/-- `setUint32`, little endian. -/
def uint32 (value : Nat) : Bytes :=
  [UInt8.ofNat value, UInt8.ofNat (value / 256), UInt8.ofNat (value / 65536),
    UInt8.ofNat (value / 16777216)]

def fromUint32 (a b c d : UInt8) : Nat :=
  a.toNat + b.toNat * 256 + c.toNat * 65536 + d.toNat * 16777216

def getUint32 (buffer : Bytes) (offset : Nat) : Except Failure Nat :=
  match buffer.drop offset with
  | a :: b :: c :: d :: _ => .ok (fromUint32 a b c d)
  | _ => .error .outOfBounds

def subarray (buffer : Bytes) (start stop : Nat) : Bytes := (buffer.take stop).drop start

/-- `TextDecoder.decode`: a byte order mark at the front is not text. -/
def textDecode (bytes : Bytes) : String :=
  if bytes.take 3 = [0xEF, 0xBB, 0xBF] then String.ofList (decodeLossy (bytes.drop 3))
  else String.ofList (decodeLossy bytes)

def normaliseTermFrequency : JsNumber → Nat
  | .finite value => if value ≤ 0 then 1 else (max 1 (min value.floor 0xffffffff)).toNat
  | _ => 1

/-- The members the flag does not stand for. An assignment to `__proto__` makes no member. -/
def extraMetadata (metadata : Object Value) [DecidableEq Value] : Object Value :=
  let rest := if metadata.lookup "isPrefix" = some json.truth then metadata.erase "isPrefix"
    else metadata
  rest.erase "__proto__"

def prefixFlags (metadata : Object Value) [DecidableEq Value] : UInt8 :=
  if metadata.lookup "isPrefix" = some json.truth then flagIsPrefix else 0

def encodePostingMetadata (metadata : Option (Object Value)) [DecidableEq Value] :
    UInt8 × Option Bytes :=
  match metadata with
  | none => (0, none)
  | some metadata =>
    let extra := extraMetadata json metadata
    let flags := prefixFlags json metadata
    if extra ≠ ∅ ∨ flags = 0 then
      (flags ||| flagHasExtraMetadata, some (encode (json.stringify extra)))
    else (flags, none)

/-- The fields of one record. -/
def record (docId : Bytes) (termFrequency : Nat) (flags : UInt8) (metadata : Option Bytes) :
    Bytes :=
  uint32 docId.length ++ docId ++ uint32 termFrequency ++ [flags] ++
    match metadata with
    | none => []
    | some metadata => uint32 metadata.length ++ metadata

def encodeTermPostings (postings : List (TermPosting Value)) [DecidableEq Value] :
    ChunkEncodeResult :=
  ⟨magic ++ uint32 postings.length ++ postings.flatMap fun posting =>
      record (encode posting.docId) (normaliseTermFrequency posting.termFrequency)
        (encodePostingMetadata json posting.metadata).1
        (encodePostingMetadata json posting.metadata).2,
    .postingBinV1⟩

/-- `{ isPrefix: true }` -/
def prefixMetadata : Object Value := (∅ : Object Value).insert "isPrefix" json.truth

def flaggedMetadata (flags : UInt8) : Option (Object Value) :=
  if flags &&& flagIsPrefix ≠ 0 then some (prefixMetadata json) else none

def parseMetadata (rawMetadata : String) : Except Failure (Object Value) :=
  match json.parse rawMetadata with
  | none => .error (.error "Unexpected token")
  | some (.object members) => .ok members
  | some _ => .error (.error "Decoded posting-bin-v1 metadata is not an object")

/-- A length and as many bytes, and the offset after them. -/
def decodeSized (lengthError endError : String) (buffer : Bytes) (offset : Nat) :
    Except Failure (Bytes × Nat) :=
  if offset + 4 > buffer.length then .error (.error lengthError)
  else (getUint32 buffer offset).bind fun length =>
    if offset + 4 + length > buffer.length then .error (.error endError)
    else .ok (subarray buffer (offset + 4) (offset + 4 + length), offset + 4 + length)

/-- One pass of the loop over the records: the posting and the next offset. -/
def decodeTermPosting (buffer : Bytes) (offset : Nat) :
    Except Failure (DecodedPosting Value × Nat) :=
  (decodeSized "Invalid posting-bin-v1 payload length" "Invalid posting-bin-v1 docId length" buffer
    offset).bind fun (docIdBytes, offset) =>
  let docId := textDecode docIdBytes
  if offset + 5 > buffer.length then .error (.error "Invalid posting-bin-v1 payload length")
  else (getUint32 buffer offset).bind fun termFrequency =>
    let flags := (buffer[offset + 4]?).getD 0
    let metadata := flaggedMetadata json flags
    if flags &&& flagHasExtraMetadata = 0 then
      .ok (⟨docId, max 1 termFrequency, metadata⟩, offset + 5)
    else (decodeSized "Invalid posting-bin-v1 metadata length"
        "Invalid posting-bin-v1 metadata payload" buffer (offset + 5)).bind
          fun (metadataBytes, offset) =>
      (parseMetadata json (textDecode metadataBytes)).map fun parsed =>
        (⟨docId, max 1 termFrequency, some (Assoc.spread (metadata.getD ∅) parsed)⟩, offset)

/-- `count` records from an offset on, and the offset after them. -/
def decodeLoop (decodeOne : Nat → Except Failure (DecodedPosting Value × Nat)) :
    Nat → Nat → Except Failure (List (DecodedPosting Value) × Nat)
  | 0, offset => .ok ([], offset)
  | count + 1, offset =>
    (decodeOne offset).bind fun (posting, next) =>
      (decodeLoop decodeOne count next).map fun (postings, stop) => (posting :: postings, stop)

def decodeTermPostings (buffer : Bytes) : Except Failure (List (DecodedPosting Value)) :=
  if buffer.length = 0 then .ok []
  else if buffer.length < magic.length + 4 then
    .error (.error "Invalid posting-bin-v1 payload")
  else if buffer.take magic.length ≠ magic then .error (.error "Invalid posting-bin-v1 header")
  else (getUint32 buffer magic.length).bind fun count =>
    (decodeLoop (decodeTermPosting json buffer) count (magic.length + 4)).bind
      fun (postings, offset) =>
        if offset ≠ buffer.length then .error (.error "Invalid posting-bin-v1 trailing bytes")
        else .ok postings

def decodePostings (buffer : Bytes) (encoding : Encoding) :
    Except Failure (DecodedPostings Value) :=
  match encoding with
  | .json =>
    if buffer = [] then .ok (.ids [])
    else
      match json.parse (textDecode buffer) with
      | none => .error (.error "Unexpected token")
      | some (.array items) => .ok (.ids items)
      | some _ => .error (.error "Decoded JSON postings payload is not an array")
  | .postingBinV1 => (decodeTermPostings json buffer).map .postings
  | .deltaVarint => (decodeDeltas 0 buffer.length buffer).map .ids

end SuperFunctions.SearchFn.ChunkSerializer
