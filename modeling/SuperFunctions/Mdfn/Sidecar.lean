import SuperFunctions.Lib.Editing
import SuperFunctions.Lib.Encodings

/-!
# The sidecar of a document

Comments and suggestions are anchored in the source text and move with every change of it. The
whole sidecar is validated before it enters the editor.
-/
namespace SuperFunctions.Mdfn

open Lib.Splice Lib.Utf16

/-- A changed part of the source: `from`, `to` and the length of what was inserted. -/
abbrev ChangedRange := Range

inductive Affinity | before | after
deriving DecidableEq

structure SidecarAnchor where
  start : Nat
  stop : Nat
  affinity : Option Affinity
deriving DecidableEq

structure CommentMessage where
  id : Text
  authorId : Text
  body : Text
  createdAt : Text
  updatedAt : Option Text
deriving DecidableEq

structure CommentThread where
  id : Text
  anchor : SidecarAnchor
  resolved : Bool
  messages : List CommentMessage
deriving DecidableEq

inductive SuggestionStatus | pending | accepted | rejected
deriving DecidableEq

structure Suggestion where
  id : Text
  anchor : SidecarAnchor
  replacement : Text
  authorId : Text
  status : SuggestionStatus
  createdAt : Text
deriving DecidableEq

inductive ReviewState | draft | inReview | changesRequested | approved
deriving DecidableEq

inductive AuditAction
  | commentCreated | commentReplied | commentResolved | commentReopened
  | suggestionCreated | suggestionAccepted | suggestionRejected | reviewTransitioned
deriving DecidableEq

mutual

inductive JsonValue
  | null
  | bool (value : Bool)
  | num (value : Rat)
  | str (value : Text)
  | arr (items : JsonItems)
  | obj (members : JsonMembers)
deriving DecidableEq

inductive JsonItems
  | nil
  | cons (item : JsonValue) (rest : JsonItems)
deriving DecidableEq

inductive JsonMembers
  | nil
  | cons (key : Text) (value : JsonValue) (rest : JsonMembers)
deriving DecidableEq

end

structure EditorialAuditEntry where
  id : Text
  action : AuditAction
  actorId : Text
  targetId : Option Text
  createdAt : Text
  details : Option JsonMembers
deriving DecidableEq

structure AssetMetadata where
  id : Text
  mediaType : Text
  name : Option Text
  byteSize : Option Nat
  metadata : Option JsonMembers
deriving DecidableEq

/-- `propertyOrder` names the properties of its records as `JSON.stringify` writes them. -/
structure MdfnSidecar where
  comments : Option (List CommentThread)
  suggestions : Option (List Suggestion)
  assets : Option (List AssetMetadata)
  historyRef : Option Text
  reviewState : Option ReviewState
  audit : Option (List EditorialAuditEntry)
  propertyOrder : List Text
deriving DecidableEq

/-! ## Validation -/

structure SidecarValidationOptions where
  markdownLength : Option Nat
  maxEntries : Nat
  maxTextLength : Nat
  maxAggregateTextLength : Nat

/-- The options of a caller that gives the length of the text only. -/
def validationOptions (markdownLength : Nat) : SidecarValidationOptions :=
  ⟨some markdownLength, 10000, 256 * 1024, 256 * 1024⟩

structure Counters where
  entryCount : Nat
  jsonTextLength : Nat
  aggregateTextLength : Nat
  seen : List Text

abbrev Validation := StateT Counters (Except String)

def isSpace (u : UInt16) : Bool :=
  (9 ≤ u && u ≤ 13) || u = 0x20 || u = 0xA0 || u = 0x1680 || (0x2000 ≤ u && u ≤ 0x200A) ||
    u = 0x2028 || u = 0x2029 || u = 0x202F || u = 0x205F || u = 0x3000 || u = 0xFEFF

section Validate

variable (dateParses : Text → Bool) (options : SidecarValidationOptions)

def require (condition : Bool) (code : String) : Validation Unit :=
  if condition then pure () else throw code

def text (value : Text) (code : String) (maximum : Nat) (allowEmpty : Bool) : Validation Unit :=
  require ((allowEmpty || !value.all isSpace) && value.length ≤ maximum) code

def timestamp (value : Text) (code : String) : Validation Unit := do
  text value code 128 false
  require (dateParses value) code

def validAnchor (anchor : SidecarAnchor) : Validation Unit :=
  require (anchor.start ≤ anchor.stop &&
    options.markdownLength.all fun markdownLength => anchor.stop ≤ markdownLength)
    "MDFN_SIDECAR_ANCHOR_INVALID"

def countEntry : Validation Unit := do
  modify fun c => { c with entryCount := c.entryCount + 1 }
  require ((← get).entryCount ≤ options.maxEntries) "MDFN_SIDECAR_ENTRY_LIMIT_EXCEEDED"

def unique (id : Text) : Validation Unit := do
  require (!(← get).seen.contains id) "MDFN_SIDECAR_DUPLICATE_ID"
  modify fun c => { c with seen := id :: c.seen }

/-- The entries of a list that may be missing. -/
def bounded {α : Type} (entries : Option (List α)) (code : String) : Validation (List α) := do
  let entries := entries.getD []
  require (entries.length ≤ options.maxEntries) code
  pure entries

def countJsonText (length : Nat) : Validation Bool := do
  modify fun c => { c with jsonTextLength := c.jsonTextLength + length }
  pure ((← get).jsonTextLength ≤ options.maxTextLength)

def editorialText (value : Text) (code : String) (allowEmpty : Bool) : Validation Unit := do
  text value code options.maxTextLength allowEmpty
  modify fun c => { c with aggregateTextLength := c.aggregateTextLength + value.length }
  require ((← get).aggregateTextLength ≤ options.maxAggregateTextLength)
    "MDFN_SIDECAR_TEXT_LIMIT_EXCEEDED"

mutual

def json (depth : Nat) : JsonValue → Validation Bool
  | .str value => do
    countEntry options
    countJsonText options value.length
  | .null | .bool _ | .num _ => do
    countEntry options
    countJsonText options 0
  | .arr items => do
    countEntry options
    if !(← countJsonText options 0) || 32 ≤ depth then pure false
    else jsonItems (depth + 1) items
  | .obj members => do
    countEntry options
    if !(← countJsonText options 0) || 32 ≤ depth then pure false
    else jsonMembers (depth + 1) members

def jsonItems (depth : Nat) : JsonItems → Validation Bool
  | .nil => pure true
  | .cons item rest => do
    if ← json depth item then jsonItems depth rest else pure false

def jsonMembers (depth : Nat) : JsonMembers → Validation Bool
  | .nil => pure true
  | .cons key value rest => do
    if !(← countJsonText options key.length) then pure false
    else if ← json depth value then jsonMembers depth rest
    else pure false

end

def boundedJson (members : Option JsonMembers) (code : String) : Validation Unit :=
  match members with
  | none => pure ()
  | some members => do require (← json options 0 (.obj members)) code

def validMessage (message : CommentMessage) : Validation Unit := do
  let code := "MDFN_SIDECAR_COMMENT_MESSAGE_INVALID"
  countEntry options
  text message.id code 256 false
  unique message.id
  text message.authorId code 256 false
  editorialText options message.body code false
  timestamp dateParses message.createdAt code
  match message.updatedAt with
  | none => pure ()
  | some updatedAt => timestamp dateParses updatedAt code

def validComment (comment : CommentThread) : Validation Unit := do
  countEntry options
  text comment.id "MDFN_SIDECAR_COMMENT_INVALID" 256 false
  unique comment.id
  validAnchor options comment.anchor
  require (comment.messages.length ≤ options.maxEntries && !comment.messages.isEmpty)
    "MDFN_SIDECAR_COMMENT_MESSAGES_INVALID"
  comment.messages.forM (validMessage dateParses options)

def validSuggestion (suggestion : Suggestion) : Validation Unit := do
  let code := "MDFN_SIDECAR_SUGGESTION_INVALID"
  countEntry options
  text suggestion.id code 256 false
  unique suggestion.id
  validAnchor options suggestion.anchor
  editorialText options suggestion.replacement code true
  text suggestion.authorId code 256 false
  timestamp dateParses suggestion.createdAt code

def validAsset (asset : AssetMetadata) : Validation Unit := do
  let code := "MDFN_SIDECAR_ASSET_INVALID"
  countEntry options
  text asset.id code 256 false
  unique asset.id
  text asset.mediaType code 256 false
  match asset.name with
  | none => pure ()
  | some name => text name code 4096 true
  require (asset.byteSize.all (· < 2 ^ 53)) code
  boundedJson options asset.metadata code

def validAudit (entry : EditorialAuditEntry) : Validation Unit := do
  let code := "MDFN_SIDECAR_AUDIT_ENTRY_INVALID"
  countEntry options
  text entry.id code 256 false
  unique entry.id
  text entry.actorId code 256 false
  match entry.targetId with
  | none => pure ()
  | some targetId => text targetId code 256 false
  timestamp dateParses entry.createdAt code
  boundedJson options entry.details code

def validateFields (value : MdfnSidecar) : Validation Unit := do
  (← bounded options value.comments "MDFN_SIDECAR_COMMENTS_INVALID").forM
    (validComment dateParses options)
  (← bounded options value.suggestions "MDFN_SIDECAR_SUGGESTIONS_INVALID").forM
    (validSuggestion dateParses options)
  (← bounded options value.assets "MDFN_SIDECAR_ASSETS_INVALID").forM (validAsset options)
  (← bounded options value.audit "MDFN_SIDECAR_AUDIT_INVALID").forM (validAudit dateParses options)
  match value.historyRef with
  | none => pure ()
  | some historyRef => text historyRef "MDFN_SIDECAR_HISTORY_REF_INVALID" 4096 false

def validateMdfnSidecar (value : Option MdfnSidecar) : Except String (Option MdfnSidecar) :=
  match value with
  | none => .ok none
  | some sidecar =>
    match validateFields dateParses options sidecar ⟨0, 0, 0, []⟩ with
    | .error error => .error error
    | .ok _ => .ok (some sidecar)

theorem validateMdfnSidecar_eq {value result : Option MdfnSidecar}
    (h : validateMdfnSidecar dateParses options value = .ok result) : result = value := by
  cases value with
  | none =>
    cases h
    rfl
  | some sidecar =>
    simp only [validateMdfnSidecar] at h
    split at h
    · cases h
    · cases h
      rfl

end Validate

/-! ## Positions that move with the text -/

def mapPosition (position : Nat) (range : ChangedRange) (affinity : Affinity) : Nat :=
  if position < range.start || (position = range.start && affinity = .before) then position
  else if range.stop < position || (position = range.stop && affinity = .after) then
    position + range.insertedLength - (range.stop - range.start)
  else if affinity = .before then range.start
  else range.start + range.insertedLength

def mapAnchor (anchor : SidecarAnchor) (range : ChangedRange) : SidecarAnchor :=
  let affinity := anchor.affinity.getD .after
  let start := mapPosition anchor.start range affinity
  let stop := mapPosition anchor.stop range affinity
  { anchor with start := min start stop, stop := max start stop }

/-- `mapSidecar` for one range. -/
def mapSidecar (sidecar : Option MdfnSidecar) (range : ChangedRange) : Option MdfnSidecar :=
  sidecar.map fun sidecar => { sidecar with
    comments := sidecar.comments.map fun comments => comments.map fun thread =>
      { thread with anchor := mapAnchor thread.anchor range }
    suggestions := sidecar.suggestions.map fun suggestions => suggestions.map fun suggestion =>
      { suggestion with anchor := mapAnchor suggestion.anchor range } }

inductive MdfnSelection
  | text (anchor head : Nat)
  | node (nodeId : Text)
deriving DecidableEq

def mapTextSelection (anchor head : Nat) (range : ChangedRange) : MdfnSelection :=
  let collapsed := anchor = head
  let forward := anchor ≤ head
  let anchorAffinity := if collapsed ∨ ¬forward then Affinity.after else .before
  let headAffinity := if collapsed ∨ forward then Affinity.after else .before
  .text (mapPosition anchor range anchorAffinity) (mapPosition head range headAffinity)

/-- `mapSelection` for one range. -/
def mapSelection (selection : Option MdfnSelection) (range : ChangedRange) : Option MdfnSelection :=
  match selection with
  | none => none
  | some (.node _) => none
  | some (.text anchor head) => some (mapTextSelection anchor head range)

def validateMdfnSelection (selection : Option MdfnSelection) (markdownLength : Nat) :
    Except String (Option MdfnSelection) :=
  match selection with
  | none => .ok none
  | some (.text anchor head) =>
    if markdownLength < anchor ∨ markdownLength < head then .error "MDFN_SELECTION_RANGE_INVALID"
    else .ok (some (.text anchor head))
  | some (.node nodeId) =>
    if nodeId = [] then .error "MDFN_SELECTION_INVALID" else .ok (some (.node nodeId))

end SuperFunctions.Mdfn
