import SuperFunctions.Lib.OrderedMap
import SuperFunctions.Oauth.Timestamps

/-!
# The OAuth state stores

`MemoryOAuthStateStore` and `DbAdapterOAuthStateStore`, answering the same calls. The subject's
metadata is of any type; only what it becomes as a JSON text matters.
-/
namespace SuperFunctions.Oauth.StateStores

open Lib.OrderedMap Lib.KeyedTables Timestamps

variable {M : Type}

/-! ## Records -/

inductive OAuthStoredSubject (M : Type) where
  | connection (tenantId userId : String) (connectionId : Option String)
  | browserAuth (intentId : String) (tenantId regionId returnTo : Option String)
      (metadata : Option M)
deriving DecidableEq

structure OAuthStateRecord (M : Type) where
  stateId : String
  providerId : String
  redirectUri : String
  requestedScopes : List String
  subject : Option (OAuthStoredSubject M)
  tenantId : Option String
  userId : Option String
  connectionId : Option String
  intentId : Option String
  regionId : Option String
  returnTo : Option String
  metadata : Option M
  codeVerifier : Option String
  nonce : Option String
  createdAt : String
  expiresAt : String
  consumedAt : Option String
deriving DecidableEq

inductive StoreError where
  | validationError (message : String)
  | notSerializable
deriving DecidableEq

/-- Neither `undefined` nor the empty string. -/
def truthy (value : Option String) : Bool := value.getD "" != ""

def validateOAuthStoredSubject : OAuthStoredSubject M → Except StoreError Unit
  | .connection tenantId userId _ =>
    if tenantId = "" ∨ userId = "" then
      .error (.validationError "connection subjects require tenantId and userId")
    else .ok ()
  | .browserAuth intentId .. =>
    if intentId = "" then .error (.validationError "browser-auth subjects require intentId")
    else .ok ()

/-- The subject given, or the one the record's own fields make up. -/
def givenSubject (record : OAuthStateRecord M) : Option (OAuthStoredSubject M) :=
  match record.subject with
  | some subject => some subject
  | none =>
    if truthy record.intentId then
      some (.browserAuth (record.intentId.getD "") record.tenantId record.regionId record.returnTo
        record.metadata)
    else if truthy record.tenantId && truthy record.userId then
      some (.connection (record.tenantId.getD "") (record.userId.getD "") record.connectionId)
    else none

def resolveOAuthStoredSubject (record : OAuthStateRecord M) :
    Except StoreError (OAuthStoredSubject M) :=
  match givenSubject record with
  | none =>
    .error (.validationError "subject is required or tenantId/userId or intentId must be provided")
  | some subject => (validateOAuthStoredSubject subject).map fun _ => subject

def getOAuthSubjectKey : OAuthStoredSubject M → String
  | .connection tenantId userId connectionId =>
    if truthy connectionId then "connection:" ++ connectionId.getD ""
    else "connection:" ++ tenantId ++ ":" ++ userId
  | .browserAuth intentId .. => "browser-auth:" ++ intentId

def OAuthStoredSubject.kind : OAuthStoredSubject M → String
  | .connection .. => "connection"
  | .browserAuth .. => "browser-auth"

def assertIsoTimestamp (fieldName value : String) : Except StoreError Unit :=
  if isIsoTimestamp value then .ok ()
  else .error (.validationError (fieldName ++ " must be a valid ISO-8601 timestamp"))

def required (fieldName value : String) : Except StoreError Unit :=
  if value = "" then .error (.validationError (fieldName ++ " is required")) else .ok ()

def validateOAuthStateRecord (record : OAuthStateRecord M) : Except StoreError Unit := do
  required "stateId" record.stateId
  required "providerId" record.providerId
  required "redirectUri" record.redirectUri
  let _ ← resolveOAuthStoredSubject record
  assertIsoTimestamp "createdAt" record.createdAt
  assertIsoTimestamp "expiresAt" record.expiresAt
  if truthy record.consumedAt then assertIsoTimestamp "consumedAt" (record.consumedAt.getD "")

/-- The record with the fields that its subject says. -/
def withSubject (record : OAuthStateRecord M) (subject : OAuthStoredSubject M) :
    OAuthStateRecord M :=
  match subject with
  | .connection tenantId userId connectionId =>
    { record with
      subject := some subject, tenantId := some tenantId, userId := some userId, connectionId,
      intentId := none, regionId := none, returnTo := none, metadata := none }
  | .browserAuth intentId tenantId regionId returnTo metadata =>
    { record with
      subject := some subject, tenantId, userId := none, connectionId := none,
      intentId := some intentId, regionId, returnTo, metadata }

def applySubjectToStateRecord (record : OAuthStateRecord M) :
    Except StoreError (OAuthStateRecord M) :=
  (resolveOAuthStoredSubject record).map (withSubject record)

/-- Copies of lists and objects are the same values. -/
def cloneOAuthStateRecord (record : OAuthStateRecord M) : Except StoreError (OAuthStateRecord M) :=
  applySubjectToStateRecord record

/-! ## Calls -/

inductive Call (M : Type) where
  | put (record : OAuthStateRecord M)
  | get (stateId : String)
  | consume (stateId : String) (consumedAt : Timestamp)
  | deleteExpired (before : Timestamp)

inductive Answer (M : Type) where
  | refused (error : StoreError)
  | stored
  | found (record : Option (OAuthStateRecord M))
  | deleted (count : Nat)
deriving DecidableEq

def foundOr : Except StoreError (OAuthStateRecord M) → Answer M
  | .ok record => .found (some record)
  | .error error => .refused error

/-! ## The memory store -/

namespace MemoryOAuthStateStore

abbrev Records (M : Type) := OMap String (OAuthStateRecord M)

def put (records : Records M) (record : OAuthStateRecord M) : Records M × Answer M :=
  match validateOAuthStateRecord record with
  | .error error => (records, .refused error)
  | .ok () =>
    match cloneOAuthStateRecord record with
    | .error error => (records, .refused error)
    | .ok clone => (records.set record.stateId clone, .stored)

def get (records : Records M) (stateId : String) : Answer M :=
  match records.get stateId with
  | none => .found none
  | some record => foundOr (cloneOAuthStateRecord record)

/-- `Date.parse(record.expiresAt) <= Date.parse(consumedAt)` -/
def expired (record : OAuthStateRecord M) (consumedAt : String) : Bool :=
  match dateParse record.expiresAt, dateParse consumedAt with
  | some x, some y => decide (x ≤ y)
  | _, _ => false

def consume (records : Records M) (stateId : String) (consumedAt : String) : Records M × Answer M :=
  match records.get stateId with
  | none => (records, .found none)
  | some record =>
    if truthy record.consumedAt then (records, .found none)
    else if expired record consumedAt then (records, .found none)
    else
      let consumed := { record with consumedAt := some consumedAt }
      (records.set stateId consumed, foundOr (cloneOAuthStateRecord consumed))

def deleteExpired (records : Records M) (before : String) : Records M × Answer M :=
  let gone : OAuthStateRecord M → Bool := fun record => instantBefore record.expiresAt before
  (deleteMany gone records, .deleted (countWhere gone records))

def answer (records : Records M) : Call M → Records M × Answer M
  | .put record => put records record
  | .get stateId => (records, get records stateId)
  | .consume stateId consumedAt => consume records stateId consumedAt.text
  | .deleteExpired before => deleteExpired records before.text

end MemoryOAuthStateStore

/-! ## The database store -/

/-- The payload is the subject as its JSON text reads back. -/
structure StateRow (M : Type) where
  stateId : String
  providerId : String
  subjectKind : String
  subjectKey : String
  subjectPayload : OAuthStoredSubject M
  redirectUri : String
  requestedScopes : List String
  codeVerifier : Option String
  nonce : Option String
  createdAt : String
  expiresAt : String
  consumedAt : Option String

/-- `JSON.parse(JSON.stringify(metadata))`; `none` where `stringify` throws. -/
abbrev Json (M : Type) := M → Option M

def subjectThroughJson (json : Json M) : OAuthStoredSubject M → Option (OAuthStoredSubject M)
  | .connection tenantId userId connectionId => some (.connection tenantId userId connectionId)
  | .browserAuth intentId tenantId regionId returnTo none =>
    some (.browserAuth intentId tenantId regionId returnTo none)
  | .browserAuth intentId tenantId regionId returnTo (some metadata) =>
    (json metadata).map fun parsed => .browserAuth intentId tenantId regionId returnTo (some parsed)

def rowOf (record : OAuthStateRecord M) (subject payload : OAuthStoredSubject M) : StateRow M where
  stateId := record.stateId
  providerId := record.providerId
  subjectKind := subject.kind
  subjectKey := getOAuthSubjectKey subject
  subjectPayload := payload
  redirectUri := record.redirectUri
  requestedScopes := record.requestedScopes
  codeVerifier := record.codeVerifier
  nonce := record.nonce
  createdAt := record.createdAt
  expiresAt := record.expiresAt
  consumedAt := record.consumedAt

def mapStateRecordToRow (json : Json M) (record : OAuthStateRecord M) :
    Except StoreError (StateRow M) :=
  match resolveOAuthStoredSubject record with
  | .error error => .error error
  | .ok subject =>
    match subjectThroughJson json subject with
    | none => .error .notSerializable
    | some payload => .ok (rowOf (withSubject record subject) subject payload)

def mapStateRowToRecord (row : StateRow M) : Except StoreError (OAuthStateRecord M) :=
  match validateOAuthStoredSubject row.subjectPayload with
  | .error error => .error error
  | .ok () =>
    applySubjectToStateRecord
      { stateId := row.stateId, providerId := row.providerId, redirectUri := row.redirectUri,
        requestedScopes := row.requestedScopes, subject := some row.subjectPayload,
        tenantId := none, userId := none, connectionId := none, intentId := none,
        regionId := none, returnTo := none, metadata := none, codeVerifier := row.codeVerifier,
        nonce := row.nonce, createdAt := row.createdAt, expiresAt := row.expiresAt,
        consumedAt := row.consumedAt }

namespace DbAdapterOAuthStateStore

abbrev Rows (M : Type) := OMap String (StateRow M)

variable (json : Json M) (adapter : Chooser (StateRow M))

def put (rows : Rows M) (record : OAuthStateRecord M) : Rows M × Answer M :=
  match validateOAuthStateRecord record with
  | .error error => (rows, .refused error)
  | .ok () =>
    match mapStateRecordToRow json record with
    | .error error => (rows, .refused error)
    | .ok row => (upsert StateRow.stateId row rows, .stored)

def get (rows : Rows M) (stateId : String) : Answer M :=
  match findOne adapter (fun row => decide (row.stateId = stateId)) rows with
  | none => .found none
  | some row => foundOr (mapStateRowToRecord row)

/-- `consumed_at eq null` and `expires_at gt consumedAt` -/
def consumable (row : StateRow M) (consumedAt : String) : Bool :=
  row.consumedAt.isNone && columnBefore consumedAt row.expiresAt

def consume (rows : Rows M) (stateId : String) (consumedAt : String) : Rows M × Answer M :=
  match update StateRow.stateId adapter
      (fun row => decide (row.stateId = stateId) && consumable row consumedAt)
      (fun row => { row with consumedAt := some consumedAt }) rows with
  | none => (rows, .found none)
  | some (updated, rows') => (rows', foundOr (mapStateRowToRecord updated))

def deleteExpired (rows : Rows M) (before : String) : Rows M × Answer M :=
  let gone : StateRow M → Bool := fun row => columnBefore row.expiresAt before
  (deleteMany gone rows, .deleted (countWhere gone rows))

def answer (rows : Rows M) : Call M → Rows M × Answer M
  | .put record => put json rows record
  | .get stateId => (rows, get adapter rows stateId)
  | .consume stateId consumedAt => consume adapter rows stateId consumedAt.text
  | .deleteExpired before => deleteExpired rows before.text

end DbAdapterOAuthStateStore

end SuperFunctions.Oauth.StateStores
