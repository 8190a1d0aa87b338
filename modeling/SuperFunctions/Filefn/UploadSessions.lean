import SuperFunctions.Filefn.Storage

/-!
# Upload sessions and file deletion

The calls of the upload session service and `deleteFile`. Each call of the database, the storage or
the quota provider is one step; between two steps of a call any other call may take its own, and a
call that takes no further step has crashed where it stands.
-/
namespace SuperFunctions.Filefn.UploadSessions

open Lib.Processes (System Act act)
open Storage

inductive FileFnError
  | sessionNotFound
  | forbidden
  | sessionTokenRequired
  | sessionTokenInvalid
  | uploadAborted
  | uploadAlreadyCompleted
  | uploadExpired
  | uploadIncomplete
  | uploadSizeMismatch (expected actual : Nat)
  | quotaExceeded
  | invalidPartNumber
  | invalidEtag
  | partConflict
  | noSupportedUploadMode
  | notFound
  /-- Anything that is not a `FileFnError`: what the database, the storage and the providers throw. -/
  | other
deriving DecidableEq

/-- Who calls, and with which token. -/
structure Caller where
  principalId : Option String
  tenantId : Option String
  uploadSessionToken : Option String
deriving DecidableEq

inductive Request
  | completeSession (uploadSessionId : String) (caller : Caller)
  | abortSession (uploadSessionId : String) (caller : Caller)
  | uploadPartBytes (uploadSessionId : String) (partNumber : Nat) (body : Bytes) (caller : Caller)
  | completePart (uploadSessionId : String) (partNumber : Nat) (etag : String) (size : Nat)
      (caller : Caller)
  | cleanupExpiredSessions
  | deleteFile (fileId : String) (caller : Caller)
  /-- A client puts a part to its signed URL. -/
  | putStoredPart (uploadId : String) (part : StoredPart)
deriving DecidableEq

/-- What the completion knows of the bytes that were uploaded: the key they are found under, and
with deduplication their sum and themselves. -/
structure Upload where
  storageKey : String
  checksumSha256Base64 : Option String
  content : Option Bytes
deriving DecidableEq

/-- What a completion does next after its checks, until the session is marked. -/
inductive Stage
  | completeMultipart (parts : List UploadPart)
  | openUpload (parts : List UploadPart)
  | stitch (parts rest : List UploadPart) (stitched : Bytes)
  | dropParts (rest : List UploadPart)
  | stat
  | hash
  | findDuplicates (checksum : String) (content : Bytes)
  | resolveDuplicates (checksum : String) (content : Bytes) (rest : List FileVersionRecord)
  | dropUpload (upload : Upload)
  | findFile (upload : Upload)
  | writeFile (upload : Upload) (fileId versionId : String) (existing : Bool)
  | createVersion (upload : Upload) (fileId versionId : String)
  | markCompleted (fileId versionId : String)
deriving DecidableEq

inductive ClosingStage
  | deletePartRows
  | recordUsage
  | triggerProcessing
deriving DecidableEq

inductive DiscardStage
  | abortMultipart
  | readParts
  | dropParts (rest : List UploadPart)
  | deleteRows
deriving DecidableEq

/-- What a deletion has read of its file. -/
structure Doomed where
  file : FileRecord
  versions : List FileVersionRecord
  artifacts : List FileArtifactRecord
deriving DecidableEq

/-- The call that gives up a session, with the sessions it turns to afterwards. -/
inductive Discarder
  | abortSession
  | cleanup (rest : List UploadSession)
  | deletion (doomed : Doomed) (rest : List UploadSession)
deriving DecidableEq

inductive DeletionStage
  | readVersions (file : FileRecord)
  | readArtifacts (file : FileRecord) (versions : List FileVersionRecord)
  | readSessions (doomed : Doomed)
  | scanVersions (doomed : Doomed)
  | scanFiles (doomed : Doomed) (versions : List FileVersionRecord)
  | scanArtifacts (doomed : Doomed) (versions : List FileVersionRecord) (files : List FileRecord)
  | dropArtifactRows (doomed : Doomed) (refs : List Ref)
  | dropVersionRows (doomed : Doomed) (refs : List Ref)
  | dropSessions (doomed : Doomed) (refs : List Ref)
  | dropFile (doomed : Doomed) (refs : List Ref)
  | dropObjects (doomed : Doomed) (rest : List Ref) (freed : Nat)
  | recordUsage (doomed : Doomed) (freed : Nat)
deriving DecidableEq

/-- What a call does next. -/
inductive Phase
  | entered
  /-- A completed session that names no version. -/
  | legacyFile (fileId : String)
  | readParts (session : UploadSession)
  | checkQuota (session : UploadSession) (parts : List UploadPart)
  | checkWrite (session : UploadSession) (parts : List UploadPart)
  | completing (session : UploadSession) (stage : Stage)
  | closing (session : UploadSession) (fileId versionId : String) (stage : ClosingStage)
  | completed (fileId versionId : String)
  | findPart (session : UploadSession)
  | writePart (session : UploadSession)
  | createPart (session : UploadSession)
  | markInProgress (session : UploadSession)
  | discarding (session : UploadSession) (discarder : Discarder) (stage : DiscardStage)
  | markAborted (session : UploadSession)
  | deleteSession (session : UploadSession) (rest : List UploadSession)
  | deleting (stage : DeletionStage)
  | finished
  | threw (error : FileFnError)
deriving DecidableEq

structure Call where
  request : Request
  phase : Phase
deriving DecidableEq

/-- What the surroundings contribute to a step: the clock, whether what is called throws, the
answers of the quota provider and the authorizer, and the ids that are generated. -/
structure Choice where
  now : Int
  fails : Bool
  allowed : Bool
  authorized : Bool
  fileId : String
  versionId : String

variable (config : Config)

section Access

/-- `value` is absent or empty. -/
def isFalsy (value : Option String) : Bool := value = none || value = some ""

def assertSessionAccess (session : UploadSession) (caller : Caller) : Except FileFnError Unit :=
  if session.ownerId = "" then .ok ()
  else if session.ownerId ≠ "anonymous" then
    if isFalsy caller.principalId || caller.principalId ≠ some session.ownerId then
      .error .forbidden
    else if session.tenantId ≠ caller.tenantId then .error .forbidden
    else .ok ()
  else match caller.uploadSessionToken, session.uploadSessionTokenHash with
    | some token, some tokenHash =>
      if token = "" ∨ tokenHash = "" then .error .sessionTokenRequired
      else if config.hashUploadSessionToken token ≠ tokenHash then .error .sessionTokenInvalid
      else .ok ()
    | _, _ => .error .sessionTokenRequired

def isExpiredAt (expiresAt now : Int) : Bool := expiresAt ≤ now

/-- Reads the session and checks the access; what follows depends on the operation. -/
def withSession (store : Store) (uploadSessionId : String) (caller : Caller)
    (next : UploadSession → Phase) : Phase :=
  match store.findSession uploadSessionId with
  | none => .threw .sessionNotFound
  | some session =>
    match assertSessionAccess config session caller with
    | .error error => .threw error
    | .ok () => next session

end Access

section CompleteSession

/-- The first check of a completion. A completed session answers with the version it has. -/
def checkStatus (session : UploadSession) (now : Int) : Phase :=
  match session.status with
  | .aborted => .threw .uploadAborted
  | .completed =>
    if !isFalsy session.fileId && !isFalsy session.completionVersionId then
      .completed (session.fileId.getD "") (session.completionVersionId.getD "")
    else .legacyFile (session.fileId.getD "")
  | _ => if isExpiredAt session.expiresAt now then .threw .uploadExpired else .readParts session

/-- The step after the checks, by the mode of the session. -/
def startCompletion (session : UploadSession) (parts : List UploadPart) : Phase :=
  if session.uploadMode = .multipartSignedUrl ∧
      config.multipart (config.policyStorageTarget session) = true ∧
      config.multipartMethods = true ∧ session.storageUploadId.isSome = true then
    .completing session (.completeMultipart parts)
  else if session.uploadMode = .proxy then
    if config.streams then .completing session (.openUpload parts) else .threw .other
  else .completing session .stat

def byPartNumber (parts : List UploadPart) : List UploadPart :=
  parts.insertionSort fun a b => a.partNumber ≤ b.partNumber

/-- The bytes of a multipart upload, when every part that is listed is there under its etag. -/
def assemble (stored : List StoredPart) : List UploadPart → Option Bytes
  | [] => some []
  | part :: rest =>
    (stored.find? fun s => s.partNumber = part.partNumber ∧ s.etag = part.etag).bind fun s =>
      (assemble stored rest).map fun bytes => s.bytes ++ bytes

/-- The versions that have the same sum and tenant, in the order of the table. -/
def sameChecksum (store : Store) (session : UploadSession) (checksum : String) :
    List FileVersionRecord :=
  store.versions.filter fun version =>
    version.checksumSha256Base64 = some checksum ∧ version.tenantId = session.tenantId

/-- After the sum was looked up: the upload itself, or a version that holds the same. -/
def useDuplicate (session : UploadSession) (checksum : String) (content : Bytes)
    (found : Option FileVersionRecord) : Stage :=
  match found with
  | none => .findFile ⟨session.storageKey, some checksum, some content⟩
  | some version =>
    if version.storageKey = "" then .findFile ⟨session.storageKey, some checksum, some content⟩
    else if version.storageKey = session.storageKey then
      .findFile ⟨version.storageKey, some checksum, some content⟩
    else .dropUpload ⟨version.storageKey, some checksum, some content⟩

/-- The file that a first completion creates. -/
def newFile (session : UploadSession) (fileId versionId : String) : FileRecord where
  fileId := fileId
  currentVersionId := versionId
  ownerId := session.ownerId
  tenantId := session.tenantId
  policy := session.policy
  mimeType := session.mimeType
  size := session.size
  name := session.fileName

def newVersion (session : UploadSession) (upload : Upload) (fileId versionId : String) :
    FileVersionRecord where
  versionId := versionId
  fileId := fileId
  storageKey := upload.storageKey
  mimeType := session.mimeType
  size := session.size
  checksumSha256Base64 := upload.checksumSha256Base64
  tenantId := session.tenantId

/-- A stage of the completion. -/
def complete (store : Store) (session : UploadSession) (stage : Stage) (c : Choice) :
    Write × Phase :=
  match stage with
  | .completeMultipart parts =>
    match c.fails, session.storageUploadId.bind fun uploadId =>
        (store.uploads uploadId).bind fun stored =>
          (assemble stored (byPartNumber parts)).map fun bytes => (uploadId, bytes) with
    | false, some (uploadId, bytes) =>
      (.completeUpload uploadId (config.uploadRef session) bytes, .completing session .stat)
    | _, _ => (.nothing, .threw .other)
  | .openUpload parts =>
    if c.fails then (.nothing, .threw .other)
    else (.putObject (config.uploadRef session) [],
      .completing session (.stitch (byPartNumber parts) (byPartNumber parts) []))
  | .stitch parts [] _ =>
    (.nothing, if c.fails then .threw .other else .completing session (.dropParts parts))
  | .stitch parts (part :: rest) stitched =>
    match c.fails, store.objects (config.partRef session part.partNumber) with
    | false, some bytes => (.putObject (config.uploadRef session) (stitched ++ bytes),
        .completing session (.stitch parts rest (stitched ++ bytes)))
    | _, _ => (.nothing, .threw .other)
  | .dropParts [] => (.nothing, .completing session .stat)
  | .dropParts (part :: rest) =>
    (if c.fails then .nothing else .deleteObject (config.partRef session part.partNumber),
      .completing session (.dropParts rest))
  | .stat =>
    let next : Stage := if config.dedup then .hash else .findFile ⟨session.storageKey, none, none⟩
    match c.fails, store.objects (config.uploadRef session) with
    | false, some bytes =>
      if bytes.length ≠ session.size then
        (.nothing, .threw (.uploadSizeMismatch session.size bytes.length))
      else (.nothing, .completing session next)
    | _, _ => (.nothing, .completing session next)
  | .hash =>
    match c.fails || !config.streams, store.objects (config.uploadRef session) with
    | false, some bytes =>
      (.nothing, .completing session (.findDuplicates (config.sha256Base64 bytes) bytes))
    | _, _ => (.nothing, .threw .other)
  | .findDuplicates checksum content =>
    if c.fails then (.nothing, .threw .other)
    else match config.policyStorageTarget session with
      | none => (.nothing, .completing session (useDuplicate session checksum content
          (sameChecksum store session checksum).head?))
      | some _ => (.nothing, .completing session (.resolveDuplicates checksum content
          (sameChecksum store session checksum)))
  | .resolveDuplicates checksum content [] =>
    (.nothing, .completing session (useDuplicate session checksum content none))
  | .resolveDuplicates checksum content (version :: rest) =>
    if c.fails then (.nothing, .threw .other)
    else if config.policyStorageTarget session = some (config.fileTarget store version.fileId) then
      (.nothing, .completing session (useDuplicate session checksum content (some version)))
    else (.nothing, .completing session (.resolveDuplicates checksum content rest))
  | .dropUpload upload =>
    (if c.fails then .nothing else .deleteObject (config.uploadRef session),
      .completing session (.findFile upload))
  | .findFile upload =>
    if c.fails then (.nothing, .threw .other)
    else if isFalsy session.fileId then
      (.nothing, .completing session
        (.writeFile upload ("file_" ++ c.fileId) ("ver_" ++ c.versionId) false))
    else
      (.nothing, .completing session (.writeFile upload (session.fileId.getD "")
        ("ver_" ++ c.versionId) (store.findFile (session.fileId.getD "")).isSome))
  | .writeFile upload fileId versionId true =>
    if c.fails || (store.findFile fileId).isNone then (.nothing, .threw .other)
    else (.updateFile fileId versionId session.mimeType session.size,
      .completing session (.createVersion upload fileId versionId))
  | .writeFile upload fileId versionId false =>
    if c.fails || (store.findFile fileId).isSome then (.nothing, .threw .other)
    else (.createFile (newFile session fileId versionId),
      .completing session (.createVersion upload fileId versionId))
  | .createVersion upload fileId versionId =>
    if c.fails || store.versions.any (·.versionId = versionId) then (.nothing, .threw .other)
    else (.createVersion ⟨session.uploadSessionId, newVersion session upload fileId versionId,
        upload.content.getD ((store.objects (config.uploadRef session)).getD [])⟩,
      .completing session (.markCompleted fileId versionId))
  | .markCompleted fileId versionId =>
    if c.fails || (store.findSession session.uploadSessionId).isNone then (.nothing, .threw .other)
    else (.setCompleted session.uploadSessionId fileId versionId,
      .closing session fileId versionId .deletePartRows)

/-- What follows once the session is marked. -/
def close (session : UploadSession) (caller : Caller) (fileId versionId : String)
    (stage : ClosingStage) (c : Choice) : Write × Phase :=
  if c.fails then (.nothing, .threw .other)
  else match stage with
    | .deletePartRows => (.deleteParts session.uploadSessionId,
        .closing session fileId versionId (if config.quota then .recordUsage else .triggerProcessing))
    | .recordUsage =>
      (.recordUsage ⟨some session.uploadSessionId, caller.principalId, caller.tenantId, session.size⟩,
        .closing session fileId versionId .triggerProcessing)
    | .triggerProcessing => (.nothing, .completed fileId versionId)

def completeSession (store : Store) (uploadSessionId : String) (caller : Caller) (phase : Phase)
    (c : Choice) : Option (Write × Phase) :=
  match phase with
  | .entered => some (.nothing, if c.fails then .threw .other
      else withSession config store uploadSessionId caller fun session =>
        checkStatus session c.now)
  | .legacyFile fileId => some (.nothing, if c.fails then .threw .other
      else match store.findFile fileId with
        | some file => .completed file.fileId file.currentVersionId
        | none => .threw .uploadAlreadyCompleted)
  | .readParts session => some (.nothing, if c.fails then .threw .other
      else if (store.partsOf uploadSessionId).length ≠ session.totalParts then
        .threw .uploadIncomplete
      else .checkQuota session (store.partsOf uploadSessionId))
  | .checkQuota session parts => some (.nothing, if !config.quota then .checkWrite session parts
      else if c.fails then .threw .other
      else if !c.allowed then .threw .quotaExceeded
      else .checkWrite session parts)
  | .checkWrite session parts => some (.nothing,
      if isFalsy session.fileId || !config.fileWriteChecker then startCompletion config session parts
      else if c.fails then .threw .other
      else if !c.authorized then .threw .forbidden
      else startCompletion config session parts)
  | .completing session stage => some (complete config store session stage c)
  | .closing session fileId versionId stage =>
    some (close config session caller fileId versionId stage c)
  | _ => none

end CompleteSession

section Parts

/-- What a part upload brings: its bytes through the server, or what the client says of a part that
went to a signed URL. -/
inductive PartInput
  | bytes (body : Bytes)
  | reported (etag : String) (size : Nat)

def PartInput.etag : PartInput → String
  | .bytes body => "proxy-sha256-" ++ config.sha256Hex body
  | .reported etag _ => etag

def PartInput.size : PartInput → Nat
  | .bytes body => body.length
  | .reported _ size => size

/-- The checks of both part operations. -/
def checkPart (session : UploadSession) (partNumber : Nat) (input : PartInput) (now : Int) : Phase :=
  match session.status with
  | .aborted => .threw .uploadAborted
  | .completed => .threw .uploadAlreadyCompleted
  | _ =>
    if isExpiredAt session.expiresAt now then .threw .uploadExpired
    else if partNumber < 1 ∨ session.totalParts < partNumber then .threw .invalidPartNumber
    else match input with
      | .bytes _ =>
        if session.uploadMode ≠ .proxy then .threw .noSupportedUploadMode else .findPart session
      | .reported etag _ =>
        if Datafn.Core.trim etag = "" then .threw .invalidEtag else .findPart session

/-- `uploadPartBytes` and `completePart`. -/
def recordPart (store : Store) (uploadSessionId : String) (partNumber : Nat) (input : PartInput)
    (caller : Caller) (phase : Phase) (c : Choice) : Option (Write × Phase) :=
  match phase with
  | .entered => some (.nothing, if c.fails then .threw .other
      else withSession config store uploadSessionId caller fun session =>
        checkPart session partNumber input c.now)
  | .findPart session => some (.nothing, if c.fails then .threw .other
      else match store.findPart uploadSessionId partNumber with
        | some part =>
          if part.etag = input.etag config ∧ part.size = input.size then .finished
          else .threw .partConflict
        | none =>
          match input with
          | .bytes _ => if config.streams then .writePart session else .threw .other
          | .reported _ _ => .createPart session)
  | .writePart session =>
    match c.fails, input with
    | false, .bytes body =>
      some (.putObject (config.partRef session partNumber) body, .createPart session)
    | _, _ => some (.nothing, .threw .other)
  | .createPart session =>
    if c.fails || (store.findPart uploadSessionId partNumber).isSome then
      some (.nothing, .threw .other)
    else some (.createPart ⟨uploadSessionId, partNumber, input.etag config, input.size⟩,
      if session.status = .pending then .markInProgress session else .finished)
  | .markInProgress _ =>
    if c.fails || (store.findSession uploadSessionId).isNone then some (.nothing, .threw .other)
    else some (.setStatus uploadSessionId .in_progress, .finished)
  | _ => none

end Parts

section Discards

/-- The multipart upload of a session is aborted; `abortSession` asks for the capability first, and
errors are ignored. -/
def abortMultipart (session : UploadSession) (discarder : Discarder) (c : Choice) : Write :=
  let capable : Bool := match discarder with
    | .abortSession => config.multipart (config.policyStorageTarget session)
    | _ => true
  match capable && config.multipartMethods && !c.fails, session.storageUploadId with
  | true, some uploadId => .abortUpload uploadId
  | _, _ => .nothing

/-- What the discarder does once the rows of the parts are gone. -/
def afterDiscard (session : UploadSession) (discarder : Discarder) : Phase :=
  match discarder with
  | .abortSession => .markAborted session
  | .cleanup rest => .deleteSession session rest
  | .deletion doomed [] => .deleting (.scanVersions doomed)
  | .deletion doomed (next :: rest) => .discarding next (.deletion doomed rest) .abortMultipart

/-- One stage of giving up a session. The parts of a proxy upload are objects of their own. -/
def discardSession (store : Store) (session : UploadSession) (discarder : Discarder)
    (stage : DiscardStage) (c : Choice) : Write × Phase :=
  match stage with
  | .abortMultipart =>
    (abortMultipart config session discarder c, .discarding session discarder .readParts)
  | .readParts =>
    if c.fails then (.nothing, .threw .other)
    else if session.uploadMode = .proxy then
      (.nothing, .discarding session discarder (.dropParts (store.partsOf session.uploadSessionId)))
    else (.nothing, .discarding session discarder .deleteRows)
  | .dropParts [] => (.nothing, .discarding session discarder .deleteRows)
  | .dropParts (part :: rest) =>
    (if c.fails then .nothing else .deleteObject (config.partRef session part.partNumber),
      .discarding session discarder (.dropParts rest))
  | .deleteRows =>
    if c.fails then (.nothing, .threw .other)
    else (.deleteParts session.uploadSessionId, afterDiscard session discarder)

def abortSession (store : Store) (uploadSessionId : String) (caller : Caller) (phase : Phase)
    (c : Choice) : Option (Write × Phase) :=
  match phase with
  | .entered => some (.nothing, if c.fails then .threw .other
      else withSession config store uploadSessionId caller fun session =>
        if session.status = .completed then .threw .uploadAlreadyCompleted
        else .discarding session .abortSession .abortMultipart)
  | .discarding session discarder stage => some (discardSession config store session discarder stage c)
  | .markAborted session =>
    if c.fails || (store.findSession session.uploadSessionId).isNone then
      some (.nothing, .threw .other)
    else some (.setStatus session.uploadSessionId .aborted, .finished)
  | _ => none

def nextExpired : List UploadSession → Phase
  | [] => .finished
  | session :: rest => .discarding session (.cleanup rest) .abortMultipart

def cleanupExpiredSessions (store : Store) (phase : Phase) (c : Choice) : Option (Write × Phase) :=
  match phase with
  | .entered => some (.nothing, if c.fails then .threw .other
      else nextExpired (store.sessions.filter fun session =>
        session.expiresAt < c.now ∧ session.status ≠ .completed))
  | .discarding session discarder stage => some (discardSession config store session discarder stage c)
  | .deleteSession session rest =>
    if c.fails then some (.nothing, .threw .other)
    else some (.deleteSession session.uploadSessionId, nextExpired rest)
  | _ => none

end Discards

section DeleteFile

namespace Doomed

variable (doomed : Doomed)

def fileTarget : String := resolveStorageTarget (config.policies doomed.file.policy)

def artifactTarget : String := resolveArtifactStorageTarget (config.policies doomed.file.policy)

/-- The objects that the rows of the file refer to. -/
def candidates : List Ref :=
  ((doomed.versions.map fun version => Ref.mk (doomed.fileTarget config) version.storageKey) ++
    doomed.artifacts.map fun artifact =>
      Ref.mk (doomed.artifactTarget config) artifact.storageKey).eraseDups

/-- `versionBytesByStorageKey` -/
def bytesAt (ref : Ref) : Nat :=
  (doomed.versions.filter fun version =>
    Ref.mk (doomed.fileTarget config) version.storageKey = ref).foldl
      (fun bytes version => max bytes version.size) 0

/-- `policies?.get(policyByFileId.get(fileId) ?? '')` -/
def scannedPolicy (files : List FileRecord) (fileId : String) : Option Policy :=
  config.policies (((files.find? (·.fileId = fileId)).map (·.policy)).getD "")

/-- The candidates that no row of another file refers to. -/
def unreferenced (versions : List FileVersionRecord) (files : List FileRecord)
    (artifacts : List FileArtifactRecord) : List Ref :=
  (doomed.candidates config).filter fun ref =>
    !(versions.any fun version => version.fileId ≠ doomed.file.fileId &&
      Ref.mk (resolveStorageTarget (scannedPolicy config files version.fileId))
        version.storageKey = ref) &&
    !(artifacts.any fun artifact => artifact.fileId ≠ doomed.file.fileId &&
      Ref.mk (resolveArtifactStorageTarget (scannedPolicy config files artifact.fileId))
        artifact.storageKey = ref)

end Doomed

def afterSessions (doomed : Doomed) (sessions : List UploadSession) : Phase :=
  match sessions with
  | [] => .deleting (.scanVersions doomed)
  | session :: rest => .discarding session (.deletion doomed rest) .abortMultipart

/-- A stage of the deletion. Only the deletion of an object may fail without ending it. -/
def delete (store : Store) (stage : DeletionStage) (c : Choice) : Write × Phase :=
  match stage with
  | .dropObjects doomed [] freed =>
    (.nothing, if config.quota ∧ 0 < freed then .deleting (.recordUsage doomed freed) else .finished)
  | .dropObjects doomed (ref :: rest) freed =>
    if c.fails then (.nothing, .deleting (.dropObjects doomed rest freed))
    else (.deleteObject ref,
      .deleting (.dropObjects doomed rest (freed + doomed.bytesAt config ref)))
  | stage =>
    if c.fails then (.nothing, .threw .other)
    else match stage with
      | .readVersions file =>
        (.nothing, .deleting (.readArtifacts file (store.versionsOf file.fileId)))
      | .readArtifacts file versions =>
        (.nothing, .deleting (.readSessions ⟨file, versions, store.artifactsOf file.fileId⟩))
      | .readSessions doomed =>
        (.nothing, afterSessions doomed (store.sessions.filter (isOpenSessionOf doomed.file.fileId)))
      | .scanVersions doomed => (.nothing, .deleting
          (if doomed.candidates config = [] then .dropArtifactRows doomed []
          else .scanFiles doomed store.versions))
      | .scanFiles doomed versions =>
        (.nothing, .deleting (.scanArtifacts doomed versions store.files))
      | .scanArtifacts doomed versions files => (.nothing, .deleting (.dropArtifactRows doomed
          (doomed.unreferenced config versions files store.artifacts)))
      | .dropArtifactRows doomed refs =>
        (.deleteArtifacts doomed.file.fileId, .deleting (.dropVersionRows doomed refs))
      | .dropVersionRows doomed refs =>
        (.deleteVersions doomed.file.fileId, .deleting (.dropSessions doomed refs))
      | .dropSessions doomed refs =>
        (.deleteOpenSessions doomed.file.fileId, .deleting (.dropFile doomed refs))
      | .dropFile doomed refs =>
        (.deleteFile doomed.file.fileId, .deleting (.dropObjects doomed refs 0))
      | .recordUsage doomed freed =>
        (.recordUsage ⟨none, some doomed.file.ownerId, doomed.file.tenantId, -(freed : Int)⟩,
          .finished)
      | .dropObjects _ _ _ => (.nothing, .finished)

def deleteFile (store : Store) (fileId : String) (phase : Phase) (c : Choice) :
    Option (Write × Phase) :=
  match phase with
  | .entered => some (.nothing, if c.fails then .threw .other
      else match store.findFile fileId with
        | none => .threw .notFound
        | some file =>
          if !c.authorized then .threw .forbidden else .deleting (.readVersions file))
  | .discarding session discarder stage => some (discardSession config store session discarder stage c)
  | .deleting stage => some (delete config store stage c)
  | _ => none

end DeleteFile

/-- One step of a call: what it writes, and what it does next. -/
def next (store : Store) (call : Call) (c : Choice) : Option (Write × Phase) :=
  match call.request with
  | .completeSession uploadSessionId caller =>
    completeSession config store uploadSessionId caller call.phase c
  | .abortSession uploadSessionId caller =>
    abortSession config store uploadSessionId caller call.phase c
  | .uploadPartBytes uploadSessionId partNumber body caller =>
    recordPart config store uploadSessionId partNumber (.bytes body) caller call.phase c
  | .completePart uploadSessionId partNumber etag size caller =>
    recordPart config store uploadSessionId partNumber (.reported etag size) caller call.phase c
  | .cleanupExpiredSessions => cleanupExpiredSessions config store call.phase c
  | .deleteFile fileId _ => deleteFile config store fileId call.phase c
  | .putStoredPart uploadId part =>
    match call.phase with
    | .entered => some (.putStoredPart uploadId part, .finished)
    | _ => none

def step (store : Store) (_ : Nat) (call : Call) (c : Choice) : Option (Store × Call) :=
  (next config store call c).map fun (write, phase) =>
    (write.apply store, { call with phase := phase })

abbrev Deployment := System Store Call

def deploymentStep : Deployment → Act Request Choice → Option Deployment :=
  act (fun request => ⟨request, .entered⟩) (step config)

end SuperFunctions.Filefn.UploadSessions
