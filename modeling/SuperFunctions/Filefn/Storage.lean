import Mathlib.Data.List.Sort
import SuperFunctions.Datafn.Core.Value
import SuperFunctions.Lib.Processes

/-!
# Files, sessions and stored objects

The tables of the file service and the objects of its storage targets. A call reads them and then
makes one write, so a step of a call is a write and the phase that follows it.
-/
namespace SuperFunctions.Filefn.Storage

abbrev Bytes := List UInt8

structure Policy where
  storageTarget : Option String
  artifactStorageTarget : Option String

def DEFAULT_STORAGE_TARGET : String := "durable"

/-- `value || otherwise` -/
def orElse (value : Option String) (otherwise : String) : String :=
  match value with
  | some text => if text = "" then otherwise else text
  | none => otherwise

def resolveStorageTarget (policy : Option Policy) : String :=
  orElse (policy.bind (·.storageTarget)) DEFAULT_STORAGE_TARGET

def resolveArtifactStorageTarget (policy : Option Policy) : String :=
  orElse (policy.bind (·.artifactStorageTarget)) (resolveStorageTarget policy)

inductive SessionStatus
  | pending
  | in_progress
  | completed
  | aborted
  | expired
deriving DecidableEq

inductive UploadMode
  | multipartSignedUrl
  | proxy
deriving DecidableEq

structure UploadSession where
  uploadSessionId : String
  status : SessionStatus
  policy : String
  fileId : Option String
  fileName : String
  mimeType : String
  size : Nat
  uploadMode : UploadMode
  totalParts : Nat
  storageKey : String
  storageUploadId : Option String
  ownerId : String
  tenantId : Option String
  uploadSessionTokenHash : Option String
  completionVersionId : Option String
  expiresAt : Int
deriving DecidableEq

structure UploadPart where
  uploadSessionId : String
  partNumber : Nat
  etag : String
  size : Nat
deriving DecidableEq

structure FileRecord where
  fileId : String
  currentVersionId : String
  ownerId : String
  tenantId : Option String
  policy : String
  mimeType : String
  size : Nat
  name : String
deriving DecidableEq

structure FileVersionRecord where
  versionId : String
  fileId : String
  storageKey : String
  mimeType : String
  size : Nat
  checksumSha256Base64 : Option String
  tenantId : Option String
deriving DecidableEq

structure FileArtifactRecord where
  artifactId : String
  fileId : String
  versionId : String
  kind : String
  storageKey : String
deriving DecidableEq

/-- A storage target and a key in it. -/
structure Ref where
  target : String
  key : String
deriving DecidableEq

/-- A part that a client has put to a signed URL. -/
structure StoredPart where
  partNumber : Nat
  etag : String
  bytes : Bytes
deriving DecidableEq

/-- The version a session has yielded, with the content that was uploaded for it. -/
structure Creation where
  uploadSessionId : String
  version : FileVersionRecord
  content : Bytes

/-- A call of `recordUsage`, with the session it was made for. -/
structure UsageRecord where
  uploadSessionId : Option String
  principalId : Option String
  tenantId : Option String
  bytes : Int

/-- The tables, the objects and the open multipart uploads of the storage, and the usage recorded
with the quota provider. `created` is a history: no call reads it. -/
structure Store where
  files : List FileRecord
  versions : List FileVersionRecord
  artifacts : List FileArtifactRecord
  sessions : List UploadSession
  parts : List UploadPart
  objects : Ref → Option Bytes
  uploads : String → Option (List StoredPart)
  usage : List UsageRecord
  created : List Creation

inductive Write
  | nothing
  | putObject (ref : Ref) (bytes : Bytes)
  | deleteObject (ref : Ref)
  | putStoredPart (uploadId : String) (part : StoredPart)
  | completeUpload (uploadId : String) (ref : Ref) (bytes : Bytes)
  | abortUpload (uploadId : String)
  | createPart (part : UploadPart)
  | deleteParts (uploadSessionId : String)
  | setStatus (uploadSessionId : String) (status : SessionStatus)
  | setCompleted (uploadSessionId fileId versionId : String)
  | deleteSession (uploadSessionId : String)
  | deleteOpenSessions (fileId : String)
  | createFile (file : FileRecord)
  | updateFile (fileId versionId mimeType : String) (size : Nat)
  | deleteFile (fileId : String)
  | createVersion (creation : Creation)
  | deleteVersions (fileId : String)
  | deleteArtifacts (fileId : String)
  | recordUsage (record : UsageRecord)

namespace Store

def findSession (store : Store) (uploadSessionId : String) : Option UploadSession :=
  store.sessions.find? (·.uploadSessionId = uploadSessionId)

def findFile (store : Store) (fileId : String) : Option FileRecord :=
  store.files.find? (·.fileId = fileId)

def partsOf (store : Store) (uploadSessionId : String) : List UploadPart :=
  store.parts.filter (·.uploadSessionId = uploadSessionId)

def findPart (store : Store) (uploadSessionId : String) (partNumber : Nat) : Option UploadPart :=
  store.parts.find? fun part =>
    part.uploadSessionId = uploadSessionId ∧ part.partNumber = partNumber

def versionsOf (store : Store) (fileId : String) : List FileVersionRecord :=
  store.versions.filter (·.fileId = fileId)

def artifactsOf (store : Store) (fileId : String) : List FileArtifactRecord :=
  store.artifacts.filter (·.fileId = fileId)

def updateSession (store : Store) (uploadSessionId : String)
    (change : UploadSession → UploadSession) : Store :=
  { store with sessions := store.sessions.map fun session =>
      if session.uploadSessionId = uploadSessionId then change session else session }

end Store

/-- The session is not completed and belongs to the file. -/
def isOpenSessionOf (fileId : String) (session : UploadSession) : Bool :=
  session.fileId = some fileId && session.status ≠ .completed

def Write.apply (store : Store) : Write → Store
  | .nothing => store
  | .putObject ref bytes =>
    { store with objects := Function.update store.objects ref (some bytes) }
  | .deleteObject ref => { store with objects := Function.update store.objects ref none }
  | .putStoredPart uploadId part => { store with
      uploads := Function.update store.uploads uploadId
        ((store.uploads uploadId).map fun parts =>
          parts.filter (·.partNumber ≠ part.partNumber) ++ [part]) }
  | .completeUpload uploadId ref bytes => { store with
      objects := Function.update store.objects ref (some bytes)
      uploads := Function.update store.uploads uploadId none }
  | .abortUpload uploadId => { store with uploads := Function.update store.uploads uploadId none }
  | .createPart part => { store with parts := store.parts ++ [part] }
  | .deleteParts uploadSessionId => { store with
      parts := store.parts.filter (·.uploadSessionId ≠ uploadSessionId) }
  | .setStatus uploadSessionId status => store.updateSession uploadSessionId fun session =>
      { session with status := status }
  | .setCompleted uploadSessionId fileId versionId =>
    store.updateSession uploadSessionId fun session => { session with
      status := .completed, fileId := some fileId, completionVersionId := some versionId }
  | .deleteSession uploadSessionId => { store with
      sessions := store.sessions.filter (·.uploadSessionId ≠ uploadSessionId) }
  | .deleteOpenSessions fileId => { store with
      sessions := store.sessions.filter fun session => !isOpenSessionOf fileId session }
  | .createFile file => { store with files := store.files ++ [file] }
  | .updateFile fileId versionId mimeType size => { store with
      files := store.files.map fun file =>
        if file.fileId = fileId then
          { file with currentVersionId := versionId, mimeType := mimeType, size := size }
        else file }
  | .deleteFile fileId => { store with files := store.files.filter (·.fileId ≠ fileId) }
  | .createVersion creation => { store with
      versions := store.versions ++ [creation.version]
      created := store.created ++ [creation] }
  | .deleteVersions fileId => { store with
      versions := store.versions.filter (·.fileId ≠ fileId) }
  | .deleteArtifacts fileId => { store with
      artifacts := store.artifacts.filter (·.fileId ≠ fileId) }
  | .recordUsage record => { store with usage := store.usage ++ [record] }

/-- What the service is configured with. The two digests and the hash of session tokens are those
of the platform. -/
structure Config where
  policies : String → Option Policy
  /-- The target of a storage call that names none. -/
  defaultTarget : String
  /-- `getStorageCapabilities(storage, target).multipart` -/
  multipart : Option String → Bool
  /-- The adapter completes and aborts multipart uploads. -/
  multipartMethods : Bool
  /-- The adapter opens upload and download streams. -/
  streams : Bool
  dedup : Bool
  quota : Bool
  fileWriteChecker : Bool
  sha256Base64 : Bytes → String
  sha256Hex : Bytes → String
  hashUploadSessionToken : String → String

namespace Config

variable (config : Config)

/-- `policy ? resolveStorageTarget(policy) : undefined` -/
def policyStorageTarget (session : UploadSession) : Option String :=
  (config.policies session.policy).map fun policy => resolveStorageTarget (some policy)

/-- Where a call with this key and target goes. -/
def ref (target : Option String) (key : String) : Ref := ⟨target.getD config.defaultTarget, key⟩

def proxyPartKey (storageKey : String) (partNumber : Nat) : String :=
  storageKey ++ ".part" ++ toString partNumber

/-- Where the upload of a session ends up. -/
def uploadRef (session : UploadSession) : Ref :=
  config.ref (config.policyStorageTarget session) session.storageKey

def partRef (session : UploadSession) (partNumber : Nat) : Ref :=
  config.ref (config.policyStorageTarget session) (proxyPartKey session.storageKey partNumber)

/-- The target of a file, as every reader of its versions computes it. -/
def fileTarget (store : Store) (fileId : String) : String :=
  resolveStorageTarget ((store.findFile fileId).bind fun file => config.policies file.policy)

end Config

end SuperFunctions.Filefn.Storage
