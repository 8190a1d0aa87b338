import SuperFunctions.Lib.OrderedMap
import SuperFunctions.Mdfn.RemoteUpdates

/-!
# The document service

Documents, their versions and the receipts of idempotent requests. A request reads, waits for the
host's authorization and writes in a transaction; other requests go on between any two of its
accesses to the database. What a transaction reads may be out of date when it commits; its writes
take effect together.
-/
namespace SuperFunctions.Mdfn.DocumentService

open Lib.OrderedMap Lib.KeyedTables Lib.Utf16
open RemoteUpdates (protectedSidecar)

/-! ## Records -/

structure Principal where
  id : String
  tenantId : Option String

structure DocumentRecord where
  id : String
  collaborationGeneration : Nat
  ownerId : String
  tenantId : Option String
  title : Option String
  markdown : Text
  sourceHash : String
  schemaHash : String
  sidecar : Option MdfnSidecar
  version : Nat
deriving DecidableEq

/-- A row of the history: the document as it was, who wrote it and why. -/
structure VersionRecord where
  document : DocumentRecord
  authorId : String
  changeSource : String

structure Receipt where
  documentId : String
  idempotencyKey : String
  operation : String
  payloadHash : String
  result : DocumentRecord

/-- What tells a document from one that was created under its id after it was deleted. -/
structure Incarnation where
  ownerId : String
  tenantId : Option String
  collaborationGeneration : Nat
deriving DecidableEq

def DocumentRecord.incarnation (document : DocumentRecord) : Incarnation :=
  ⟨document.ownerId, document.tenantId, document.collaborationGeneration⟩

/-! ## Requests -/

structure CreateInput where
  title : Option String
  markdown : Text
  sidecar : Option MdfnSidecar

structure UpdateInput where
  expectedVersion : Nat
  markdown : Option Text
  title : Option String
  sidecar : Option MdfnSidecar
  changeSource : Option String
  idempotencyKey : Option String

/-- The part of a version that `restoreVersion` brings back. -/
structure RestoreSnapshot where
  title : Option String
  markdown : Text
  sidecar : Option MdfnSidecar

structure RestoreInput where
  version : Nat
  expectedVersion : Nat
  idempotencyKey : Option String

/-- An editorial request; `mutate` throws where it gives nothing. -/
structure Editorial where
  expectedVersion : Nat
  changeSource : String
  idempotencyKey : Option String
  payloadHash : String
  mutate : DocumentRecord → Option (Option Text × MdfnSidecar)

structure WriteUpdateOptions where
  trustedEditorial : Bool
  restoreSnapshot : Option RestoreSnapshot
  operation : String
  payloadHash : String

/-- A call of `writeUpdate`, and the documents that its caller was authorized for before. -/
structure Write where
  input : UpdateInput
  options : WriteUpdateOptions
  seen : List DocumentRecord

/-- The functions of the service that depend on a content or a request alone. -/
structure Service where
  schemaHash : String
  hashString : Text → String
  parses : Text → Option MdfnSidecar → Bool
  titleFits : String → Bool
  mapSidecar : MdfnSidecar → Text → Text → MdfnSidecar
  hashUpdate : UpdateInput → String
  hashRestore : RestoreInput → String

/-- An empty key counts as none. -/
def givenKey (key : Option String) : Option String := key.filter (· ≠ "")

def Service.mapForMarkdownChange (service : Service) (sidecar : Option MdfnSidecar)
    (previous next : Text) : Option MdfnSidecar :=
  if previous = next then sidecar else sidecar.map fun value => service.mapSidecar value previous next

/-- The sidecar of the next version. -/
def nextSidecar (input : UpdateInput) (options : WriteUpdateOptions)
    (mapped : Option MdfnSidecar) : Option MdfnSidecar :=
  match options.restoreSnapshot, input.sidecar with
  | some snapshot, _ => snapshot.sidecar
  | none, none => mapped
  | none, some sidecar =>
    if options.trustedEditorial then some sidecar
    else some { sidecar with
      comments := mapped.bind (·.comments)
      suggestions := mapped.bind (·.suggestions)
      reviewState := mapped.bind (·.reviewState)
      audit := mapped.bind (·.audit) }

/-- The checks of `writeUpdate` and the document it will write. -/
def nextDocument (service : Service) (current : DocumentRecord) (input : UpdateInput)
    (options : WriteUpdateOptions) : Except String DocumentRecord := do
  if current.version ≠ input.expectedVersion then throw "MDFN_VERSION_CONFLICT"
  let markdown := ((options.restoreSnapshot.map (·.markdown)).or input.markdown).getD
    current.markdown
  if !options.trustedEditorial && input.sidecar.any fun sidecar =>
      protectedSidecar (some sidecar) ≠ protectedSidecar current.sidecar then
    throw "MDFN_EDITORIAL_MUTATION_FORBIDDEN"
  let mapped := service.mapForMarkdownChange current.sidecar current.markdown markdown
  let sidecar := nextSidecar input options mapped
  if !service.parses markdown sidecar then throw "MDFN_DOCUMENT_INVALID"
  let title := match options.restoreSnapshot with
    | some snapshot => snapshot.title
    | none => input.title.or current.title
  if !title.all service.titleFits then throw "MDFN_TITLE_TOO_LARGE"
  pure { current with
    title
    markdown
    sourceHash := service.hashString markdown
    schemaHash := service.schemaHash
    sidecar
    version := current.version + 1 }

/-! ## The database -/

/-- A write that was committed: what its caller was authorized for, what it replaced and by what. -/
structure Commit where
  task : Nat
  documentId : String
  expectedVersion : Nat
  idempotencyKey : Option String
  operation : String
  payloadHash : String
  authorized : List DocumentRecord
  before : DocumentRecord
  after : DocumentRecord

/-- A deletion of a document that was there. -/
structure Removal where
  authorized : DocumentRecord
  removed : DocumentRecord

/-- The tables under their unique keys, how many collaboration generations were created, and what was
committed, the last first. -/
structure Store where
  documents : OMap String DocumentRecord
  versions : OMap (String × Nat) VersionRecord
  receipts : OMap (String × String) Receipt
  generations : Nat
  commits : List Commit
  removals : List Removal

def Store.empty : Store := ⟨OMap.empty, OMap.empty, OMap.empty, 0, [], []⟩

def Principal.inScope (principal : Principal) (document : DocumentRecord) : Bool :=
  if (givenKey principal.tenantId).isSome then document.tenantId = principal.tenantId
  else document.tenantId = none && document.ownerId = principal.id

def loadScoped (documents : OMap String DocumentRecord) (principal : Principal) (id : String) :
    Except String DocumentRecord :=
  match documents.get id with
  | none => .error "MDFN_DOCUMENT_NOT_FOUND"
  | some document =>
    if principal.inScope document then .ok document else .error "MDFN_DOCUMENT_NOT_FOUND"

/-- The result to return in place of another write. -/
def replayReceipt (db : Store) (documentId : String) (key : Option String)
    (operation payloadHash : String) : Except String (Option DocumentRecord) :=
  match (givenKey key).bind fun key => db.receipts.get (documentId, key) with
  | none => .ok none
  | some receipt =>
    if receipt.operation ≠ operation ∨ receipt.payloadHash ≠ payloadHash then
      .error "MDFN_IDEMPOTENCY_KEY_REUSED"
    else .ok (some receipt.result)

def insertVersion (db : Store) (document : DocumentRecord) (authorId changeSource : String) :
    Except String Store :=
  if (db.versions.get (document.id, document.version)).isSome then .error "UNIQUE_VIOLATION"
  else .ok { db with
    versions := db.versions.set (document.id, document.version) ⟨document, authorId, changeSource⟩ }

def insertReceipt (db : Store) (receipt : Receipt) : Except String Store :=
  if (db.receipts.get (receipt.documentId, receipt.idempotencyKey)).isSome then
    .error "UNIQUE_VIOLATION"
  else .ok { db with
    receipts := db.receipts.set (receipt.documentId, receipt.idempotencyKey) receipt }

/-- The transaction of `create`, with a generation that was never created before. -/
def insertDocument (service : Service) (db : Store) (principal : Principal) (id : String)
    (input : CreateInput) : Except String (Store × DocumentRecord) := do
  let document : DocumentRecord := {
    id
    collaborationGeneration := db.generations
    ownerId := principal.id
    tenantId := principal.tenantId
    title := input.title
    markdown := input.markdown
    sourceHash := service.hashString input.markdown
    schemaHash := service.schemaHash
    sidecar := input.sidecar
    version := 1 }
  if (db.documents.get id).isSome then throw "UNIQUE_VIOLATION"
  let db ← insertVersion { db with
    documents := db.documents.set id document
    generations := db.generations + 1 } document principal.id "create"
  pure (db, document)

/-- The transaction of `delete`. -/
def removeDocument (db : Store) (id : String) (current : DocumentRecord) : Store :=
  { db with
    documents := db.documents.delete id
    versions := deleteMany (fun row => row.document.id = id) db.versions
    receipts := deleteMany (fun receipt => receipt.documentId = id) db.receipts
    removals := match db.documents.get id with
      | none => db.removals
      | some removed => ⟨current, removed⟩ :: db.removals }

/-- The writes of the transaction of `writeUpdate`. The update is of the row with the id and the
expected version, and an error if there is none. -/
def commitUpdate (db : Store) (task : Nat) (principal : Principal) (id : String) (w : Write)
    (current next : DocumentRecord) : Except String Store := do
  let some before := (db.documents.get id).filter (·.version = w.input.expectedVersion)
    | throw "NOT_FOUND"
  let key := givenKey w.input.idempotencyKey
  let db ← insertVersion { db with
    documents := db.documents.set id next
    commits := ⟨task, id, w.input.expectedVersion, key, w.options.operation, w.options.payloadHash,
      current :: w.seen, before, next⟩ :: db.commits }
    next principal.id (w.input.changeSource.getD "update")
  match key with
  | none => pure db
  | some key =>
    insertReceipt db ⟨id, key, w.options.operation, w.options.payloadHash, next⟩

/-! ## Tasks -/

/-- Where a request stands: what it does next, with what it has read. -/
inductive Phase
  | creating (input : CreateInput)
  | inserting (input : CreateInput)
  | removing
  | removingAuthorizing (current : DocumentRecord)
  | removingWriting (current : DocumentRecord)
  | editing (edit : Editorial)
  | editingAuthorizing (edit : Editorial) (current : DocumentRecord)
  | editingReplaying (edit : Editorial) (current : DocumentRecord)
  | restoring (input : RestoreInput)
  | restoringAuthorizing (input : RestoreInput) (current : DocumentRecord)
  | restoringReading (input : RestoreInput) (current : DocumentRecord)
  | loading (w : Write)
  | authorizing (w : Write) (current : DocumentRecord)
  | replaying (w : Write) (current : DocumentRecord)
  | checking (w : Write) (current next : DocumentRecord)
  | writing (w : Write) (current next : DocumentRecord)
  | written (w : Write) (result : DocumentRecord)
  | replayed (key : Option String) (operation payloadHash : String) (result : DocumentRecord)
  | created (document : DocumentRecord)
  | removed
  | failed (error : String)

structure Task where
  principal : Principal
  documentId : String
  phase : Phase

inductive Request
  | create (input : CreateInput)
  | update (input : UpdateInput)
  | editorial (edit : Editorial)
  | restoreVersion (input : RestoreInput)
  | delete

/-- A request that a principal makes about a document. -/
structure Call where
  principal : Principal
  documentId : String
  request : Request

section Steps

variable (service : Service)

def updateWrite (input : UpdateInput) : Write :=
  ⟨input, ⟨false, none, "document:update",
    service.hashUpdate { input with idempotencyKey := none }⟩, []⟩

def editorialWrite (edit : Editorial) (current : DocumentRecord) (markdown : Option Text)
    (sidecar : MdfnSidecar) : Write :=
  ⟨⟨edit.expectedVersion, markdown, none, some sidecar, some edit.changeSource,
    edit.idempotencyKey⟩, ⟨true, none, edit.changeSource, edit.payloadHash⟩, [current]⟩

def restoreWrite (input : RestoreInput) (current : DocumentRecord) (row : VersionRecord) : Write :=
  ⟨⟨input.expectedVersion, none, none, none, some ("restore:" ++ toString input.version),
    input.idempotencyKey⟩,
    ⟨true, some ⟨row.document.title, row.document.markdown, row.document.sidecar⟩,
      "document:restore", service.hashRestore input⟩, [current]⟩

def startTask (call : Call) : Task :=
  ⟨call.principal, call.documentId, match call.request with
    | .create input => .creating input
    | .update input => .loading (updateWrite service input)
    | .editorial edit => .editing edit
    | .restoreVersion input => .restoring input
    | .delete => .removing⟩

/-- The checks of `create`. -/
def checkCreate (id : String) (input : CreateInput) : Except String Unit := do
  if !service.parses input.markdown input.sidecar then throw "MDFN_DOCUMENT_INVALID"
  if !input.title.all service.titleFits then throw "MDFN_TITLE_TOO_LARGE"
  if id.toList.all Char.isWhitespace then throw "MDFN_DOCUMENT_ID_INVALID"
  if protectedSidecar input.sidecar ≠ protectedSidecar none then
    throw "MDFN_EDITORIAL_MUTATION_FORBIDDEN"

def mutateEditorial (edit : Editorial) (current : DocumentRecord) : Except String Write := do
  if current.version ≠ edit.expectedVersion then throw "MDFN_VERSION_CONFLICT"
  match edit.mutate current with
  | none => throw "MDFN_EDITORIAL_INVALID"
  | some (markdown, sidecar) => pure (editorialWrite edit current markdown sidecar)

def orFail (outcome : Except String Phase) : Phase :=
  match outcome with
  | .ok phase => phase
  | .error error => .failed error

def whenGranted (granted : Bool) (phase : Phase) : Phase :=
  if granted then phase else .failed "MDFN_FORBIDDEN"

/-- Reads a document in scope and goes on with it. -/
def loadThen (db : Store) (task : Task) (go : DocumentRecord → Phase) : Phase :=
  orFail ((loadScoped db.documents task.principal task.documentId).map go)

/-- Returns the result of the receipt, or goes on without one. -/
def replayThen (db : Store) (task : Task) (key : Option String) (operation payloadHash : String)
    (go : Phase) : Phase :=
  match replayReceipt db task.documentId key operation payloadHash with
  | .error error => .failed error
  | .ok (some result) => .replayed key operation payloadHash result
  | .ok none => go

/-- A step that only reads. -/
def readStep (db : Store) (task : Task) (granted : Bool) : Phase → Option Phase
  | .creating input => some (whenGranted granted
      (orFail ((checkCreate service task.documentId input).map fun _ => .inserting input)))
  | .removing => some (loadThen db task .removingAuthorizing)
  | .removingAuthorizing current => some (whenGranted granted (.removingWriting current))
  | .editing edit => some (loadThen db task (.editingAuthorizing edit))
  | .editingAuthorizing edit current =>
    some (whenGranted granted (.editingReplaying edit current))
  | .editingReplaying edit current =>
    some (replayThen db task edit.idempotencyKey edit.changeSource edit.payloadHash
      (orFail ((mutateEditorial edit current).map .loading)))
  | .restoring input => some (loadThen db task (.restoringAuthorizing input))
  | .restoringAuthorizing input current =>
    some (whenGranted granted (.restoringReading input current))
  | .restoringReading input current =>
    match db.versions.get (task.documentId, input.version) with
    | none => some (.failed "MDFN_VERSION_NOT_FOUND")
    | some row => some (.loading (restoreWrite service input current row))
  | .loading w => some (loadThen db task (.authorizing w))
  | .authorizing w current => some (whenGranted granted (.replaying w current))
  | .replaying w current =>
    some (replayThen db task w.input.idempotencyKey w.options.operation w.options.payloadHash
      (orFail ((nextDocument service current w.input w.options).map (.checking w current))))
  | .checking w current next =>
    -- the reads of the transaction
    some (replayThen db task w.input.idempotencyKey w.options.operation w.options.payloadHash
      (if (db.documents.get task.documentId).any (·.version = w.input.expectedVersion) then
        .writing w current next else .failed "MDFN_VERSION_CONFLICT"))
  | _ => none

/-- The next step of a task; a transaction that fails leaves the database as it was. -/
def next (db : Store) (i : Nat) (task : Task) (granted : Bool) : Option (Store × Task) :=
  match task.phase with
  | .inserting input =>
    match insertDocument service db task.principal task.documentId input with
    | .ok (db, document) => some (db, { task with phase := .created document })
    | .error error => some (db, { task with phase := .failed error })
  | .removingWriting current =>
    some (removeDocument db task.documentId current, { task with phase := .removed })
  | .writing w current document =>
    match commitUpdate db i task.principal task.documentId w current document with
    | .ok db => some (db, { task with phase := .written w document })
    | .error error => some (db, { task with phase := .failed error })
  | phase => (readStep service db task granted phase).map fun phase => (db, { task with phase })

def step : Lib.Processes.System Store Task → Lib.Processes.Act Call Bool →
    Option (Lib.Processes.System Store Task) :=
  Lib.Processes.act (startTask service) (next service)

end Steps

end SuperFunctions.Mdfn.DocumentService
