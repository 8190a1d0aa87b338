import Mathlib.Data.List.Lex
import SuperFunctions.Lib.Paging
import SuperFunctions.Mdfn.DocumentService

/-!
# The collaboration log of the server

Updates of a document are rows under increasing cursor keys, which a reader follows page by page.
A compaction replaces the rows whose updates its snapshot contains. Writers run in any number of
processes: a transaction allocates the key after the greatest one it sees, and starts again when the
key is taken at its commit.
-/
namespace SuperFunctions.Mdfn.CollaborationLog

open Lib.FixedWidth Lib.Keyset Lib.OrderedMap
open DocumentService (DocumentRecord Principal loadScoped)

/-! ## Cursor keys -/

abbrev Key := List Char

/-- `v2:` and twenty digits. -/
def encodeKey (sequence : Nat) : Key := 'v' :: '2' :: ':' :: fixedDigits 20 sequence

def keySequence (key : Key) : Option Nat :=
  ((literal 'v' key).bind (literal '2')).bind (literal ':') |>.bind fun rest =>
    (digits 20 rest).bind fun (value, rest) => if rest = [] then some value else none

def collaborationCursorKey (previousKey : Option Key) : Except String Key :=
  let found := previousKey.bind keySequence
  if found = none ∧ previousKey.any (fun key => ['v', '2', ':'].isPrefixOf key) then
    .error "MDFN_COLLAB_CURSOR_INVALID"
  else
    let sequence := found.getD 0 + 1
    if 10 ^ 20 ≤ sequence then .error "MDFN_COLLAB_CURSOR_EXHAUSTED"
    else .ok (encodeKey sequence)

/-! ## Rows -/

/-- The text of an update: its size, and the ids of the appended updates that are merged in it. -/
structure Update where
  bytes : Nat
  parts : List Nat

structure Row where
  id : Nat
  documentId : String
  documentGeneration : Nat
  authorId : String
  update : Update
  cursorKey : Key

/-- The row is in the log of that incarnation of the document. -/
def Row.isOf (documentId : String) (generation : Nat) (row : Row) : Bool :=
  row.documentId = documentId && row.documentGeneration = generation

/-- A row that a writer deleted, and the incarnation that the writer was authorized for. -/
structure Deletion where
  documentId : String
  generation : Nat
  row : Row

/-- The tables, how many generations and ids were created, every row that was ever inserted and the
rows that writers deleted. Of rows the last comes first. -/
structure Store where
  documents : OMap String DocumentRecord
  rows : List Row
  generations : Nat
  ids : Nat
  log : List Row
  deletions : List Deletion

def Store.empty : Store := ⟨OMap.empty, [], 0, 0, [], []⟩

/-- `maxCollaborationBatchUpdates` is at least one. -/
structure Limits where
  updateBytes : Nat
  batchBytes : Nat
  batchUpdates : Nat
  batchUpdates_pos : 0 < batchUpdates

/-! ## Reading -/

/-- The rows that still fit a batch. -/
def takeBytes (batchBytes : Nat) : Nat → List Row → List Row
  | _, [] => []
  | encodedBytes, row :: rows =>
    if batchBytes < encodedBytes + row.update.bytes then []
    else row :: takeBytes batchBytes (encodedBytes + row.update.bytes) rows

/-- The first row is in the batch whatever its size. -/
def includedRows (batchBytes : Nat) : List Row → List Row
  | [] => []
  | row :: rows => row :: takeBytes batchBytes row.update.bytes rows

/-- What a reader gets, and the incarnation and the rows it was made of. -/
structure Batch where
  updates : List Update
  includedUpdateIds : List Nat
  nextCursor : Option Key
  generation : Nat
  rows : List Row

/-- The rows of the incarnation after the cursor, by their keys. -/
def rowsFrom (db : Store) (documentId : String) (generation : Nat) (cursor : Option Key) :
    List Row :=
  sortByKey Row.cursorKey
    (rowsAfter Row.cursorKey cursor (db.rows.filter (Row.isOf documentId generation)))

def collaborationBatch (limits : Limits) (db : Store) (documentId : String) (generation : Nat)
    (cursor : Option Key) (requestedLimit : Nat) : Batch :=
  let limit := min limits.batchUpdates requestedLimit
  let rows := (rowsFrom db documentId generation cursor).take (limit + 1)
  let included := includedRows limits.batchBytes (rows.take limit)
  { updates := included.map (·.update)
    includedUpdateIds := included.map (·.id)
    nextCursor := if included.length < rows.length then included.getLast?.map (·.cursorKey)
      else none
    generation
    rows := included }

/-! ## Writing -/

inductive Write
  | append (bytes : Nat)
  | compact (snapshot : Update) (includedUpdateIds : List Nat)

def Write.bytes : Write → Nat
  | .append bytes => bytes
  | .compact snapshot _ => snapshot.bytes

/-- The update that the row with the id will hold. -/
def Write.update (id : Nat) : Write → Update
  | .append bytes => ⟨bytes, [id]⟩
  | .compact snapshot _ => snapshot

def Write.deletes : Write → List Nat
  | .append _ => []
  | .compact _ includedUpdateIds => includedUpdateIds

/-- `where documentId and documentGeneration order by cursorKey desc limit 1`. -/
def latestKey (db : Store) (documentId : String) (generation : Nat) : Option Key :=
  (sortByKey Row.cursorKey (db.rows.filter (Row.isOf documentId generation))).getLast?.map
    (·.cursorKey)

def keyTaken (rows : List Row) (documentId : String) (generation : Nat) (key : Key) : Bool :=
  rows.any fun row => row.isOf documentId generation && row.cursorKey = key

/-- Rows that the writer of an incarnation deletes. -/
def deleteRows (db : Store) (documentId : String) (generation : Nat) (p : Row → Bool) : Store :=
  let gone := fun row : Row => row.isOf documentId generation && p row
  { db with
    rows := db.rows.filter fun row => !gone row
    deletions := (db.rows.filter gone).map (⟨documentId, generation, ·⟩) ++ db.deletions }

def insertRow (db : Store) (row : Row) : Store :=
  { db with rows := row :: db.rows, ids := db.ids + 1, log := row :: db.log }

/-- The writes of the transaction: the rows named by a compaction go, the new one comes with an id
that was never created before. -/
def commitWrite (db : Store) (principal : Principal) (documentId : String) (generation : Nat)
    (write : Write) (key : Key) : Store :=
  insertRow (deleteRows db documentId generation fun row => write.deletes.contains row.id)
    ⟨db.ids, documentId, generation, principal.id, write.update db.ids, key⟩

/-! ## Tasks -/

/-- A reader: the rows that were there when it started, the incarnation of its first page, and its
batches, the last first. -/
structure Walk where
  known : List Row
  generation : Option Nat
  batches : List Batch

inductive Phase
  | inserting
  | removing
  | entering (write : Write)
  | loading (write : Write)
  | authorizing (write : Write) (generation : Nat)
  | reading (write : Write) (generation attempt : Nat)
  | committing (write : Write) (generation attempt : Nat) (key : Key)
  | verifying (generation : Nat)
  | cleaning (generation : Nat)
  | starting
  | pageLoading (walk : Walk) (cursor : Option Key)
  | pageAuthorizing (walk : Walk) (cursor : Option Key) (generation : Nat)
  | pageReading (walk : Walk) (cursor : Option Key) (generation : Nat)
  | walked (walk : Walk)
  | done
  | failed (error : String)

structure Task where
  principal : Principal
  documentId : String
  phase : Phase

inductive Request
  | create
  | delete
  | write (write : Write)
  | read

structure Call where
  principal : Principal
  documentId : String
  request : Request

/-- What the host answers, and how many updates a reader asks for. -/
structure Choice where
  granted : Bool
  limit : Nat

def startTask (call : Call) : Task :=
  ⟨call.principal, call.documentId, match call.request with
    | .create => .inserting
    | .delete => .removing
    | .write write => .entering write
    | .read => .starting⟩

/-- The document of a `create`, with a generation that was never created before. -/
def newDocument (db : Store) (principal : Principal) (id : String) : DocumentRecord where
  id := id
  collaborationGeneration := db.generations
  ownerId := principal.id
  tenantId := principal.tenantId
  title := none
  markdown := []
  sourceHash := ""
  schemaHash := ""
  sidecar := none
  version := 1

def insertDocument (db : Store) (principal : Principal) (id : String) : Store :=
  { db with
    documents := db.documents.set id (newDocument db principal id)
    generations := db.generations + 1 }

/-- The transaction of `delete`. -/
def removeDocument (db : Store) (id : String) : Store :=
  { db with
    documents := db.documents.delete id
    rows := db.rows.filter fun row => row.documentId ≠ id }

section Steps

variable (limits : Limits)

def Task.fail (task : Task) (error : String) : Task := { task with phase := .failed error }

/-- The next step of a writer. -/
def writeStep (db : Store) (task : Task) (granted : Bool) : Phase → Option (Store × Phase)
  | .entering write => some (db,
      if limits.updateBytes < write.bytes then .failed "MDFN_COLLAB_UPDATE_TOO_LARGE"
      else .loading write)
  | .loading write => some (db,
      match loadScoped db.documents task.principal task.documentId with
      | .error error => .failed error
      | .ok document => .authorizing write document.collaborationGeneration)
  | .authorizing write generation => some (db,
      if granted then .reading write generation 0 else .failed "MDFN_FORBIDDEN")
  | .reading write generation attempt => some (db,
      match loadScoped db.documents task.principal task.documentId with
      | .error error => .failed error
      | .ok document =>
        if document.collaborationGeneration ≠ generation then .failed "MDFN_DOCUMENT_NOT_FOUND"
        else match collaborationCursorKey (latestKey db task.documentId generation) with
          | .error error => .failed error
          | .ok key => .committing write generation attempt key)
  | .committing write generation attempt key =>
    if (db.documents.get task.documentId).isNone then some (db, .failed "FOREIGN_KEY_VIOLATION")
    else if keyTaken db.rows task.documentId generation key then
      some (db, if attempt + 1 < 5 then .reading write generation (attempt + 1)
        else .failed "UNIQUE_VIOLATION")
    else some (commitWrite db task.principal task.documentId generation write key,
      .verifying generation)
  | .verifying generation => some (db,
      match loadScoped db.documents task.principal task.documentId with
      | .error _ => .cleaning generation
      | .ok document =>
        if document.collaborationGeneration ≠ generation then .cleaning generation else .done)
  | .cleaning generation => some (deleteRows db task.documentId generation fun _ => true,
      .failed "MDFN_DOCUMENT_NOT_FOUND")
  | _ => none

/-- The next step of a reader, which goes on from the cursor of its last batch. -/
def readStep (db : Store) (task : Task) (choice : Choice) : Phase → Option Phase
  | .starting => some (.pageLoading ⟨db.log, none, []⟩ none)
  | .pageLoading walk cursor => some (
      match loadScoped db.documents task.principal task.documentId with
      | .error error => .failed error
      | .ok document => .pageAuthorizing
          { walk with generation := walk.generation.or (some document.collaborationGeneration) }
          cursor document.collaborationGeneration)
  | .pageAuthorizing walk cursor generation => some (
      if choice.granted then .pageReading walk cursor generation else .failed "MDFN_FORBIDDEN")
  | .pageReading walk cursor generation => some (
      if choice.limit < 1 then .failed "MDFN_COLLAB_CURSOR_INVALID"
      else
        let batch := collaborationBatch limits db task.documentId generation cursor choice.limit
        let walk := { walk with batches := batch :: walk.batches }
        match batch.nextCursor with
        | none => .walked walk
        | some key => .pageLoading walk (some key))
  | _ => none

def next (db : Store) (_ : Nat) (task : Task) (choice : Choice) : Option (Store × Task) :=
  match task.phase with
  | .inserting =>
    if (db.documents.get task.documentId).isSome then some (db, task.fail "UNIQUE_VIOLATION")
    else some (insertDocument db task.principal task.documentId, { task with phase := .done })
  | .removing => some (removeDocument db task.documentId, { task with phase := .done })
  | phase =>
    match writeStep limits db task choice.granted phase with
    | some (db, phase) => some (db, { task with phase })
    | none => (readStep limits db task choice phase).map fun phase => (db, { task with phase })

def step : Lib.Processes.System Store Task → Lib.Processes.Act Call Choice →
    Option (Lib.Processes.System Store Task) :=
  Lib.Processes.act startTask (next limits)

end Steps

end SuperFunctions.Mdfn.CollaborationLog
