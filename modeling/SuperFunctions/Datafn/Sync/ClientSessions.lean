import SuperFunctions.Datafn.Client.ApplyPull
import SuperFunctions.Datafn.Server.SequenceNumbers

/-!
# Clients of a namespace

Any number of clients that push, pull and clone over one server. The three kinds of reply move a
client's cursors: the numbers of its own push, the cursors of a pull page, and the latest number
of a cloned table.
-/
namespace SuperFunctions.Datafn.Sync.ClientSessions

open Lib.OrderedMap Datafn.Core Client.Storage Client.ApplyClone Client.ApplyPull
open Server.Clone Server.ChangeLog Server.Pull Server.Sessions

/-- What the clients and the server are configured with, and what the database holds. -/
structure Deployment where
  /-- the synchronised resources and the join stores of the schema -/
  pullKeys : List String
  pullBatchSize : Nat
  maxPullLimit : Option Nat
  isPrivateShareableResource : String → Bool
  /-- tables, join stores and permissions after these commits, as they are for the client -/
  database : Nat → List Commit → CloneServer

/-- A client's local store, and the changes that the replies it applied have carried. -/
structure Client where
  store : ClientStore
  delivered : List ChangeEntry

def freshClient : Client := ⟨emptyStore, []⟩

/-- A clone of one table, or of one page of it: how many commits there were when its rows were
read, and the latest number of the table, read afterwards. -/
structure CloneRun where
  client : Nat
  table : String
  afterId : Option String
  limit : Option Nat
  rowsAt : Option Nat
  latestSeq : Option Nat

structure SyncState where
  server : ServerState
  clients : OMap Nat Client
  clones : OMap Nat CloneRun

def emptySync (externalStore : Bool) : SyncState :=
  ⟨emptyNamespace externalStore, OMap.empty, OMap.empty⟩

/-! ## Requests and replies -/

/-- `(await this.storage.getCursor(key)) || "0"` for every key, and for the permission feed. -/
def buildPullCursors (keys : List String) (store : ClientStore) : OMap String Nat :=
  (keys ++ [actorFeedCursorKey]).foldl
    (fun cursors key => cursors.set key ((store.cursors key).getD 0)) OMap.empty

/-- Step 3a of `processPush`: the cursors of the push response. -/
def advancePushCursors (store : ClientStore) (cursors : OMap String Nat) : ClientStore :=
  cursors.entries.foldl (fun s e => s.setCursorMonotonically e.1 e.2) store

/-- The cases in which the answer of `executePullCanonical` lists a selected change. -/
def pageLists (isPrivateShareableResource : String → Bool) (actor : Option ActorView)
    (c : ChangeEntry) : Bool :=
  if isJoinStoreKey c.resource then
    match c.op, c.record with
    | .upsert, some _ | .insert, some _ | .replace, some _ => true
    | .delete, _ => true
    | _, _ => false
  else if !isDataResourceKey c.resource then false
  else if isPrivateShareableResource c.resource && actor.isNone then false
  else
    match c.op, c.record with
    | .delete, _ => true
    | _, some record =>
      listed isPrivateShareableResource actor c.resource c.id &&
        (normalizeNonEmptyString (record.lookup "id")).isSome
    | _, none => false

/-- The rows a clone reads of its table. -/
def cloneRows (database : CloneServer) (clone : CloneRun) : List (String × Record) :=
  let rows := (database.tables clone.table).findAfter (afterMarker clone.afterId)
  match clone.limit with
  | none => rows
  | some limit => rows.take limit

def cloneResult (database : CloneServer) (clone : CloneRun) (latestSeq : Nat) : CloneResult where
  ok := true
  data := OMap.empty.set clone.table
    (filterActorVisibleRows database clone.table (cloneRows database clone))
  cursors := OMap.empty.set clone.table latestSeq
  joins := database.joins
  next := OMap.empty

/-- The ids between the marker and the last row of a clone that is cut off by its limit. -/
def cloneCovers (database : CloneServer) (clone : CloneRun) (id : String) : Bool :=
  (afterMarker clone.afterId).all (fun marker => marker < id) &&
    (clone.limit.all (fun limit => (cloneRows database clone).length < limit) ||
      (cloneRows database clone).getLast?.any fun row => id ≤ row.1)

/-- The clone brings the record as the server has it: its row is among the rows returned, or it
is gone from the server and the client does not hold it. -/
def cloneCarries (database : CloneServer) (store : ClientStore) (clone : CloneRun)
    (id : String) : Bool :=
  match (database.tables clone.table).rows.get id with
  | some row =>
    decide ((id, row) ∈ cloneRows database clone) && visibleRow database clone.table (id, row)
  | none => cloneCovers database clone id && (store.getRecord clone.table id).isNone

namespace SyncState

variable (D : Deployment) (s : SyncState)

def openClient (client : Nat) : Option SyncState :=
  match s.clients.get client with
  | some _ => none
  | none => some { s with clients := s.clients.set client freshClient }

/-- A step of the server that no client takes part in. -/
def serverStep (a : Action) : Option SyncState :=
  (step s.server a).map fun server => { s with server := server }

/-! ## The reply to a push -/

def acknowledgePush (p : Nat) : Option SyncState := do
  let push ← s.server.pushes.get p
  let client ← s.clients.get push.client
  let server ← s.server.finishPush p
  let store := advancePushCursors client.store push.resourceSeqs
  some { s with server := server, clients := s.clients.set push.client { client with store } }

/-! ## Pulls -/

def startPull (k client : Nat) : Option SyncState := do
  let puller ← s.clients.get client
  let request : PullRequest := ⟨buildPullCursors D.pullKeys puller.store, some D.pullBatchSize⟩
  let server ← s.server.startPull k client request D.maxPullLimit
  some { s with server := server }

/-- The catch-up loop: the next request is sent with the cursors of the page. -/
def continuePull (answered : ServerState) (k : Nat) (pull : PullRun) (page : PullResult)
    (again : Bool) : Option ServerState :=
  if again then
    if page.hasMore then
      answered.startPull k pull.client
        { pull.request with cursors := pull.request.cursors.setAll page.cursors } D.maxPullLimit
    else none
  else some answered

/-- The page is applied; the loop goes on, or ends with the last page or its last iteration. -/
def applyPull (k : Nat) (actor : Option ActorView) (again : Bool) : Option SyncState := do
  let pull ← s.server.pulls.get k
  let client ← s.clients.get pull.client
  let answered ← s.server.answerPull k
  let page := pullPage D.isPrivateShareableResource actor pull.request pull.selection
  let store ← applyPullResultCanonical client.store page
  let server ← continuePull D answered k pull page again
  let carried := pull.selection.merged.filter (pageLists D.isPrivateShareableResource actor)
  some { s with
    server := server
    clients := s.clients.set pull.client ⟨store, client.delivered ++ carried⟩ }

/-! ## Clones -/

def startClone (j : Nat) (clone : CloneRun) : Option SyncState :=
  match s.clones.get j with
  | some _ => none
  | none =>
    if clone.rowsAt = none ∧ clone.latestSeq = none then
      some { s with clones := s.clones.set j clone }
    else none

def readCloneRows (j : Nat) : Option SyncState :=
  match s.clones.get j with
  | some clone =>
    if clone.rowsAt = none then
      some { s with
        clones := s.clones.set j { clone with rowsAt := some s.server.commits.length } }
    else none
  | none => none

def readLatestServerSeq (j : Nat) : Option SyncState :=
  match s.clones.get j with
  | some clone =>
    if clone.rowsAt.isSome ∧ clone.latestSeq = none then
      let latest := getLatestServerSeq s.server.log clone.table
      some { s with clones := s.clones.set j { clone with latestSeq := some latest } }
    else none
  | none => none

def applyClone (j : Nat) : Option SyncState := do
  let clone ← s.clones.get j
  let client ← s.clients.get clone.client
  let rowsAt ← clone.rowsAt
  let latestSeq ← clone.latestSeq
  let read := s.server.commits.take rowsAt
  let database := D.database clone.client read
  let store ← applyCloneResult client.store (cloneResult database clone latestSeq)
  let carried := (read.map Commit.entry).filter fun c =>
    c.resource = clone.table ∧ cloneCarries database client.store clone c.id
  some { s with
    clients := s.clients.set clone.client ⟨store, client.delivered ++ carried⟩
    clones := s.clones.delete j }

/-- The reply is lost, or the client throws on it. -/
def dropClone (j : Nat) : Option SyncState :=
  match s.clones.get j with
  | some _ => some { s with clones := s.clones.delete j }
  | none => none

end SyncState

/-! ## The system -/

inductive SyncAction where
  | openClient (client : Nat)
  | startPush (p client mutations : Nat)
  | beginMutation (p : Nat)
  | recordChange (p : Nat) (change : PendingChange)
  | commitMutation (p : Nat)
  | rollbackMutation (p : Nat)
  | acknowledgePush (p : Nat)
  | losePush (p : Nat)
  | startPull (k client : Nat)
  | readChanges (k : Nat) (resource : String)
  | applyPull (k : Nat) (actor : Option ActorView) (again : Bool)
  | losePull (k : Nat)
  | startClone (j : Nat) (clone : CloneRun)
  | readCloneRows (j : Nat)
  | readLatestServerSeq (j : Nat)
  | applyClone (j : Nat)
  | dropClone (j : Nat)

def syncStep (D : Deployment) (s : SyncState) : SyncAction → Option SyncState
  | .openClient client => s.openClient client
  | .startPush p client mutations => s.serverStep (.startPush p client mutations)
  | .beginMutation p => s.serverStep (.beginMutation p)
  | .recordChange p change => s.serverStep (.recordChange p change)
  | .commitMutation p => s.serverStep (.commitMutation p)
  | .rollbackMutation p => s.serverStep (.rollbackMutation p)
  | .acknowledgePush p => s.acknowledgePush p
  | .losePush p => s.serverStep (.finishPush p)
  | .startPull k client => s.startPull D k client
  | .readChanges k resource => s.serverStep (.readChanges k resource)
  | .applyPull k actor again => s.applyPull D k actor again
  | .losePull k => s.serverStep (.answerPull k)
  | .startClone j clone => s.startClone j clone
  | .readCloneRows j => s.readCloneRows j
  | .readLatestServerSeq j => s.readLatestServerSeq j
  | .applyClone j => s.applyClone D j
  | .dropClone j => s.dropClone j

end SuperFunctions.Datafn.Sync.ClientSessions

/-!
# A clone among commits

One client clones tables page by page while others commit. The server reads the rows of a page
first and the table's latest number afterwards; then the client pulls until nothing is left.
-/
namespace SuperFunctions.Datafn.Sync.CloneSession

open Lib.OrderedMap Datafn.Core Client.Storage Client.ApplyClone Client.ApplyPull
open Server.Database Server.Clone Server.ChangeLog Server.Pull
open ClientSessions (buildPullCursors)

/-- The client's schema and settings; with this page size clones are paginated. -/
structure CloneConfig where
  resources : List String
  joinStoreKeys : List String
  pageSize : Nat
  paginated : 0 < pageSize ∧ pageSize < 1000
  pullBatchSize : Nat
  maxPullLimit : Option Nat

/-- What another client's mutation leaves on the server, and the changes it records. -/
structure CommittedMutation where
  tables : String → DbTable
  joins : OMap String (List JoinRow)
  changes : List ChangeEntry

/-- How far the request for a page has come. The server of `rowsRead` is the one whose rows were
read; in `answered` it also has the numbers that were read. -/
inductive PageStage where
  | requested
  | rowsRead (read : CloneServer)
  | answered (read : CloneServer)

structure TableClone where
  table : String
  afterId : Option String
  stage : PageStage

structure Session where
  server : CloneServer
  log : List ChangeEntry
  store : ClientStore
  cloning : Option TableClone
  cloned : List String
  /-- the last pull had no more to fetch, and nothing was committed since -/
  caughtUp : Bool

namespace Session

variable (config : CloneConfig) (s : Session)

def commit (m : CommittedMutation) : Session :=
  { s with
    server := { s.server with tables := m.tables, joins := m.joins }
    log := s.log ++ m.changes
    caughtUp := false }

def startClone (table : String) : Option Session :=
  if s.cloning.isNone ∧ table ∈ config.resources then
    some { s with
      cloning := some ⟨table, none, .requested⟩
      cloned := s.cloned.filter fun t => t ≠ table
      caughtUp := false }
  else none

def readRows : Option Session :=
  match s.cloning with
  | some ⟨table, afterId, .requested⟩ =>
    some { s with cloning := some ⟨table, afterId, .rowsRead s.server⟩ }
  | _ => none

def readLatestServerSeq : Option Session :=
  match s.cloning with
  | some ⟨table, afterId, .rowsRead read⟩ =>
    let answered := { read with latestServerSeq := getLatestServerSeq s.log }
    some { s with cloning := some ⟨table, afterId, .answered answered⟩ }
  | _ => none

/-- One turn of the loop of `cloneTablePaginated`, from the answer on. -/
def applyPage : Option Session :=
  match s.cloning with
  | some ⟨table, afterId, .answered read⟩ =>
    let result := executeClonePage read table afterId config.pageSize
    if result.ok then
      (applyCloneResult s.store result).map fun applied =>
        match (result.next.get table).join with
        | none => { s with store := applied, cloning := none, cloned := table :: s.cloned }
        | some nextMarker =>
          { s with store := applied, cloning := some ⟨table, some nextMarker, .requested⟩ }
    else none
  | _ => none

/-- One turn of the catch-up loop. -/
def pull (actor : Option ActorView) : Option Session :=
  if s.cloning.isNone then
    let cursors := buildPullCursors (config.resources ++ config.joinStoreKeys) s.store
    match executePullCanonical s.server.isPrivate actor s.log config.maxPullLimit
        ⟨cursors, some config.pullBatchSize⟩ with
    | .error _ => none
    | .ok page =>
      (applyPullResultCanonical s.store page).map fun applied =>
        { s with store := applied, caughtUp := !page.hasMore }
  else none

end Session

inductive CloneAction where
  | commit (m : CommittedMutation)
  | startClone (table : String)
  | readRows
  | readLatestServerSeq
  | applyPage
  | pull (actor : Option ActorView)

def cloneStep (config : CloneConfig) (s : Session) : CloneAction → Option Session
  | .commit m => some (s.commit m)
  | .startClone table => s.startClone config table
  | .readRows => s.readRows
  | .readLatestServerSeq => s.readLatestServerSeq
  | .applyPage => s.applyPage config
  | .pull actor => s.pull config actor

end SuperFunctions.Datafn.Sync.CloneSession
