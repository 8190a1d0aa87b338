import SuperFunctions.Mdfn.Collaboration

/-!
# Remote updates of a collaboration session

`applyUpdate` tries an update on a copy of the document, asks the host where it changes editorial
data, and applies it to the live document if nothing has happened to that in the meantime.
-/
namespace SuperFunctions.Mdfn.RemoteUpdates

open Collaboration Lib.Utf16

variable {D H J Doc Update Origin : Type}

/-! ## Protected data -/

def insertMember (key : Text) (value : JsonValue) : JsonMembers → JsonMembers
  | .nil => .cons key value .nil
  | .cons k v rest =>
    if key < k then .cons key value (.cons k v rest) else .cons k v (insertMember key value rest)

mutual

def canonicalJson : JsonValue → JsonValue
  | .arr items => .arr (canonicalItems items)
  | .obj members => .obj (canonicalMembers members)
  | value => value

def canonicalItems : JsonItems → JsonItems
  | .nil => .nil
  | .cons item rest => .cons (canonicalJson item) (canonicalItems rest)

def canonicalMembers : JsonMembers → JsonMembers
  | .nil => .nil
  | .cons key value rest => insertMember key (canonicalJson value) (canonicalMembers rest)

end

structure ProtectedSidecar where
  comments : List CommentThread
  suggestions : List Suggestion
  reviewState : ReviewState
  audit : List EditorialAuditEntry
deriving DecidableEq

/-- The canonical JSON of the editorial data, as the data that it is the text of. -/
def protectedSidecar (value : Option MdfnSidecar) : ProtectedSidecar where
  comments := (value.bind (·.comments)).getD []
  suggestions := (value.bind (·.suggestions)).getD []
  reviewState := (value.bind (·.reviewState)).getD .draft
  audit := ((value.bind (·.audit)).getD []).map fun entry =>
    { entry with details := entry.details.map canonicalMembers }

/-! ## The session -/

/-- What the session takes from Yjs: what a document holds, `applyUpdate`, which throws on an update
that it cannot read, and a new document brought to the state of another. -/
structure Yjs (Doc Update : Type) where
  content : Doc → Shared
  applyUpdate : Doc → Update → Except String Doc
  copy : Doc → Doc
  byteLength : Update → Nat

/-- An update may be tried on a copy: it leads to what it would lead to in the original. -/
def Yjs.CopiesFaithfully (yjs : Yjs Doc Update) : Prop :=
  ∀ doc update, (yjs.applyUpdate (yjs.copy doc) update).map yjs.content =
    (yjs.applyUpdate doc update).map yjs.content

structure Options where
  expected : Expected
  maxUpdateBytes : Nat
  authorizesUpdates : Bool
  authorizesSidecarUpdates : Bool

/-- A call of `applyUpdate`. -/
structure Request (Update Origin : Type) where
  id : Nat
  update : Update
  origin : Origin

/-- Where the call stands whose turn it is. -/
inductive Phase
  | entered
  | authorizing
  | validating
  | authorizingSidecar (baseline : Nat) (previous next : Option MdfnSidecar)
  | validated (baseline : Nat)

/-- What a rejected update must leave alone: the live document and the editor with its history. -/
structure World (D H J Doc : Type) where
  doc : Doc
  editor : Editor D H J

/-- A change of the world; by a call if it applied the update of one. -/
structure Change (D H J Doc Update Origin : Type) where
  request : Option (Request Update Origin)
  before : World D H J Doc
  after : World D H J Doc

/-- The host approved that the editorial data change from the one to the other. -/
structure Approval (Origin : Type) where
  id : Nat
  origin : Origin
  previous : Option MdfnSidecar
  next : Option MdfnSidecar

/-- The variables of the session, the calls it has received and what it has done so far, the last
change first. -/
structure Session (D H J Doc Update Origin : Type) where
  world : World D H J Doc
  documentGeneration : Nat
  destroyed : Bool
  editorDestroyed : Bool
  calls : Nat
  waiting : List (Request Update Origin)
  active : Option (Request Update Origin × Phase)
  accepted : List Nat
  rejected : List (Nat × String)
  approvals : List (Approval Origin)
  changes : List (Change D H J Doc Update Origin)

def openSession (world : World D H J Doc) : Session D H J Doc Update Origin where
  world := world
  documentGeneration := 0
  destroyed := false
  editorDestroyed := false
  calls := 0
  waiting := []
  active := none
  accepted := []
  rejected := []
  approvals := []
  changes := []

inductive Answer
  | yes
  | no
  | throws (error : String)

/-- Whether something that hears of a change of the document throws: nothing, something after the
session was told, something before. -/
inductive Hearing
  | quiet
  | throwsAfter (error : String)
  | throwsBefore (error : String)
deriving DecidableEq

inductive Event (D H J Doc Update Origin : Type)
  | applyUpdate (update : Update) (origin : Origin)
  | next
  | enter
  | answer (answer : Answer)
  | validate
  | apply (hearing : Hearing)
  | localEdit (world : World D H J Doc) (hearing : Hearing)
  | editorOnly (editor : Editor D H J)
  | destroy
  | destroyEditor

/-- The session is told of changes of the document until it is destroyed. -/
def Session.told (s : Session D H J Doc Update Origin) (hearing : Hearing) : Nat :=
  match hearing with
  | .throwsBefore _ => s.documentGeneration
  | _ => if s.destroyed then s.documentGeneration else s.documentGeneration + 1

def Session.reject (s : Session D H J Doc Update Origin) (request : Request Update Origin)
    (error : String) : Session D H J Doc Update Origin :=
  { s with active := none, rejected := (request.id, error) :: s.rejected }

def Session.accept (s : Session D H J Doc Update Origin) (request : Request Update Origin) :
    Session D H J Doc Update Origin :=
  { s with active := none, accepted := request.id :: s.accepted }

/-- Puts the world in another state and notes who did it. -/
def Session.change (s : Session D H J Doc Update Origin)
    (request : Option (Request Update Origin)) (world : World D H J Doc) (hearing : Hearing) :
    Session D H J Doc Update Origin :=
  { s with
    world
    documentGeneration := s.told hearing
    changes := ⟨request, s.world, world⟩ :: s.changes }

section Steps

variable [DecidableEq J] (options : Options) (platform : Platform H J)
  (projector : EditorProjector D H) (yjs : Yjs Doc Update)

omit [DecidableEq J] in
/-- The parser that `controller.validateMarkdown` uses. -/
def aliveProjector (editorDestroyed : Bool) : EditorProjector D H :=
  if editorDestroyed then
    { projector with parse := fun _ => .error "MDFN_EDITOR_DESTROYED" }
  else projector

omit [DecidableEq J] in
def enter (s : Session D H J Doc Update Origin) (request : Request Update Origin) :
    Session D H J Doc Update Origin :=
  if s.destroyed then s.reject request "MDFN_COLLAB_DESTROYED"
  else if options.maxUpdateBytes < yjs.byteLength request.update then
    s.reject request ("MDFN_COLLAB_UPDATE_TOO_LARGE:" ++ toString options.maxUpdateBytes)
  else { s with
    active := some (request, if options.authorizesUpdates then .authorizing else .validating) }

omit [DecidableEq J] in
/-- The checks of `validateUpdate`: the sidecars of the live document and of the candidate. -/
def checkUpdate (editorDestroyed : Bool) (doc : Doc) (update : Update) :
    Except String (Option MdfnSidecar × Option MdfnSidecar) := do
  let candidate ← yjs.applyUpdate (yjs.copy doc) update
  let next ← assertContract options.expected platform (aliveProjector projector editorDestroyed)
    (yjs.content candidate)
  let shared := yjs.content doc
  let previous ← parseSidecar platform shared.sidecar shared.markdown.length
  pure (previous, next)

omit [DecidableEq J] in
def validate (s : Session D H J Doc Update Origin) (request : Request Update Origin) :
    Session D H J Doc Update Origin :=
  match checkUpdate options platform projector yjs s.editorDestroyed s.world.doc
    request.update with
  | .error error => s.reject request error
  | .ok (previous, next) =>
    if protectedSidecar previous ≠ protectedSidecar next then
      if options.authorizesSidecarUpdates then
        { s with active := some (request, .authorizingSidecar s.documentGeneration previous next) }
      else s.reject request "MDFN_COLLAB_EDITORIAL_UPDATE_FORBIDDEN"
    else { s with active := some (request, .validated s.documentGeneration) }

omit [DecidableEq J] in
def answer (s : Session D H J Doc Update Origin) (request : Request Update Origin) :
    Phase → Answer → Option (Session D H J Doc Update Origin)
  | .authorizing, .yes => some { s with active := some (request, .validating) }
  | .authorizing, .no => some (s.reject request "MDFN_COLLAB_UPDATE_FORBIDDEN")
  | .authorizing, .throws error => some (s.reject request error)
  | .authorizingSidecar baseline previous next, .yes => some { s with
      active := some (request, .validated baseline)
      approvals := ⟨request.id, request.origin, previous, next⟩ :: s.approvals }
  | .authorizingSidecar _ _ _, .no =>
    some (s.reject request "MDFN_COLLAB_EDITORIAL_UPDATE_FORBIDDEN")
  | .authorizingSidecar _ _ _, .throws error => some (s.reject request error)
  | _, _ => none

/-- What the session does to the editor when the document was changed, and what it throws. -/
def hearRemote (s : Session D H J Doc Update Origin) (doc : Doc) :
    Hearing → Editor D H J × Option String
  | .throwsBefore error => (s.world.editor, some error)
  | hearing =>
    if s.editorDestroyed then (s.world.editor, some "MDFN_EDITOR_DESTROYED")
    else match applySharedState options.expected platform projector s.world.editor
      (yjs.content doc) with
    | .error error => (s.world.editor, some error)
    | .ok (editor, _) => (editor, match hearing with
      | .throwsAfter error => some error
      | _ => none)

def apply (s : Session D H J Doc Update Origin) (request : Request Update Origin)
    (baseline : Nat) (hearing : Hearing) : Session D H J Doc Update Origin :=
  if baseline ≠ s.documentGeneration then { s with active := some (request, .validating) }
  else if s.destroyed then s.reject request "MDFN_COLLAB_DESTROYED"
  else match yjs.applyUpdate s.world.doc request.update with
  | .error error => s.reject request error
  | .ok doc =>
    let (editor, thrown) := hearRemote options platform projector yjs s doc hearing
    let changed := s.change (some request) ⟨doc, editor⟩ hearing
    match thrown with
    | some error => changed.reject request error
    | none => changed.accept request

def step (s : Session D H J Doc Update Origin) :
    Event D H J Doc Update Origin → Option (Session D H J Doc Update Origin)
  | .applyUpdate update origin =>
    let request : Request Update Origin := ⟨s.calls, update, origin⟩
    some (if s.destroyed then { s with
        calls := s.calls + 1
        rejected := (request.id, "MDFN_COLLAB_DESTROYED") :: s.rejected }
      else { s with calls := s.calls + 1, waiting := s.waiting ++ [request] })
  | .next =>
    match s.active, s.waiting with
    | none, request :: waiting => some { s with active := some (request, .entered), waiting }
    | _, _ => none
  | .enter =>
    match s.active with
    | some (request, .entered) => some (enter options yjs s request)
    | _ => none
  | .answer given =>
    match s.active with
    | some (request, phase) => answer s request phase given
    | none => none
  | .validate =>
    match s.active with
    | some (request, .validating) => some (validate options platform projector yjs s request)
    | _ => none
  | .apply hearing =>
    match s.active with
    | some (request, .validated baseline) =>
      some (apply options platform projector yjs s request baseline hearing)
    | _ => none
  | .localEdit world hearing => some (s.change none world hearing)
  | .editorOnly editor => some { s with
      world := { s.world with editor }
      changes := ⟨none, s.world, { s.world with editor }⟩ :: s.changes }
  | .destroy => some { s with destroyed := true }
  | .destroyEditor => some { s with editorDestroyed := true }

end Steps

end SuperFunctions.Mdfn.RemoteUpdates
