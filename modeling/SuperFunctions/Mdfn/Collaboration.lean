import SuperFunctions.Lib.Processes
import SuperFunctions.Mdfn.Transaction

/-!
# The collaboration session

The editor and a shared document: a Yjs text, a Yjs map with the sidecar and one with metadata. Two
subscriptions push changes in opposite directions. An announcement in progress is a frame, so that
the listeners of the controller can make calls of their own before it is over.
-/
namespace SuperFunctions.Mdfn.Collaboration

open Lib.Splice Lib.Utf16

variable {D H J : Type}

/-! ## The shared document -/

structure Metadata where
  schemaHash : Option String
  documentId : Option String
  profileId : Option String
  protocolVersion : Option String
  extensions : Option String

/-- The value of the sidecar map, as `JSON.parse` reads it. -/
inductive SidecarValue
  | sidecar (value : MdfnSidecar)
  | unreadable (error : String)

/-- What the three shared types of a document hold. -/
structure Shared where
  metadata : Metadata
  markdown : Text
  sidecar : Option SidecarValue

/-- The values that a session is bound to. -/
structure Expected where
  schemaHash : String
  documentId : String
  profileId : String
  protocolVersion : String
  extensions : String

def Expected.metadata (expected : Expected) : Metadata :=
  ⟨some expected.schemaHash, some expected.documentId, some expected.profileId,
    some expected.protocolVersion, some expected.extensions⟩

def parseSidecar (platform : Platform H J) (value : Option SidecarValue) (markdownLength : Nat) :
    Except String (Option MdfnSidecar) :=
  match value with
  | none => .ok none
  | some (.unreadable error) => .error ("MDFN_COLLAB_SIDECAR_INVALID:" ++ error)
  | some (.sidecar sidecar) =>
    match validateMdfnSidecar platform.dateParses (validationOptions markdownLength)
      (some sidecar) with
    | .error error => .error ("MDFN_COLLAB_SIDECAR_INVALID:" ++ error)
    | .ok validated => .ok validated

/-- The checks of `assertContract`, and the sidecar that the last of them reads. -/
def assertContract (expected : Expected) (platform : Platform H J) (projector : EditorProjector D H)
    (candidate : Shared) : Except String (Option MdfnSidecar) := do
  if candidate.metadata.schemaHash ≠ some expected.schemaHash then
    throw ("MDFN_COLLAB_SCHEMA_MISMATCH:" ++ candidate.metadata.schemaHash.getD "missing" ++ ":" ++
      expected.schemaHash)
  if candidate.metadata.documentId ≠ some expected.documentId then
    throw "MDFN_COLLAB_DOCUMENT_MISMATCH"
  if candidate.metadata.profileId ≠ some expected.profileId then
    throw "MDFN_COLLAB_PROFILE_MISMATCH"
  if candidate.metadata.protocolVersion ≠ some expected.protocolVersion then
    throw "MDFN_COLLAB_PROTOCOL_MISMATCH"
  if candidate.metadata.extensions ≠ some expected.extensions then
    throw "MDFN_COLLAB_EXTENSIONS_MISMATCH"
  match projector.parse candidate.markdown with
  | .error error => throw ("MDFN_COLLAB_MARKDOWN_INVALID:" ++ error)
  | .ok _ => parseSidecar platform candidate.sidecar candidate.markdown.length

/-! ## Edits of the shared text -/

/-- Whether the position lies inside a surrogate pair. -/
def splitsPair (text : Text) (position : Nat) : Bool :=
  0 < position && (text[position - 1]?.any isHigh && text[position]?.any isLow)

/-- The halves of a pair that is split become U+FFFD each. -/
def splitAt (text : Text) (position : Nat) : Text :=
  if splitsPair text position then
    (text.set (position - 1) 0xFFFD).set position 0xFFFD
  else text

/-- `Y.Text.delete` and `Y.Text.insert`, with the range and the text of `changedRange`. -/
def editText (text next : Text) : Text :=
  let d := difference text next
  let inserted := (next.take d.nextStop).drop d.start
  if d.previousStop = d.start ∧ inserted = [] then text
  else splice (splitAt (splitAt text d.start) d.previousStop) d.start d.previousStop inserted

/-! ## The session -/

/-- An announcement to the listeners of the controller; `heard` when the session's own listener was
called, `remote` when the change came from the shared document. -/
structure Frame (D H : Type) where
  change : StateChange D H
  heard : Bool
  remote : Bool

/-- The innermost announcement comes first. -/
structure Session (D H J : Type) where
  editor : Editor D H J
  shared : Shared
  applyingRemote : Bool
  frames : List (Frame D H)

/-- A call by anyone, the next listener being the session's, the end of an announcement, its end by
a listener that throws, an accepted update that leaves the shared document with the given content. -/
inductive Event (D : Type)
  | call (call : Call D)
  | hear
  | finish
  | fail
  | remote (next : Shared)

/-- The session's listener: the change goes to the shared document. -/
def push (shared : Shared) (change : StateChange D H) : Shared :=
  let edited := if change.documentChanged then
      { shared with markdown := editText shared.markdown change.current.markdown }
    else shared
  if change.sidecarChanged then
    { edited with sidecar := change.current.sidecar.map .sidecar }
  else edited

/-- The innermost announcement is over; that of a remote change ends with the `finally` block. -/
def Session.leave (s : Session D H J) (frame : Frame D H) (frames : List (Frame D H)) :
    Session D H J :=
  { s with
    applyingRemote := if frame.remote then false else s.applyingRemote
    frames }

section Steps

variable [DecidableEq H] [DecidableEq J] (expected : Expected) (platform : Platform H J)
  (projector : EditorProjector D H)

omit [DecidableEq H] in
/-- The transaction of `applySharedState`. -/
def sharedEdit (state : EditorState D H) (markdown : Text) (sidecar : Option MdfnSidecar) :
    Transaction D where
  operations :=
    (if markdown ≠ state.markdown then
      [.replaceSource ⟨0, state.markdown.length, Nat.zero_le _⟩ markdown] else []) ++
    (if sidecar.map platform.stringify ≠ state.sidecar.map platform.stringify then
      [.sidecar sidecar] else [])
  source := "collab:remote"
  addToHistory := false

omit [DecidableEq H] in
/-- `applySharedState`, up to the announcement. -/
def applySharedState (editor : Editor D H J) (shared : Shared) : Except String (Outcome D H J) := do
  let sidecar ← assertContract expected platform projector shared
  let edit := sharedEdit platform editor.state shared.markdown sidecar
  pure (if edit.operations.isEmpty then (editor, none) else dispatch platform projector editor edit)

def step (s : Session D H J) : Event D → Option (Session D H J)
  | .call call =>
    match perform platform projector s.editor call with
    | (editor, none) => some { s with editor }
    | (editor, some change) => some { s with editor, frames := ⟨change, false, false⟩ :: s.frames }
  | .hear =>
    match s.frames with
    | [] => none
    | frame :: frames =>
      if frame.heard then none
      else some { s with
        shared := if s.applyingRemote then s.shared else push s.shared frame.change
        frames := { frame with heard := true } :: frames }
  | .finish =>
    match s.frames with
    | [] => none
    | frame :: frames =>
      if !frame.heard then none else some (s.leave frame frames)
  | .fail =>
    match s.frames with
    | [] => none
    | frame :: frames => some (s.leave frame frames)
  | .remote next =>
    if !s.frames.isEmpty then none
    else match applySharedState expected platform projector s.editor next with
      | .error _ => none
      | .ok (editor, none) => some { s with editor, shared := next }
      | .ok (editor, some change) => some { s with
          editor
          shared := next
          applyingRemote := true
          frames := [⟨change, false, true⟩] }

omit [DecidableEq H] [DecidableEq J] in
/-- The session over a document that had no content: it takes the editor's. One over a document
with content takes that in as its first remote update. -/
def createCollaborationSession (editor : Editor D H J) : Session D H J where
  editor := editor
  shared := ⟨expected.metadata, editor.state.markdown, editor.state.sidecar.map .sidecar⟩
  applyingRemote := false
  frames := []

end Steps

end SuperFunctions.Mdfn.Collaboration
