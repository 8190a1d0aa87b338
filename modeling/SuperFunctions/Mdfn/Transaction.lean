import SuperFunctions.Mdfn.Sidecar

/-!
# Transactions of the editor

A transaction is a list of operations on the source, the document, the selection and the sidecar.
Applied to a state it gives the next one and announces which ranges of the source were changed.
-/
namespace SuperFunctions.Mdfn

open Lib.Splice Lib.Utf16

structure ParseResult (D : Type) (H : Type) where
  document : D
  sourceHash : Option H

/-- The Markdown projector. Both of its functions may throw. -/
structure EditorProjector (D : Type) (H : Type) where
  parse : Text → Except String (ParseResult D H)
  serialize : D → Text → Except String Text

/-- What the editor takes from the platform: `sha256` of bytes, `JSON.stringify` of a sidecar and
the test that `Date.parse` reads a text. -/
structure Platform (H : Type) (J : Type) where
  sha256 : Lib.Utf8.Bytes → H
  stringify : MdfnSidecar → J
  dateParses : Text → Bool

variable {D : Type} {H : Type} {J : Type}

def Platform.hashString (platform : Platform H J) (value : Text) : H :=
  platform.sha256 (encodeUtf8 value)

structure EditorState (D : Type) (H : Type) where
  version : Nat
  markdown : Text
  document : D
  schemaHash : H
  sourceHash : H
  selection : Option MdfnSelection
  sidecar : Option MdfnSidecar
  dirty : Bool

/-- The range of `replaceSource`, which refuses any other. -/
structure SourceRange where
  start : Nat
  stop : Nat
  ordered : start ≤ stop

inductive Operation (D : Type)
  | replaceSource (range : SourceRange) (text : Text)
  | replaceDocument (document : D)
  | selection (selection : Option MdfnSelection)
  | sidecar (sidecar : Option MdfnSidecar)

/-- `addToHistory` is `metadata.addToHistory !== false`. -/
structure Transaction (D : Type) where
  operations : List (Operation D)
  source : String
  addToHistory : Bool

structure StateChange (D : Type) (H : Type) where
  previous : EditorState D H
  current : EditorState D H
  changedRanges : List ChangedRange
  documentChanged : Bool
  selectionChanged : Bool
  sidecarChanged : Bool
  source : String

/-- `change.current !== state`: the listeners hear of the change. -/
def StateChange.announced (change : StateChange D H) : Bool :=
  change.documentChanged || change.selectionChanged || change.sidecarChanged

/-- The variables of `applyTransaction`. -/
structure Draft (D : Type) where
  markdown : Text
  document : D
  selection : Option MdfnSelection
  sidecar : Option MdfnSidecar
  documentChanged : Bool
  selectionChanged : Bool
  sidecarChanged : Bool
  ranges : List ChangedRange

def EditorState.draft (state : EditorState D H) : Draft D :=
  ⟨state.markdown, state.document, state.selection, state.sidecar, false, false, false, []⟩

/-- A mapped selection or sidecar is a new object, so that it always counts as changed. -/
def Draft.changeRange (draft : Draft D) (range : ChangedRange) : Draft D :=
  { draft with
    ranges := draft.ranges ++ [range]
    selection := mapSelection draft.selection range
    selectionChanged := draft.selectionChanged || draft.selection.isSome
    sidecar := mapSidecar draft.sidecar range
    sidecarChanged := draft.sidecarChanged || draft.sidecar.isSome }

def createEditorState (platform : Platform H J) (projector : EditorProjector D H) (markdown : Text)
    (schemaHash : H) (selection : Option MdfnSelection) (sidecar : Option MdfnSidecar) :
    Except String (EditorState D H) := do
  let parsed ← projector.parse markdown
  let selection ← validateMdfnSelection selection markdown.length
  let sidecar ← validateMdfnSidecar platform.dateParses (validationOptions markdown.length) sidecar
  pure {
    version := 0
    markdown
    document := parsed.document
    schemaHash
    sourceHash := parsed.sourceHash.getD (platform.hashString markdown)
    selection
    sidecar
    dirty := false }

def applyOperation (platform : Platform H J) (projector : EditorProjector D H) (draft : Draft D) :
    Operation D → Except String (Draft D)
  | .replaceSource range text => do
    if draft.markdown.length < range.stop then throw "MDFN_TRANSACTION_RANGE_OUT_OF_BOUNDS"
    let nextMarkdown := splice draft.markdown range.start range.stop text
    if nextMarkdown = draft.markdown then pure draft
    else
      let parsed ← projector.parse nextMarkdown
      pure { draft.changeRange ⟨range.start, range.stop, text.length⟩ with
        markdown := nextMarkdown
        document := parsed.document
        documentChanged := true }
  | .replaceDocument document => do
    let markdown ← projector.serialize document draft.markdown
    let parsed ← projector.parse markdown
    let d := difference draft.markdown markdown
    let moved := if draft.markdown = markdown then draft
      else draft.changeRange ⟨d.start, d.previousStop, d.nextStop - d.start⟩
    pure { moved with markdown, document := parsed.document, documentChanged := true }
  | .selection selection => do
    let selection ← validateMdfnSelection selection draft.markdown.length
    pure { draft with selection, selectionChanged := true }
  | .sidecar sidecar => do
    let sidecar ← validateMdfnSidecar platform.dateParses
      (validationOptions draft.markdown.length) sidecar
    pure { draft with sidecar, sidecarChanged := true }

/-- The state and the announcement that a draft stands for. -/
def Draft.finish (draft : Draft D) (platform : Platform H J) (state : EditorState D H)
    (source : String) : StateChange D H :=
  if draft.documentChanged || draft.selectionChanged || draft.sidecarChanged then
    { previous := state
      current := { state with
        version := state.version + 1
        markdown := draft.markdown
        document := draft.document
        selection := draft.selection
        sidecar := draft.sidecar
        sourceHash := platform.hashString draft.markdown
        dirty := state.dirty || draft.documentChanged || draft.sidecarChanged }
      changedRanges := draft.ranges
      documentChanged := draft.documentChanged
      selectionChanged := draft.selectionChanged
      sidecarChanged := draft.sidecarChanged
      source }
  else ⟨state, state, [], false, false, false, source⟩

def applyTransaction (platform : Platform H J) (projector : EditorProjector D H)
    (state : EditorState D H) (transaction : Transaction D) : Except String (StateChange D H) := do
  let draft ← transaction.operations.foldlM (applyOperation platform projector) state.draft
  pure (draft.finish platform state transaction.source)

/-! ## What a transaction announces -/

theorem bind_ok {α β : Type} {x : Except String α} {f : α → Except String β} {b : β}
    (h : x >>= f = .ok b) : ∃ a, x = .ok a ∧ f a = .ok b := by
  cases x with
  | error message => cases h
  | ok a => exact ⟨a, rfl, h⟩

variable {platform : Platform H J} {projector : EditorProjector D H}

/-- The draft against the state it started from: the ranges explain its text, and an unset flag
means that nothing was changed. -/
structure Draft.Accounts (draft : Draft D) (state : EditorState D H) : Prop where
  ranges : Explains draft.ranges state.markdown draft.markdown
  markdown : draft.documentChanged = false → draft.markdown = state.markdown
  sidecar : draft.sidecarChanged = false → draft.sidecar = state.sidecar

theorem draft_accounts (state : EditorState D H) : state.draft.Accounts state where
  ranges := rfl
  markdown _ := rfl
  sidecar _ := rfl

variable {state : EditorState D H} {markdown : Text}

theorem accounts_changeRange {draft : Draft D} {range : ChangedRange} {document : D}
    (h : draft.Accounts state) (hrange : Replaces range draft.markdown markdown) :
    Draft.Accounts { draft.changeRange range with
      markdown, document, documentChanged := true } state where
  ranges := explains_append h.ranges (explains_single hrange)
  markdown := nofun
  sidecar hunchanged := by
    simp only [Draft.changeRange, Bool.or_eq_false_iff, Option.isSome_eq_false_iff,
      Option.isNone_iff_eq_none] at hunchanged
    obtain ⟨hflag, hnone⟩ := hunchanged
    show mapSidecar draft.sidecar range = state.sidecar
    rw [← h.sidecar hflag, hnone]
    rfl

theorem replaces_splice (range : SourceRange) (text : Text) (hstop : range.stop ≤ markdown.length) :
    Replaces ⟨range.start, range.stop, text.length⟩ markdown
      (splice markdown range.start range.stop text) :=
  ⟨range.ordered, hstop, text, rfl, rfl⟩

theorem replaces_difference (previous next : Text) :
    Replaces ⟨(difference previous next).start, (difference previous next).previousStop,
      (difference previous next).nextStop - (difference previous next).start⟩ previous next := by
  obtain ⟨hfirst, hprevious, hsecond, hnext⟩ := difference_bounds previous next
  refine ⟨hfirst, hprevious, _, ?_, (splice_difference previous next).symm⟩
  rw [List.length_drop, List.length_take, Nat.min_eq_left hnext]

theorem applyOperation_accounts {draft draft' : Draft D} {operation : Operation D}
    (h : draft.Accounts state)
    (hop : applyOperation platform projector draft operation = .ok draft') :
    draft'.Accounts state := by
  cases operation with
  | replaceSource range text =>
    simp only [applyOperation] at hop
    split at hop
    · cases hop
    rename_i hbound
    split at hop
    · cases hop
      exact h
    · obtain ⟨parsed, -, hfinal⟩ := bind_ok hop
      cases hfinal
      exact accounts_changeRange h (replaces_splice range text (Nat.le_of_not_lt hbound))
  | replaceDocument document =>
    obtain ⟨markdown, -, hop⟩ := bind_ok hop
    obtain ⟨parsed, -, hop⟩ := bind_ok hop
    by_cases hsame : draft.markdown = markdown
    · simp only [if_pos hsame] at hop
      cases hop
      exact ⟨hsame ▸ h.ranges, nofun, h.sidecar⟩
    · simp only [if_neg hsame] at hop
      cases hop
      exact accounts_changeRange h (replaces_difference draft.markdown markdown)
  | selection selection =>
    obtain ⟨selected, -, hop⟩ := bind_ok hop
    cases hop
    exact { h with }
  | sidecar sidecar =>
    obtain ⟨validated, -, hop⟩ := bind_ok hop
    cases hop
    exact { h with sidecar := nofun }

theorem applyOperations_accounts {operations : List (Operation D)} {draft draft' : Draft D}
    (h : draft.Accounts state)
    (hops : operations.foldlM (applyOperation platform projector) draft = .ok draft') :
    draft'.Accounts state := by
  induction operations generalizing draft with
  | nil =>
    cases hops
    exact h
  | cons operation operations ih =>
    obtain ⟨mid, hfirst, hrest⟩ := bind_ok hops
    exact ih (applyOperation_accounts h hfirst) hrest

/-- The announcement of a transaction that changed something. -/
structure Announced (platform : Platform H J) (state : EditorState D H) (change : StateChange D H) :
    Prop where
  announced : change.announced = true
  previous : change.previous = state
  ranges : Explains change.changedRanges state.markdown change.current.markdown
  version : change.current.version = state.version + 1
  sourceHash : change.current.sourceHash = platform.hashString change.current.markdown
  dirty : change.current.dirty = (state.dirty || change.documentChanged || change.sidecarChanged)
  markdown : change.documentChanged = false → change.current.markdown = state.markdown
  sidecar : change.sidecarChanged = false → change.current.sidecar = state.sidecar

theorem applyTransaction_cases {transaction : Transaction D} {change : StateChange D H}
    (h : applyTransaction platform projector state transaction = .ok change) :
    (change.announced = false ∧ change.current = state) ∨ Announced platform state change := by
  obtain ⟨draft, hops, hchange⟩ := bind_ok h
  have haccounts := applyOperations_accounts (draft_accounts state) hops
  cases hchange
  unfold Draft.finish
  split
  · rename_i hchanged
    exact .inr ⟨hchanged, rfl, haccounts.ranges, rfl, rfl, rfl, haccounts.markdown,
      haccounts.sidecar⟩
  · exact .inl ⟨rfl, rfl⟩

end SuperFunctions.Mdfn

/-!
# The editor controller

Dispatched transactions are recorded on an undo stack. Undo and redo restore a stored state, and
the editor is dirty when its content is not that of the saved revision.
-/
namespace SuperFunctions.Mdfn

open Lib.Splice Lib.Utf16

variable {D H J : Type}

structure HistoryEntry (D H : Type) where
  state : EditorState D H
  changedRanges : List ChangedRange

structure SavedRevision (H J : Type) where
  sourceHash : H
  sidecar : Option J
deriving DecidableEq

/-- The variables of the controller; the top of a stack is its head. A `historyLimit` that no
length exceeds is `none`. -/
structure Editor (D H J : Type) where
  state : EditorState D H
  undoStack : List (HistoryEntry D H)
  redoStack : List (HistoryEntry D H)
  historyLimit : Option Nat
  savedRevision : SavedRevision H J

def invertChangedRanges (ranges : List ChangedRange) : List ChangedRange :=
  ranges.reverse.map Range.invert

/-- The revision that a state would be saved as. -/
def EditorState.revision (platform : Platform H J) (state : EditorState D H) : SavedRevision H J :=
  ⟨state.sourceHash, state.sidecar.map platform.stringify⟩

def createEditor (platform : Platform H J) (projector : EditorProjector D H) (markdown : Text)
    (schemaHash : H) (selection : Option MdfnSelection) (sidecar : Option MdfnSidecar)
    (historyLimit : Option Nat) : Except String (Editor D H J) := do
  let state ← createEditorState platform projector markdown schemaHash selection sidecar
  pure ⟨state, [], [], historyLimit.map (max 1), state.revision platform⟩

inductive Call (D : Type)
  | dispatch (transaction : Transaction D)
  | undo
  | redo
  | markSaved

section Operations

variable [DecidableEq H] [DecidableEq J] (platform : Platform H J) (projector : EditorProjector D H)

/-- `push`, and `shift` when the stack is longer than the limit. -/
def pushLimited (limit : Option Nat) (stack : List (HistoryEntry D H)) (entry : HistoryEntry D H) :
    List (HistoryEntry D H) :=
  let pushed := entry :: stack
  if limit.any (· < pushed.length) then pushed.dropLast else pushed

/-- The editor and what it announced. -/
abbrev Outcome (D H J : Type) := Editor D H J × Option (StateChange D H)

def restore (editor : Editor D H J) (next : EditorState D H) (source : String)
    (changedRanges : List ChangedRange) : Outcome D H J :=
  let previous := editor.state
  let state := { next with
    dirty := next.revision platform ≠ editor.savedRevision
    version := previous.version + 1 }
  ({ editor with state }, some {
    previous
    current := state
    changedRanges
    documentChanged := previous.markdown ≠ state.markdown
    selectionChanged := previous.selection ≠ state.selection
    sidecarChanged := previous.sidecar ≠ state.sidecar
    source })

omit [DecidableEq H] [DecidableEq J] in
/-- A transaction that throws leaves the editor as it was. -/
def dispatch (editor : Editor D H J) (transaction : Transaction D) : Outcome D H J :=
  match applyTransaction platform projector editor.state transaction with
  | .error _ => (editor, none)
  | .ok change =>
    if !change.announced then (editor, none)
    else
      let recorded :=
        if change.documentChanged || change.sidecarChanged then
          if transaction.addToHistory then { editor with
            undoStack := pushLimited editor.historyLimit editor.undoStack
              ⟨editor.state, invertChangedRanges change.changedRanges⟩
            redoStack := [] }
          else { editor with undoStack := [], redoStack := [] }
        else editor
      ({ recorded with state := change.current }, some change)

def undo (editor : Editor D H J) : Outcome D H J :=
  match editor.undoStack with
  | [] => (editor, none)
  | previous :: rest =>
    restore platform { editor with
      undoStack := rest
      redoStack := ⟨editor.state, invertChangedRanges previous.changedRanges⟩ :: editor.redoStack }
      previous.state "history:undo" previous.changedRanges

def redo (editor : Editor D H J) : Outcome D H J :=
  match editor.redoStack with
  | [] => (editor, none)
  | next :: rest =>
    restore platform { editor with
      redoStack := rest
      undoStack := ⟨editor.state, invertChangedRanges next.changedRanges⟩ :: editor.undoStack }
      next.state "history:redo" next.changedRanges

def markSaved (editor : Editor D H J) : Outcome D H J :=
  if !editor.state.dirty then (editor, none)
  else
    let previous := editor.state
    let state := { previous with dirty := false, version := previous.version + 1 }
    ({ editor with state, savedRevision := previous.revision platform }, some {
      previous
      current := state
      changedRanges := []
      documentChanged := false
      selectionChanged := false
      sidecarChanged := false
      source := "state:saved" })

def perform (editor : Editor D H J) : Call D → Outcome D H J
  | .dispatch transaction => dispatch platform projector editor transaction
  | .undo => undo platform editor
  | .redo => redo platform editor
  | .markSaved => markSaved platform editor

end Operations

end SuperFunctions.Mdfn
