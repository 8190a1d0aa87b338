import SuperFunctions.Lib.Processes
import SuperFunctions.Mdfn.Transaction

/-!
# The history of the editor

A run of the controller is followed on a timeline of revisions: recorded changes, undo and redo
move along it, and what was saved is a bookmark. The stacks are the past and the future, the
ranges on them explain the way, and a state that is not dirty is the saved one.
-/
namespace SuperFunctions.Mdfn.EditorHistory

open Lib.Splice Lib.Utf16 Lib.Timeline Lib.Transition List

variable {D H J : Type}

/-- What the history is about: the text and the sidecar. -/
structure Revision where
  markdown : Text
  sidecar : Option MdfnSidecar
deriving DecidableEq

def content (state : EditorState D H) : Revision := ⟨state.markdown, state.sidecar⟩

def entryContent (entry : HistoryEntry D H) : Revision := content entry.state

/-- The timeline after a call and its announcement. -/
def follow (limit : Option Nat) (t : Timeline Revision) (call : Call D)
    (announced : Option (StateChange D H)) : Timeline Revision :=
  match call, announced with
  | .dispatch transaction, some change =>
    if change.documentChanged || change.sidecarChanged then
      if transaction.addToHistory then t.record limit (content change.current)
      else t.rewrite (content change.current)
    else t
  | .dispatch _, none => t
  | .undo, _ => t.undo
  | .redo, _ => t.redo
  | .markSaved, _ => t.save

structure Observed (D H J : Type) where
  editor : Editor D H J
  timeline : Timeline Revision

/-- The observed editor with its past and future exchanged. -/
def Observed.mirror (s : Observed D H J) : Observed D H J :=
  ⟨{ s.editor with undoStack := s.editor.redoStack, redoStack := s.editor.undoStack },
    { s.timeline with past := s.timeline.future, future := s.timeline.past }⟩

section Run

variable [DecidableEq H] [DecidableEq J] (platform : Platform H J) (projector : EditorProjector D H)

def step (s : Observed D H J) (call : Call D) : Option (Observed D H J) :=
  let outcome := perform platform projector s.editor call
  some ⟨outcome.1, follow s.editor.historyLimit s.timeline call outcome.2⟩

def observe (editor : Editor D H J) : Observed D H J :=
  ⟨editor, .start (content editor.state)⟩

end Run

/-- The entries of a stack lead on from the text before them. -/
def Chained : Text → List (HistoryEntry D H) → Prop
  | _, [] => True
  | markdown, entry :: rest =>
    Explains entry.changedRanges markdown entry.state.markdown ∧ Chained entry.state.markdown rest

/-- The states are hashed by their own text. -/
def Hashed (platform : Platform H J) (state : EditorState D H) : Prop :=
  state.sourceHash = platform.hashString state.markdown

/-- The revision that stands in `savedRevision` for a content. -/
def savedAs (platform : Platform H J) (r : Revision) : SavedRevision H J :=
  ⟨platform.hashString r.markdown, r.sidecar.map platform.stringify⟩

structure Inv (platform : Platform H J) (s : Observed D H J) : Prop where
  present : content s.editor.state = s.timeline.present
  past : s.editor.undoStack.map entryContent = s.timeline.past
  future : s.editor.redoStack.map entryContent = s.timeline.future
  limited : ∀ n, s.editor.historyLimit = some n →
    s.editor.undoStack.length + s.editor.redoStack.length ≤ n
  undoChained : Chained s.editor.state.markdown s.editor.undoStack
  redoChained : Chained s.editor.state.markdown s.editor.redoStack
  hashed : Hashed platform s.editor.state
  undoHashed : ∀ entry ∈ s.editor.undoStack, Hashed platform entry.state
  redoHashed : ∀ entry ∈ s.editor.redoStack, Hashed platform entry.state
  saved : s.editor.savedRevision = savedAs platform s.timeline.saved
  clean : s.editor.state.dirty = false → s.editor.state.revision platform = s.editor.savedRevision

variable {state : EditorState D H}

theorem revision_of_hashed {platform : Platform H J} (h : Hashed platform state) :
    state.revision platform = savedAs platform (content state) := by
  rw [EditorState.revision, h]
  rfl

variable {stack : List (HistoryEntry D H)} {markdown : Text}

theorem chained_take (n : Nat) (h : Chained markdown stack) : Chained markdown (stack.take n) := by
  induction stack generalizing markdown n with
  | nil => simpa using h
  | cons entry rest ih =>
    cases n with
    | zero => exact trivial
    | succ n => exact ⟨h.1, ih n h.2⟩

theorem chained_keep (limit : Option Nat) (h : Chained markdown stack) :
    Chained markdown (keep limit stack) := by
  cases limit with
  | none => exact h
  | some n => exact chained_take n h

/-- The state that is left goes onto the other stack, with the ranges that lead back to it. -/
theorem chained_push {ranges : List ChangedRange}
    (hranges : Explains ranges state.markdown markdown) (h : Chained state.markdown stack) :
    Chained markdown (⟨state, invertChangedRanges ranges⟩ :: stack) :=
  ⟨explains_invert hranges, h⟩

variable {limit : Option Nat}

theorem pushLimited_eq (entry : HistoryEntry D H) (h : ∀ n, limit = some n → stack.length ≤ n) :
    pushLimited limit stack entry = keep limit (entry :: stack) := by
  cases limit with
  | none => rfl
  | some n =>
    have hle := h n rfl
    simp only [pushLimited, keep, Option.any_some, decide_eq_true_eq, length_cons]
    split
    · rw [dropLast_eq_take]
      congr 1
      simp only [length_cons]
      omega
    · rw [take_of_length_le]
      simp only [length_cons]
      omega

variable {α : Type}

theorem keep_map {β : Type} (f : α → β) (limit : Option Nat) (xs : List α) :
    (keep limit xs).map f = keep limit (xs.map f) := by
  cases limit with
  | none => rfl
  | some n => exact map_take

theorem mem_of_mem_keep {xs : List α} {x : α} (h : x ∈ keep limit xs) : x ∈ xs := by
  cases limit with
  | none => exact h
  | some n => exact mem_of_mem_take h

theorem keep_length {n : Nat} (xs : List α) : (keep (some n) xs).length ≤ n :=
  (length_take_le n xs)

section Steps

variable [DecidableEq H] [DecidableEq J] {platform : Platform H J}
  {projector : EditorProjector D H} {s s' : Observed D H J}

theorem undo_inv (h : Inv platform s) :
    Inv platform ⟨(undo platform s.editor).1, s.timeline.undo⟩ := by
  have hpast := h.past
  cases hstack : s.editor.undoStack with
  | nil =>
    rw [hstack] at hpast
    have hsame : s.timeline.undo = s.timeline := by
      simp only [Timeline.undo, ← hpast, map_nil]
    simp only [undo, hstack, hsame]
    exact h
  | cons previous rest =>
    have hchain := h.undoChained
    rw [hstack] at hchain
    have hhashed : ∀ entry ∈ previous :: rest, Hashed platform entry.state :=
      hstack ▸ h.undoHashed
    simp only [undo, hstack, restore, Timeline.undo, ← hpast]
    constructor
    · rfl
    · rfl
    · rw [← h.future, ← h.present]
      rfl
    · intro n hn
      have hlimit := h.limited n hn
      rw [hstack] at hlimit
      simp only [length_cons] at hlimit ⊢
      omega
    · exact hchain.2
    · exact chained_push hchain.1 h.redoChained
    · exact hhashed previous mem_cons_self
    · intro entry hentry
      exact hhashed entry (mem_cons_of_mem _ hentry)
    · intro entry hentry
      rcases mem_cons.mp hentry with rfl | hold
      · exact h.hashed
      · exact h.redoHashed entry hold
    · exact h.saved
    · intro hclean
      have hsaved : previous.state.revision platform = s.editor.savedRevision := by
        simpa using hclean
      exact hsaved

omit [DecidableEq H] [DecidableEq J] in
theorem inv_mirror (h : Inv platform s) : Inv platform s.mirror := { h with
  past := h.future
  future := h.past
  limited n hn := Nat.add_comm _ _ ▸ h.limited n hn
  undoChained := h.redoChained
  redoChained := h.undoChained
  undoHashed := h.redoHashed
  redoHashed := h.undoHashed }

/-- Redo is undo in the mirror. -/
theorem redo_mirror (platform : Platform H J) (s : Observed D H J) :
    (⟨(redo platform s.editor).1, s.timeline.redo⟩ : Observed D H J) =
      Observed.mirror ⟨(undo platform s.mirror.editor).1, s.mirror.timeline.undo⟩ := by
  obtain ⟨⟨state, undoStack, redoStack, limit, saved⟩, ⟨past, present, future, bookmark⟩⟩ := s
  cases redoStack <;> cases future <;> rfl

theorem redo_inv (h : Inv platform s) :
    Inv platform ⟨(redo platform s.editor).1, s.timeline.redo⟩ := by
  rw [redo_mirror]
  exact inv_mirror (undo_inv (inv_mirror h))

omit [DecidableEq H] [DecidableEq J] in
theorem markSaved_inv (h : Inv platform s) :
    Inv platform ⟨(markSaved platform s.editor).1, s.timeline.save⟩ := by
  have hrevision := revision_of_hashed h.hashed
  unfold markSaved
  split
  · rename_i hclean
    have hclean : s.editor.state.dirty = false := by simpa using hclean
    refine { h with saved := ?_ }
    show s.editor.savedRevision = savedAs platform s.timeline.present
    rw [← h.clean hclean, hrevision, h.present]
  · refine { h with saved := ?_, clean := fun _ => rfl }
    show s.editor.state.revision platform = savedAs platform s.timeline.present
    rw [hrevision, h.present]

variable {change : StateChange D H}

omit [DecidableEq H] [DecidableEq J] in
/-- A state that a transaction leaves clean has the content it had, and was clean. -/
theorem announced_clean (h : Inv platform s) (hannounced : Announced platform s.editor.state change)
    (hclean : change.current.dirty = false) :
    change.current.revision platform = s.editor.savedRevision := by
  rw [hannounced.dirty, Bool.or_eq_false_iff, Bool.or_eq_false_iff] at hclean
  obtain ⟨⟨hwas, hdocument⟩, hsidecar⟩ := hclean
  have hmarkdown := hannounced.markdown hdocument
  rw [← h.clean hwas, EditorState.revision, EditorState.revision, hannounced.sourceHash,
    hannounced.sidecar hsidecar, hmarkdown, h.hashed]

omit [DecidableEq H] [DecidableEq J] in
theorem recorded_inv (h : Inv platform s) (hannounced : Announced platform s.editor.state change) :
    Inv platform ⟨{ s.editor with
        state := change.current
        undoStack := pushLimited s.editor.historyLimit s.editor.undoStack
          ⟨s.editor.state, invertChangedRanges change.changedRanges⟩
        redoStack := [] },
      s.timeline.record s.editor.historyLimit (content change.current)⟩ := by
  have hpushed := pushLimited_eq
    (⟨s.editor.state, invertChangedRanges change.changedRanges⟩ : HistoryEntry D H)
    fun n hn => Nat.le_trans (Nat.le_add_right _ _) (h.limited n hn)
  have hclean := announced_clean h hannounced
  rw [hpushed]
  refine ⟨rfl, ?_, rfl, ?_, ?_, trivial, hannounced.sourceHash, ?_, forall_mem_nil _,
    h.saved, hclean⟩
  · show (keep _ _).map entryContent = keep _ (s.timeline.present :: s.timeline.past)
    rw [keep_map, map_cons, h.past, ← h.present]
    rfl
  · intro n hn
    have hn : s.editor.historyLimit = some n := hn
    simp only [hn, length_nil, Nat.add_zero]
    exact keep_length _
  · exact chained_keep _ ⟨explains_invert hannounced.ranges, h.undoChained⟩
  · intro entry hentry
    rcases mem_cons.mp (mem_of_mem_keep hentry) with rfl | hold
    · exact h.hashed
    · exact h.undoHashed entry hold

omit [DecidableEq H] [DecidableEq J] in
theorem rewritten_inv (h : Inv platform s) (hannounced : Announced platform s.editor.state change) :
    Inv platform ⟨{ s.editor with state := change.current, undoStack := [], redoStack := [] },
      s.timeline.rewrite (content change.current)⟩ := by
  have hclean := announced_clean h hannounced
  exact ⟨rfl, rfl, rfl, fun _ _ => Nat.zero_le _, trivial, trivial, hannounced.sourceHash,
    forall_mem_nil _, forall_mem_nil _, h.saved, hclean⟩

omit [DecidableEq H] [DecidableEq J] in
theorem unrecorded_inv (h : Inv platform s) (hannounced : Announced platform s.editor.state change)
    (hdocument : change.documentChanged = false) (hsidecar : change.sidecarChanged = false) :
    Inv platform ⟨{ s.editor with state := change.current }, s.timeline⟩ := by
  have hclean := announced_clean h hannounced
  have hmarkdown := hannounced.markdown hdocument
  have hcontent : content change.current = content s.editor.state := by
    rw [content, content, hmarkdown, hannounced.sidecar hsidecar]
  exact { h with
    present := hcontent.trans h.present
    undoChained := hmarkdown ▸ h.undoChained
    redoChained := hmarkdown ▸ h.redoChained
    hashed := hannounced.sourceHash
    clean := hclean }

variable {transaction : Transaction D}

omit [DecidableEq H] [DecidableEq J] in
theorem dispatch_inv (h : Inv platform s) :
    Inv platform ⟨(dispatch platform projector s.editor transaction).1,
      follow s.editor.historyLimit s.timeline (.dispatch transaction)
        (dispatch platform projector s.editor transaction).2⟩ := by
  unfold dispatch
  split
  · exact h
  rename_i change happly
  rcases applyTransaction_cases happly with ⟨hquiet, -⟩ | hannounced
  · simp only [hquiet, Bool.not_false, if_true]
    exact h
  simp only [hannounced.announced, Bool.not_true, Bool.false_eq_true, if_false, follow]
  split
  · split
    · exact recorded_inv h hannounced
    · exact rewritten_inv h hannounced
  · rename_i hunchanged
    simp only [Bool.or_eq_true, not_or, Bool.not_eq_true] at hunchanged
    exact unrecorded_inv h hannounced hunchanged.1 hunchanged.2

variable {call : Call D}

theorem step_inv (h : Inv platform s) (hstep : step platform projector s call = some s') :
    Inv platform s' := by
  cases hstep
  cases call with
  | dispatch transaction => exact dispatch_inv h
  | undo => exact undo_inv h
  | redo => exact redo_inv h
  | markSaved => exact markSaved_inv h

/-- The projector hashes a text as the editor does, or not at all. -/
def HashesText (platform : Platform H J) (projector : EditorProjector D H) : Prop :=
  ∀ markdown parsed, projector.parse markdown = .ok parsed →
    parsed.sourceHash = none ∨ parsed.sourceHash = some (platform.hashString markdown)

variable {editor : Editor D H J}

omit [DecidableEq H] [DecidableEq J] in
theorem created_inv {schemaHash : H} {selection : Option MdfnSelection}
    {sidecar : Option MdfnSidecar} {historyLimit : Option Nat}
    (hprojector : HashesText platform projector)
    (hcreated : createEditor platform projector markdown schemaHash selection sidecar historyLimit =
      .ok editor) : Inv platform (observe editor) := by
  obtain ⟨state, hstate, hresult⟩ := bind_ok hcreated
  obtain ⟨parsed, hparsed, hstate⟩ := bind_ok hstate
  obtain ⟨selected, -, hstate⟩ := bind_ok hstate
  obtain ⟨validated, -, hstate⟩ := bind_ok hstate
  cases hresult
  have hhashed : Hashed platform state := by
    cases hstate
    rcases hprojector markdown parsed hparsed with hnone | hsome
    · rw [hnone]
      rfl
    · rw [hsome]
      rfl
  exact ⟨rfl, rfl, rfl, fun _ _ => Nat.zero_le _, trivial, trivial, hhashed,
    forall_mem_nil _, forall_mem_nil _, revision_of_hashed hhashed, fun _ => rfl⟩

/-- What the call that announced a change did with the history. -/
def Moves (s : Observed D H J) (editor : Editor D H J) (change : StateChange D H) : Call D → Prop
  | .dispatch transaction => transaction.addToHistory = true →
    (change.documentChanged || change.sidecarChanged) = true → editor.redoStack = []
  | .undo => (∃ past, s.timeline.past = content editor.state :: past) ∧
    (content editor.state = s.timeline.saved → editor.state.dirty = false)
  | .redo => (∃ future, s.timeline.future = content editor.state :: future) ∧
    (content editor.state = s.timeline.saved → editor.state.dirty = false)
  | .markSaved => editor.state.dirty = false

/-- An announced change, seen from the state before the call. -/
structure Announces (s : Observed D H J) (call : Call D) (editor : Editor D H J)
    (change : StateChange D H) : Prop where
  previous : change.previous = s.editor.state
  current : change.current = editor.state
  version : editor.state.version = s.editor.state.version + 1
  ranges : Explains change.changedRanges s.editor.state.markdown editor.state.markdown
  moves : Moves s editor change call

/-- There is nothing that the call could undo or redo. -/
def Exhausted (t : Timeline Revision) : Call D → Prop
  | .undo => t.past = []
  | .redo => t.future = []
  | .dispatch _ | .markSaved => True

/-- The outcome of a call: an announced change, or nothing at all. -/
structure Accounted (s : Observed D H J) (call : Call D) (outcome : Outcome D H J) : Prop where
  announced : ∀ change, outcome.2 = some change → Announces s call outcome.1 change
  silent : outcome.2 = none → outcome.1 = s.editor ∧ Exhausted s.timeline call

omit [DecidableEq H] [DecidableEq J] in
theorem accounted_silent (h : Exhausted s.timeline call) :
    Accounted s call (s.editor, none) where
  announced change hchange := by cases hchange
  silent _ := ⟨rfl, h⟩

omit [DecidableEq H] [DecidableEq J] in
theorem accounted_announced (h : Announces s call editor change) :
    Accounted s call (editor, some change) where
  announced change' hchange := by
    cases hchange
    exact h
  silent hnone := by cases hnone

theorem restored_clean (h : Inv platform s) {next : EditorState D H}
    (hhashed : Hashed platform next) (hsaved : content next = s.timeline.saved) :
    decide (next.revision platform ≠ s.editor.savedRevision) = false := by
  have hsame : next.revision platform = s.editor.savedRevision := by
    rw [revision_of_hashed hhashed, hsaved, h.saved]
  simpa using hsame

theorem undo_accounted (h : Inv platform s) : Accounted s .undo (undo platform s.editor) := by
  have hpast := h.past
  cases hstack : s.editor.undoStack with
  | nil =>
    rw [hstack] at hpast
    simp only [undo, hstack]
    exact accounted_silent hpast.symm
  | cons previous rest =>
    have hchain := h.undoChained
    rw [hstack] at hchain hpast
    have hhashed : Hashed platform previous.state :=
      h.undoHashed previous (hstack ▸ mem_cons_self)
    simp only [undo, hstack]
    apply accounted_announced
    exact ⟨rfl, rfl, rfl, hchain.1, ⟨_, hpast.symm⟩, restored_clean h hhashed⟩

theorem redo_accounted (h : Inv platform s) : Accounted s .redo (redo platform s.editor) := by
  have hfuture := h.future
  cases hstack : s.editor.redoStack with
  | nil =>
    rw [hstack] at hfuture
    simp only [redo, hstack]
    exact accounted_silent hfuture.symm
  | cons next rest =>
    have hchain := h.redoChained
    rw [hstack] at hchain hfuture
    have hhashed : Hashed platform next.state := h.redoHashed next (hstack ▸ mem_cons_self)
    simp only [redo, hstack]
    apply accounted_announced
    exact ⟨rfl, rfl, rfl, hchain.1, ⟨_, hfuture.symm⟩, restored_clean h hhashed⟩

omit [DecidableEq H] [DecidableEq J] in
theorem dispatch_accounted (transaction : Transaction D) :
    Accounted s (.dispatch transaction) (dispatch platform projector s.editor transaction) := by
  unfold dispatch
  split
  · exact accounted_silent trivial
  rename_i change happly
  rcases applyTransaction_cases happly with ⟨hquiet, -⟩ | hannounced
  · simp only [hquiet, Bool.not_false, if_true]
    exact accounted_silent trivial
  simp only [hannounced.announced, Bool.not_true, Bool.false_eq_true, if_false]
  apply accounted_announced
  refine { hannounced with current := rfl, moves := ?_ }
  intro hadd hcontent
  simp only [hadd, hcontent, if_true]

omit [DecidableEq H] [DecidableEq J] in
theorem markSaved_accounted : Accounted s .markSaved (markSaved platform s.editor) := by
  unfold markSaved
  split
  · exact accounted_silent trivial
  · exact accounted_announced ⟨rfl, rfl, rfl, rfl, rfl⟩

theorem perform_accounted (h : Inv platform s) (call : Call D) :
    Accounted s call (perform platform projector s.editor call) := by
  cases call with
  | dispatch transaction => exact dispatch_accounted transaction
  | undo => exact undo_accounted h
  | redo => exact redo_accounted h
  | markSaved => exact markSaved_accounted

/-- The text that is restored is not another one with the bytes of the saved text. -/
def TellsApart (s : Observed D H J) : Call D → Bool
  | .undo => s.timeline.past.head?.all fun r =>
    r.markdown = s.timeline.saved.markdown ||
      encodeUtf8 r.markdown ≠ encodeUtf8 s.timeline.saved.markdown
  | .redo => s.timeline.future.head?.all fun r =>
    r.markdown = s.timeline.saved.markdown ||
      encodeUtf8 r.markdown ≠ encodeUtf8 s.timeline.saved.markdown
  | .dispatch _ | .markSaved => true

omit [DecidableEq H] [DecidableEq J] in
/-- A state that is not dirty has the content that was saved. -/
def Clean (s : Observed D H J) : Prop :=
  s.editor.state.dirty = false → content s.editor.state = s.timeline.saved

omit [DecidableEq H] [DecidableEq J] in
theorem content_of_savedAs {a b : Revision} (hsha : Function.Injective platform.sha256)
    (hjson : Function.Injective platform.stringify)
    (h : savedAs platform a = savedAs platform b) :
    encodeUtf8 a.markdown = encodeUtf8 b.markdown ∧ a.sidecar = b.sidecar := by
  have hhash : platform.sha256 (encodeUtf8 a.markdown) =
      platform.sha256 (encodeUtf8 b.markdown) := congrArg SavedRevision.sourceHash h
  have hsidecar : a.sidecar.map platform.stringify = b.sidecar.map platform.stringify :=
    congrArg SavedRevision.sidecar h
  exact ⟨hsha hhash, Option.map_injective hjson hsidecar⟩

omit [DecidableEq H] [DecidableEq J] in
theorem saved_of_restored {r : Revision} (h : Inv platform s) (hcontent : content s.editor.state = r)
    (hsha : Function.Injective platform.sha256) (hjson : Function.Injective platform.stringify)
    (happart : r.markdown = s.timeline.saved.markdown ∨
      encodeUtf8 r.markdown ≠ encodeUtf8 s.timeline.saved.markdown) : Clean s := by
  intro hclean
  have hsaved := (revision_of_hashed h.hashed).symm.trans ((h.clean hclean).trans h.saved)
  rw [hcontent] at hsaved ⊢
  obtain ⟨hbytes, hsidecar⟩ := content_of_savedAs hsha hjson hsaved
  rcases happart with hsame | hdiffer
  · obtain ⟨markdown, sidecar⟩ := r
    cases hsame
    cases hsidecar
    rfl
  · exact (hdiffer hbytes).elim

omit [DecidableEq H] [DecidableEq J] in
theorem dispatch_clean (h : Clean s) :
    Clean ⟨(dispatch platform projector s.editor transaction).1,
      follow s.editor.historyLimit s.timeline (.dispatch transaction)
        (dispatch platform projector s.editor transaction).2⟩ := by
  unfold dispatch
  split
  · exact h
  rename_i change happly
  rcases applyTransaction_cases happly with ⟨hquiet, -⟩ | hannounced
  · simp only [hquiet, Bool.not_false, if_true]
    exact h
  intro hclean
  simp only [hannounced.announced, Bool.not_true, Bool.false_eq_true, if_false] at hclean ⊢
  have hdirty := hannounced.dirty
  rw [hclean, eq_comm, Bool.or_eq_false_iff, Bool.or_eq_false_iff] at hdirty
  obtain ⟨⟨hwas, hdocument⟩, hsidecar⟩ := hdirty
  have hcontent : content change.current = content s.editor.state := by
    rw [content, content, hannounced.markdown hdocument, hannounced.sidecar hsidecar]
  simp only [follow, hdocument, hsidecar, Bool.or_false, Bool.false_eq_true, if_false]
  exact hcontent.trans (h hwas)

theorem undo_clean (hsha : Function.Injective platform.sha256)
    (hjson : Function.Injective platform.stringify) (h : Inv platform s) (hclean : Clean s)
    (happart : TellsApart s (.undo : Call D) = true) :
    Clean ⟨(undo platform s.editor).1, s.timeline.undo⟩ := by
  have hinv := undo_inv h
  have hpast := h.past
  cases hstack : s.editor.undoStack with
  | nil =>
    simp only [undo, hstack, Timeline.undo, ← hpast, map_nil]
    exact hclean
  | cons previous rest =>
    rw [hstack, map_cons] at hpast
    apply saved_of_restored hinv hinv.present hsha hjson
    simp only [TellsApart, ← hpast, head?_cons, Option.all_some, Bool.or_eq_true,
      decide_eq_true_eq] at happart
    simp only [Timeline.undo, ← hpast]
    exact happart

omit [DecidableEq H] [DecidableEq J] in
theorem clean_mirror (h : Clean s) : Clean s.mirror := h

theorem redo_clean (hsha : Function.Injective platform.sha256)
    (hjson : Function.Injective platform.stringify) (h : Inv platform s) (hclean : Clean s)
    (happart : TellsApart s (.redo : Call D) = true) :
    Clean ⟨(redo platform s.editor).1, s.timeline.redo⟩ := by
  rw [redo_mirror]
  exact clean_mirror (undo_clean hsha hjson (inv_mirror h) (clean_mirror hclean) happart)

theorem step_clean (hsha : Function.Injective platform.sha256)
    (hjson : Function.Injective platform.stringify) (h : Inv platform s) (hclean : Clean s)
    (happart : TellsApart s call = true) (hstep : step platform projector s call = some s') :
    Clean s' := by
  have hinv := step_inv h hstep
  cases hstep
  cases call with
  | dispatch transaction => exact dispatch_clean hclean
  | undo => exact undo_clean hsha hjson h hclean happart
  | redo => exact redo_clean hsha hjson h hclean happart
  | markSaved => exact fun _ => hinv.present

structure CleanInv (platform : Platform H J) (s : Observed D H J) : Prop where
  inv : Inv platform s
  clean : Clean s

/-- What holds after any run: the stacks are the past and the future of the timeline, every call
accounts for itself, and a state that is not dirty is the saved one if the restored texts were told
apart. -/
theorem history_exact {markdown : Text} {schemaHash : H} {selection : Option MdfnSelection}
    {sidecar : Option MdfnSidecar} {historyLimit : Option Nat} {editor : Editor D H J}
    {calls : List (Call D)} (hprojector : HashesText platform projector)
    (hsha : Function.Injective platform.sha256) (hjson : Function.Injective platform.stringify)
    (hcreated : createEditor platform projector markdown schemaHash selection sidecar historyLimit =
      .ok editor)
    (hrun : run (step platform projector) (observe editor) calls = some s) :
    (content s.editor.state = s.timeline.present ∧
      s.editor.undoStack.map entryContent = s.timeline.past ∧
      s.editor.redoStack.map entryContent = s.timeline.future) ∧
    (∀ call, Accounted s call (perform platform projector s.editor call)) ∧
    (Guarded (step platform projector) (fun s call => TellsApart s call = true) (observe editor)
      calls → Clean s) := by
  have hstart := created_inv hprojector hcreated
  have hinv : Inv platform s :=
    run_invariant (step platform projector) (fun _ _ _ h hstep => step_inv h hstep) hstart hrun
  refine ⟨⟨hinv.present, hinv.past, hinv.future⟩, perform_accounted hinv, ?_⟩
  intro happart
  have hclean : CleanInv platform s :=
    guarded_run_invariant (step platform projector)
      (fun _ _ _ h happart hstep =>
        ⟨step_inv h.inv hstep, step_clean hsha hjson h.inv h.clean happart hstep⟩)
      ⟨hstart, fun _ => hstart.present⟩ happart hrun
  exact hclean.clean

end Steps

/-! ## Two runs -/

/-- A platform that tells all bytes and all sidecars apart. -/
def plainPlatform : Platform Lib.Utf8.Bytes MdfnSidecar := ⟨id, id, fun _ => true⟩

def plainProjector : EditorProjector Unit Lib.Utf8.Bytes where
  parse _ := .ok ⟨(), none⟩
  serialize _ original := .ok original

theorem plainProjector_hashesText : HashesText plainPlatform plainProjector := by
  intro markdown parsed h
  cases h
  exact .inl rfl

def replaced (start stop : Nat) (h : start ≤ stop) (text : Text) : Call Unit :=
  .dispatch ⟨[.replaceSource ⟨start, stop, h⟩ text], "command", true⟩

theorem first_unit : 0 ≤ 1 := by decide

theorem second_unit : 1 ≤ 2 := by decide

/-- A text of one unit with a comment on it. -/
def commented : Option MdfnSidecar :=
  some ⟨some [⟨[99], ⟨0, 1, none⟩, false, [⟨[109], [117], [98], [48], none⟩]⟩], none, none, none,
    none, none, []⟩

def plainEditor (markdown : Text) (sidecar : Option MdfnSidecar) :
    Except String (Editor Unit Lib.Utf8.Bytes MdfnSidecar) :=
  createEditor plainPlatform plainProjector markdown [] none sidecar (some 2)

def observedAfter (markdown : Text) (sidecar : Option MdfnSidecar) (calls : List (Call Unit)) :
    Option (Observed Unit Lib.Utf8.Bytes MdfnSidecar) :=
  match plainEditor markdown sidecar with
  | .error _ => none
  | .ok editor => run (step plainPlatform plainProjector) (observe editor) calls

def savedAndRestored : List (Call Unit) :=
  [replaced 0 1 first_unit [98, 99], .markSaved, replaced 1 2 second_unit [], .undo, .undo, .redo]

theorem savedAndRestored_exact : ∃ s, observedAfter [97] commented savedAndRestored = some s ∧
    s.editor.undoStack.map entryContent = s.timeline.past ∧ Clean s := by
  obtain ⟨created, hcreated⟩ : ∃ created, plainEditor [97] commented = .ok created := ⟨_, rfl⟩
  obtain ⟨s, hrun⟩ := Option.isSome_iff_exists.mp
    (show (run (step plainPlatform plainProjector) (observe created) savedAndRestored).isSome =
      true by
      cases hcreated
      decide +kernel)
  have happart : Guarded (step plainPlatform plainProjector)
      (fun s call => TellsApart s call = true) (observe created) savedAndRestored := by
    cases hcreated
    decide +kernel
  obtain ⟨⟨-, hpast, -⟩, -, hclean⟩ := history_exact plainProjector_hashesText
    Function.injective_id Function.injective_id hcreated hrun
  refine ⟨s, ?_, hpast, hclean happart⟩
  rwa [observedAfter, hcreated]

/-- A lone surrogate is replaced by the character that stands for it in the bytes. -/
def surrogateReplaced : List (Call Unit) := [replaced 0 1 first_unit [0xFFFD], .undo, .redo]

theorem surrogateReplaced_not_clean :
    ¬∀ s, observedAfter [0xD83D] none surrogateReplaced = some s → Clean s := by
  intro h
  have hends : (observedAfter [0xD83D] none surrogateReplaced).any (fun s => !s.editor.state.dirty &&
      decide (content s.editor.state ≠ s.timeline.saved)) = true := by decide +kernel
  obtain ⟨s, hrun, hs⟩ := (Option.any_eq_true _ _).mp hends
  simp only [Bool.and_eq_true, Bool.not_eq_true', decide_eq_true_eq] at hs
  exact hs.2 (h s hrun hs.1)

end SuperFunctions.Mdfn.EditorHistory
