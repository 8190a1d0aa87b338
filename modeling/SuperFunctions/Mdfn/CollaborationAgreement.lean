import SuperFunctions.Mdfn.Collaboration
import SuperFunctions.Mdfn.EditorHistory

/-!
# The editor and the shared document agree

Whenever nothing is being announced, the shared text is the text of the editor and the shared
sidecar is the editor's. This needs that no announcement reaches the session after a later change,
that nothing is changed while a remote update is announced, that a remote text does not move the
anchors of a sidecar it leaves alone, and that no edit of the shared text splits a surrogate pair.
-/
namespace SuperFunctions.Mdfn.CollaborationAgreement

open Collaboration Lib.Splice Lib.Utf16 Lib.Transition

variable {D H J : Type}

/-! ## Agreement -/

/-- The text that the sidecar map holds. -/
def storedJson (platform : Platform H J) : SidecarValue → Option J
  | .sidecar value => some (platform.stringify value)
  | .unreadable _ => none

def sidecarJson (platform : Platform H J) (sidecar : Option MdfnSidecar) : Option (Option J) :=
  sidecar.map fun value => some (platform.stringify value)

def TextAgrees (shared : Shared) (state : EditorState D H) : Prop :=
  shared.markdown = state.markdown

def SidecarAgrees (platform : Platform H J) (shared : Shared) (state : EditorState D H) : Prop :=
  shared.sidecar.map (storedJson platform) = sidecarJson platform state.sidecar

structure Agrees (platform : Platform H J) (shared : Shared) (state : EditorState D H) : Prop where
  text : TextAgrees shared state
  sidecar : SidecarAgrees platform shared state

theorem storedJson_stored (platform : Platform H J) (sidecar : Option MdfnSidecar) :
    (sidecar.map SidecarValue.sidecar).map (storedJson platform) =
      sidecarJson platform sidecar := by
  cases sidecar <;> rfl

theorem sidecarJson_congr {platform : Platform H J} {a b : Option MdfnSidecar}
    (h : a.map platform.stringify = b.map platform.stringify) :
    sidecarJson platform a = sidecarJson platform b := by
  have hmap : ∀ sidecar : Option MdfnSidecar,
      sidecarJson platform sidecar = (sidecar.map platform.stringify).map some := by
    intro sidecar
    cases sidecar <;> rfl
  rw [hmap, hmap, h]

/-! ## Edits of the shared text -/

/-- The edit from the one text to the other has a bound inside a surrogate pair. -/
def editSplits (text next : Text) : Bool :=
  splitsPair text (difference text next).start ||
    splitsPair text (difference text next).previousStop

theorem splitAt_whole {text : Text} {position : Nat} (h : splitsPair text position = false) :
    splitAt text position = text := by
  simp [splitAt, h]

theorem editText_eq {text next : Text} (h : editSplits text next = false) :
    editText text next = next := by
  simp only [editSplits, Bool.or_eq_false_iff] at h
  have hsplice := splice_difference text next
  dsimp only at hsplice
  simp only [editText, splitAt_whole h.1, splitAt_whole h.2]
  split
  · rename_i hempty
    rwa [hempty.1, hempty.2, splice, List.append_nil, List.take_append_drop] at hsplice
  · exact hsplice

/-! ## What a call and an update do -/

variable [DecidableEq H] [DecidableEq J] {expected : Expected} {platform : Platform H J}
  {projector : EditorProjector D H}

/-- What the listeners rely on: the change leads to the present state, and a flag that is not set
means that nothing was changed. -/
structure Leads (state state' : EditorState D H) (change : StateChange D H) : Prop where
  current : change.current = state'
  markdown : change.documentChanged = false → state'.markdown = state.markdown
  sidecar : change.sidecarChanged = false → state'.sidecar = state.sidecar

variable {editor editor' : Editor D H J} {change : StateChange D H}

omit [DecidableEq H] [DecidableEq J] in
theorem dispatch_leads {transaction : Transaction D}
    (h : dispatch platform projector editor transaction = (editor', some change)) :
    Leads editor.state editor'.state change := by
  simp only [dispatch] at h
  split at h
  · cases h
  rename_i announced happly
  split at h
  · cases h
  rename_i hannounced
  cases h
  rcases applyTransaction_cases happly with ⟨hsilent, -⟩ | hchange
  · rw [hsilent] at hannounced
    exact absurd rfl hannounced
  · exact ⟨rfl, hchange.markdown, hchange.sidecar⟩

omit [DecidableEq H] [DecidableEq J] in
theorem same_of_unchanged {α : Type} [DecidableEq α] {a b : α} (h : decide (a ≠ b) = false) :
    b = a := by
  simp only [ne_eq, decide_not, Bool.not_eq_false', decide_eq_true_eq] at h
  exact h.symm

theorem restore_leads {next : EditorState D H} {source : String} {ranges : List ChangedRange}
    (h : restore platform editor next source ranges = (editor', some change)) :
    Leads editor.state editor'.state change := by
  cases h
  exact ⟨rfl, same_of_unchanged, same_of_unchanged⟩

variable {call : Call D}

theorem perform_leads (h : perform platform projector editor call = (editor', some change)) :
    Leads editor.state editor'.state change := by
  cases call with
  | dispatch transaction => exact dispatch_leads h
  | undo =>
    simp only [perform, undo] at h
    split at h
    · cases h
    · have hleads := restore_leads h
      exact hleads
  | redo =>
    simp only [perform, redo] at h
    split at h
    · cases h
    · have hleads := restore_leads h
      exact hleads
  | markSaved =>
    simp only [perform, markSaved] at h
    split at h
    · cases h
    · cases h
      exact ⟨rfl, fun _ => rfl, fun _ => rfl⟩

theorem perform_silent (h : perform platform projector editor call = (editor', none)) :
    editor' = editor := by
  cases call with
  | dispatch transaction =>
    simp only [perform, dispatch] at h
    split at h
    · cases h
      rfl
    · split at h
      · cases h
        rfl
      · cases h
  | undo =>
    simp only [perform, undo] at h
    split at h
    · cases h
      rfl
    · cases h
  | redo =>
    simp only [perform, redo] at h
    split at h
    · cases h
      rfl
    · cases h
  | markSaved =>
    simp only [perform, markSaved] at h
    split at h
    · cases h
      rfl
    · cases h

variable {sidecar : Option MdfnSidecar}

omit [DecidableEq H] [DecidableEq J] in
theorem assertContract_ok {shared : Shared}
    (h : assertContract expected platform projector shared = .ok sidecar) :
    (∃ parsed, projector.parse shared.markdown = .ok parsed) ∧
      shared.sidecar = sidecar.map .sidecar ∧
      validateMdfnSidecar platform.dateParses (validationOptions shared.markdown.length) sidecar =
        .ok sidecar := by
  simp only [assertContract] at h
  repeat' split at h
  all_goals first | cases h | skip
  rename_i parsed hparse
  refine ⟨⟨parsed, hparse⟩, ?_⟩
  simp only [parseSidecar] at h
  split at h
  · cases h
    exact ⟨by assumption, rfl⟩
  · cases h
  split at h
  · cases h
  rename_i hvalid
  cases h
  have heq := validateMdfnSidecar_eq _ _ hvalid
  subst heq
  exact ⟨by assumption, hvalid⟩

omit [DecidableEq H] [DecidableEq J] in
theorem dispatch_state {transaction : Transaction D}
    (h : applyTransaction platform projector editor.state transaction = .ok change) :
    (dispatch platform projector editor transaction).1.state = change.current := by
  simp only [dispatch, h]
  split
  · rename_i hsilent
    rcases applyTransaction_cases h with ⟨-, hcurrent⟩ | hchange
    · exact hcurrent.symm
    · rw [hchange.announced] at hsilent
      cases hsilent
  · rfl

variable {state : EditorState D H} {draft : Draft D}

omit [DecidableEq H] [DecidableEq J] in
theorem finish_content (platform : Platform H J) (h : draft.Accounts state) (source : String) :
    (draft.finish platform state source).current.markdown = draft.markdown ∧
      (draft.finish platform state source).current.sidecar = draft.sidecar := by
  unfold Draft.finish
  split
  · exact ⟨rfl, rfl⟩
  · rename_i hflags
    simp only [Bool.or_eq_true, not_or, Bool.not_eq_true] at hflags
    exact ⟨(h.markdown hflags.1.1).symm, (h.sidecar hflags.2).symm⟩

variable {parsed : ParseResult D H} {markdown : Text}

omit [DecidableEq H] [DecidableEq J] in
theorem replaceWhole (platform : Platform H J) (draft : Draft D)
    (hparse : projector.parse markdown = .ok parsed) :
    ∃ replaced, List.foldlM (applyOperation platform projector) draft
        (if markdown ≠ draft.markdown then
          [.replaceSource ⟨0, draft.markdown.length, Nat.zero_le _⟩ markdown] else []) =
        .ok replaced ∧
      replaced.markdown = markdown ∧
      replaced.sidecar = if markdown ≠ draft.markdown then
        mapSidecar draft.sidecar ⟨0, draft.markdown.length, markdown.length⟩ else draft.sidecar := by
  by_cases hsame : markdown = draft.markdown
  · exact ⟨draft, by simp [hsame]; rfl, hsame.symm, by simp [hsame]⟩
  have hsplice : splice draft.markdown 0 draft.markdown.length markdown = markdown := by
    simp [splice]
  refine ⟨{ draft.changeRange ⟨0, draft.markdown.length, markdown.length⟩ with
      markdown := markdown
      document := parsed.document
      documentChanged := true }, ?_, rfl, ?_⟩
  · simp only [hsame, ne_eq, not_false_eq_true, if_true, List.foldlM_cons, List.foldlM_nil,
      applyOperation, hsplice, Nat.lt_irrefl, if_false, hparse]
    rfl
  · rw [if_pos hsame]
    rfl

omit [DecidableEq H] in
theorem setSidecar (projector : EditorProjector D H) (previous : Option MdfnSidecar)
    (hvalid : validateMdfnSidecar platform.dateParses (validationOptions draft.markdown.length)
      sidecar = .ok sidecar) :
    ∃ final, List.foldlM (applyOperation platform projector) draft
        (if sidecar.map platform.stringify ≠ previous.map platform.stringify then
          [.sidecar sidecar] else []) = .ok final ∧
      final.markdown = draft.markdown ∧
      final.sidecar = if sidecar.map platform.stringify ≠ previous.map platform.stringify then
        sidecar else draft.sidecar := by
  by_cases hsame : sidecar.map platform.stringify = previous.map platform.stringify
  · exact ⟨draft, by simp [hsame]; rfl, rfl, by simp [hsame]⟩
  · refine ⟨{ draft with sidecar, sidecarChanged := true }, ?_, rfl, by simp [hsame]⟩
    simp only [ne_eq, hsame, not_false_eq_true, if_true, List.foldlM_cons, List.foldlM_nil,
      applyOperation, hvalid]
    rfl

omit [DecidableEq H] in
/-- The sidecar after a remote update. -/
def takenSidecar (platform : Platform H J) (state : EditorState D H) (markdown : Text)
    (sidecar : Option MdfnSidecar) : Option MdfnSidecar :=
  if sidecar.map platform.stringify ≠ state.sidecar.map platform.stringify then sidecar
  else if markdown ≠ state.markdown then
    mapSidecar state.sidecar ⟨0, state.markdown.length, markdown.length⟩
  else state.sidecar

omit [DecidableEq H] in
theorem sharedEdit_applies (platform : Platform H J) (state : EditorState D H)
    (hparse : projector.parse markdown = .ok parsed)
    (hvalid : validateMdfnSidecar platform.dateParses (validationOptions markdown.length) sidecar =
      .ok sidecar) :
    ∃ change, applyTransaction platform projector state
        (sharedEdit platform state markdown sidecar) = .ok change ∧
      change.current.markdown = markdown ∧
      change.current.sidecar = takenSidecar platform state markdown sidecar := by
  obtain ⟨replaced, hfirst, htext, hmapped⟩ :=
    replaceWhole platform state.draft hparse
  rw [← htext] at hvalid
  obtain ⟨final, hsecond, hkept, hset⟩ :=
    setSidecar projector state.sidecar hvalid
  have hops : (sharedEdit platform state markdown sidecar).operations.foldlM
      (applyOperation platform projector) state.draft = .ok final := by
    rw [sharedEdit, List.foldlM_append]
    have hstart : List.foldlM (applyOperation platform projector) state.draft
        (if markdown ≠ state.markdown then
          [.replaceSource ⟨0, state.markdown.length, Nat.zero_le _⟩ markdown] else []) =
        .ok replaced := hfirst
    rwa [hstart]
  have haccounts := applyOperations_accounts (draft_accounts state) hops
  have hcontent := finish_content platform haccounts "collab:remote"
  refine ⟨final.finish platform state "collab:remote", ?_, ?_, ?_⟩
  · rw [applyTransaction, hops]
    rfl
  · rw [hcontent.1, hkept, htext]
  · rw [hcontent.2, hset, hmapped]
    rfl

omit [DecidableEq H] in
/-- The text of a remote update leaves the anchors where the update has them. -/
def keepsAnchors (platform : Platform H J) (state : EditorState D H) (next : Shared) : Bool :=
  next.markdown = state.markdown ||
    (next.sidecar.map (storedJson platform) ≠ sidecarJson platform state.sidecar ||
      (mapSidecar state.sidecar ⟨0, state.markdown.length, next.markdown.length⟩).map
        platform.stringify = state.sidecar.map platform.stringify)

omit [DecidableEq H] in
theorem takenSidecar_agrees {next : Shared} (hstored : next.sidecar = sidecar.map .sidecar)
    (hkeeps : keepsAnchors platform state next = true) :
    next.sidecar.map (storedJson platform) =
      sidecarJson platform (takenSidecar platform state next.markdown sidecar) := by
  rw [hstored, storedJson_stored]
  simp only [keepsAnchors, hstored, storedJson_stored, Bool.or_eq_true, decide_eq_true_eq] at hkeeps
  unfold takenSidecar
  split
  · rfl
  rename_i hsame
  rw [ne_eq, not_not] at hsame
  split
  · rename_i hmoved
    rcases hkeeps with hkeeps | hkeeps | hkeeps
    · exact absurd hkeeps hmoved
    · exact absurd (sidecarJson_congr hsame) hkeeps
    · exact sidecarJson_congr (hsame.trans hkeeps.symm)
  · exact sidecarJson_congr hsame

omit [DecidableEq H] in
theorem applySharedState_agrees {next : Shared} {change : Option (StateChange D H)}
    (h : applySharedState expected platform projector editor next = .ok (editor', change))
    (hkeeps : keepsAnchors platform editor.state next = true) :
    Agrees platform next editor'.state := by
  obtain ⟨sidecar, hcontract, h⟩ := bind_ok h
  obtain ⟨⟨parsed, hparse⟩, hstored, hvalid⟩ := assertContract_ok hcontract
  obtain ⟨announced, happly, htext, hset⟩ :=
    sharedEdit_applies platform editor.state hparse hvalid
  have hagrees := takenSidecar_agrees hstored hkeeps
  have hstate : editor'.state = announced.current := by
    have hfinal := Except.ok.inj h
    split at hfinal
    · -- without operations the transaction leaves the state
      rename_i hempty
      cases hfinal
      rw [applyTransaction, List.isEmpty_iff.mp hempty] at happly
      cases happly
      rfl
    · rw [← dispatch_state happly, hfinal]
  exact ⟨by rw [TextAgrees, hstate, htext], by rw [SidecarAgrees, hstate, hset, hagrees]⟩

/-! ## Runs -/

/-- What a change announces is what the editor has, and it can be made in the shared text. -/
def upToDate (platform : Platform H J) (s : Session D H J) (change : StateChange D H) : Bool :=
  (!change.documentChanged || (change.current.markdown = s.editor.state.markdown &&
    !editSplits s.shared.markdown change.current.markdown)) &&
  (!change.sidecarChanged ||
    sidecarJson platform change.current.sidecar = sidecarJson platform s.editor.state.sidecar)

def changesContent (change : StateChange D H) : Bool :=
  change.documentChanged || change.sidecarChanged

/-- The events that keep the editor and the shared document together. -/
def allowed (platform : Platform H J) (projector : EditorProjector D H) (s : Session D H J) :
    Event D → Bool
  | .call call => !s.applyingRemote ||
      (perform platform projector s.editor call).2.all fun change => !changesContent change
  | .hear => s.applyingRemote ||
      s.frames.head?.all fun frame => upToDate platform s frame.change
  | .finish => true
  | .fail => s.applyingRemote ||
      s.frames.head?.all fun frame => frame.heard || !changesContent frame.change
  | .remote next => keepsAnchors platform s.editor.state next

/-- Between announcements the two agree; otherwise the session has yet to hear of a change. While a
remote change is announced they agree all the time. -/
structure Inv (platform : Platform H J) (s : Session D H J) : Prop where
  text : TextAgrees s.shared s.editor.state ∨
    ∃ frame ∈ s.frames, frame.heard = false ∧ frame.change.documentChanged = true
  sidecar : SidecarAgrees platform s.shared s.editor.state ∨
    ∃ frame ∈ s.frames, frame.heard = false ∧ frame.change.sidecarChanged = true
  remote : s.applyingRemote = true → Agrees platform s.shared s.editor.state

variable {s : Session D H J}

omit [DecidableEq H] [DecidableEq J] in
theorem inv_of_agrees (h : Agrees platform s.shared s.editor.state) : Inv platform s :=
  ⟨.inl h.text, .inl h.sidecar, fun _ => h⟩

theorem call_inv (h : Inv platform s)
    (hcall : perform platform projector s.editor call = (editor, some change))
    (hallowed : allowed platform projector s (.call call) = true) :
    Inv platform { s with editor, frames := ⟨change, false, false⟩ :: s.frames } := by
  have hleads := perform_leads hcall
  simp only [allowed, hcall, Option.all_some, changesContent, Bool.or_eq_true,
    Bool.not_eq_true', Bool.or_eq_false_iff] at hallowed
  refine ⟨?_, ?_, ?_⟩
  · cases hflag : change.documentChanged with
    | true => exact .inr ⟨_, List.mem_cons_self, rfl, hflag⟩
    | false =>
      rcases h.text with hagrees | ⟨frame, hmem, hframe⟩
      · exact .inl (hagrees.trans (hleads.markdown hflag).symm)
      · exact .inr ⟨frame, List.mem_cons_of_mem _ hmem, hframe⟩
  · cases hflag : change.sidecarChanged with
    | true => exact .inr ⟨_, List.mem_cons_self, rfl, hflag⟩
    | false =>
      rcases h.sidecar with hagrees | ⟨frame, hmem, hframe⟩
      · refine .inl ?_
        rwa [SidecarAgrees, hleads.sidecar hflag]
      · exact .inr ⟨frame, List.mem_cons_of_mem _ hmem, hframe⟩
  · intro hremote
    obtain ⟨htext, hsidecar⟩ := h.remote hremote
    rcases hallowed with hlocal | ⟨hdocument, hsame⟩
    · rw [hlocal] at hremote
      cases hremote
    · refine ⟨htext.trans (hleads.markdown hdocument).symm, ?_⟩
      rwa [SidecarAgrees, hleads.sidecar hsame]

omit [DecidableEq H] in
/-- What the session's listener leaves in the shared document. -/
theorem push_agrees (h : upToDate platform s change = true) :
    (change.documentChanged = true → TextAgrees (push s.shared change) s.editor.state) ∧
      (change.documentChanged = false → (push s.shared change).markdown = s.shared.markdown) ∧
      (change.sidecarChanged = true →
        SidecarAgrees platform (push s.shared change) s.editor.state) ∧
      (change.sidecarChanged = false → (push s.shared change).sidecar = s.shared.sidecar) := by
  simp only [upToDate, Bool.and_eq_true, Bool.or_eq_true, Bool.not_eq_true',
    decide_eq_true_eq] at h
  obtain ⟨htext, hsidecar⟩ := h
  cases hdocument : change.documentChanged <;> cases hset : change.sidecarChanged <;>
    simp only [push, hdocument, hset, if_true, Bool.false_eq_true, if_false, false_implies,
      forall_const, true_and, and_true, reduceCtorEq, false_or, true_or, TextAgrees,
      SidecarAgrees, storedJson_stored] at *
  · exact hsidecar
  · rw [editText_eq htext.2, htext.1]
  · exact ⟨by rw [editText_eq htext.2, htext.1], hsidecar⟩

variable {frames : List (Frame D H)} {frame : Frame D H}

omit [DecidableEq H] in
/-- An unheard announcement other than the first is still there when the first was heard. -/
theorem unheard_after (flag : StateChange D H → Bool) (hflag : flag frame.change = false)
    (h : ∃ other ∈ frame :: frames, other.heard = false ∧ flag other.change = true) :
    ∃ other ∈ { frame with heard := true } :: frames,
      other.heard = false ∧ flag other.change = true := by
  obtain ⟨other, hmem, hunheard, hset⟩ := h
  rcases List.mem_cons.mp hmem with rfl | hmem
  · rw [hflag] at hset
    cases hset
  · exact ⟨other, List.mem_cons_of_mem _ hmem, hunheard, hset⟩

omit [DecidableEq H] in
theorem hear_inv (h : Inv platform s) (hframes : s.frames = frame :: frames)
    (hdate : s.applyingRemote = false → upToDate platform s frame.change = true) :
    Inv platform { s with
      shared := if s.applyingRemote then s.shared else push s.shared frame.change
      frames := { frame with heard := true } :: frames } := by
  cases hremote : s.applyingRemote with
  | true => exact inv_of_agrees (h.remote hremote)
  | false =>
    obtain ⟨htext, hkept, hsidecar, hsame⟩ := push_agrees (hdate hremote)
    have htexts := h.text
    have hsidecars := h.sidecar
    rw [hframes] at htexts hsidecars
    refine ⟨?_, ?_, fun happlying => by cases happlying⟩
    · cases hflag : frame.change.documentChanged with
      | true => exact .inl (htext hflag)
      | false =>
        rcases htexts with hagrees | hunheard
        · exact .inl ((hkept hflag).trans hagrees)
        · exact .inr (unheard_after (·.documentChanged) hflag hunheard)
    · cases hflag : frame.change.sidecarChanged with
      | true => exact .inl (hsidecar hflag)
      | false =>
        rcases hsidecars with hagrees | hunheard
        · refine .inl ?_
          show Option.map _ (push s.shared frame.change).sidecar = _
          rwa [hsame hflag]
        · exact .inr (unheard_after (·.sidecarChanged) hflag hunheard)

omit [DecidableEq H] [DecidableEq J] in
/-- Without an announcement that the session heard, or that changed nothing, the others remain. -/
theorem unheard_rest (flag : StateChange D H → Bool)
    (hover : frame.heard = true ∨ flag frame.change = false)
    (h : ∃ other ∈ frame :: frames, other.heard = false ∧ flag other.change = true) :
    ∃ other ∈ frames, other.heard = false ∧ flag other.change = true := by
  obtain ⟨other, hmem, hunheard, hset⟩ := h
  rcases List.mem_cons.mp hmem with rfl | hmem
  · rcases hover with hheard | hunset
    · rw [hheard] at hunheard
      cases hunheard
    · rw [hunset] at hset
      cases hset
  · exact ⟨other, hmem, hunheard, hset⟩

omit [DecidableEq H] [DecidableEq J] in
theorem leave_inv (h : Inv platform s) (hframes : s.frames = frame :: frames)
    (hover : s.applyingRemote = true ∨ frame.heard = true ∨
      changesContent frame.change = false) : Inv platform (s.leave frame frames) := by
  have hremote : (s.leave frame frames).applyingRemote = true →
      Agrees platform s.shared s.editor.state := by
    intro hstays
    apply h.remote
    simp only [Session.leave] at hstays
    split at hstays
    · cases hstays
    · exact hstays
  by_cases happlying : s.applyingRemote = true
  · exact inv_of_agrees (h.remote happlying)
  have htexts := h.text
  have hsidecars := h.sidecar
  rw [hframes] at htexts hsidecars
  have hrest := hover.resolve_left happlying
  simp only [changesContent, Bool.or_eq_false_iff] at hrest
  refine ⟨?_, ?_, hremote⟩
  · exact htexts.imp_right (unheard_rest (·.documentChanged) (hrest.imp_right And.left))
  · exact hsidecars.imp_right (unheard_rest (·.sidecarChanged) (hrest.imp_right And.right))

theorem step_inv {s' : Session D H J} {event : Event D} (h : Inv platform s)
    (hallowed : allowed platform projector s event = true)
    (hstep : step expected platform projector s event = some s') : Inv platform s' := by
  cases event with
  | call call =>
    simp only [step] at hstep
    split at hstep
    · rename_i editor hcall
      cases hstep
      rwa [perform_silent hcall]
    · rename_i editor change hcall
      cases hstep
      exact call_inv h hcall hallowed
  | hear =>
    simp only [step] at hstep
    split at hstep
    · cases hstep
    rename_i frame frames hframes
    split at hstep
    · cases hstep
    cases hstep
    simp only [allowed, hframes, List.head?_cons, Option.all_some, Bool.or_eq_true] at hallowed
    apply hear_inv h hframes
    intro hlocal
    exact hallowed.resolve_left (by simp [hlocal])
  | finish =>
    simp only [step] at hstep
    split at hstep
    · cases hstep
    rename_i frame frames hframes
    split at hstep
    · cases hstep
    · rename_i hheard
      cases hstep
      exact leave_inv h hframes (.inr (.inl (by simpa using hheard)))
  | fail =>
    simp only [step] at hstep
    split at hstep
    · cases hstep
    rename_i frame frames hframes
    cases hstep
    simp only [allowed, hframes, List.head?_cons, Option.all_some, Bool.or_eq_true,
      Bool.not_eq_true'] at hallowed
    exact leave_inv h hframes hallowed
  | remote next =>
    simp only [step] at hstep
    split at hstep
    · cases hstep
    split at hstep
    · cases hstep
    · rename_i editor happlied
      cases hstep
      exact inv_of_agrees (applySharedState_agrees happlied hallowed)
    · rename_i editor change happlied
      cases hstep
      exact inv_of_agrees (applySharedState_agrees happlied hallowed)

open EditorHistory

def plainExpected : Expected := ⟨"schema", "document", "default", "1", "[]"⟩

def plainSession : Except String (Session Unit Lib.Utf8.Bytes MdfnSidecar) := do
  let editor ← plainEditor [97, 98] commented
  pure (createCollaborationSession plainExpected editor)

def sessionAfter (events : List (Event Unit)) : Option (Session Unit Lib.Utf8.Bytes MdfnSidecar) :=
  match plainSession with
  | .error _ => none
  | .ok session => run (step plainExpected plainPlatform plainProjector) session events

def plainShared (markdown : Text) (sidecar : Option MdfnSidecar) : Shared :=
  ⟨plainExpected.metadata, markdown, sidecar.map .sidecar⟩

/-- A listener that comes after the session's undoes a change, and a remote update follows. -/
def exchanged : List (Event Unit) :=
  [.call (replaced 0 1 (by decide) [99, 100]), .hear, .call .undo, .hear, .finish, .finish,
    .call .redo, .hear, .fail, .remote (plainShared [101] none), .hear, .finish,
    .call (replaced 0 0 (by decide) [97]), .hear, .finish]

/-- A remote user appends a unit; the comment is on the first one. -/
def remapped : List (Event Unit) :=
  [.remote (plainShared [97, 98, 99] commented), .hear, .finish]

/-- Every way to lose the agreement: a remote text moves the anchors of the sidecar it leaves alone,
a listener makes a change before the session hears of the one that is announced, a listener makes
one while a remote change is announced, a listener throws before the session heard, and an edit
splits a surrogate pair. -/
def disagreeing : List (List (Event Unit)) :=
  [remapped,
    [.call (replaced 0 1 (by decide) [99]), .call (replaced 0 1 (by decide) [100]), .hear, .finish,
      .hear, .finish],
    [.remote (plainShared [99] none), .call (replaced 0 1 (by decide) [100]), .hear, .finish,
      .hear, .finish],
    [.call (replaced 0 1 (by decide) [99]), .fail],
    [.call (replaced 0 0 (by decide) [0xD83D, 0xDE00]), .hear, .finish,
      .call (replaced 1 2 (by decide) [0xDE01]), .hear, .finish]]

theorem disagreeing_ends : ∀ events ∈ disagreeing, ¬∀ s, sessionAfter events = some s →
    s.frames = [] → Agrees plainPlatform s.shared s.editor.state := by
  intro events hmem hagrees
  have hends : disagreeing.all (fun events => (sessionAfter events).any fun s =>
      s.frames.isEmpty && !decide (s.shared.markdown = s.editor.state.markdown ∧
        s.shared.sidecar.map (storedJson plainPlatform) =
          sidecarJson plainPlatform s.editor.state.sidecar)) = true := by decide +kernel
  obtain ⟨s, hrun, hs⟩ := (Option.any_eq_true _ _).mp (List.all_eq_true.mp hends events hmem)
  simp only [Bool.and_eq_true, List.isEmpty_iff, Bool.not_eq_true', decide_eq_false_iff_not] at hs
  obtain ⟨htext, hsidecar⟩ := hagrees s hrun hs.1
  exact hs.2 ⟨htext, hsidecar⟩

end SuperFunctions.Mdfn.CollaborationAgreement
