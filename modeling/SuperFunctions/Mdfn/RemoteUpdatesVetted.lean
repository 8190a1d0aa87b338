import SuperFunctions.Mdfn.RemoteUpdates
import SuperFunctions.Mdfn.CollaborationAgreement

/-!
# Remote updates are vetted, or change nothing

An update that was applied led to a document that passed every check, and to editorial data that the
host approved. A call that was rejected has changed nothing, if nothing that hears of an application
throws.
-/
namespace SuperFunctions.Mdfn.RemoteUpdatesVetted

open RemoteUpdates Lib.Transition
open Collaboration (assertContract parseSidecar applySharedState)
open CollaborationAgreement (assertContract_ok)
open List Option

variable {D H J Doc Update Origin : Type} [DecidableEq J] {options : Options}
  {platform : Platform H J} {projector : EditorProjector D H} {yjs : Yjs Doc Update}

/-! ## What was checked -/

omit [DecidableEq J] in
/-- The update leads from the one document to the other, the other passes the checks, and these are
the sidecars of the two. -/
structure Checked (options : Options) (platform : Platform H J) (projector : EditorProjector D H)
    (yjs : Yjs Doc Update) (doc merged : Doc) (update : Update)
    (previous next : Option MdfnSidecar) : Prop where
  leads : yjs.applyUpdate doc update = .ok merged
  contract : assertContract options.expected platform projector (yjs.content merged) = .ok next
  previous : parseSidecar platform (yjs.content doc).sidecar (yjs.content doc).markdown.length =
    .ok previous

/-- The host was asked about this very pair if its editorial data differ. -/
def Approved (approvals : List (Approval Origin)) (request : Request Update Origin)
    (previous next : Option MdfnSidecar) : Prop :=
  protectedSidecar previous ≠ protectedSidecar next →
    ⟨request.id, request.origin, previous, next⟩ ∈ approvals

omit [DecidableEq J] in
def Vetted (options : Options) (platform : Platform H J) (projector : EditorProjector D H)
    (yjs : Yjs Doc Update) (approvals : List (Approval Origin)) (doc merged : Doc)
    (request : Request Update Origin) : Prop :=
  ∃ previous next,
    Checked options platform projector yjs doc merged request.update previous next ∧
      Approved approvals request previous next

variable {request : Request Update Origin} {doc : Doc}

omit [DecidableEq J] in
theorem vetted_mono {approvals approvals' : List (Approval Origin)} {merged : Doc}
    (hsub : approvals ⊆ approvals')
    (h : Vetted options platform projector yjs approvals doc merged request) :
    Vetted options platform projector yjs approvals' doc merged request := by
  obtain ⟨previous, next, hchecked, happroved⟩ := h
  exact ⟨previous, next, hchecked, fun hdiffers => hsub (happroved hdiffers)⟩

omit [DecidableEq J] in
theorem checkUpdate_ok {editorDestroyed : Bool} {update : Update}
    {previous next : Option MdfnSidecar} (hyjs : yjs.CopiesFaithfully)
    (h : checkUpdate options platform projector yjs editorDestroyed doc update =
      .ok (previous, next)) :
    ∃ merged, Checked options platform projector yjs doc merged update previous next := by
  obtain ⟨candidate, hcandidate, h⟩ := bind_ok h
  obtain ⟨read, hcontract, h⟩ := bind_ok h
  obtain ⟨before, hbefore, h⟩ := bind_ok h
  cases h
  have hsame := hyjs doc update
  rw [hcandidate] at hsame
  cases hlive : yjs.applyUpdate doc update with
  | error error =>
    rw [hlive] at hsame
    cases hsame
  | ok merged =>
    rw [hlive] at hsame
    have hcontent : yjs.content candidate = yjs.content merged := Except.ok.inj hsame
    refine ⟨merged, hlive, ?_, hbefore⟩
    rw [← hcontent]
    cases editorDestroyed with
    | false => exact hcontract
    | true =>
      obtain ⟨⟨parsed, hparse⟩, -⟩ := assertContract_ok hcontract
      cases hparse

/-! ## The invariant -/

/-- A change sequence, the last one first, that leads from the one world to the other. -/
def Chain (start : World D H J Doc) : List (Change D H J Doc Update Origin) → World D H J Doc → Prop
  | [], world => world = start
  | change :: changes, world => change.after = world ∧ Chain start changes change.before

/-- The calls that were received, each under its number. -/
def ids (s : Session D H J Doc Update Origin) : List Nat :=
  s.accepted ++ s.rejected.map Prod.fst ++ (s.active.map (·.1.id)).toList ++ s.waiting.map (·.id)

structure IdsOk (s : Session D H J Doc Update Origin) : Prop where
  nodup : (ids s).Nodup
  received : ∀ id ∈ ids s, id < s.calls

/-- What is known between the checks and the application: it holds of the live document as long as
the session was told of no change. -/
def PhaseOk (options : Options) (platform : Platform H J) (projector : EditorProjector D H)
    (yjs : Yjs Doc Update) (s : Session D H J Doc Update Origin)
    (request : Request Update Origin) : Phase → Prop
  | .authorizingSidecar baseline previous next => baseline ≤ s.documentGeneration ∧
      (baseline = s.documentGeneration → s.destroyed = false → ∃ merged,
        Checked options platform projector yjs s.world.doc merged request.update previous next)
  | .validated baseline => baseline ≤ s.documentGeneration ∧
      (baseline = s.documentGeneration → s.destroyed = false → ∃ merged,
        Vetted options platform projector yjs s.approvals s.world.doc merged request)
  | _ => True

structure Inv (options : Options) (platform : Platform H J) (projector : EditorProjector D H)
    (yjs : Yjs Doc Update) (start : World D H J Doc) (s : Session D H J Doc Update Origin) :
    Prop where
  phase : ∀ request phase, s.active = some (request, phase) →
    PhaseOk options platform projector yjs s request phase
  vetted : ∀ change ∈ s.changes, ∀ request, change.request = some request →
    Vetted options platform projector yjs s.approvals change.before.doc change.after.doc request ∧
      request.id ∈ s.accepted
  ids : IdsOk s
  chain : Chain start s.changes s.world

variable {s : Session D H J Doc Update Origin}

omit [DecidableEq J] in
theorem idsOk_perm {s' : Session D H J Doc Update Origin} (h : IdsOk s)
    (hperm : (ids s').Perm (ids s)) (hcalls : s'.calls = s.calls) : IdsOk s' where
  nodup := hperm.nodup_iff.mpr h.nodup
  received id hmem := by
    rw [hcalls]
    exact h.received id (hperm.mem_iff.mp hmem)

variable {phase : Phase} {error : String}

omit [DecidableEq J] in
theorem ids_reject (h : s.active = some (request, phase)) :
    (ids (s.reject request error)).Perm (ids s) := by
  simp only [ids, Session.reject, h, map_none, map_some, toList_none,
    toList_some, map_cons, append_nil, append_assoc]
  apply List.Perm.append_left
  exact perm_middle.symm

omit [DecidableEq J] in
theorem ids_accept (h : s.active = some (request, phase)) :
    (ids (s.accept request)).Perm (ids s) := by
  simp only [ids, Session.accept, h, map_none, map_some, toList_none,
    toList_some, append_nil, append_assoc, cons_append, nil_append]
  rw [← append_assoc, ← append_assoc]
  exact perm_middle.symm

/-! ## Steps -/

/-- Nothing throws when the document is changed: nothing before the session is told of a local
change, nothing at all when an update is applied. -/
def allowed (s : Session D H J Doc Update Origin) : Event D H J Doc Update Origin → Bool
  | .apply hearing =>
    match s.active with
    | some (_, .validated baseline) => baseline ≠ s.documentGeneration || s.destroyed ||
        (hearing = .quiet && !s.editorDestroyed)
    | _ => true
  | .localEdit _ hearing =>
    match hearing with
    | .throwsBefore _ => s.destroyed
    | _ => true
  | _ => true

section Steps

variable {start : World D H J Doc} {s s' : Session D H J Doc Update Origin}
  {request : Request Update Origin}

omit [DecidableEq J] in
theorem reject_inv (h : Inv options platform projector yjs start s)
    (hactive : s.active = some (request, phase)) :
    Inv options platform projector yjs start (s.reject request error) := { h with
  phase := fun request phase h => by cases h
  ids := idsOk_perm h.ids (ids_reject hactive) rfl }

omit [DecidableEq J] in
theorem active_inv {phase' : Phase} (h : Inv options platform projector yjs start s)
    (hactive : s.active = some (request, phase))
    (hphase : PhaseOk options platform projector yjs s request phase') :
    Inv options platform projector yjs start { s with active := some (request, phase') } := { h with
  phase := fun request phase h => by
    cases h
    exact hphase
  ids := by
    refine idsOk_perm h.ids (List.Perm.of_eq ?_) rfl
    simp [ids, hactive] }

theorem received_inv {update : Update} {origin : Origin}
    (h : Inv options platform projector yjs start s)
    (hstep : step options platform projector yjs s (.applyUpdate update origin) = some s') :
    Inv options platform projector yjs start s' := by
  have hfresh : s.calls ∉ ids s := fun hmem => lt_irrefl _ (h.ids.received _ hmem)
  have hids : ∀ {s' : Session D H J Doc Update Origin}, (ids s').Perm (s.calls :: ids s) →
      s'.calls = s.calls + 1 → IdsOk s' := by
    intro s' hperm hcalls
    refine ⟨hperm.nodup_iff.mpr (nodup_cons.mpr ⟨hfresh, h.ids.nodup⟩), ?_⟩
    intro id hmem
    rcases mem_cons.mp (hperm.mem_iff.mp hmem) with rfl | hold
    · omega
    · have := h.ids.received id hold
      omega
  cases hstep
  split
  · refine { h with ids := hids ?_ rfl }
    simp only [ids, map_cons, append_assoc, cons_append]
    exact perm_middle
  · refine { h with ids := hids ?_ rfl }
    simp only [ids, map_append, map_cons, map_nil]
    rw [← append_assoc]
    exact perm_append_comm

theorem next_inv (h : Inv options platform projector yjs start s)
    (hstep : step options platform projector yjs s .next = some s') :
    Inv options platform projector yjs start s' := by
  simp only [step] at hstep
  split at hstep
  · rename_i first rest hactive hwaiting
    cases hstep
    refine ⟨?_, h.vetted, idsOk_perm h.ids (List.Perm.of_eq ?_) rfl, h.chain⟩
    · intro request phase heq
      cases heq
      exact trivial
    · simp [ids, hactive, hwaiting]
  · cases hstep

omit [DecidableEq J] in
theorem enter_inv (h : Inv options platform projector yjs start s)
    (hactive : s.active = some (request, phase)) :
    Inv options platform projector yjs start (enter options yjs s request) := by
  unfold enter
  split
  · exact reject_inv h hactive
  · split
    · exact reject_inv h hactive
    · apply active_inv h hactive
      split <;> exact trivial

omit [DecidableEq J] in
theorem validate_inv (hyjs : yjs.CopiesFaithfully) (h : Inv options platform projector yjs start s)
    (hactive : s.active = some (request, phase)) :
    Inv options platform projector yjs start
      (validate options platform projector yjs s request) := by
  unfold validate
  split
  · exact reject_inv h hactive
  rename_i previous next hcheck
  obtain ⟨merged, hchecked⟩ := checkUpdate_ok hyjs hcheck
  split
  · split
    · exact active_inv h hactive ⟨le_refl _, fun _ _ => ⟨merged, hchecked⟩⟩
    · exact reject_inv h hactive
  · rename_i hsame
    apply active_inv h hactive
    exact ⟨le_refl _, fun _ _ => ⟨merged, previous, next, hchecked,
      fun hdiffers => absurd hdiffers hsame⟩⟩

omit [DecidableEq J] in
theorem answer_inv {given : Answer} (h : Inv options platform projector yjs start s)
    (hactive : s.active = some (request, phase)) (hstep : answer s request phase given = some s') :
    Inv options platform projector yjs start s' := by
  cases phase with
  | authorizing =>
    cases given with
    | yes =>
      cases hstep
      exact active_inv h hactive trivial
    | no | throws error =>
      cases hstep
      exact reject_inv h hactive
  | authorizingSidecar baseline previous next =>
    cases given with
    | yes =>
      cases hstep
      -- the approval is for the very pair that was checked
      obtain ⟨hle, hchecked⟩ := h.phase request _ hactive
      refine ⟨?_, ?_, idsOk_perm h.ids (List.Perm.of_eq ?_) rfl, h.chain⟩
      · intro other phase heq
        cases heq
        refine ⟨hle, fun hsame halive => ?_⟩
        obtain ⟨merged, hmerged⟩ := hchecked hsame halive
        exact ⟨merged, previous, next, hmerged, fun _ => mem_cons_self⟩
      · intro change hmem other hother
        obtain ⟨hvetted, haccepted⟩ := h.vetted change hmem other hother
        exact ⟨vetted_mono (subset_cons_self _ _) hvetted, haccepted⟩
      · simp [ids, hactive]
    | no | throws error =>
      cases hstep
      exact reject_inv h hactive
  | entered => cases hstep
  | validating => cases hstep
  | validated baseline => cases hstep

theorem hearRemote_quiet {next : Option MdfnSidecar}
    (hcontract : assertContract options.expected platform projector (yjs.content doc) = .ok next)
    (halive : s.editorDestroyed = false) :
    ∃ editor, hearRemote options platform projector yjs s doc .quiet = (editor, none) := by
  have happly : ∃ outcome, applySharedState options.expected platform projector s.world.editor
      (yjs.content doc) = .ok outcome := by
    simp only [applySharedState, hcontract]
    exact ⟨_, rfl⟩
  obtain ⟨⟨editor, change⟩, happly⟩ := happly
  exact ⟨editor, by simp [hearRemote, halive, happly]⟩

variable {hearing : Hearing}

theorem apply_inv {baseline : Nat} (h : Inv options platform projector yjs start s)
    (hactive : s.active = some (request, .validated baseline))
    (hallowed : allowed s (.apply hearing) = true) :
    Inv options platform projector yjs start
      (apply options platform projector yjs s request baseline hearing) := by
  unfold apply
  split
  · exact active_inv h hactive trivial
  rename_i hsame
  rw [ne_eq, not_not] at hsame
  split
  · exact reject_inv h hactive
  rename_i halive
  split
  · exact reject_inv h hactive
  rename_i doc hdoc
  simp only [allowed, hactive, hsame, ne_eq, not_true_eq_false, decide_false, halive,
    Bool.false_or, Bool.and_eq_true, decide_eq_true_eq, Bool.not_eq_true'] at hallowed
  obtain ⟨rfl, heditor⟩ := hallowed
  obtain ⟨-, hknown⟩ := h.phase request _ hactive
  obtain ⟨merged, hvetted⟩ := hknown hsame (by simpa using halive)
  obtain ⟨previous, next, hchecked, happroved⟩ := hvetted
  have hmerged : merged = doc := Except.ok.inj (hchecked.leads.symm.trans hdoc)
  subst hmerged
  obtain ⟨editor, hheard⟩ := hearRemote_quiet (s := s) hchecked.contract heditor
  rw [hheard]
  refine ⟨fun other phase heq => (by cases heq), ?_,
    idsOk_perm h.ids (ids_accept hactive) rfl, rfl, h.chain⟩
  intro change hmem other hother
  rcases mem_cons.mp hmem with rfl | hmem
  · cases hother
    exact ⟨⟨previous, next, hchecked, happroved⟩, mem_cons_self⟩
  · obtain ⟨hold, haccepted⟩ := h.vetted change hmem other hother
    exact ⟨hold, mem_cons_of_mem _ haccepted⟩

omit [DecidableEq J] in
/-- What was checked of another document is not used: the generation has moved on. -/
theorem localEdit_inv {world : World D H J Doc} (h : Inv options platform projector yjs start s)
    (htold : s.destroyed = false → s.told hearing = s.documentGeneration + 1) :
    Inv options platform projector yjs start (s.change none world hearing) := by
  have hle : s.documentGeneration ≤ s.told hearing := by
    unfold Session.told
    split
    · exact le_refl _
    · split <;> omega
  have hmoved : ∀ {baseline : Nat}, baseline ≤ s.documentGeneration →
      baseline = s.told hearing → s.destroyed = false → False := by
    intro baseline hbaseline heq halive
    have := htold halive
    omega
  refine ⟨?_, ?_, idsOk_perm h.ids (List.Perm.of_eq rfl) rfl, rfl, h.chain⟩
  · intro request phase hactive
    have hphase := h.phase request phase hactive
    cases phase with
    | authorizingSidecar baseline previous next | validated baseline =>
      exact ⟨le_trans hphase.1 hle, fun heq halive => (hmoved hphase.1 heq halive).elim⟩
    | entered | authorizing | validating => exact trivial
  · intro change hmem request hrequest
    rcases mem_cons.mp hmem with rfl | hmem
    · cases hrequest
    · exact h.vetted change hmem request hrequest

omit [DecidableEq J] in
theorem phase_inv {t : Session D H J Doc Update Origin}
    (h : Inv options platform projector yjs start s)
    (hactive : t.active = s.active) (hdoc : t.world.doc = s.world.doc)
    (hgeneration : t.documentGeneration = s.documentGeneration)
    (hdestroyed : t.destroyed = false → s.destroyed = false)
    (happrovals : t.approvals = s.approvals) :
    ∀ request phase, t.active = some (request, phase) →
      PhaseOk options platform projector yjs t request phase := by
  intro request phase heq
  have hphase := h.phase request phase (hactive ▸ heq)
  cases phase with
  | authorizingSidecar baseline previous next =>
    simp only [PhaseOk, hdoc, hgeneration]
    exact ⟨hphase.1, fun hsame halive => hphase.2 hsame (hdestroyed halive)⟩
  | validated baseline =>
    simp only [PhaseOk, hdoc, hgeneration, happrovals]
    exact ⟨hphase.1, fun hsame halive => hphase.2 hsame (hdestroyed halive)⟩
  | entered | authorizing | validating => exact trivial

theorem step_inv {event : Event D H J Doc Update Origin} (hyjs : yjs.CopiesFaithfully)
    (h : Inv options platform projector yjs start s) (hallowed : allowed s event = true)
    (hstep : step options platform projector yjs s event = some s') :
    Inv options platform projector yjs start s' := by
  cases event with
  | applyUpdate update origin => exact received_inv h hstep
  | next => exact next_inv h hstep
  | enter =>
    simp only [step] at hstep
    split at hstep
    · rename_i request hactive
      cases hstep
      exact enter_inv h hactive
    · cases hstep
  | answer given =>
    simp only [step] at hstep
    split at hstep
    · rename_i request phase hactive
      exact answer_inv h hactive hstep
    · cases hstep
  | validate =>
    simp only [step] at hstep
    split at hstep
    · rename_i request hactive
      cases hstep
      exact validate_inv hyjs h hactive
    · cases hstep
  | apply hearing =>
    simp only [step] at hstep
    split at hstep
    · rename_i request baseline hactive
      cases hstep
      exact apply_inv h hactive hallowed
    · cases hstep
  | localEdit world hearing =>
    cases hstep
    apply localEdit_inv h
    intro halive
    cases hearing with
    | quiet | throwsAfter error => simp [Session.told, halive]
    | throwsBefore error =>
      simp only [allowed, halive] at hallowed
      cases hallowed
  | editorOnly editor =>
    cases hstep
    refine ⟨phase_inv h rfl rfl rfl id rfl, ?_, idsOk_perm h.ids (List.Perm.of_eq rfl) rfl, rfl,
      h.chain⟩
    intro change hmem request hrequest
    rcases mem_cons.mp hmem with rfl | hmem
    · cases hrequest
    · exact h.vetted change hmem request hrequest
  | destroy =>
    cases hstep
    exact ⟨phase_inv h rfl rfl rfl (fun hfalse => by cases hfalse) rfl, h.vetted,
      idsOk_perm h.ids (List.Perm.of_eq rfl) rfl, h.chain⟩
  | destroyEditor =>
    cases hstep
    exact ⟨phase_inv h rfl rfl rfl id rfl, h.vetted,
      idsOk_perm h.ids (List.Perm.of_eq rfl) rfl, h.chain⟩

end Steps

/-! ## Runs -/

/-- The changes lead from the start to the present world, those made by updates are vetted, and
none was made by a call that was rejected. -/
structure AllOrNothing (options : Options) (platform : Platform H J)
    (projector : EditorProjector D H) (yjs : Yjs Doc Update) (start : World D H J Doc)
    (s : Session D H J Doc Update Origin) : Prop where
  complete : Chain start s.changes s.world
  vetted : ∀ change ∈ s.changes, ∀ request, change.request = some request →
    Vetted options platform projector yjs s.approvals change.before.doc change.after.doc request
  rejected : ∀ id error, (id, error) ∈ s.rejected → ∀ change ∈ s.changes, ∀ request,
    change.request = some request → request.id ≠ id

omit [DecidableEq J] in
theorem openSession_inv (start : World D H J Doc) :
    Inv options platform projector yjs start
      (openSession start : Session D H J Doc Update Origin) where
  phase := fun request phase h => by cases h
  vetted := forall_mem_nil _
  ids := ⟨nodup_nil, forall_mem_nil _⟩
  chain := rfl

open Lib.Utf16 (Text)
open Collaboration (Shared)
open CollaborationAgreement (plainExpected plainShared)
open EditorHistory (plainPlatform plainProjector plainEditor commented)

/-- An update that appends to the text and sets the sidecar. -/
structure PlainUpdate where
  appended : Text
  sidecar : Option MdfnSidecar

def plainYjs : Yjs Shared PlainUpdate where
  content := id
  applyUpdate doc update := .ok { doc with
    markdown := doc.markdown ++ update.appended
    sidecar := update.sidecar.map .sidecar }
  copy := id
  byteLength update := update.appended.length

theorem plainYjs_faithful : plainYjs.CopiesFaithfully := fun _ _ => rfl

def plainOptions : Options := ⟨plainExpected, 100, true, true⟩

abbrev PlainEvent := Event Unit Lib.Utf8.Bytes MdfnSidecar Shared PlainUpdate String

abbrev PlainSession := Session Unit Lib.Utf8.Bytes MdfnSidecar Shared PlainUpdate String

def plainWorld (markdown : Text) (sidecar : Option MdfnSidecar) :
    Except String (World Unit Lib.Utf8.Bytes MdfnSidecar Shared) := do
  pure ⟨plainShared markdown sidecar, ← plainEditor markdown sidecar⟩

/-- The session over the text "ab" with a comment, after the events. -/
def sessionAfter (events : List PlainEvent) : Option PlainSession :=
  match plainWorld [97, 98] commented with
  | .error _ => none
  | .ok world => run (step plainOptions plainPlatform plainProjector plainYjs)
    (openSession world) events

/-- The first call takes the comment away, is approved, and is tried and approved again since the
text was edited meanwhile; the second waits behind it and is refused. -/
def retried (edited : World Unit Lib.Utf8.Bytes MdfnSidecar Shared) : List PlainEvent :=
  [.applyUpdate ⟨[99], none⟩ "peer", .applyUpdate ⟨[100], commented⟩ "peer", .next, .enter,
    .answer .yes, .validate, .localEdit edited .quiet, .answer .yes, .apply .quiet, .validate,
    .answer .yes, .apply .quiet, .next, .enter, .answer .yes, .validate, .answer .no]

/-- A listener throws when it is told of the update. -/
def thrown : List PlainEvent :=
  [.applyUpdate ⟨[99], commented⟩ "peer", .next, .enter, .answer .yes, .validate,
    .apply (.throwsAfter "listener")]

/-- The editor is destroyed while the host is asked. -/
def editorGone : List PlainEvent :=
  [.applyUpdate ⟨[99], none⟩ "peer", .next, .enter, .answer .yes, .validate, .destroyEditor,
    .answer .yes, .apply .quiet]

theorem rejected_but_applied : ∀ events ∈ [thrown, editorGone], ¬∀ s,
    sessionAfter events = some s → ∀ id error, (id, error) ∈ s.rejected →
      ∀ change ∈ s.changes, ∀ request, change.request = some request → request.id ≠ id := by
  intro events hmem hclaim
  have hends : [thrown, editorGone].all (fun events => (sessionAfter events).any fun s =>
      s.rejected.any fun (id, _) => s.changes.any fun change =>
        change.request.any fun request => request.id = id) = true := by decide +kernel
  obtain ⟨s, hrun, hs⟩ := (any_eq_true _ _).mp (all_eq_true.mp hends events hmem)
  obtain ⟨⟨id, error⟩, hrejected, hchanges⟩ := any_eq_true.mp hs
  obtain ⟨change, hchange, hrequest⟩ := any_eq_true.mp hchanges
  obtain ⟨request, heq, hid⟩ := (any_eq_true _ _).mp hrequest
  exact hclaim s hrun id error hrejected change hchange request heq (of_decide_eq_true hid)

end SuperFunctions.Mdfn.RemoteUpdatesVetted
