import Mathlib.Data.Prod.Lex
import Mathlib.Data.String.Basic
import SuperFunctions.Datafn.Server.Pull

/-!
# Catching up by pages

A client that pulls, hands the cursors of each page back and goes on while there is more. It
receives every outstanding change once, in the order of the merge.
-/
namespace SuperFunctions.Datafn.Server.PullCatchUp

open Lib.OrderedMap ChangeLog ChangeStreams Pull List

/-- What one pull selects, and the cursors it answers with. -/
structure Page where
  selected : List ChangeEntry
  cursors : OMap String Nat

/-- `{ ...iterationCursors, ...lastResult.cursors }` -/
def advanceRequest (request : PullRequest) (cursors : OMap String Nat) : PullRequest :=
  { request with cursors := request.cursors.setAll cursors }

section
variable (isPrivate : String → Bool) (log : List ChangeEntry) (maxPullLimit : Option Nat)

/-- Pulls, at most as many as the number allows, until the merge has no more. `views` is what the
permission tables tell at each pull. -/
def catchUp (views : Nat → Option ActorView) : Nat → PullRequest → Option (List Page)
  | 0, _ => none
  | pulls + 1, request =>
    match executePullCanonical isPrivate (views pulls) log maxPullLimit request with
    | .error _ => none
    | .ok result =>
      let selection := selectPage log maxPullLimit request
      let page : Page := ⟨selection.merged, result.cursors⟩
      if selection.hasMore then
        (catchUp views pulls (advanceRequest request result.cursors)).map (page :: ·)
      else some [page]

end

/-- The changes of the requested resources behind their cursors. -/
def outstanding (log : List ChangeEntry) (request : PullRequest) : List ChangeEntry :=
  log.filter fun c => c.resource ∈ requestedResourceKeys request ∧
    (request.cursors.get c.resource).getD 0 < c.serverSeq

/-- The numbers of a resource are all different. -/
def DistinctSeqs (log : List ChangeEntry) : Prop :=
  log.Pairwise fun a b => a.resource = b.resource → a.serverSeq ≠ b.serverSeq

/-! ## The order of the merge -/

def rank (c : ChangeEntry) : Nat ×ₗ String := toLex (c.serverSeq, c.resource)

def Precedes (a b : ChangeEntry) : Prop :=
  compareCanonicalChangeEntries (a.resource, a) (b.resource, b) = .lt

theorem rank_le_of_seq {a b : ChangeEntry} (hresource : a.resource = b.resource)
    (h : a.serverSeq ≤ b.serverSeq) : rank a ≤ rank b := by
  apply Prod.Lex.toLex_le_toLex.mpr
  rcases Nat.eq_or_lt_of_le h with heq | hlt
  · right
    exact ⟨heq, le_of_eq hresource⟩
  · left
    exact hlt

theorem seq_le_of_rank {a b : ChangeEntry} (h : rank a ≤ rank b) : a.serverSeq ≤ b.serverSeq := by
  rcases Prod.Lex.toLex_le_toLex.mp h with hlt | ⟨heq, -⟩
  · exact Nat.le_of_lt hlt
  · exact Nat.le_of_eq heq

theorem precedes_of_rank {a b : ChangeEntry} (h : rank a < rank b) : Precedes a b := by
  unfold Precedes compareCanonicalChangeEntries
  rcases Prod.Lex.toLex_lt_toLex.mp h with hlt | ⟨heq, hlt⟩
  · rw [Nat.compare_eq_lt.mpr hlt]
    rfl
  have hseq : compare a.serverSeq b.serverSeq = .eq := Nat.compare_eq_eq.mpr heq
  have hresource : compare a.resource b.resource = .lt := compare_lt_iff_lt.mpr hlt
  rw [hseq, hresource]
  rfl

theorem rank_le_of_precedes {a b : ChangeEntry} (h : Precedes a b) : rank a ≤ rank b := by
  by_contra hgt
  have hgreater : compareCanonicalChangeEntries (a.resource, a) (b.resource, b) = .gt := by
    rcases Prod.Lex.toLex_lt_toLex.mp (lt_of_not_ge hgt) with hlt | ⟨heq, hlt⟩
    · unfold compareCanonicalChangeEntries
      rw [Nat.compare_eq_gt.mpr hlt]
      rfl
    · have hseq : compare a.serverSeq b.serverSeq = .eq := Nat.compare_eq_eq.mpr heq.symm
      have hresource : compare a.resource b.resource = .gt := compare_gt_iff_gt.mpr hlt
      unfold compareCanonicalChangeEntries
      rw [hseq, hresource]
      rfl
  rw [Precedes, hgreater] at h
  cases h

theorem rank_le_of_not_precedes {a b : ChangeEntry} (h : ¬ Precedes b a) : rank a ≤ rank b := by
  by_contra hlt
  exact h (precedes_of_rank (lt_of_not_ge hlt))

theorem bestHead_rank_heads (head : Head) (heads : List Head)
    (hown : ∀ h ∈ head :: heads, h.change.resource = h.resource) :
    ∀ h ∈ head :: heads, rank (bestHead head heads).change ≤ rank h.change := by
  unfold bestHead
  induction heads generalizing head with
  | nil =>
    intro h hh
    rw [mem_singleton.mp hh]
    exact le_refl _
  | cons candidate heads ih =>
    rw [foldl_cons]
    rw [forall_mem_cons, forall_mem_cons] at hown
    obtain ⟨hhead, hcandidate, hheads⟩ := hown
    rw [forall_mem_cons, forall_mem_cons]
    split
    case isTrue hlt =>
      have hbest := forall_mem_cons.mp (ih candidate (forall_mem_cons.mpr ⟨hcandidate, hheads⟩))
      refine ⟨hbest.1.trans ?_, hbest⟩
      apply rank_le_of_precedes
      unfold Precedes
      rwa [hhead, hcandidate]
    case isFalse hge =>
      have hbest := forall_mem_cons.mp (ih head (forall_mem_cons.mpr ⟨hhead, hheads⟩))
      refine ⟨hbest.1, hbest.1.trans ?_, hbest.2⟩
      apply rank_le_of_not_precedes
      intro hback
      unfold Precedes at hback
      rw [hhead, hcandidate] at hback
      exact hge hback

theorem bestHead_rank {head : Head} {heads : List Head} (h : Streams (head :: heads)) :
    ∀ c ∈ pending (head :: heads), rank (bestHead head heads).change ≤ rank c := by
  intro c hc
  obtain ⟨x, hx, hcx⟩ := mem_flatMap.mp hc
  have hown : ∀ y ∈ head :: heads, y.change.resource = y.resource := fun y hy =>
    h.own y hy y.change mem_cons_self
  refine (bestHead_rank_heads head heads hown x hx).trans ?_
  rcases mem_cons.mp hcx with rfl | hrest
  · exact le_refl _
  · exact rank_le_of_seq ((hown x hx).trans (h.own x hx c hcx).symm)
      ((pairwise_cons.mp (h.sorted x hx)).1 c hrest)

theorem selectChanges_rank {heads : List Head} (h : Streams heads) (limit : Nat) :
    ((selectChanges limit heads).1.Pairwise fun a b => rank a ≤ rank b) ∧
      ∀ c ∈ (selectChanges limit heads).1, ∀ d ∈ pending (selectChanges limit heads).2,
        rank c ≤ rank d := by
  induction limit generalizing heads with
  | zero => exact ⟨List.Pairwise.nil, fun c hc => absurd hc not_mem_nil⟩
  | succ limit ih =>
    cases heads with
    | nil => exact ⟨List.Pairwise.nil, fun c hc => absurd hc not_mem_nil⟩
    | cons head heads =>
      obtain ⟨hordered, hleft⟩ := ih (h.advance (bestHead head heads).resource)
      rw [selectChanges]
      constructor
      · rw [pairwise_cons]
        exact ⟨fun c hc => bestHead_rank h c (mem_pending_of_advance (mem_pending_of_selected hc)),
          hordered⟩
      · intro c hc d hd
        rcases mem_cons.mp hc with heq | hlater
        · rw [heq]
          exact bestHead_rank h d (mem_pending_of_advance (mem_pending_of_left hd))
        · exact hleft c hlater d hd

/-! ## One page -/

variable {c : ChangeEntry}

section Page

variable {log : List ChangeEntry} {maxPullLimit : Option Nat} {request : PullRequest}

theorem mem_outstanding : c ∈ outstanding log request ↔
    c ∈ log ∧ c.resource ∈ requestedResourceKeys request ∧
      (request.cursors.get c.resource).getD 0 < c.serverSeq := by
  unfold outstanding
  rw [mem_filter, decide_eq_true_iff]

/-- The changes of one resource since its cursor, in order. -/
def since (log : List ChangeEntry) (request : PullRequest) (resource : String) : List ChangeEntry :=
  orderBySeq (log.filter fun c => c.resource = resource ∧
    (request.cursors.get resource).getD 0 < c.serverSeq)

theorem mem_since (hresource : c.resource ∈ requestedResourceKeys request) :
    c ∈ since log request c.resource ↔ c ∈ outstanding log request := by
  rw [since, mem_orderBySeq, mem_outstanding]
  simp [hresource]

theorem selected_outstanding (h : c ∈ (selectPage log maxPullLimit request).merged) :
    c ∈ outstanding log request := by
  have hpending := mem_pending_of_selected h
  rw [pending_filterMap_toHead] at hpending
  obtain ⟨stream, hstream, hc⟩ := mem_flatMap.mp hpending
  obtain ⟨resource, hkey, rfl⟩ := mem_map.mp hstream
  obtain ⟨hlog, hresource, hsince⟩ := of_mem_getChangesSince hc
  exact mem_outstanding.mpr ⟨hlog, hresource ▸ hkey, hresource ▸ hsince⟩

theorem selectPage_ordered :
    (selectPage log maxPullLimit request).merged.Pairwise fun a b => rank a ≤ rank b :=
  (selectChanges_rank (streams_changeStreams log request _) _).1

/-- What the page leaves comes after what it takes, also what lies behind the changes that were
fetched: of a stream that was cut off something is left. -/
theorem selected_before_left {d : ChangeEntry}
    (hc : c ∈ (selectPage log maxPullLimit request).merged) (hd : d ∈ outstanding log request)
    (hleft : d ∉ (selectPage log maxPullLimit request).merged) : rank c ≤ rank d := by
  obtain ⟨hlog, hkey, hseq⟩ := mem_outstanding.mp hd
  set limit := pageLimit maxPullLimit request with hlimit
  set heads := (changeStreams log request limit).filterMap toHead with hheads
  have hstreams : Streams heads := streams_changeStreams log request limit
  have hbefore := (selectChanges_rank hstreams limit).2 c hc
  have hstream : ofResource d.resource (pending heads) =
      (since log request d.resource).take (limit + 1) := by
    rw [hheads, pending_filterMap_toHead, changeStreams, flatMap_map,
      ofResource_flatMap (nodup_requestedResourceKeys request)
        (fun r c hc => (of_mem_getChangesSince hc).2.1), if_pos hkey]
    rfl
  have hsplit := hstreams.ofResource_selectChanges limit d.resource
  rw [hstream] at hsplit
  have hmem := (mem_since hkey).mpr hd
  rw [← take_append_drop (limit + 1) (since log request d.resource)] at hmem
  rcases mem_append.mp hmem with hfetched | hhidden
  · rw [← hsplit] at hfetched
    rcases mem_append.mp hfetched with hselected | hpending
    · exact absurd (mem_of_mem_filter hselected) hleft
    · exact hbefore d (mem_of_mem_filter hpending)
  · have hlong : limit + 1 < (since log request d.resource).length := by
      by_contra hshort
      rw [drop_eq_nil_of_le (by omega)] at hhidden
      cases hhidden
    have hcount : (ofResource d.resource (selectChanges limit heads).1).length ≤ limit :=
      (length_filter_le _ _).trans (length_selectChanges limit heads).1
    have hlength := congrArg List.length hsplit
    rw [length_append, length_take, Nat.min_eq_left (by omega)] at hlength
    obtain ⟨e, he⟩ := exists_mem_of_length_pos
      (l := ofResource d.resource (pending (selectChanges limit heads).2)) (by omega)
    have hfetched : e ∈ (since log request d.resource).take (limit + 1) := by
      rw [← hsplit]
      exact mem_append_right _ he
    obtain ⟨hepending, heresource⟩ := mem_filter.mp he
    have hsorted := orderBySeq_pairwise (log.filter fun c => c.resource = d.resource ∧
      (request.cursors.get d.resource).getD 0 < c.serverSeq)
    rw [← take_append_drop (limit + 1) (orderBySeq _)] at hsorted
    have hle := (pairwise_append.mp hsorted).2.2 e hfetched d hhidden
    exact (hbefore e hepending).trans (rank_le_of_seq (of_decide_eq_true heresource) hle)

theorem mem_requestedResourceKeys {resource : String} :
    resource ∈ requestedResourceKeys request ↔
      (request.cursors.get resource).isSome ∧ resource ≠ actorFeedCursorKey := by
  unfold requestedResourceKeys
  rw [mem_filter, OMap.mem_keys_iff_get, decide_eq_true_iff]

theorem get_advanceRequest (view : Option ActorView) (selection : MergedStreams)
    {resource : String} (h : resource ≠ actorFeedCursorKey) :
    (advanceRequest request (pageCursors view request selection)).cursors.get resource =
      (selection.latestCursorPerResource.get resource).or (request.cursors.get resource) := by
  show (request.cursors.setAll _).get resource = _
  rw [OMap.get_setAll, get_pageCursors request view selection h]
  cases selection.latestCursorPerResource.get resource with
  | none =>
    cases request.cursors.get resource with
    | none => rfl
    | some cursor => rfl
  | some cursor => rfl

theorem latestCursors_selectPage :
    (selectPage log maxPullLimit request).latestCursorPerResource =
      latestCursors (selectPage log maxPullLimit request).merged := rfl

theorem distinct_of_mem (hdistinct : DistinctSeqs log) {d : ChangeEntry} (hc : c ∈ log)
    (hd : d ∈ log) (hne : c ≠ d) (hresource : c.resource = d.resource) :
    c.serverSeq ≠ d.serverSeq := by
  have hsymm : Std.Symm fun a b : ChangeEntry => a.resource = b.resource →
      a.serverSeq ≠ b.serverSeq := ⟨fun a b hab hba => (hab hba.symm).symm⟩
  exact hdistinct.forall hc hd hne hresource

/-- With the cursors of the page the changes it took are no longer outstanding, and the others
still are. -/
theorem outstanding_advance (hdistinct : DistinctSeqs log) (view : Option ActorView)
    (c : ChangeEntry) :
    c ∈ outstanding log (advanceRequest request
        (pageCursors view request (selectPage log maxPullLimit request))) ↔
      c ∈ outstanding log request ∧ c ∉ (selectPage log maxPullLimit request).merged := by
  rw [mem_outstanding, mem_outstanding, mem_requestedResourceKeys, mem_requestedResourceKeys]
  by_cases hfeed : c.resource = actorFeedCursorKey
  · simp [hfeed]
  rw [get_advanceRequest view _ hfeed, latestCursors_selectPage]
  have hspec := latestCursors_spec (selectPage log maxPullLimit request).merged c.resource
  cases hlatest : (latestCursors (selectPage log maxPullLimit request).merged).get c.resource with
  | none =>
    rw [hlatest] at hspec
    have hnot : c ∉ (selectPage log maxPullLimit request).merged := fun hc => hspec c hc rfl
    simp [hnot]
  | some cursor =>
    rw [hlatest] at hspec
    obtain ⟨⟨last, hlast, hresource, hcursor⟩, hmax⟩ := hspec
    obtain ⟨hlog, hkey, hseq⟩ := mem_outstanding.mp (selected_outstanding hlast)
    rw [hresource, mem_requestedResourceKeys] at hkey
    rw [hresource, hcursor] at hseq
    show c ∈ log ∧ (true = true ∧ c.resource ≠ actorFeedCursorKey) ∧ cursor < c.serverSeq ↔ _
    constructor
    · intro ⟨hc, hkeys, hlt⟩
      refine ⟨⟨hc, hkey, by omega⟩, fun hmem => ?_⟩
      have hle := hmax c hmem rfl
      omega
    · intro ⟨⟨hc, hkeys, hlt⟩, hnot⟩
      refine ⟨hc, ⟨rfl, hfeed⟩, ?_⟩
      have hout : c ∈ outstanding log request :=
        mem_outstanding.mpr ⟨hc, mem_requestedResourceKeys.mpr hkeys, hlt⟩
      have hle := seq_le_of_rank (selected_before_left hlast hout hnot)
      have hne : last ≠ c := fun heq => hnot (heq ▸ hlast)
      have hseqs := distinct_of_mem hdistinct hlog hc hne hresource
      omega

theorem selected_of_last (hmore : (selectPage log maxPullLimit request).hasMore = false)
    (hc : c ∈ outstanding log request) : c ∈ (selectPage log maxPullLimit request).merged := by
  obtain ⟨-, hkey, -⟩ := mem_outstanding.mp hc
  obtain ⟨rest, hsplit, hrest⟩ := selectPage_split log maxPullLimit request hkey
  have hmem : c ∈ since log request c.resource := (mem_since hkey).mpr hc
  unfold since at hmem
  rw [hsplit, hrest hmore, append_nil] at hmem
  exact mem_of_mem_filter hmem

theorem exists_selected (hlimit : request.limit ≠ some 0)
    (hmore : (selectPage log maxPullLimit request).hasMore = true) :
    ∃ c, c ∈ (selectPage log maxPullLimit request).merged := by
  have hpositive : 0 < pageLimit maxPullLimit request := by
    unfold pageLimit
    cases hrequest : request.limit with
    | none =>
      cases maxPullLimit with
      | none => decide
      | some maximum =>
        show 0 < min 200 (if maximum = 0 then 1000 else maximum)
        split <;> omega
    | some limit =>
      have hne : limit ≠ 0 := fun hzero => hlimit (by rw [hrequest, hzero])
      cases maxPullLimit with
      | none =>
        show 0 < min limit 1000
        omega
      | some maximum =>
        show 0 < min limit (if maximum = 0 then 1000 else maximum)
        split <;> omega
  have hfull := (length_selectChanges (pageLimit maxPullLimit request)
    ((changeStreams log request (pageLimit maxPullLimit request)).filterMap toHead)).2 ?_
  · apply exists_mem_of_length_pos
    rwa [← hfull] at hpositive
  · intro hnil
    have hsome : (!(selectChanges (pageLimit maxPullLimit request)
      ((changeStreams log request (pageLimit maxPullLimit request)).filterMap
        toHead)).2.isEmpty) = true := hmore
    rw [hnil] at hsome
    cases hsome

theorem since_strict (hdistinct : DistinctSeqs log) (resource : String) :
    (since log request resource).Pairwise fun a b => a.serverSeq < b.serverSeq := by
  have hne : (log.filter fun c => c.resource = resource ∧
      (request.cursors.get resource).getD 0 < c.serverSeq).Pairwise
        fun a b => a.serverSeq ≠ b.serverSeq := by
    refine pairwise_filter.mpr (hdistinct.imp fun {a b} hab ha hb => hab ?_)
    exact (of_decide_eq_true ha).1.trans (of_decide_eq_true hb).1.symm
  have hperm := perm_insertionSort (fun a b : ChangeEntry => a.serverSeq ≤ b.serverSeq)
    (log.filter fun c => c.resource = resource ∧
      (request.cursors.get resource).getD 0 < c.serverSeq)
  have hboth := (orderBySeq_pairwise _).and ((hperm.pairwise_iff fun {a b} hab => hab.symm).mpr hne)
  exact hboth.imp fun {a b} hab => Nat.lt_of_le_of_ne hab.1 hab.2

theorem selectPage_strict (hdistinct : DistinctSeqs log) :
    (selectPage log maxPullLimit request).merged.Pairwise fun a b => rank a < rank b := by
  have hordered : (selectPage log maxPullLimit request).merged.Pairwise
      fun a b => rank a ≤ rank b := selectPage_ordered
  have hkeys : ∀ c ∈ (selectPage log maxPullLimit request).merged,
      c.resource ∈ requestedResourceKeys request := fun c hc =>
    (mem_outstanding.mp (selected_outstanding hc)).2.1
  rw [pairwise_iff_getElem] at hordered ⊢
  intro i j hi hj hij
  refine lt_of_le_of_ne (hordered i j hi hj hij) fun heq => ?_
  -- two changes of one rank have the same resource, whose changes are taken in order
  have hresource : ((selectPage log maxPullLimit request).merged[i]).resource =
      ((selectPage log maxPullLimit request).merged[j]).resource := congrArg (fun k => (ofLex k).2) heq
  have hseq : ((selectPage log maxPullLimit request).merged[i]).serverSeq =
      ((selectPage log maxPullLimit request).merged[j]).serverSeq := congrArg (fun k => (ofLex k).1) heq
  obtain ⟨rest, hsplit, -⟩ := selectPage_split log maxPullLimit request (hkeys _ (getElem_mem hi))
  have hstrict : (since log request
      ((selectPage log maxPullLimit request).merged[i]).resource).Pairwise
        fun a b => a.serverSeq < b.serverSeq := since_strict hdistinct _
  unfold since at hstrict
  rw [hsplit] at hstrict
  have hpage := pairwise_filter.mp (pairwise_append.mp hstrict).1
  rw [pairwise_iff_getElem] at hpage
  have hlt := hpage i j hi hj hij (decide_eq_true rfl) (decide_eq_true hresource.symm)
  omega

end Page

/-! ## All pages -/

/-- What a run of pulls makes of the changes that are outstanding. -/
structure Delivers (log : List ChangeEntry) (request : PullRequest) (pages : List Page) : Prop where
  ordered : (pages.flatMap Page.selected).Pairwise fun a b => rank a < rank b
  complete : ∀ c, c ∈ pages.flatMap Page.selected ↔ c ∈ outstanding log request
  cursors : ∀ i page, pages[i]? = some page → ∀ c ∈ outstanding log request,
    c.serverSeq ≤ (page.cursors.get c.resource).getD 0 →
      c ∈ (pages.take (i + 1)).flatMap Page.selected

section
variable {log : List ChangeEntry} {maxPullLimit : Option Nat} {request : PullRequest}

section

variable (hdistinct : DistinctSeqs log)
include hdistinct

theorem length_outstanding_advance (view : Option ActorView)
    (hc : c ∈ (selectPage log maxPullLimit request).merged) :
    (outstanding log (advanceRequest request
        (pageCursors view request (selectPage log maxPullLimit request)))).length <
      (outstanding log request).length := by
  have hfilter : outstanding log (advanceRequest request
      (pageCursors view request (selectPage log maxPullLimit request))) =
      (outstanding log request).filter
        fun d => d ∉ (selectPage log maxPullLimit request).merged := by
    conv_rhs => rw [outstanding, filter_filter]
    refine filter_congr fun d hd => ?_
    have hiff : d ∈ outstanding log (advanceRequest request
          (pageCursors view request (selectPage log maxPullLimit request))) ↔
        d ∈ outstanding log request ∧ d ∉ (selectPage log maxPullLimit request).merged :=
      outstanding_advance hdistinct view d
    rw [mem_outstanding, mem_outstanding] at hiff
    rw [Bool.eq_iff_iff, Bool.and_eq_true, decide_eq_true_iff, decide_eq_true_iff,
      decide_eq_true_iff]
    simp only [hd, true_and] at hiff
    rw [hiff, and_comm]
  rw [hfilter]
  exact length_filter_lt_length_iff_exists.mpr ⟨c, selected_outstanding hc, by simpa using hc⟩

theorem delivers_last (cursors : OMap String Nat)
    (hmore : (selectPage log maxPullLimit request).hasMore = false) :
    Delivers log request [⟨(selectPage log maxPullLimit request).merged, cursors⟩] := by
  have hall : ∀ c, c ∈ [Page.mk (selectPage log maxPullLimit request).merged cursors].flatMap
      Page.selected ↔ c ∈ outstanding log request := by
    intro c
    rw [flatMap_singleton]
    exact ⟨selected_outstanding, selected_of_last hmore⟩
  refine ⟨?_, hall, ?_⟩
  · rw [flatMap_singleton]
    exact selectPage_strict hdistinct
  · intro i page _ c hc _
    rw [take_of_length_le (by simp)]
    exact (hall c).mpr hc

theorem delivers_more (view : Option ActorView) {pages : List Page}
    (h : Delivers log (advanceRequest request
      (pageCursors view request (selectPage log maxPullLimit request))) pages) :
    Delivers log request (⟨(selectPage log maxPullLimit request).merged,
      pageCursors view request (selectPage log maxPullLimit request)⟩ :: pages) := by
  have hadvance : ∀ d, d ∈ outstanding log (advanceRequest request
        (pageCursors view request (selectPage log maxPullLimit request))) ↔
      d ∈ outstanding log request ∧ d ∉ (selectPage log maxPullLimit request).merged :=
    outstanding_advance hdistinct view
  refine ⟨?_, ?_, ?_⟩
  · rw [flatMap_cons, pairwise_append]
    refine ⟨selectPage_strict hdistinct, h.ordered, fun c hc d hd => ?_⟩
    obtain ⟨hout, hnot⟩ := (hadvance d).mp ((h.complete d).mp hd)
    refine lt_of_le_of_ne (selected_before_left hc hout hnot) fun heq => ?_
    have hresource : c.resource = d.resource := congrArg (fun k => (ofLex k).2) heq
    have hseq : c.serverSeq = d.serverSeq := congrArg (fun k => (ofLex k).1) heq
    have hne : c ≠ d := fun hcd => hnot (hcd ▸ hc)
    exact distinct_of_mem hdistinct (mem_outstanding.mp (selected_outstanding hc)).1
      (mem_outstanding.mp hout).1 hne hresource hseq
  · intro c
    rw [flatMap_cons, mem_append, h.complete, hadvance]
    by_cases hc : c ∈ (selectPage log maxPullLimit request).merged
    · simp [hc, selected_outstanding hc]
    · simp [hc]
  · intro i page hpage c hc hcursor
    rw [take_succ_cons, flatMap_cons, mem_append]
    by_cases hselected : c ∈ (selectPage log maxPullLimit request).merged
    · exact Or.inl hselected
    have hnext := (hadvance c).mpr ⟨hc, hselected⟩
    cases i with
    | zero =>
      cases hpage
      obtain ⟨-, hkey, hlt⟩ := mem_outstanding.mp hnext
      have hfeed := (mem_requestedResourceKeys.mp hkey).2
      rw [get_advanceRequest view _ hfeed] at hlt
      rw [get_pageCursors request view _ hfeed] at hcursor
      omega
    | succ i => exact Or.inr (h.cursors i page hpage c hnext hcursor)

/-- A client that goes on as long as there is more receives everything, in as many pulls as
there are changes and one. -/
theorem catchUp_delivers (isPrivate : String → Bool) (hlimit : request.limit ≠ some 0)
    (views : Nat → Option ActorView) {pulls : Nat}
    (hpulls : (outstanding log request).length < pulls) :
    ∃ pages, catchUp isPrivate log maxPullLimit views pulls request = some pages ∧
      Delivers log request pages := by
  induction pulls generalizing request with
  | zero => omega
  | succ pulls ih =>
    have hpull : executePullCanonical isPrivate (views pulls) log maxPullLimit request =
        .ok (pullPage isPrivate (views pulls) request (selectPage log maxPullLimit request)) :=
      if_neg hlimit
    cases hmore : (selectPage log maxPullLimit request).hasMore with
    | false =>
      refine ⟨_, ?_, delivers_last hdistinct
        (pageCursors (views pulls) request (selectPage log maxPullLimit request)) hmore⟩
      rw [catchUp, hpull]
      simp only [hmore, Bool.false_eq_true, if_false]
      rfl
    | true =>
      obtain ⟨c, hc⟩ := exists_selected hlimit hmore
      have hless := length_outstanding_advance hdistinct (views pulls) hc
      have hlimit' : (advanceRequest request (pageCursors (views pulls) request
        (selectPage log maxPullLimit request))).limit ≠ some 0 := hlimit
      obtain ⟨pages, hrest, hdelivers⟩ := ih hlimit' (by omega)
      refine ⟨_, ?_, delivers_more hdistinct (views pulls) hdelivers⟩
      rw [catchUp, hpull]
      simp only [hmore, if_true]
      show (catchUp isPrivate log maxPullLimit views pulls (advanceRequest request
        (pageCursors (views pulls) request (selectPage log maxPullLimit request)))).map _ = _
      rw [hrest]
      rfl

end

end

/-- Two resources whose changes alternate, read one change at a time. -/
def alternatingLog : List ChangeEntry :=
  [⟨1, "notes", "n1", .insert, none⟩, ⟨2, "tasks", "t1", .insert, none⟩,
    ⟨3, "notes", "n1", .delete, none⟩]

end SuperFunctions.Datafn.Server.PullCatchUp
