import Mathlib.Data.List.MinMax
import Mathlib.Data.List.Sort
import SuperFunctions.Datafn.Core.Value
import SuperFunctions.Lib.OrderedMap

/-!
# The change log of a namespace

What the change tracking service records for each committed mutation and reads for a pull.
-/
namespace SuperFunctions.Datafn.Server.ChangeLog

open Datafn.Core List

inductive ChangeOp where
  | insert
  | merge
  | replace
  | upsert
  | delete
  deriving DecidableEq

structure ChangeEntry where
  serverSeq : Nat
  resource : String
  id : String
  op : ChangeOp
  record : Option Record
  deriving DecidableEq

/-- `orderBy: "server_seq"` -/
def orderBySeq (changes : List ChangeEntry) : List ChangeEntry :=
  changes.insertionSort fun a b => a.serverSeq ≤ b.serverSeq

def getChangesSince (log : List ChangeEntry) (resource : String) (sinceSeq limit : Nat) :
    List ChangeEntry :=
  (orderBySeq (log.filter fun c => c.resource = resource ∧ sinceSeq < c.serverSeq)).take limit

def getLatestServerSeq (log : List ChangeEntry) (resource : String) : Nat :=
  ((log.filter fun c => c.resource = resource).map ChangeEntry.serverSeq).foldr max 0

variable {changes : List ChangeEntry}

theorem mem_orderBySeq {c : ChangeEntry} : c ∈ orderBySeq changes ↔ c ∈ changes :=
  mem_insertionSort _

theorem orderBySeq_pairwise (changes : List ChangeEntry) :
    (orderBySeq changes).Pairwise fun a b => a.serverSeq ≤ b.serverSeq := by
  exact pairwise_insertionSort _ changes

theorem orderBySeq_eq (h : changes.Pairwise fun a b => a.serverSeq < b.serverSeq) :
    orderBySeq changes = changes := by
  have hle : changes.Pairwise fun a b => a.serverSeq ≤ b.serverSeq := h.imp Nat.le_of_lt
  exact hle.insertionSort_eq

theorem le_getLatestServerSeq {log : List ChangeEntry} {c : ChangeEntry} (h : c ∈ log) :
    c.serverSeq ≤ getLatestServerSeq log c.resource := by
  have hmem : c.serverSeq ∈
      (log.filter fun d => d.resource = c.resource).map ChangeEntry.serverSeq :=
    mem_map_of_mem (mem_filter.mpr ⟨h, by simp⟩)
  exact le_max_of_le hmem le_rfl

theorem getLatestServerSeq_le {log : List ChangeEntry} {resource : String} {bound : Nat}
    (h : ∀ c ∈ log, c.serverSeq ≤ bound) : getLatestServerSeq log resource ≤ bound := by
  refine max_le_of_forall_le _ _ fun n hn => ?_
  obtain ⟨c, hc, rfl⟩ := mem_map.mp hn
  exact h c (mem_of_mem_filter hc)

section Since

variable {log : List ChangeEntry} {resource : String} {sinceSeq limit : Nat}

theorem of_mem_getChangesSince {c : ChangeEntry}
    (h : c ∈ getChangesSince log resource sinceSeq limit) :
    c ∈ log ∧ c.resource = resource ∧ sinceSeq < c.serverSeq := by
  have hmem := mem_orderBySeq.mp (mem_of_mem_take h)
  simpa using hmem

theorem getChangesSince_pairwise :
    (getChangesSince log resource sinceSeq limit).Pairwise fun a b => a.serverSeq ≤ b.serverSeq :=
  (orderBySeq_pairwise _).sublist (take_sublist _ _)

theorem mem_getChangesSince_of_lt {c d : ChangeEntry}
    (hc : c ∈ getChangesSince log resource sinceSeq limit) (hd : d ∈ log)
    (hresource : d.resource = resource) (hsince : sinceSeq < d.serverSeq)
    (hlt : d.serverSeq < c.serverSeq) : d ∈ getChangesSince log resource sinceSeq limit := by
  have hsorted := orderBySeq_pairwise
    (log.filter fun c => c.resource = resource ∧ sinceSeq < c.serverSeq)
  have hmem : d ∈ orderBySeq (log.filter fun c => c.resource = resource ∧ sinceSeq < c.serverSeq) :=
    mem_orderBySeq.mpr (by simp [hd, hresource, hsince])
  rw [← take_append_drop limit (orderBySeq _)] at hsorted hmem
  rcases mem_append.mp hmem with hread | hlater
  · exact hread
  · have hle := (pairwise_append.mp hsorted).2.2 c hc d hlater
    omega

end Since

end SuperFunctions.Datafn.Server.ChangeLog

/-!
# Merging change streams

The bounded merge of the change streams of several resources: the page it selects is in
sequence order and takes from each stream its first changes.
-/
namespace SuperFunctions.Datafn.Server.ChangeStreams

open Lib.OrderedMap ChangeLog List

/-- A stream that is not used up: its next change and what follows it. -/
structure Head where
  resource : String
  change : ChangeEntry
  rest : List ChangeEntry

def toHead (stream : String × List ChangeEntry) : Option Head :=
  match stream.2 with
  | [] => none
  | change :: rest => some ⟨stream.1, change, rest⟩

def compareCanonicalChangeEntries (a b : String × ChangeEntry) : Ordering :=
  (compare a.2.serverSeq b.2.serverSeq).then
    ((compare a.1 b.1).then (compare a.2.id b.2.id))

/-- The first head that no other head precedes. -/
def bestHead (head : Head) (heads : List Head) : Head :=
  heads.foldl (fun best candidate =>
    if compareCanonicalChangeEntries (candidate.resource, candidate.change)
        (best.resource, best.change) = .lt then candidate else best) head

/-- Moves the stream of `resource` on by one change, and drops it when it is used up. -/
def advance (resource : String) (heads : List Head) : List Head :=
  heads.filterMap fun head =>
    if head.resource = resource then toHead (head.resource, head.rest) else some head

/-- At most `limit` rounds of the merge loop: the selected changes and the heads left over. -/
def selectChanges : Nat → List Head → List ChangeEntry × List Head
  | 0, heads => ([], heads)
  | _ + 1, [] => ([], [])
  | limit + 1, head :: heads =>
    let selected := bestHead head heads
    let later := selectChanges limit (advance selected.resource (head :: heads))
    (selected.change :: later.1, later.2)

structure MergedStreams where
  merged : List ChangeEntry
  latestCursorPerResource : OMap String Nat
  hasMore : Bool

def latestCursors (merged : List ChangeEntry) : OMap String Nat :=
  merged.foldl (fun latest c =>
    latest.set c.resource (max ((latest.get c.resource).getD 0) c.serverSeq)) OMap.empty

def mergeCanonicalChangeStreamsBounded (streams : List (String × List ChangeEntry))
    (limit : Nat) : MergedStreams :=
  let (merged, left) := selectChanges limit (streams.filterMap toHead)
  { merged, latestCursorPerResource := latestCursors merged, hasMore := !left.isEmpty }

/-! ## What a page selects -/

/-- All changes the heads still hold. -/
def pending (heads : List Head) : List ChangeEntry :=
  heads.flatMap fun head => head.change :: head.rest

def ofResource (resource : String) (changes : List ChangeEntry) : List ChangeEntry :=
  changes.filter fun c => c.resource = resource

/-- One head a resource, each with the changes of its own resource in sequence order. -/
structure Streams (heads : List Head) : Prop where
  distinct : (heads.map Head.resource).Nodup
  own : ∀ head ∈ heads, ∀ c ∈ head.change :: head.rest, c.resource = head.resource
  sorted : ∀ head ∈ heads, (head.change :: head.rest).Pairwise fun a b => a.serverSeq ≤ b.serverSeq

theorem bestHead_spec (head : Head) (heads : List Head) :
    bestHead head heads ∈ head :: heads ∧
      ∀ h ∈ head :: heads, (bestHead head heads).change.serverSeq ≤ h.change.serverSeq := by
  unfold bestHead
  induction heads generalizing head with
  | nil => simp
  | cons candidate heads ih =>
    rw [foldl_cons]
    split
    case isTrue hlt =>
      obtain ⟨hmem, hle⟩ := ih candidate
      refine ⟨mem_cons_of_mem _ hmem, fun h hh => ?_⟩
      have hfirst : candidate.change.serverSeq ≤ head.change.serverSeq := by
        by_contra hgt
        have : compare candidate.change.serverSeq head.change.serverSeq = .gt :=
          Nat.compare_eq_gt.mpr (by omega)
        simp [compareCanonicalChangeEntries, this] at hlt
      rcases mem_cons.mp hh with rfl | hh
      · exact (hle candidate mem_cons_self).trans hfirst
      · exact hle h hh
    case isFalse hge =>
      obtain ⟨hmem, hle⟩ := ih head
      have hfirst : head.change.serverSeq ≤ candidate.change.serverSeq := by
        by_contra hgt
        have : compare candidate.change.serverSeq head.change.serverSeq = .lt :=
          Nat.compare_eq_lt.mpr (by omega)
        simp [compareCanonicalChangeEntries, this] at hge
      refine ⟨?_, fun h hh => ?_⟩
      · rcases mem_cons.mp hmem with hmem | hmem
        · exact mem_cons.mpr (Or.inl hmem)
        · exact mem_cons_of_mem _ (mem_cons_of_mem _ hmem)
      · rcases mem_cons.mp hh with rfl | hh
        · exact hle h mem_cons_self
        rcases mem_cons.mp hh with rfl | hh
        · exact (hle head mem_cons_self).trans hfirst
        · exact hle h (mem_cons_of_mem _ hh)

theorem pending_toHead (resource : String) (changes : List ChangeEntry) :
    pending (toHead (resource, changes)).toList = changes := by
  cases changes <;> simp [toHead, pending]

theorem pending_advance (resource : String) (heads : List Head) :
    pending (advance resource heads) = heads.flatMap fun head =>
      if head.resource = resource then head.rest else head.change :: head.rest := by
  unfold pending advance
  induction heads with
  | nil => rfl
  | cons head heads ih =>
    rw [flatMap_cons, ← ih]
    by_cases h : head.resource = resource
    · subst h
      have hhead := pending_toHead head.resource head.rest
      unfold pending at hhead
      rw [if_pos rfl, filterMap_cons, if_pos rfl]
      cases htail : toHead (head.resource, head.rest) with
      | none =>
        rw [htail] at hhead
        rw [← hhead]
        rfl
      | some next =>
        rw [htail] at hhead
        rw [← hhead]
        simp
    · simp [h]

theorem pending_filterMap_toHead (streams : List (String × List ChangeEntry)) :
    pending (streams.filterMap toHead) = streams.flatMap Prod.snd := by
  induction streams with
  | nil => rfl
  | cons stream streams ih =>
    obtain ⟨resource, changes⟩ := stream
    rw [flatMap_cons, ← ih]
    cases changes with
    | nil => rfl
    | cons change rest => rfl

theorem latestCursors_spec (merged : List ChangeEntry) (resource : String) :
    match (latestCursors merged).get resource with
    | none => ∀ c ∈ merged, c.resource ≠ resource
    | some cursor => (∃ c ∈ merged, c.resource = resource ∧ c.serverSeq = cursor) ∧
        ∀ c ∈ merged, c.resource = resource → c.serverSeq ≤ cursor := by
  unfold latestCursors
  induction merged using List.reverseRecOn with
  | nil => simp
  | append_singleton merged c ih =>
    rw [foldl_concat]
    set latest := merged.foldl (fun latest c =>
      latest.set c.resource (max ((latest.get c.resource).getD 0) c.serverSeq)) OMap.empty
    rw [OMap.get_set]
    by_cases hres : resource = c.resource
    · subst hres
      rw [if_pos rfl]
      cases hget : latest.get c.resource with
      | none =>
        rw [hget] at ih
        refine ⟨⟨c, by simp, rfl, by simp⟩, fun x hx hxres => ?_⟩
        rcases mem_append.mp hx with hx | hx
        · exact absurd hxres (ih x hx)
        · rw [mem_singleton.mp hx]
          simp
      | some cursor =>
        rw [hget] at ih
        obtain ⟨⟨x, hx, hxres, hxseq⟩, hall⟩ := ih
        refine ⟨?_, fun y hy hyres => ?_⟩
        · simp only [Option.getD_some]
          rcases Nat.le_total cursor c.serverSeq with hle | hle
          · exact ⟨c, by simp, rfl, by omega⟩
          · exact ⟨x, mem_append_left _ hx, hxres, by omega⟩
        · simp only [Option.getD_some]
          rcases mem_append.mp hy with hy | hy
          · have hseq := hall y hy hyres
            omega
          · rw [mem_singleton.mp hy]
            omega
    · rw [if_neg hres]
      have hne : c.resource ≠ resource := fun h => hres h.symm
      cases hget : latest.get resource with
      | none =>
        rw [hget] at ih
        intro x hx
        rcases mem_append.mp hx with hx | hx
        · exact ih x hx
        · rwa [mem_singleton.mp hx]
      | some cursor =>
        rw [hget] at ih
        obtain ⟨⟨x, hx, hxres, hxseq⟩, hall⟩ := ih
        refine ⟨⟨x, mem_append_left _ hx, hxres, hxseq⟩, fun y hy hyres => ?_⟩
        rcases mem_append.mp hy with hy | hy
        · exact hall y hy hyres
        · rw [mem_singleton.mp hy] at hyres
          exact absurd hyres hne

theorem streams_filterMap_toHead {streams : List (String × List ChangeEntry)}
    (hdistinct : (streams.map Prod.fst).Nodup)
    (hown : ∀ stream ∈ streams, ∀ c ∈ stream.2, c.resource = stream.1)
    (hsorted : ∀ stream ∈ streams, stream.2.Pairwise fun a b => a.serverSeq ≤ b.serverSeq) :
    Streams (streams.filterMap toHead) := by
  have hfrom : ∀ head ∈ streams.filterMap toHead,
      (head.resource, head.change :: head.rest) ∈ streams := by
    intro head hhead
    obtain ⟨⟨resource, changes⟩, hstream, htoHead⟩ := mem_filterMap.mp hhead
    cases changes with
    | nil => exact absurd htoHead (by simp [toHead])
    | cons change rest =>
      cases htoHead
      exact hstream
  have hsub : ∀ streams : List (String × List ChangeEntry),
      ((streams.filterMap toHead).map Head.resource).Sublist (streams.map Prod.fst) := by
    intro streams
    induction streams with
    | nil => exact List.Sublist.refl _
    | cons stream streams ih =>
      obtain ⟨resource, changes⟩ := stream
      cases changes with
      | nil => exact ih.cons _
      | cons change rest => exact ih.cons_cons _
  refine ⟨(hsub _).nodup hdistinct, fun head hhead => ?_, fun head hhead => ?_⟩
  · exact hown _ (hfrom head hhead)
  · exact hsorted _ (hfrom head hhead)

variable {heads : List Head}

theorem mem_pending_of_advance {resource : String} {c : ChangeEntry}
    (h : c ∈ pending (advance resource heads)) : c ∈ pending heads := by
  rw [pending_advance] at h
  obtain ⟨x, hx, hcx⟩ := mem_flatMap.mp h
  refine mem_flatMap.mpr ⟨x, hx, ?_⟩
  split at hcx
  · exact mem_cons_of_mem _ hcx
  · exact hcx

variable {limit : Nat}

theorem mem_pending_of_selected {c : ChangeEntry} (h : c ∈ (selectChanges limit heads).1) :
    c ∈ pending heads := by
  induction limit generalizing heads with
  | zero => exact absurd h (by simp [selectChanges])
  | succ limit ih =>
    cases heads with
    | nil => exact absurd h (by simp [selectChanges])
    | cons head heads =>
      rcases mem_cons.mp h with rfl | hlater
      · exact mem_flatMap.mpr ⟨_, (bestHead_spec head heads).1, mem_cons_self⟩
      · exact mem_pending_of_advance (ih hlater)

theorem mem_pending_of_left {c : ChangeEntry} (h : c ∈ pending (selectChanges limit heads).2) :
    c ∈ pending heads := by
  induction limit generalizing heads with
  | zero => exact h
  | succ limit ih =>
    cases heads with
    | nil => exact h
    | cons head heads => exact mem_pending_of_advance (ih h)

namespace Streams

variable {heads : List Head} {head : Head}

theorem of_cons (h : Streams (head :: heads)) : Streams heads where
  distinct := (nodup_cons.mp h.distinct).2
  own := fun x hx => h.own x (mem_cons_of_mem _ hx)
  sorted := fun x hx => h.sorted x (mem_cons_of_mem _ hx)

theorem advance (h : Streams heads) (resource : String) : Streams (advance resource heads) := by
  have hfrom : ∀ x ∈ ChangeStreams.advance resource heads, ∃ y ∈ heads,
      x.resource = y.resource ∧ (x.change :: x.rest) <:+ (y.change :: y.rest) := by
    intro x hx
    obtain ⟨y, hy, hxy⟩ := mem_filterMap.mp hx
    refine ⟨y, hy, ?_⟩
    split at hxy
    · unfold toHead at hxy
      split at hxy
      · cases hxy
      case h_2 change rest hrest =>
        cases hxy
        have : y.rest = change :: rest := hrest
        exact ⟨rfl, this ▸ suffix_cons _ _⟩
    · cases hxy
      exact ⟨rfl, suffix_refl _⟩
  refine ⟨?_, ?_, ?_⟩
  · have hres : ∀ x y : Head, (if x.resource = resource then toHead (x.resource, x.rest)
        else some x) = some y → y.resource = x.resource := by
      intro x y hxy
      split at hxy
      · unfold toHead at hxy
        split at hxy
        · cases hxy
        · cases hxy
          rfl
      · cases hxy
        rfl
    have hsub : ((ChangeStreams.advance resource heads).map Head.resource).Sublist
        (heads.map Head.resource) := by
      unfold ChangeStreams.advance
      clear hfrom h
      induction heads with
      | nil => exact List.Sublist.refl _
      | cons x xs ih =>
        rw [filterMap_cons]
        split
        · exact ih.cons _
        case h_2 y hy =>
          rw [map_cons, map_cons, hres x y hy]
          exact ih.cons_cons _
    exact hsub.nodup h.distinct
  · intro x hx c hc
    obtain ⟨y, hy, hres, hsuffix⟩ := hfrom x hx
    rw [hres]
    exact h.own y hy c (hsuffix.subset hc)
  · intro x hx
    obtain ⟨y, hy, -, hsuffix⟩ := hfrom x hx
    exact (h.sorted y hy).sublist hsuffix.sublist

theorem ofResource_pending (h : Streams heads) (hmem : head ∈ heads) (resource : String) :
    ofResource resource (pending heads) =
      ofResource resource [head.change] ++
        ofResource resource (pending (ChangeStreams.advance head.resource heads)) := by
  rw [pending_advance]
  unfold pending
  induction heads with
  | nil => cases hmem
  | cons x xs ih =>
    have hother : ∀ y ∈ xs, y.resource ≠ x.resource := fun y hy heq =>
      (nodup_cons.mp h.distinct).1 (heq ▸ mem_map_of_mem hy)
    rw [flatMap_cons, flatMap_cons]
    rcases mem_cons.mp hmem with rfl | hmem
    · have hrest : (xs.flatMap fun y => if y.resource = head.resource then y.rest
          else y.change :: y.rest) = xs.flatMap fun y => y.change :: y.rest := by
        refine flatMap_congr fun y hy => ?_
        rw [if_neg (hother y hy)]
      rw [hrest, if_pos rfl]
      simp [ofResource, filter_cons]
      split <;> simp
    · have hne : x.resource ≠ head.resource := fun heq => hother head hmem heq.symm
      rw [if_neg hne]
      unfold ofResource at ih ⊢
      rw [filter_append, ih h.of_cons hmem, filter_append]
      by_cases hr : head.change.resource = resource
      · have hx : (x.change :: x.rest).filter (fun c => decide (c.resource = resource)) = [] := by
          rw [filter_eq_nil_iff]
          intro c hc
          have hown := h.own x mem_cons_self c hc
          have hhead := h.own head (mem_cons_of_mem _ hmem) head.change mem_cons_self
          rwa [decide_eq_true_eq, hown, ← hr, hhead]
        rw [hx, nil_append, nil_append]
      · simp [hr]

theorem bestHead_le (head : Head) (h : Streams (head :: heads)) :
    ∀ c ∈ pending (head :: heads), (bestHead head heads).change.serverSeq ≤ c.serverSeq := by
  intro c hc
  obtain ⟨x, hx, hcx⟩ := mem_flatMap.mp hc
  have hfirst : x.change.serverSeq ≤ c.serverSeq := by
    rcases mem_cons.mp hcx with rfl | hcx
    · exact le_rfl
    · exact (pairwise_cons.mp (h.sorted x hx)).1 c hcx
  exact ((bestHead_spec head heads).2 x hx).trans hfirst

section

variable (h : Streams heads)
include h

theorem ofResource_selectChanges (limit : Nat) (resource : String) :
    ofResource resource (selectChanges limit heads).1 ++
        ofResource resource (pending (selectChanges limit heads).2) =
      ofResource resource (pending heads) := by
  induction limit generalizing heads with
  | zero => simp [selectChanges, ofResource]
  | succ limit ih =>
    cases heads with
    | nil => simp [selectChanges, ofResource]
    | cons head heads =>
      have hbest := (bestHead_spec head heads).1
      have hstep := ih (h.advance (bestHead head heads).resource)
      rw [h.ofResource_pending hbest, ← hstep, selectChanges]
      simp [ofResource, filter_cons]
      split <;> simp

theorem selectChanges_pairwise (limit : Nat) :
    (selectChanges limit heads).1.Pairwise fun a b => a.serverSeq ≤ b.serverSeq := by
  induction limit generalizing heads with
  | zero => simp [selectChanges]
  | succ limit ih =>
    cases heads with
    | nil => simp [selectChanges]
    | cons head heads =>
      rw [selectChanges, pairwise_cons]
      refine ⟨fun c hc => ?_, ih (h.advance _)⟩
      have hlater := mem_pending_of_selected hc
      have hmem : c ∈ ofResource c.resource (pending (ChangeStreams.advance
          (bestHead head heads).resource (head :: heads))) := by
        simpa [ofResource] using hlater
      have hall := h.ofResource_pending (bestHead_spec head heads).1 c.resource
      have := hall ▸ mem_append_right _ hmem
      exact h.bestHead_le head c (mem_of_mem_filter this)

theorem selected_le_left {c d : ChangeEntry} (hc : c ∈ (selectChanges limit heads).1)
    (hd : d ∈ pending (selectChanges limit heads).2) : c.serverSeq ≤ d.serverSeq := by
  induction limit generalizing heads with
  | zero => exact absurd hc (by simp [selectChanges])
  | succ limit ih =>
    cases heads with
    | nil => exact absurd hc (by simp [selectChanges])
    | cons head heads =>
      rcases mem_cons.mp hc with rfl | hc
      · exact h.bestHead_le head d (mem_pending_of_advance (mem_pending_of_left hd))
      · exact ih (h.advance _) hc hd

theorem selected_or_left (limit : Nat) {c : ChangeEntry} (hc : c ∈ pending heads) :
    c ∈ (selectChanges limit heads).1 ∨ c ∈ pending (selectChanges limit heads).2 := by
  have hmem : c ∈ ofResource c.resource (pending heads) := by simpa [ofResource] using hc
  rw [← h.ofResource_selectChanges limit] at hmem
  rcases mem_append.mp hmem with hselected | hleft
  · exact .inl (mem_of_mem_filter hselected)
  · exact .inr (mem_of_mem_filter hleft)

end

end Streams

theorem length_selectChanges (limit : Nat) (heads : List Head) :
    (selectChanges limit heads).1.length ≤ limit ∧
      ((selectChanges limit heads).2 ≠ [] → (selectChanges limit heads).1.length = limit) := by
  induction limit generalizing heads with
  | zero => simp [selectChanges]
  | succ limit ih =>
    cases heads with
    | nil => simp [selectChanges]
    | cons head heads =>
      have hlater := ih (advance (bestHead head heads).resource (head :: heads))
      simp only [selectChanges, length_cons]
      exact ⟨by omega, fun hleft => by rw [hlater.2 hleft]⟩

end SuperFunctions.Datafn.Server.ChangeStreams
