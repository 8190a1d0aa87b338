import SuperFunctions.Datafn.Server.AuthCache
import SuperFunctions.Lib.Processes

/-!
# The cache of principals is fresh

Where no cache is invalidated while a call holds what it has read, everything cached is what the
tables say as soon as the changes made so far have been invalidated.
-/
namespace SuperFunctions.Datafn.Server.AuthCache

open Lib.OrderedMap Datafn.Core Principals List OMap Option

section
variable {rt : Runtime} {s s' : System} {cache : AuthResolverCache}

/-! ## What is in the cache -/

def resolvedEntry (cache : AuthResolverCache) (ns actorId : String) :
    Option CachedPrincipalResolution := (cache.getState ns).resolvedByActor.get actorId

theorem getState_set (ns ns' : String) (state : NamespaceCacheState) :
    AuthResolverCache.getState (OMap.set cache ns state) ns' =
      if ns' = ns then state else cache.getState ns' := by
  rw [AuthResolverCache.getState, get_set]
  split_ifs
  · rfl
  · rfl

theorem getHierarchyParents_setHierarchyParents (ns principalId ns' principalId' : String)
    (parents : List String) :
    (cache.setHierarchyParents ns principalId parents).getHierarchyParents ns' principalId' =
      if ns' = ns ∧ principalId' = principalId then some parents
      else cache.getHierarchyParents ns' principalId' := by
  rw [AuthResolverCache.getHierarchyParents, AuthResolverCache.setHierarchyParents, getState_set]
  by_cases hns : ns' = ns
  · rw [if_pos hns, get_set, hns]
    by_cases hp : principalId' = principalId
    · rw [if_pos hp, if_pos ⟨rfl, hp⟩]
    · rw [if_neg hp, if_neg fun h => hp h.2]
      rfl
  · rw [if_neg hns, if_neg fun h => hns h.1]
    rfl

theorem resolvedEntry_setHierarchyParents (ns principalId ns' actorId : String)
    (parents : List String) :
    resolvedEntry (cache.setHierarchyParents ns principalId parents) ns' actorId =
      resolvedEntry cache ns' actorId := by
  rw [resolvedEntry, AuthResolverCache.setHierarchyParents, getState_set]
  split_ifs with hns
  · rw [hns]
    rfl
  · rfl

theorem getHierarchyParents_setResolvedPrincipals (ns actorId ns' principalId : String)
    (maxDepth : Nat) (principals : List String) :
    (cache.setResolvedPrincipals ns actorId maxDepth principals).getHierarchyParents ns'
      principalId = cache.getHierarchyParents ns' principalId := by
  rw [AuthResolverCache.getHierarchyParents, AuthResolverCache.setResolvedPrincipals, getState_set]
  split_ifs with hns
  · rw [hns]
    rfl
  · rfl

variable {actorId ns ns' : String} {entry : CachedPrincipalResolution}

theorem resolvedEntry_setResolvedPrincipals {actorId' : String} {maxDepth : Nat}
    {principals : List String}
    (h : resolvedEntry (cache.setResolvedPrincipals ns actorId maxDepth principals) ns' actorId' =
      some entry) :
    (ns' = ns ∧ actorId' = actorId ∧ entry.maxDepth = maxDepth ∧ entry.principals = principals) ∨
      resolvedEntry cache ns' actorId' = some entry := by
  rw [resolvedEntry, AuthResolverCache.setResolvedPrincipals, getState_set] at h
  split_ifs at h with hns
  · rw [get_set] at h
    split_ifs at h with hactor
    · cases h
      exact .inl ⟨hns, hactor, rfl, rfl⟩
    · rw [hns]
      exact .inr h
  · exact .inr h

variable {kind : Invalidation}

theorem getHierarchyParents_applyInvalidation {principalId : String} {parents : List String}
    (h : (applyInvalidation cache ns kind).getHierarchyParents ns' principalId = some parents) :
    cache.getHierarchyParents ns' principalId = some parents ∧
      ¬ (ns' = ns ∧ kind = .hierarchy) := by
  cases kind with
  | hierarchy =>
    rw [AuthResolverCache.getHierarchyParents, applyInvalidation,
      AuthResolverCache.invalidateHierarchy, getState_set] at h
    split_ifs at h with hns
    · cases h
    · exact ⟨h, fun hboth => hns hboth.1⟩
  | membership actorId =>
    refine ⟨?_, fun hboth => by cases hboth.2⟩
    rw [AuthResolverCache.getHierarchyParents, applyInvalidation,
      AuthResolverCache.invalidateMembership] at h
    split at h
    · rw [getState_set] at h
      split_ifs at h with hns
      · rwa [hns]
      · exact h
    · rw [getState_set] at h
      split_ifs at h with hns
      · rwa [hns]
      · exact h

theorem resolvedEntry_applyInvalidation
    (h : resolvedEntry (applyInvalidation cache ns kind) ns' actorId = some entry) :
    resolvedEntry cache ns' actorId = some entry ∧ ¬ (ns' = ns ∧ kind.Concerns actorId) := by
  cases kind with
  | hierarchy =>
    rw [resolvedEntry, applyInvalidation, AuthResolverCache.invalidateHierarchy, getState_set] at h
    split_ifs at h with hns
    · cases h
    · exact ⟨h, fun hboth => hns hboth.1⟩
  | membership actor =>
    rw [resolvedEntry, applyInvalidation, AuthResolverCache.invalidateMembership] at h
    split at h
    · next actor' hactor =>
      obtain ⟨hsome, hne⟩ := filter_eq_some_iff.mp hactor
      rw [getState_set] at h
      split_ifs at h with hns
      · rw [get_delete] at h
        split_ifs at h with hsame
        rw [hns]
        refine ⟨h, fun hboth => ?_⟩
        rw [hsome] at hboth
        rcases hboth.2 with heq | hempty
        · exact hsame heq.symm
        · exact of_decide_eq_true hne hempty
      · exact ⟨h, fun hboth => hns hboth.1⟩
    · rw [getState_set] at h
      split_ifs at h with hns
      · cases h
      · exact ⟨h, fun hboth => hns hboth.1⟩

/-! ## Careful runs -/

/-- What is left of a call that has read something. -/
def Phase.rest : Phase → Option (Resolution (List String))
  | walking rest => some rest
  | asked principalId next => some (.ask principalId next)
  | answered _ parents next => some (next parents)
  | _ => none

/-- No cache is invalidated while a call it is about holds what it has read. -/
def Careful (s : System) : Action → Prop
  | .invalidate ns kind => ∀ e ∈ s.calls.entries, e.2.ns = ns → kind.Concerns e.2.actorId →
      e.2.phase.rest.isNone = true
  | _ => True

instance (s : System) (action : Action) : Decidable (Careful s action) := by
  unfold Careful
  split <;> infer_instance

/-! ## The invariant -/

structure FreshCall (rt : Runtime) (s : System) (call : Call) : Prop where
  started : call.phase = .memberships → ¬ call.maxDepth < 1
  answered : ∀ principalId parents next, call.phase = .answered principalId parents next →
    HierarchySettled s call.ns → parents = parentsOf rt (s.tablesOf call.ns) principalId
  rest : ∀ rest, call.phase.rest = some rest → Settled s call.ns call.actorId →
    rest.run (parentsOf rt (s.tablesOf call.ns)) =
      resolveUncached rt (s.tablesOf call.ns) call.actorId call.maxDepth

structure Fresh (rt : Runtime) (s : System) : Prop where
  parents : ∀ ns principalId parents, HierarchySettled s ns →
    s.cache.getHierarchyParents ns principalId = some parents →
    parents = parentsOf rt (s.tablesOf ns) principalId
  resolved : ∀ ns actorId entry, Settled s ns actorId →
    resolvedEntry s.cache ns actorId = some entry →
    resolveUncached rt (s.tablesOf ns) actorId entry.maxDepth = .ok entry.principals
  calls : ∀ id call, s.calls.get id = some call → FreshCall rt s call

theorem hierarchySettled_of_settled (h : Settled s ns actorId) :
    HierarchySettled s ns := fun hpending => h .hierarchy hpending trivial

theorem fresh_begin (tables : OMap String PrincipalTables) : Fresh rt (begin tables) := by
  refine ⟨?_, ?_, ?_⟩
  · exact nofun
  · exact nofun
  · exact nofun

/-- What is settled in the second state was settled in the first, on tables that say the same. -/
structure Carries (rt : Runtime) (s s' : System) : Prop where
  hierarchy : ∀ ns, HierarchySettled s' ns →
    HierarchySettled s ns ∧ parentsOf rt (s'.tablesOf ns) = parentsOf rt (s.tablesOf ns)
  settled : ∀ ns actorId, Settled s' ns actorId → Settled s ns actorId ∧ ∀ maxDepth,
    resolveUncached rt (s'.tablesOf ns) actorId maxDepth =
      resolveUncached rt (s.tablesOf ns) actorId maxDepth

theorem carries_of_eq (htables : s'.tables = s.tables) (hpending : s'.pending = s.pending) :
    Carries rt s s' := by
  have hsame : ∀ ns, s'.tablesOf ns = s.tablesOf ns := by
    intro ns
    rw [System.tablesOf, htables]
    rfl
  refine ⟨fun ns h => ⟨?_, by rw [hsame]⟩, fun ns actorId h => ⟨?_, fun maxDepth => by rw [hsame]⟩⟩
  · rwa [HierarchySettled, ← hpending]
  · rwa [Settled, ← hpending]

variable {call : Call}

theorem FreshCall.carried (h : FreshCall rt s call) (hc : Carries rt s s') :
    FreshCall rt s' call := { h with
  answered principalId parents next hphase hsettled := by
    obtain ⟨hold, hsame⟩ := hc.hierarchy call.ns hsettled
    rw [hsame]
    exact h.answered principalId parents next hphase hold
  rest rest hphase hsettled := by
    obtain ⟨hold, hsame⟩ := hc.settled call.ns call.actorId hsettled
    rw [hsame, (hc.hierarchy call.ns (hierarchySettled_of_settled hsettled)).2]
    exact h.rest rest hphase hold }

/-! ## Changes of the tables -/

variable {t : PrincipalTables}

theorem getDirectMemberships_apply {change : Change} (h : ¬ change.invalidation.Concerns actorId) :
    getDirectMemberships (change.apply t) actorId = getDirectMemberships t actorId := by
  cases change with
  | hierarchy rows | memberships rows => exact absurd trivial h
  | membershipsOf actor rows =>
    have hne : actor ≠ actorId := fun heq => h (.inl heq)
    rw [getDirectMemberships, getDirectMemberships, Change.apply, filter_append,
      List.filter_filter, List.filter_filter]
    have hnew : rows.filter (fun row => decide (row.actorId = actorId ∧
        isGrantActive row.revokedAt = true) && decide (row.actorId = actor)) = [] := by
      rw [filter_eq_nil_iff]
      intro row _ hrow
      obtain ⟨hactorId, hactor⟩ := Bool.and_eq_true_iff.mp hrow
      exact hne ((of_decide_eq_true hactor).symm.trans (of_decide_eq_true hactorId).1)
    have hold : t.memberships.filter (fun row => decide (row.actorId = actorId ∧
        isGrantActive row.revokedAt = true) && decide (row.actorId ≠ actor)) =
        t.memberships.filter fun row =>
          decide (row.actorId = actorId ∧ isGrantActive row.revokedAt = true) := by
      refine filter_congr fun row _ => ?_
      by_cases hrow : row.actorId = actorId
      · simp [hrow, Ne.symm hne]
      · simp [hrow]
    rw [hnew, hold, append_nil]

theorem parentsOf_apply {change : Change} (h : change.invalidation ≠ .hierarchy) :
    parentsOf rt (change.apply t) = parentsOf rt t := by
  cases change with
  | hierarchy rows => exact absurd rfl h
  | memberships rows => rfl
  | membershipsOf actor rows => rfl

theorem tablesOf_commit (ns ns' : String) (change : Change) (pending : List (String × Invalidation)) :
    System.tablesOf { s with
      tables := s.tables.set ns (change.apply (s.tablesOf ns)), pending := pending } ns' =
      if ns' = ns then change.apply (s.tablesOf ns) else s.tablesOf ns' := by
  rw [System.tablesOf, get_set]
  split_ifs
  · rfl
  · rfl

theorem carries_commit (ns : String) (change : Change) :
    Carries rt s { s with
      tables := s.tables.set ns (change.apply (s.tablesOf ns))
      pending := s.pending ++ [(ns, change.invalidation)] } := by
  refine ⟨fun ns' h => ?_, fun ns' actorId h => ?_⟩
  · have hnot := mt mem_append.mpr h
    rw [not_or, mem_singleton, Prod.mk.injEq] at hnot
    refine ⟨hnot.1, ?_⟩
    rw [tablesOf_commit]
    split_ifs with hns
    · rw [parentsOf_apply fun heq => hnot.2 ⟨hns, heq.symm⟩, hns]
    · rfl
  · have hconcerns : ns' = ns → ¬ change.invalidation.Concerns actorId := by
      intro hns
      apply h
      rw [hns]
      exact mem_append_right _ mem_cons_self
    refine ⟨fun kind hkind => h kind (mem_append_left _ hkind), fun maxDepth => ?_⟩
    rw [tablesOf_commit]
    split_ifs with hns
    · have hkind : change.invalidation ≠ .hierarchy := by
        intro heq
        apply hconcerns hns
        rw [heq]
        trivial
      rw [resolveUncached, resolveUncached, getDirectMemberships_apply (hconcerns hns),
        parentsOf_apply hkind, hns]
    · rfl

/-! ## The steps -/

theorem fresh_commit (h : Fresh rt s) (ns : String) (change : Change) :
    Fresh rt { s with
      tables := s.tables.set ns (change.apply (s.tablesOf ns))
      pending := s.pending ++ [(ns, change.invalidation)] } := by
  have hcarries : Carries rt s { s with
      tables := s.tables.set ns (change.apply (s.tablesOf ns))
      pending := s.pending ++ [(ns, change.invalidation)] } := carries_commit ns change
  refine ⟨fun ns' principalId parents hsettled hget => ?_,
    fun ns' actorId entry hsettled hget => ?_,
    fun id call hget => (h.calls id call hget).carried hcarries⟩
  · obtain ⟨hold, hsame⟩ := hcarries.hierarchy ns' hsettled
    rw [hsame]
    exact h.parents ns' principalId parents hold hget
  · obtain ⟨hold, hsame⟩ := hcarries.settled ns' actorId hsettled
    rw [hsame]
    exact h.resolved ns' actorId entry hold hget

theorem fresh_invalidate (h : Fresh rt s) (hcareful : Careful s (.invalidate ns kind)) :
    Fresh rt { s with
      cache := applyInvalidation s.cache ns kind
      pending := s.pending.erase (ns, kind) } := by
  have hhierarchy : ∀ ns', (ns', Invalidation.hierarchy) ∉ s.pending.erase (ns, kind) →
      ¬ (ns' = ns ∧ kind = .hierarchy) → HierarchySettled s ns' := by
    intro ns' hnot hne hpending
    refine hnot ((mem_erase_of_ne fun heq => hne ?_).mpr hpending)
    exact ⟨congrArg Prod.fst heq, (congrArg Prod.snd heq).symm⟩
  have hsettledOf : ∀ ns' actorId,
      (∀ kind', (ns', kind') ∈ s.pending.erase (ns, kind) → ¬ kind'.Concerns actorId) →
      ¬ (ns' = ns ∧ kind.Concerns actorId) → Settled s ns' actorId := by
    intro ns' actorId hall hnot kind' hpending
    by_cases heq : (ns', kind') = (ns, kind)
    · cases heq
      exact fun hconcerns => hnot ⟨rfl, hconcerns⟩
    · exact hall kind' ((mem_erase_of_ne heq).mpr hpending)
  refine ⟨fun ns' principalId parents hsettled hget => ?_,
    fun ns' actorId entry hsettled hget => ?_, fun id call hget => ?_⟩
  · obtain ⟨hold, hnot⟩ := getHierarchyParents_applyInvalidation hget
    exact h.parents ns' principalId parents (hhierarchy ns' hsettled hnot) hold
  · obtain ⟨hold, hnot⟩ := resolvedEntry_applyInvalidation hget
    exact h.resolved ns' actorId entry (hsettledOf ns' actorId hsettled hnot) hold
  have hcall := h.calls id call hget
  have hholds : ∀ rest, call.phase.rest = some rest →
      ¬ (call.ns = ns ∧ kind.Concerns call.actorId) := by
    intro rest hrest hboth
    have hnone := hcareful (id, call) ((s.calls.mem_entries_iff_get id call).mpr hget)
      hboth.1 hboth.2
    rw [hrest] at hnone
    cases hnone
  refine ⟨hcall.started, fun principalId parents next hphase hsettled => ?_,
    fun rest hrest hsettled => ?_⟩
  · have hrest : call.phase.rest = some (next parents) := by rw [hphase]; rfl
    refine hcall.answered principalId parents next hphase (hhierarchy call.ns hsettled ?_)
    intro hboth
    refine hholds _ hrest ⟨hboth.1, ?_⟩
    rw [hboth.2]
    trivial
  · exact hcall.rest rest hrest (hsettledOf call.ns call.actorId hsettled (hholds rest hrest))

variable {phase : Phase} {id : Nat}

theorem fresh_setPhase (h : Fresh rt s) {cache : AuthResolverCache}
    (hparents : ∀ ns principalId parents, HierarchySettled s ns →
      cache.getHierarchyParents ns principalId = some parents →
      parents = parentsOf rt (s.tablesOf ns) principalId)
    (hresolved : ∀ ns actorId entry, Settled s ns actorId →
      resolvedEntry cache ns actorId = some entry →
      resolveUncached rt (s.tablesOf ns) actorId entry.maxDepth = .ok entry.principals)
    (hcall : FreshCall rt s { call with phase := phase }) :
    Fresh rt { s.setPhase id call phase with cache := cache } := by
  have hcarries : Carries rt s { s.setPhase id call phase with cache := cache } :=
    carries_of_eq rfl rfl
  refine ⟨hparents, hresolved, fun id' call' hget => ?_⟩
  have hget' : (s.calls.set id { call with phase := phase }).get id' = some call' := hget
  rw [get_set] at hget'
  split_ifs at hget' with hid
  · cases hget'
    exact hcall.carried hcarries
  · exact (h.calls id' call' hget').carried hcarries

theorem freshCall_finished (call : Call) (outcome : Except ExecutionError (List String)) :
    FreshCall rt s { call with phase := .finished outcome } := by
  refine ⟨?_, ?_, ?_⟩
  · exact nofun
  · exact nofun
  · exact nofun

theorem freshCall_walking {rest : Resolution (List String)}
    (h : Settled s call.ns call.actorId → rest.run (parentsOf rt (s.tablesOf call.ns)) =
      resolveUncached rt (s.tablesOf call.ns) call.actorId call.maxDepth) :
    FreshCall rt s { call with phase := .walking rest } := by
  refine ⟨nofun, nofun, fun rest' hphase hsettled => ?_⟩
  cases hphase
  exact h hsettled

section

variable (h : Fresh rt s)
include h

theorem fresh_start (id : Nat) (ns actorId : String) (maxDepth : Nat) :
    Fresh rt (s.setPhase id ⟨ns, actorId, maxDepth, .memberships⟩
      (startPhase s.cache ns actorId maxDepth)) := by
  refine fresh_setPhase h h.parents h.resolved ?_
  rw [startPhase]
  split_ifs with hdepth
  · exact freshCall_finished _ _
  split
  · exact freshCall_finished _ _
  refine ⟨fun _ => hdepth, ?_, ?_⟩
  · exact nofun
  · exact nofun

theorem fresh_read (hget : s.calls.get id = some call)
    (hread : readPhase rt (s.tablesOf call.ns) call = some phase) :
    Fresh rt (s.setPhase id call phase) := by
  have hcall := h.calls id call hget
  refine fresh_setPhase h h.parents h.resolved ?_
  rw [readPhase] at hread
  split at hread
  · next hphase =>
    cases hread
    apply freshCall_walking
    intro _
    rw [resolveUncached, if_neg (hcall.started hphase)]
  · next principalId next hphase =>
    cases hread
    refine ⟨nofun, ?_, fun rest hrest hsettled => ?_⟩
    · intro principalId' parents next' heq _
      cases heq
      rfl
    · cases hrest
      have hasked : call.phase.rest = some (.ask principalId next) := by rw [hphase]; rfl
      have hrun := hcall.rest _ hasked hsettled
      exact hrun
  · cases hread

theorem fresh_resume (hget : s.calls.get id = some call)
    (hresume : resumePhase s.cache call = some (cache, phase)) :
    Fresh rt { s.setPhase id call phase with cache := cache } := by
  have hcall := h.calls id call hget
  rw [resumePhase] at hresume
  split at hresume
  · next principalId next hphase =>
    have hrest : call.phase.rest = some (.ask principalId next) := by rw [hphase]; rfl
    split at hresume
    · next parents hparents =>
      cases hresume
      refine fresh_setPhase h h.parents h.resolved (freshCall_walking fun hsettled => ?_)
      have hrun := hcall.rest _ hrest hsettled
      rwa [h.parents call.ns principalId parents (hierarchySettled_of_settled hsettled) hparents]
    · cases hresume
      refine fresh_setPhase h h.parents h.resolved ⟨nofun, nofun, fun rest heq hsettled => ?_⟩
      cases heq
      exact hcall.rest _ hrest hsettled
  · next principals hphase =>
    have hrest : call.phase.rest = some (.done (.ok principals)) := by rw [hphase]; rfl
    cases hresume
    refine fresh_setPhase h ?_ ?_ (freshCall_finished _ _)
    · intro ns principalId parents hsettled hparents
      rw [getHierarchyParents_setResolvedPrincipals] at hparents
      exact h.parents ns principalId parents hsettled hparents
    · intro ns actorId entry hsettled hentry
      rcases resolvedEntry_setResolvedPrincipals hentry with ⟨rfl, rfl, hdepth, hsame⟩ | hold
      · rw [hdepth, hsame]
        exact (hcall.rest _ hrest hsettled).symm
      · exact h.resolved ns actorId entry hsettled hold
  · cases hresume
    exact fresh_setPhase h h.parents h.resolved (freshCall_finished _ _)
  · next principalId parents next hphase =>
    have hrest : call.phase.rest = some (next parents) := by rw [hphase]; rfl
    cases hresume
    refine fresh_setPhase h ?_ ?_ (freshCall_walking fun hsettled => hcall.rest _ hrest hsettled)
    · intro ns principalId' parents' hsettled hparents
      rw [getHierarchyParents_setHierarchyParents] at hparents
      split_ifs at hparents with hsame
      · cases hparents
        rw [hsame.1, hsame.2]
        rw [hsame.1] at hsettled
        exact hcall.answered principalId parents next hphase hsettled
      · exact h.parents ns principalId' parents' hsettled hparents
    · intro ns actorId entry hsettled hentry
      rw [resolvedEntry_setHierarchyParents] at hentry
      exact h.resolved ns actorId entry hsettled hentry
  · cases hresume

theorem fresh_step {action : Action} (hcareful : Careful s action)
    (hstep : step rt s action = some s') : Fresh rt s' := by
  cases action with
  | commit ns change =>
    cases hstep
    exact fresh_commit h ns change
  | invalidate ns kind =>
    cases hstep
    exact fresh_invalidate h hcareful
  | start id ns actorId maxDepth =>
    rw [step] at hstep
    split at hstep
    · cases hstep
    · cases hstep
      exact fresh_start h id ns actorId maxDepth
  | read id =>
    obtain ⟨call, hget, hrest⟩ := bind_eq_some_iff.mp hstep
    obtain ⟨phase, hread, heq⟩ := bind_eq_some_iff.mp hrest
    cases heq
    exact fresh_read h hget hread
  | resume id =>
    obtain ⟨call, hget, hrest⟩ := bind_eq_some_iff.mp hstep
    obtain ⟨⟨cache, phase⟩, hresume, heq⟩ := bind_eq_some_iff.mp hrest
    cases heq
    exact fresh_resume h hget hresume

theorem neverStale_of_fresh : NeverStale rt s := by
  refine ⟨h.parents, fun ns actorId maxDepth principals hsettled hget => ?_⟩
  rw [AuthResolverCache.getResolvedPrincipals] at hget
  split at hget
  · cases hget
  next entry hentry =>
  split_ifs at hget with hfresh
  cases hget
  rw [← hfresh.1]
  exact h.resolved ns actorId entry hsettled hentry

end

end

end SuperFunctions.Datafn.Server.AuthCache
