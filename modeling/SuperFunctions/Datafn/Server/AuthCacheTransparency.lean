import SuperFunctions.Datafn.Server.AuthCacheFreshness

/-!
# Caching does not change who an actor is

A call that starts when every change that concerns its actor has been invalidated resolves to
what an uncached resolution finds, whatever other calls and changes come between its steps.
-/
namespace SuperFunctions.Datafn.Server.AuthCache

open Lib.Questions Lib.OrderedMap Lib.Transition Datafn.Core Principals Option List

section
variable {rt : Runtime} {s s' : System} {tables : List PrincipalTables} {ns actorId : String}
  {maxDepth : Nat} {id : Nat}

/-! ## Answers that some of the tables give -/

def Among (rt : Runtime) (tables : List PrincipalTables) (principalId : String)
    (parents : List String) : Prop := ∃ t ∈ tables, parents = parentsOf rt t principalId

/-- An outcome a call can still come to. -/
def Phase.LeadsTo (rt : Runtime) (tables : List PrincipalTables) (actorId : String)
    (maxDepth : Nat) : Phase → Except ExecutionError (List String) → Prop
  | memberships, outcome => ¬ maxDepth < 1 ∧ ∃ t ∈ tables, Interaction.Yields (Among rt tables)
      (expand rt actorId maxDepth (getDirectMemberships t actorId)) outcome
  | walking rest, outcome => Interaction.Yields (Among rt tables) rest outcome
  | asked principalId next, outcome =>
    Interaction.Yields (Among rt tables) (.ask principalId next) outcome
  | answered _ parents next, outcome => Interaction.Yields (Among rt tables) (next parents) outcome
  | finished outcome', outcome => outcome = outcome'

/-- A call under way, and what it and others read since it started. -/
structure Recent (rt : Runtime) (tables : List PrincipalTables) (id : Nat) (ns actorId : String)
    (maxDepth : Nat) (s : System) : Prop where
  current : s.tablesOf ns ∈ tables
  parents : ∀ principalId parents, s.cache.getHierarchyParents ns principalId = some parents →
    Among rt tables principalId parents
  answered : ∀ id' call principalId parents next, s.calls.get id' = some call → call.ns = ns →
    call.phase = .answered principalId parents next → Among rt tables principalId parents
  call : ∃ phase, s.calls.get id = some ⟨ns, actorId, maxDepth, phase⟩ ∧
    (phase = .memberships → ¬ maxDepth < 1) ∧
    ∀ outcome, phase.LeadsTo rt tables actorId maxDepth outcome →
      ResolvesOn rt tables actorId maxDepth outcome

theorem resolvesOn_resolveUncached {t : PrincipalTables} (ht : t ∈ tables) :
    ResolvesOn rt tables actorId maxDepth (resolveUncached rt t actorId maxDepth) := by
  rw [ResolvesOn, resolveUncached]
  split_ifs
  · rfl
  · exact ⟨t, ht, Interaction.yields_run (fun _ => ⟨t, ht, rfl⟩) _⟩

/-- As long as the tables stay the same there is one outcome. -/
theorem eq_resolveUncached {t : PrincipalTables} (honly : ∀ t' ∈ tables, t' = t)
    {outcome : Except ExecutionError (List String)}
    (h : ResolvesOn rt tables actorId maxDepth outcome) :
    outcome = resolveUncached rt t actorId maxDepth := by
  rw [ResolvesOn] at h
  rw [resolveUncached]
  split_ifs at h ⊢
  · exact h
  obtain ⟨t', ht', hyields⟩ := h
  rw [honly t' ht'] at hyields
  refine Interaction.eq_run_of_yields (fun principalId parents hsome => ?_) hyields
  obtain ⟨t'', ht'', heq⟩ := hsome
  rw [heq, honly t'' ht'']

/-! ## The call starts -/

theorem startPhase_ne_answered {cache : AuthResolverCache} {principalId : String}
    {parents : List String} {next : List String → Resolution (List String)} :
    startPhase cache ns actorId maxDepth ≠ .answered principalId parents next := by
  rw [startPhase]
  split_ifs
  · simp
  · split <;> simp

theorem recent_start (h : Fresh rt s) (hsettled : Settled s ns actorId)
    (hcurrent : s.tablesOf ns ∈ tables)
    (hstep : step rt s (.start id ns actorId maxDepth) = some s') :
    Recent rt tables id ns actorId maxDepth s' := by
  have hhierarchy := hierarchySettled_of_settled hsettled
  rw [step] at hstep
  split at hstep
  · cases hstep
  cases hstep
  refine ⟨hcurrent, fun principalId parents hget => ?_,
    fun id' call principalId parents next hget hns hphase => ?_,
    startPhase s.cache ns actorId maxDepth, ?_, fun hphase => ?_, fun outcome hleads => ?_⟩
  · exact ⟨_, hcurrent, h.parents ns principalId parents hhierarchy hget⟩
  · have hget' : (s.calls.set id ⟨ns, actorId, maxDepth, startPhase s.cache ns actorId maxDepth⟩).get
        id' = some call := hget
    rw [OMap.get_set] at hget'
    split_ifs at hget'
    · cases hget'
      exact absurd hphase startPhase_ne_answered
    · have hanswered := (h.calls id' call hget').answered principalId parents next hphase
      rw [hns] at hanswered
      exact ⟨_, hcurrent, hanswered hhierarchy⟩
  · exact (OMap.get_set _ _ _ _).trans (if_pos rfl)
  · rw [startPhase] at hphase
    split_ifs at hphase with hdepth
    exact hdepth
  rw [startPhase] at hleads
  split_ifs at hleads with hdepth
  · rwa [ResolvesOn, if_pos hdepth]
  split at hleads
  · next principals hcached =>
    have hresolved := (neverStale_of_fresh h).principals ns actorId maxDepth principals
      hsettled hcached
    rw [hleads, ← hresolved]
    exact resolvesOn_resolveUncached hcurrent
  · rw [ResolvesOn, if_neg hdepth]
    exact hleads.2

/-! ## The other steps -/

variable {phase : Phase} {call : Call}

section

variable (h : Recent rt tables id ns actorId maxDepth s)
include h

theorem recent_setPhase {id' : Nat} {cache : AuthResolverCache} (hget : s.calls.get id' = some call)
    (hparents : ∀ principalId parents, cache.getHierarchyParents ns principalId = some parents →
      Among rt tables principalId parents) (hanswered : ∀ principalId parents next, call.ns = ns →
      phase = .answered principalId parents next → Among rt tables principalId parents)
    (hmemberships : phase ≠ .memberships)
    (hleads : ∀ outcome, call.ns = ns → call.actorId = actorId → call.maxDepth = maxDepth →
      (call.phase = .memberships → ¬ maxDepth < 1) →
      phase.LeadsTo rt tables actorId maxDepth outcome →
      call.phase.LeadsTo rt tables actorId maxDepth outcome) :
    Recent rt tables id ns actorId maxDepth { s.setPhase id' call phase with cache := cache } := by
  have hcalls : ∀ k, ({ s.setPhase id' call phase with cache := cache } : System).calls.get k =
      if k = id' then some { call with phase := phase } else s.calls.get k :=
    fun k => OMap.get_set _ _ _ _
  refine ⟨h.current, hparents, fun k call' principalId parents next hget' hns hphase => ?_, ?_⟩
  · rw [hcalls] at hget'
    split_ifs at hget'
    · cases hget'
      exact hanswered principalId parents next hns hphase
    · exact h.answered k call' principalId parents next hget' hns hphase
  · obtain ⟨old, hold, hdepth, hresolves⟩ := h.call
    by_cases hid : id = id'
    · have hcall : call = ⟨ns, actorId, maxDepth, old⟩ := by
        rw [hid, hget] at hold
        exact some.inj hold
      subst hcall
      refine ⟨phase, (hcalls id).trans (if_pos hid), fun heq => absurd heq hmemberships,
        fun outcome hlead => hresolves outcome (hleads outcome rfl rfl rfl hdepth hlead)⟩
    · exact ⟨old, (hcalls id).trans ((if_neg hid).trans hold), hdepth, hresolves⟩

theorem recent_read {id' : Nat} (hget : s.calls.get id' = some call)
    (hread : readPhase rt (s.tablesOf call.ns) call = some phase) :
    Recent rt tables id ns actorId maxDepth (s.setPhase id' call phase) := by
  rw [readPhase] at hread
  split at hread
  · next hphase =>
    cases hread
    refine recent_setPhase h hget h.parents ?_ ?_ ?_
    · simp
    · simp
    intro outcome hns hactor hdepth hpositive hlead
    have hpos := hpositive hphase
    rw [hns, hactor, hdepth] at hlead
    rw [hphase]
    exact ⟨hpos, _, h.current, hlead⟩
  · next principalId next hphase =>
    cases hread
    refine recent_setPhase h hget h.parents ?_ (by simp) ?_
    · intro principalId' parents next' hns heq
      cases heq
      rw [hns]
      exact ⟨_, h.current, rfl⟩
    · intro outcome hns _ _ _ hlead
      rw [hphase]
      rw [hns] at hlead
      exact .ask ⟨_, h.current, rfl⟩ hlead
  · cases hread

theorem recent_resume {id' : Nat} {cache : AuthResolverCache} (hget : s.calls.get id' = some call)
    (hresume : resumePhase s.cache call = some (cache, phase)) :
    Recent rt tables id ns actorId maxDepth { s.setPhase id' call phase with cache := cache } := by
  have hnotAnswered : ∀ rest : Resolution (List String), ∀ principalId parents next, call.ns = ns →
      Phase.walking rest = .answered principalId parents next →
      Among rt tables principalId parents := by
    simp
  rw [resumePhase] at hresume
  split at hresume
  · next principalId next hphase =>
    split at hresume
    · next parents hparents =>
      cases hresume
      refine recent_setPhase h hget h.parents (hnotAnswered _) (by simp) ?_
      intro outcome hns _ _ _ hlead
      rw [hns] at hparents
      rw [hphase]
      exact .ask (h.parents principalId parents hparents) hlead
    · cases hresume
      refine recent_setPhase h hget h.parents (by simp) (by simp) ?_
      intro outcome _ _ _ _ hlead
      rwa [hphase]
  · next principals hphase =>
    cases hresume
    refine recent_setPhase h hget ?_ (by simp) (by simp) ?_
    · intro principalId parents hparents
      rw [getHierarchyParents_setResolvedPrincipals] at hparents
      exact h.parents principalId parents hparents
    · intro outcome _ _ _ _ hlead
      have heq : outcome = .ok principals := hlead
      rw [hphase, heq]
      exact .done _
  · next e hphase =>
    cases hresume
    refine recent_setPhase h hget h.parents (by simp) (by simp) ?_
    intro outcome _ _ _ _ hlead
    have heq : outcome = .error e := hlead
    rw [hphase, heq]
    exact .done _
  · next principalId parents next hphase =>
    cases hresume
    refine recent_setPhase h hget ?_ (hnotAnswered _) (by simp) ?_
    · intro principalId' parents' hparents
      rw [getHierarchyParents_setHierarchyParents] at hparents
      split_ifs at hparents with hsame
      · cases hparents
        rw [hsame.2]
        exact h.answered id' call principalId parents next hget hsame.1.symm hphase
      · exact h.parents principalId' parents' hparents
    · intro outcome _ _ _ _ hlead
      rwa [hphase]
  · cases hresume

theorem recent_step {action : Action} (hstep : step rt s action = some s')
    (hcurrent : s'.tablesOf ns ∈ tables) : Recent rt tables id ns actorId maxDepth s' := by
  cases action with
  | commit ns' change =>
    cases hstep
    exact { h with current := hcurrent }
  | invalidate ns' kind =>
    cases hstep
    refine ⟨hcurrent, fun principalId parents hget => ?_, h.answered, h.call⟩
    exact h.parents principalId parents (getHierarchyParents_applyInvalidation hget).1
  | start id' ns' actorId' maxDepth' =>
    rw [step] at hstep
    split at hstep
    · cases hstep
    next hnone =>
    cases hstep
    have hcalls : ∀ k, (s.setPhase id' ⟨ns', actorId', maxDepth', .memberships⟩
        (startPhase s.cache ns' actorId' maxDepth')).calls.get k =
        if k = id' then some ⟨ns', actorId', maxDepth', startPhase s.cache ns' actorId' maxDepth'⟩
        else s.calls.get k := fun k => OMap.get_set _ _ _ _
    refine ⟨hcurrent, h.parents, fun k call principalId parents next hget hns hphase => ?_, ?_⟩
    · rw [hcalls] at hget
      split_ifs at hget
      · cases hget
        exact absurd hphase startPhase_ne_answered
      · exact h.answered k call principalId parents next hget hns hphase
    · obtain ⟨phase, hold, hrest⟩ := h.call
      have hne : id ≠ id' := by
        intro heq
        rw [heq, hnone] at hold
        cases hold
      exact ⟨phase, (hcalls id).trans ((if_neg hne).trans hold), hrest⟩
  | read id' =>
    obtain ⟨call, hget, hrest⟩ := bind_eq_some_iff.mp hstep
    obtain ⟨phase, hread, heq⟩ := bind_eq_some_iff.mp hrest
    cases heq
    exact recent_read h hget hread
  | resume id' =>
    obtain ⟨call, hget, hrest⟩ := bind_eq_some_iff.mp hstep
    obtain ⟨⟨cache, phase⟩, hresume, heq⟩ := bind_eq_some_iff.mp hrest
    cases heq
    exact recent_resume h hget hresume

theorem recent_run {actions : List Action} (hvisited : ∀ t ∈ visited rt ns s actions, t ∈ tables)
    (hrun : run (step rt) s actions = some s') : Recent rt tables id ns actorId maxDepth s' := by
  induction actions generalizing s with
  | nil =>
    cases hrun
    exact h
  | cons action rest ih =>
    obtain ⟨m, hm, hrest⟩ := run_cons (step rt) hrun
    rw [visited, hm] at hvisited
    have hlater : ∀ t ∈ visited rt ns m rest, t ∈ tables :=
      fun t ht => hvisited t (mem_cons_of_mem _ ht)
    have hnow : m.tablesOf ns ∈ visited rt ns m rest := by
      cases rest with
      | nil | cons => exact mem_cons_self
    exact ih (recent_step h hm (hlater _ hnow)) hlater hrest

end

/-! ## Transparency -/

/-- After a careful run nothing cached is out of date, and a call that starts when the changes
that concern its actor have been invalidated comes to what an uncached resolution finds: each
read on the tables of some moment of the call, on the current ones if they stay as they are. -/
theorem resolution_transparent {start : OMap String PrincipalTables} {before rest : List Action}
    (hcareful : Guarded (step rt) Careful (begin start) before)
    (hbefore : run (step rt) (begin start) before = some s) (hsettled : Settled s ns actorId)
    (hrest : run (step rt) s (.start id ns actorId maxDepth :: rest) = some s') :
    NeverStale rt s ∧
    ∀ outcome, s'.outcomeOf id = some outcome →
      ResolvesOn rt (visited rt ns s (.start id ns actorId maxDepth :: rest)) actorId maxDepth
        outcome ∧
      ((∀ t ∈ visited rt ns s (.start id ns actorId maxDepth :: rest), t = s.tablesOf ns) →
        outcome = resolveUncached rt (s.tablesOf ns) actorId maxDepth) := by
  have hfresh : Fresh rt s := guarded_run_invariant (step rt)
    (fun _ _ _ h hguard hstep => fresh_step h hguard hstep) (fresh_begin start) hcareful hbefore
  refine ⟨neverStale_of_fresh hfresh, fun outcome houtcome => ?_⟩
  obtain ⟨m, hm, hlater⟩ := run_cons (step rt) hrest
  have hcurrent : s.tablesOf ns ∈ visited rt ns s (.start id ns actorId maxDepth :: rest) := by
    exact mem_cons_self
  have hvisited : ∀ t ∈ visited rt ns m rest,
      t ∈ visited rt ns s (.start id ns actorId maxDepth :: rest) := by
    intro t ht
    rw [visited, hm]
    exact mem_cons_of_mem _ ht
  obtain ⟨phase, hget, -, hresolves⟩ :=
    (recent_run (recent_start hfresh hsettled hcurrent hm) hvisited hlater).call
  have hphase : phase = .finished outcome := by
    rw [System.outcomeOf, hget, bind_some] at houtcome
    cases phase with
    | finished outcome' => exact congrArg Phase.finished (some.inj houtcome)
    | _ => cases houtcome
  have hon := hresolves outcome (by rw [hphase]; rfl)
  exact ⟨hon, fun honly => eq_resolveUncached honly hon⟩

end

/-! ## A handler -/

def member (actorId principalId : String) : MembershipRow := ⟨actorId, some (.str principalId), none⟩

def edge (principalId parent : String) : HierarchyRow := ⟨principalId, some (.str parent), none⟩

def acme : OMap String PrincipalTables :=
  OMap.empty.set "acme" ⟨[member "bob" "team:a"], [edge "team:a" "org:acme"]⟩

/-- Bob is resolved, his memberships and the hierarchy change, and another call of his waits for
its first read while the changes are invalidated. -/
def samplePrelude : List Action :=
  [.start 0 "acme" "bob" 8, .read 0, .resume 0, .read 0, .resume 0, .resume 0, .read 0, .resume 0,
    .resume 0, .start 1 "acme" "bob" 4, .commit "acme" (.membershipsOf "bob" [member "bob" "team:b"]),
    .invalidate "acme" (.membership (some "bob")),
    .commit "acme" (.hierarchy [edge "team:b" "org:acme"]), .invalidate "acme" .hierarchy]

/-- The two calls take turns. -/
def sampleRest : List Action :=
  [.start 2 "acme" "bob" 8, .read 2, .read 1, .resume 2, .read 2, .resume 1, .resume 2, .read 1,
    .resume 2, .read 2, .resume 2, .resume 2]

def sampleStart : System :=
  (run (step .codePoints) (begin acme) samplePrelude).get (by decide)

def sampleEnd : System := (run (step .codePoints) sampleStart sampleRest).get (by decide)

theorem sampleRun_transparent :
    NeverStale .codePoints sampleStart ∧ ∀ outcome, sampleEnd.outcomeOf 2 = some outcome →
      ResolvesOn .codePoints (visited .codePoints "acme" sampleStart sampleRest) "bob" 8 outcome ∧
      ((∀ t ∈ visited .codePoints "acme" sampleStart sampleRest, t = sampleStart.tablesOf "acme") →
        outcome = resolveUncached .codePoints (sampleStart.tablesOf "acme") "bob" 8) :=
  resolution_transparent (by decide) (some_get (by decide)).symm (by decide)
    (some_get (by decide)).symm

/-- Bob leaves his team between the reads of a call and the end of it. -/
def leavingActions : List Action :=
  [.start 0 "acme" "bob" 8, .read 0, .commit "acme" (.membershipsOf "bob" []),
    .invalidate "acme" (.membership (some "bob")), .resume 0, .read 0, .resume 0, .resume 0, .read 0,
    .resume 0, .resume 0]

def afterLeaving : System := (run (step .codePoints) (begin acme) leavingActions).get (by decide)

def afterNextCall : System :=
  (run (step .codePoints) afterLeaving [.start 1 "acme" "bob" 8]).get (by decide)

/-- The next call still finds him in the team. -/
theorem leavingActions_differ :
    ¬ ∀ (start : OMap String PrincipalTables) (before rest : List Action) (s s' : System)
      (id : Nat) (ns actorId : String) (maxDepth : Nat),
      run (step .codePoints) (begin start) before = some s → Settled s ns actorId →
      run (step .codePoints) s (.start id ns actorId maxDepth :: rest) = some s' →
      ∀ outcome, s'.outcomeOf id = some outcome →
        (∀ t ∈ visited .codePoints ns s (.start id ns actorId maxDepth :: rest),
          t = s.tablesOf ns) →
        outcome = resolveUncached .codePoints (s.tablesOf ns) actorId maxDepth := by
  intro h
  have hstale := h acme leavingActions [] afterLeaving afterNextCall 1 "acme" "bob" 8
    (some_get (by decide)).symm (by decide) (some_get (by decide)).symm
    (.ok ["team:a", "org:acme", "user:bob"]) (by decide) (by decide)
  exact absurd hstale (by decide)

end SuperFunctions.Datafn.Server.AuthCache
