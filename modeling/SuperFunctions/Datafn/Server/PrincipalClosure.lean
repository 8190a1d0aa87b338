import SuperFunctions.Datafn.Server.Principals
import SuperFunctions.Lib.MarkedWalk
import SuperFunctions.Lib.StableSort

/-!
# Effective principals as a closure

The walk over the principal hierarchy, with any maximal depth, any order of the memberships and
of the parents, and any part of the hierarchy cached. It finds what the memberships lead to. It
fails at every cycle; a path that is too long makes it fail only when the walk runs along it.
-/
namespace SuperFunctions.Datafn.Server.PrincipalClosure

open Relation Lib.MarkedWalk Datafn.Core Principals List Option

/-! ## The walk -/

/-- The resolution from the sorted memberships and the parents of each principal. -/
def resolveFrom (maxDepth : Nat) (parents : String → List String) (direct : List String)
    (actorId : String) : Option (List String) :=
  (direct.foldlM (walk parents maxDepth []) ⟨direct, []⟩).map fun w =>
    addPrincipal w.effective (canonicalizeActorPrincipal actorId)

/-- `resolveEffectivePrincipals` with its `maxDepth`; what is cached is cached for this depth. -/
def resolveEffectivePrincipals (rt : Runtime) (maxDepth : Nat) (cache : ResolverCache)
    (t : PrincipalTables) (actorId : String) : Option (List String) :=
  if maxDepth < 1 then none
  else
    match cache.resolved actorId with
    | some principals => some principals
    | none =>
      resolveFrom maxDepth (loadParents rt cache t)
        (uniqueSorted rt (getDirectMemberships t actorId)) actorId

variable {p d : String}

section Walk

variable {parents : String → List String} {direct : List String}

/-- A principal that the memberships lead to. -/
def Reached (parents : String → List String) (direct : List String) (principalId : String) :
    Prop :=
  ∃ d ∈ direct, ReflTransGen (Edge parents) d principalId

/-- What has been found is reached, and the parents of what has been expanded are found. -/
structure Sound (parents : String → List String) (direct : List String) (w : Walk) : Prop where
  finished : Finished parents w.expanded
  reached : ∀ p ∈ w.effective, Reached parents direct p
  complete : ∀ p ∈ w.expanded, ∀ q ∈ parents p, q ∈ w.effective
  members : direct ⊆ w.effective
  nodup : w.effective.Nodup

/-- What walking some principals adds. With `levels` left no principal with parents is met for
the first time on the last of them. -/
structure Advances (parents : String → List String) (direct : List String) (levels : Nat)
    (cs : List String) (w w' : Walk) : Prop where
  sound : Sound parents direct w'
  effective : w.effective ⊆ w'.effective
  expanded : w.expanded ⊆ w'.expanded
  covers : ∀ c ∈ cs, c ∈ w'.expanded ∧ c ∈ w'.effective
  fresh : ∀ x ∈ w'.expanded, x ∈ w.expanded ∨ ∃ c ∈ cs, ReflTransGen (Edge parents) c x
  shallow : ∀ v k, v ∉ w.expanded → FirstAt parents cs v k → parents v ≠ [] → k + 1 < levels

/-- A principal with parents that is met for the first time on the last level. -/
def TooDeep (parents : String → List String) (levels : Nat) (cs : List String) (w : Walk) :
    Prop :=
  ∃ v k, v ∉ w.expanded ∧ FirstAt parents cs v k ∧ parents v ≠ [] ∧ levels ≤ k + 1

variable {effective : List String}

theorem nodup_addPrincipal (h : effective.Nodup) (p : String) :
    (addPrincipal effective p).Nodup := by
  unfold addPrincipal
  split
  · exact h
  case isFalse hnot =>
    rw [nodup_append]
    refine ⟨h, nodup_singleton p, fun a ha b hb heq => ?_⟩
    rw [heq, mem_singleton.mp hb] at ha
    exact hnot ha

theorem mem_addPrincipal {q : String} : q ∈ addPrincipal effective p ↔ q ∈ effective ∨ q = p := by
  unfold addPrincipal
  split
  case isTrue hmem =>
    constructor
    · exact Or.inl
    · intro h
      rcases h with h | rfl
      · exact h
      · exact hmem
  · rw [mem_append, mem_singleton]

variable {levels : Nat} {f : Walk → String → Option Walk} {cs : List String}

theorem advances_loop (hcs : ∀ c ∈ cs, Reached parents direct c)
    (hstep : ∀ c ∈ cs, ∀ w w', Sound parents direct w → f w c = some w' →
      Advances parents direct levels [c] w w') :
    ∀ {w w'}, Sound parents direct w → cs.foldlM f w = some w' →
      Advances parents direct levels cs w w' := by
  induction cs with
  | nil =>
    intro w w' hw h
    cases h
    refine ⟨hw, fun _ => id, fun _ => id, ?_, fun _ h => Or.inl h, ?_⟩
    · exact fun c hc => absurd hc not_mem_nil
    · exact nofun
  | cons c rest ih =>
    intro w w' hw h
    obtain ⟨mid, hmid, hrest⟩ := bind_eq_some_iff.mp h
    have hone := hstep c mem_cons_self w mid hw hmid
    have hmore := ih (fun d hd => hcs d (mem_cons_of_mem _ hd))
      (fun d hd => hstep d (mem_cons_of_mem _ hd)) hone.sound hrest
    refine ⟨hmore.sound, fun _ hx => hmore.effective (hone.effective hx),
      fun _ hx => hmore.expanded (hone.expanded hx), ?_, ?_, ?_⟩
    · intro d hd
      rcases mem_cons.mp hd with rfl | hd
      · obtain ⟨hexpanded, heffective⟩ := hone.covers _ mem_cons_self
        exact ⟨hmore.expanded hexpanded, hmore.effective heffective⟩
      · exact hmore.covers d hd
    · intro x hx
      rcases hmore.fresh x hx with hmid' | ⟨d, hd, hreach⟩
      · rcases hone.fresh x hmid' with hold | ⟨d, hd, hreach⟩
        · exact Or.inl hold
        · rw [mem_singleton.mp hd] at hreach
          exact Or.inr ⟨c, mem_cons_self, hreach⟩
      · exact Or.inr ⟨d, mem_cons_of_mem _ hd, hreach⟩
    · intro v k hv hfirst hparents
      rcases hfirst.cases_cons with hhere | ⟨hnot, hlater⟩
      · exact hone.shallow v k hv hhere hparents
      refine hmore.shallow v k (fun hmem => ?_) hlater hparents
      rcases hone.fresh v hmem with hold | ⟨d, hd, hreach⟩
      · exact hv hold
      · rw [mem_singleton.mp hd] at hreach
        exact hnot hreach

theorem tooDeep_loop (hstep : ∀ c ∈ cs, ∀ w w', Sound parents direct w → f w c = some w' →
      Advances parents direct levels [c] w w')
    (hfail : ∀ c ∈ cs, ∀ w, Sound parents direct w → f w c = none → TooDeep parents levels [c] w) :
    ∀ {w}, Sound parents direct w → cs.foldlM f w = none → TooDeep parents levels cs w := by
  induction cs with
  | nil =>
    exact nofun
  | cons c rest ih =>
    intro w hw h
    rw [foldlM_cons] at h
    cases hone : f w c with
    | none =>
      obtain ⟨v, k, hv, hfirst, hdeep⟩ := hfail c mem_cons_self w hw hone
      exact ⟨v, k, hv, hfirst.cons rest, hdeep⟩
    | some mid =>
      rw [hone] at h
      have hadvance := hstep c mem_cons_self w mid hw hone
      obtain ⟨v, k, hv, hfirst, hdeep⟩ := ih (fun d hd => hstep d (mem_cons_of_mem _ hd))
        (fun d hd => hfail d (mem_cons_of_mem _ hd)) hadvance.sound h
      refine ⟨v, k, fun hold => hv (hadvance.expanded hold), .later (fun hreach => ?_) hfirst,
        hdeep⟩
      exact hv (hadvance.sound.finished.closed (hadvance.covers c mem_cons_self).1 hreach)

theorem sound_addPrincipal {w : Walk} (hw : Sound parents direct w) {q : String}
    (hq : Reached parents direct q) :
    Sound parents direct { w with effective := addPrincipal w.effective q } := { hw with
  reached p hp := by
    rcases mem_addPrincipal.mp hp with hold | rfl
    · exact hw.reached p hold
    · exact hq
  complete p hp q' hq' := mem_addPrincipal.mpr (Or.inl (hw.complete p hp q' hq'))
  members d hd := mem_addPrincipal.mpr (Or.inl (hw.members hd))
  nodup := nodup_addPrincipal hw.nodup q }

theorem advances_expanded {w : Walk} (hw : Sound parents direct w) (hp : p ∈ w.expanded)
    (heffective : p ∈ w.effective) : Advances parents direct levels [p] w w := by
  refine ⟨hw, fun _ => id, fun _ => id, ?_, fun _ h => Or.inl h, ?_⟩
  · intro c hc
    rw [mem_singleton.mp hc]
    exact ⟨hp, heffective⟩
  · intro v k hv hfirst
    obtain ⟨c, hc, hsteps⟩ := hfirst.steps
    rw [mem_singleton.mp hc] at hsteps
    exact absurd (hw.finished.closed hp hsteps.reaches) hv

theorem advances_node {w w' : Walk} (heffective : p ∈ w.effective)
    (hlevels : parents p ≠ [] → levels ≠ 0) (h : Advances parents direct levels (parents p) w w') :
    Advances parents direct (levels + 1) [p] w { w' with expanded := p :: w'.expanded } := by
  refine ⟨{ h.sound with finished := ?_, complete := ?_ }, h.effective, ?_, ?_, ?_, ?_⟩
  · exact .cons (fun q hq => (h.covers q hq).1) h.sound.finished
  · intro q hq r hr
    rcases mem_cons.mp hq with rfl | hq
    · exact (h.covers r hr).2
    · exact h.sound.complete q hq r hr
  · exact fun x hx => mem_cons_of_mem _ (h.expanded hx)
  · intro c hc
    rw [mem_singleton.mp hc]
    exact ⟨mem_cons_self, h.effective heffective⟩
  · intro x hx
    rcases mem_cons.mp hx with rfl | hx
    · exact Or.inr ⟨x, mem_singleton_self x, ReflTransGen.refl⟩
    · rcases h.fresh x hx with hold | ⟨q, hq, hreach⟩
      · exact Or.inl hold
      · exact Or.inr ⟨p, mem_singleton_self p, ReflTransGen.head hq hreach⟩
  · intro v k hv hfirst hparents
    cases hfirst with
    | here =>
      have hpositive := hlevels hparents
      omega
    | within _ hlater =>
      have hshallow := h.shallow v _ hv hlater hparents
      omega
    | later _ hnone => cases hnone

/-- One parent in the loop of a principal. -/
def walkParent (parents : String → List String) (levels : Nat) (expanding : List String)
    (w : Walk) (parent : String) : Option Walk :=
  if parent ∈ expanding then none
  else
    walk parents levels expanding { w with effective := addPrincipal w.effective parent } parent

theorem walk_succ (levels : Nat) (expanding : List String) (w : Walk) (p : String) :
    walk parents (levels + 1) expanding w p =
      if p ∈ w.expanded then some w
      else if p ∈ expanding then none
      else ((parents p).foldlM (walkParent parents levels (p :: expanding)) w).map
        fun w => { w with expanded := p :: w.expanded } := rfl

theorem reached_parent {q : String} (hp : Reached parents direct p) (hq : q ∈ parents p) :
    Reached parents direct q := by
  obtain ⟨d, hd, hreach⟩ := hp
  exact ⟨d, hd, hreach.tail hq⟩

theorem walkParent_advances {expanding : List String}
    (hwalk : ∀ (w w' : Walk) (p : String), Reached parents direct p → Sound parents direct w →
      p ∈ w.effective → walk parents levels expanding w p = some w' →
        Advances parents direct levels [p] w w') {q : String} (hq : Reached parents direct q)
    (w w' : Walk) (hw : Sound parents direct w)
    (h : walkParent parents levels expanding w q = some w') :
    Advances parents direct levels [q] w w' := by
  unfold walkParent at h
  split at h
  · cases h
  · have hadvance := hwalk _ w' q hq (sound_addPrincipal hw hq)
      (mem_addPrincipal.mpr (Or.inr rfl)) h
    exact { hadvance with
        effective := fun x hx => hadvance.effective (mem_addPrincipal.mpr (Or.inl hx)) }

theorem walk_advances (levels : Nat) :
    ∀ (expanding : List String) (w w' : Walk) (p : String), Reached parents direct p →
      Sound parents direct w → p ∈ w.effective → walk parents levels expanding w p = some w' →
        Advances parents direct levels [p] w w' := by
  induction levels with
  | zero =>
    exact nofun
  | succ levels ih =>
    intro expanding w w' p hp hw heffective h
    rw [walk_succ] at h
    split at h
    case isTrue hexpanded =>
      cases h
      exact advances_expanded hw hexpanded heffective
    split at h
    · cases h
    obtain ⟨done, hdone, rfl⟩ := map_eq_some_iff.mp h
    refine advances_node heffective ?_ (advances_loop (fun q hq => reached_parent hp hq)
      (fun q hq => walkParent_advances (ih (p :: expanding)) (reached_parent hp hq)) hw hdone)
    -- on the last level the first parent fails
    intro hparents hlevels
    obtain ⟨q, rest, hcons⟩ := exists_cons_of_ne_nil hparents
    rw [hcons, hlevels, foldlM_cons] at hdone
    obtain ⟨mid, hmid, -⟩ := bind_eq_some_iff.mp hdone
    unfold walkParent at hmid
    split at hmid
    · cases hmid
    · cases hmid

/-- Without a cycle the walk fails only for a principal that is too deep. -/
theorem walk_tooDeep (hacyclic : ∀ p, Reached parents direct p → ¬ TransGen (Edge parents) p p)
    (levels : Nat) :
    ∀ (expanding : List String) (w : Walk) (p : String), Reached parents direct p →
      Sound parents direct w → p ∈ w.effective → (∀ e ∈ expanding, TransGen (Edge parents) e p) →
      levels ≠ 0 → walk parents levels expanding w p = none → TooDeep parents levels [p] w := by
  induction levels with
  | zero =>
    intro expanding w p _ _ _ _ hlevels
    exact absurd rfl hlevels
  | succ levels ih =>
    intro expanding w p hp hw heffective hexpanding _ h
    rw [walk_succ] at h
    split at h
    · cases h
    case isFalse hnew =>
    split at h
    case isTrue hmem => exact absurd (hexpanding p hmem) (hacyclic p hp)
    rw [map_eq_none_iff] at h
    have hparents : parents p ≠ [] := by
      intro hnil
      rw [hnil] at h
      cases h
    cases levels with
    | zero => exact ⟨p, 0, hnew, .here p [], hparents, le_rfl⟩
    | succ levels =>
      have hancestors : ∀ q ∈ parents p, ∀ e ∈ p :: expanding, TransGen (Edge parents) e q := by
        intro q hq e he
        rcases mem_cons.mp he with rfl | he
        · exact TransGen.single hq
        · exact (hexpanding e he).tail hq
      have hfail : ∀ q ∈ parents p, ∀ w, Sound parents direct w →
          walkParent parents (levels + 1) (p :: expanding) w q = none →
            TooDeep parents (levels + 1) [q] w := by
        intro q hq w hw hnone
        unfold walkParent at hnone
        split at hnone
        case isTrue hmem =>
          exact absurd (hancestors q hq q hmem) (hacyclic q (reached_parent hp hq))
        · exact ih (p :: expanding) { w with effective := addPrincipal w.effective q } q
            (reached_parent hp hq) (sound_addPrincipal hw (reached_parent hp hq))
            (mem_addPrincipal.mpr (Or.inr rfl)) (hancestors q hq) (Nat.succ_ne_zero _) hnone
      obtain ⟨v, k, hv, hfirst, hdeep, hle⟩ := tooDeep_loop
        (fun q hq => walkParent_advances (walk_advances (levels + 1) (p :: expanding))
          (reached_parent hp hq)) hfail hw h
      have hne : p ≠ v := by
        intro heq
        obtain ⟨q, hq, hsteps⟩ := hfirst.steps
        rw [← heq] at hsteps
        exact hacyclic p hp (TransGen.head' hq hsteps.reaches)
      exact ⟨v, k + 1, hv, .within hne hfirst, hdeep, by omega⟩

/-! ## What a resolution finds -/

/-- The memberships lead into a cycle. -/
def Cyclic (parents : String → List String) (direct : List String) : Prop :=
  ∃ p, Reached parents direct p ∧ TransGen (Edge parents) p p

/-- A path from a membership has more principals than `maxDepth`. -/
def LongPath (parents : String → List String) (direct : List String) (maxDepth : Nat) : Prop :=
  ∃ d ∈ direct, ∃ p k, Steps parents d k p ∧ maxDepth < k + 1

/-- A principal that has parents is met for the first time at `maxDepth` or below it. -/
def FirstMetTooDeep (parents : String → List String) (direct : List String) (maxDepth : Nat) :
    Prop :=
  ∃ p k, FirstAt parents direct p k ∧ parents p ≠ [] ∧ maxDepth ≤ k + 1

variable {maxDepth : Nat}

theorem longPath_of_firstMetTooDeep (h : FirstMetTooDeep parents direct maxDepth) :
    LongPath parents direct maxDepth := by
  obtain ⟨p, k, hfirst, hparents, hle⟩ := h
  obtain ⟨d, hd, hsteps⟩ := hfirst.steps
  obtain ⟨q, rest, hcons⟩ := exists_cons_of_ne_nil hparents
  have hq : q ∈ parents p := by
    rw [hcons]
    exact mem_cons_self
  exact ⟨d, hd, q, k + 1, hsteps.append_edge hq, by omega⟩

theorem sound_start (hdirect : direct.Nodup) : Sound parents direct ⟨direct, []⟩ where
  finished := .nil
  reached p hp := ⟨p, hp, ReflTransGen.refl⟩
  complete _ hp := absurd hp not_mem_nil
  members _ hd := hd
  nodup := hdirect

theorem walk_direct (levels : Nat) (hd : d ∈ direct) (w w' : Walk) (hw : Sound parents direct w)
    (h : walk parents levels [] w d = some w') : Advances parents direct levels [d] w w' :=
  walk_advances levels [] w w' d ⟨d, hd, ReflTransGen.refl⟩ hw (hw.members hd) h

theorem resolveFrom_some {actorId : String} (hdirect : direct.Nodup) {principals : List String}
    (h : resolveFrom maxDepth parents direct actorId = some principals) :
    ¬ Cyclic parents direct ∧ ¬ FirstMetTooDeep parents direct maxDepth ∧ principals.Nodup ∧
      ∀ p, p ∈ principals ↔ Reached parents direct p ∨ p = canonicalizeActorPrincipal actorId := by
  obtain ⟨w, hw, rfl⟩ := map_eq_some_iff.mp h
  have hadvance := advances_loop (fun d hd => ⟨d, hd, ReflTransGen.refl⟩)
    (fun d hd => walk_direct maxDepth hd) (sound_start hdirect) hw
  have hexpanded : ∀ p, Reached parents direct p → p ∈ w.expanded := by
    intro p ⟨d, hd, hreach⟩
    exact hadvance.sound.finished.closed (hadvance.covers d hd).1 hreach
  refine ⟨?_, ?_, nodup_addPrincipal hadvance.sound.nodup _, fun p => ?_⟩
  · intro ⟨p, hp, hcycle⟩
    exact hadvance.sound.finished.acyclic (hexpanded p hp) hcycle
  · intro ⟨p, k, hfirst, hparents, hle⟩
    have hshallow := hadvance.shallow p k not_mem_nil hfirst hparents
    omega
  · rw [mem_addPrincipal]
    refine or_congr_left ⟨hadvance.sound.reached p, fun hp => ?_⟩
    obtain ⟨d, hd, hreach⟩ := hp
    rcases ReflTransGen.cases_tail hreach with heq | ⟨q, hq, hedge⟩
    · rw [heq]
      exact hadvance.sound.members hd
    · exact hadvance.sound.complete q (hexpanded q ⟨d, hd, hq⟩) p hedge

theorem resolveFrom_none {actorId : String} (hdirect : direct.Nodup) (hdepth : 1 ≤ maxDepth)
    (h : resolveFrom maxDepth parents direct actorId = none) :
    Cyclic parents direct ∨ FirstMetTooDeep parents direct maxDepth := by
  by_cases hcyclic : Cyclic parents direct
  · exact Or.inl hcyclic
  right
  have hacyclic : ∀ p, Reached parents direct p → ¬ TransGen (Edge parents) p p :=
    fun p hp hcycle => hcyclic ⟨p, hp, hcycle⟩
  have hnone := map_eq_none_iff.mp h
  have hwalk : ∀ d ∈ direct, ∀ w w', Sound parents direct w →
      walk parents maxDepth [] w d = some w' → Advances parents direct maxDepth [d] w w' :=
    fun d hd => walk_direct maxDepth hd
  obtain ⟨p, k, -, hfirst, hdeep⟩ := tooDeep_loop hwalk
    (fun d hd w hw => walk_tooDeep hacyclic maxDepth [] w d ⟨d, hd, ReflTransGen.refl⟩ hw
      (hw.members hd) (fun e he => absurd he not_mem_nil) (by omega))
    (sound_start hdirect) hnone
  exact ⟨p, k, hfirst, hdeep⟩

end Walk

/-! ## The claim on the tables -/

/-- Rows of the same memberships and the same edges, in any order. -/
structure SameHierarchy (rt : Runtime) (actorId : String) (t t' : PrincipalTables) : Prop where
  members : ∀ p, p ∈ getDirectMemberships t' actorId ↔ p ∈ getDirectMemberships t actorId
  parents : ∀ p q, q ∈ loadParents rt emptyCache t' p ↔ q ∈ loadParents rt emptyCache t p

/-- Lists of the parents of each principal, in any order. -/
def SameParents (rt : Runtime) (t : PrincipalTables) (parents : String → List String) : Prop :=
  ∀ p q, q ∈ parents p ↔ q ∈ loadParents rt emptyCache t p

/-- What the cache holds was found on the same memberships and edges. -/
structure Consistent (rt : Runtime) (maxDepth : Nat) (actorId : String) (t : PrincipalTables)
    (cache : ResolverCache) : Prop where
  parents : ∀ p ps, cache.parents p = some ps → ∀ q, q ∈ ps ↔ q ∈ loadParents rt emptyCache t p
  resolved : ∀ principals, cache.resolved actorId = some principals → ∃ t' parents,
    SameHierarchy rt actorId t t' ∧ SameParents rt t parents ∧
      resolveFrom maxDepth parents (uniqueSorted rt (getDirectMemberships t' actorId)) actorId =
        some principals

/-- The closure without duplicates, or a failure for a cycle or a path that is too long. -/
def Correct (parents : String → List String) (direct : List String) (maxDepth : Nat)
    (actorId : String) (outcome : Option (List String)) : Prop :=
  (∀ principals, outcome = some principals → principals.Nodup ∧
    ∀ p, p ∈ principals ↔ Reached parents direct p ∨ p = canonicalizeActorPrincipal actorId) ∧
  (outcome = none ↔ Cyclic parents direct ∨ LongPath parents direct maxDepth)

/-- The outcome is correct in every order of the rows and with everything that may be cached. -/
def AlwaysCorrect (rt : Runtime) (maxDepth : Nat) (t : PrincipalTables) (actorId : String) :
    Prop :=
  ∀ t' cache, SameHierarchy rt actorId t t' → Consistent rt maxDepth actorId t cache →
    Correct (loadParents rt emptyCache t) (getDirectMemberships t actorId) maxDepth actorId
      (resolveEffectivePrincipals rt maxDepth cache t' actorId)

section Congr

variable {parents parents' : String → List String} {direct direct' : List String}
  (hparents : ∀ p q, q ∈ parents' p ↔ q ∈ parents p) (hdirect : ∀ p, p ∈ direct' ↔ p ∈ direct)

include hparents

theorem edge_congr : Edge parents' = Edge parents :=
  funext fun p => funext fun q => propext (hparents p q)

theorem steps_congr {k : Nat} (h : Steps parents' d k p) : Steps parents d k p := by
  induction h with
  | none a => exact .none a
  | step hb _ ih => exact .step ((hparents _ _).mp hb) ih

include hdirect

theorem reached_congr (p : String) : Reached parents' direct' p ↔ Reached parents direct p := by
  unfold Reached
  rw [edge_congr hparents]
  simp only [hdirect]

theorem cyclic_congr : Cyclic parents' direct' ↔ Cyclic parents direct := by
  unfold Cyclic
  rw [edge_congr hparents]
  simp only [reached_congr hparents hdirect]

theorem longPath_congr (maxDepth : Nat) :
    LongPath parents' direct' maxDepth ↔ LongPath parents direct maxDepth := by
  constructor
  · intro ⟨d, hd, p, k, hsteps, hlong⟩
    exact ⟨d, (hdirect d).mp hd, p, k, steps_congr hparents hsteps, hlong⟩
  · intro ⟨d, hd, p, k, hsteps, hlong⟩
    exact ⟨d, (hdirect d).mpr hd, p, k, steps_congr (fun p q => (hparents p q).symm) hsteps, hlong⟩

end Congr

theorem nodup_uniqueSorted (rt : Runtime) (values : List String) : (uniqueSorted rt values).Nodup :=
  ((perm_insertionSort _ _).nodup_iff).mpr (SuperFunctions.Lib.StableSort.nodup_eraseDups values)

theorem mem_uniqueSorted_direct {rt : Runtime} {values : List String} :
    p ∈ uniqueSorted rt values ↔ p ∈ values := by
  unfold uniqueSorted
  rw [mem_insertionSort, mem_eraseDups]

section Tables

variable {rt : Runtime} {maxDepth : Nat} {t t' : PrincipalTables} {actorId : String}
  {parents : String → List String}

/-- In one order, the resolution is correct when it detects every path that is too long. -/
theorem correct_resolveFrom (hdepth : 1 ≤ maxDepth) (hsame : SameHierarchy rt actorId t t')
    (hparents : SameParents rt t parents)
    (hlong : Cyclic (loadParents rt emptyCache t) (getDirectMemberships t actorId) ∨
      ¬ LongPath (loadParents rt emptyCache t) (getDirectMemberships t actorId) maxDepth ∨
      FirstMetTooDeep parents (uniqueSorted rt (getDirectMemberships t' actorId)) maxDepth) :
    Correct (loadParents rt emptyCache t) (getDirectMemberships t actorId) maxDepth actorId
      (resolveFrom maxDepth parents (uniqueSorted rt (getDirectMemberships t' actorId))
        actorId) := by
  have hdirect : ∀ p, p ∈ uniqueSorted rt (getDirectMemberships t' actorId) ↔
      p ∈ getDirectMemberships t actorId := fun p =>
    mem_uniqueSorted_direct.trans (hsame.members p)
  have hnodup := nodup_uniqueSorted rt (getDirectMemberships t' actorId)
  have hcyclic := cyclic_congr hparents hdirect
  constructor
  · intro principals h
    obtain ⟨-, -, hunique, hmem⟩ := resolveFrom_some hnodup h
    refine ⟨hunique, fun p => ?_⟩
    rw [hmem, reached_congr hparents hdirect]
  · constructor
    · intro h
      rcases resolveFrom_none hnodup hdepth h with hcycle | hdeep
      · exact Or.inl (hcyclic.mp hcycle)
      · exact Or.inr ((longPath_congr hparents hdirect maxDepth).mp
          (longPath_of_firstMetTooDeep hdeep))
    · intro h
      cases houtcome : resolveFrom maxDepth parents
        (uniqueSorted rt (getDirectMemberships t' actorId)) actorId with
      | none => rfl
      | some principals =>
        obtain ⟨hacyclic, hshallow, -, -⟩ := resolveFrom_some hnodup houtcome
        rw [hcyclic] at hacyclic
        rcases hlong with hcycle | hshort | hdeep
        · exact absurd hcycle hacyclic
        · exact absurd h (not_or.mpr ⟨hacyclic, hshort⟩)
        · exact absurd hdeep hshallow

theorem sameParents_loadParents {cache : ResolverCache} (hsame : SameHierarchy rt actorId t t')
    (hcache : Consistent rt maxDepth actorId t cache) :
    SameParents rt t (loadParents rt cache t') := by
  intro p q
  cases hcached : cache.parents p with
  | some ps =>
    rw [loadParents, hcached]
    exact hcache.parents p ps hcached q
  | none =>
    have hload : loadParents rt cache t' p = loadParents rt emptyCache t' p := by
      rw [loadParents, hcached]
      rfl
    rw [hload]
    exact hsame.parents p q

end Tables

/-- Exactly when there is a cycle, or no path is too long, or every order of the memberships and
of the parents leads the walk to a principal with parents at `maxDepth`, is the outcome correct
in every order and with everything that may be cached. -/
theorem resolution_alwaysCorrect_iff (rt : Runtime) (maxDepth : Nat) (hdepth : 1 ≤ maxDepth)
    (t : PrincipalTables) (actorId : String) :
    AlwaysCorrect rt maxDepth t actorId ↔
      Cyclic (loadParents rt emptyCache t) (getDirectMemberships t actorId) ∨
      ¬ LongPath (loadParents rt emptyCache t) (getDirectMemberships t actorId) maxDepth ∨
      ∀ t' parents, SameHierarchy rt actorId t t' → SameParents rt t parents →
        FirstMetTooDeep parents (uniqueSorted rt (getDirectMemberships t' actorId)) maxDepth := by
  constructor
  · intro h
    by_contra hnot
    rw [not_or, not_or, not_not] at hnot
    obtain ⟨hacyclic, hlong, hdeep⟩ := hnot
    apply hdeep
    intro t' parents hsame hparents
    have hcache : Consistent rt maxDepth actorId t ⟨fun p => some (parents p), fun _ => none⟩ := by
      refine ⟨fun p ps hps q => ?_, fun principals hnone => ?_⟩
      · cases hps
        exact hparents p q
      · cases hnone
    have houtcome := (h t' _ hsame hcache).2.mpr (Or.inr hlong)
    rw [resolveEffectivePrincipals, if_neg (by omega)] at houtcome
    have hdirect : ∀ p, p ∈ uniqueSorted rt (getDirectMemberships t' actorId) ↔
        p ∈ getDirectMemberships t actorId := fun p =>
      mem_uniqueSorted_direct.trans (hsame.members p)
    rcases resolveFrom_none (nodup_uniqueSorted rt _) hdepth houtcome with hcycle | htooDeep
    · exact absurd ((cyclic_congr hparents hdirect).mp hcycle) hacyclic
    · exact htooDeep
  · intro hlong t' cache hsame hcache
    have hone : ∀ t'' parents, SameHierarchy rt actorId t t'' → SameParents rt t parents →
        Correct (loadParents rt emptyCache t) (getDirectMemberships t actorId) maxDepth actorId
          (resolveFrom maxDepth parents (uniqueSorted rt (getDirectMemberships t'' actorId))
            actorId) := by
      intro t'' parents hsame' hparents
      apply correct_resolveFrom hdepth hsame' hparents
      exact hlong.imp_right fun h => h.imp_right fun hdeep => hdeep t'' parents hsame' hparents
    rw [resolveEffectivePrincipals, if_neg (by omega)]
    cases hresolved : cache.resolved actorId with
    | some principals =>
      obtain ⟨t'', parents, hsame', hparents, houtcome⟩ := hcache.resolved principals hresolved
      have hcorrect := hone t'' parents hsame' hparents
      rwa [houtcome] at hcorrect
    | none => exact hone t' _ hsame (sameParents_loadParents hsame hcache)

/-- The closure, without duplicates, where no cycle is reachable; or a refusal, where there is a
cycle or a path that is too long. -/
def ClosureOrRefusal (parents : String → List String) (direct : List String) (maxDepth : Nat)
    (actorId : String) : Option (List String) → Prop
  | some principals => ¬ Cyclic parents direct ∧ principals.Nodup ∧
      ∀ p, p ∈ principals ↔ Reached parents direct p ∨ p = canonicalizeActorPrincipal actorId
  | none => maxDepth < 1 ∨ Cyclic parents direct ∨ LongPath parents direct maxDepth

theorem resolveFrom_closure {rt : Runtime} {maxDepth : Nat} {t t' : PrincipalTables}
    {actorId : String} {parents : String → List String} (hdepth : 1 ≤ maxDepth)
    (hsame : SameHierarchy rt actorId t t') (hparents : SameParents rt t parents) :
    ClosureOrRefusal (loadParents rt emptyCache t) (getDirectMemberships t actorId) maxDepth actorId
      (resolveFrom maxDepth parents (uniqueSorted rt (getDirectMemberships t' actorId)) actorId) := by
  have hdirect : ∀ p, p ∈ uniqueSorted rt (getDirectMemberships t' actorId) ↔
      p ∈ getDirectMemberships t actorId := fun p =>
    mem_uniqueSorted_direct.trans (hsame.members p)
  have hcyclic := cyclic_congr hparents hdirect
  cases h : resolveFrom maxDepth parents
    (uniqueSorted rt (getDirectMemberships t' actorId)) actorId with
  | some principals =>
    obtain ⟨hacyclic, -, hnodup, hmem⟩ := resolveFrom_some (nodup_uniqueSorted rt _) h
    refine ⟨hcyclic.not.mp hacyclic, hnodup, fun p => ?_⟩
    rw [hmem, reached_congr hparents hdirect]
  | none =>
    rcases resolveFrom_none (nodup_uniqueSorted rt _) hdepth h with hcycle | hdeep
    · exact .inr (.inl (hcyclic.mp hcycle))
    · exact .inr (.inr ((longPath_congr hparents hdirect maxDepth).mp
        (longPath_of_firstMetTooDeep hdeep)))

/-- So it is in every order of the rows and with everything that may be cached. -/
theorem resolution_closure (rt : Runtime) (maxDepth : Nat) (t t' : PrincipalTables)
    (cache : ResolverCache) (actorId : String) (hsame : SameHierarchy rt actorId t t')
    (hcache : Consistent rt maxDepth actorId t cache) :
    ClosureOrRefusal (loadParents rt emptyCache t) (getDirectMemberships t actorId) maxDepth actorId
      (resolveEffectivePrincipals rt maxDepth cache t' actorId) := by
  rw [resolveEffectivePrincipals]
  split_ifs with hdepth
  · exact .inl hdepth
  rw [Nat.not_lt] at hdepth
  cases hresolved : cache.resolved actorId with
  | some principals =>
    obtain ⟨t'', parents, hsame', hparents, houtcome⟩ := hcache.resolved principals hresolved
    have hclosure := resolveFrom_closure hdepth hsame' hparents
    rwa [houtcome] at hclosure
  | none => exact resolveFrom_closure hdepth hsame (sameParents_loadParents hsame hcache)

/-! ## Two hierarchies -/

theorem sameHierarchy_refl (rt : Runtime) (actorId : String) (t : PrincipalTables) :
    SameHierarchy rt actorId t t := ⟨fun _ => Iff.rfl, fun _ _ => Iff.rfl⟩

theorem consistent_emptyCache (rt : Runtime) (maxDepth : Nat) (actorId : String)
    (t : PrincipalTables) : Consistent rt maxDepth actorId t emptyCache where
  parents _ _ h := by cases h
  resolved _ h := by cases h

/-- `group:a` with its parent `group:c`. -/
def shallowTables : PrincipalTables where
  memberships := [⟨"u1", some (.str "group:a"), none⟩]
  hierarchy := [⟨"group:a", some (.str "group:c"), none⟩]

theorem resolution_closure_shallowTables :
    ClosureOrRefusal (loadParents Runtime.codePoints emptyCache shallowTables)
      (getDirectMemberships shallowTables "u1") 16 "u1"
      (resolveEffectivePrincipals Runtime.codePoints 16 emptyCache shallowTables "u1") :=
  resolution_closure Runtime.codePoints 16 shallowTables shallowTables emptyCache "u1"
    (sameHierarchy_refl _ _ _) (consistent_emptyCache _ _ _ _)

theorem shallowTables_alwaysCorrect : AlwaysCorrect Runtime.codePoints 16 shallowTables "u1" := by
  refine (resolution_alwaysCorrect_iff Runtime.codePoints 16 (by decide) shallowTables "u1").mpr
    (Or.inr (Or.inl ?_))
  intro ⟨d, hd, p, k, hsteps, hlong⟩
  have hmembers : getDirectMemberships shallowTables "u1" = ["group:a"] := by decide +kernel
  have ha : loadParents Runtime.codePoints emptyCache shallowTables "group:a" = ["group:c"] := by
    decide +kernel
  have hc : loadParents Runtime.codePoints emptyCache shallowTables "group:c" = [] := by
    decide +kernel
  rw [hmembers, mem_singleton] at hd
  rw [hd] at hsteps
  cases hsteps with
  | none => omega
  | step hb hrest =>
    rw [ha, mem_singleton] at hb
    rw [hb] at hrest
    cases hrest with
    | none => omega
    | step hb' _ =>
      cases hb'

/-- Memberships of `group:a` and `group:b`, and the path from `first` over `second` to
`group:c`. -/
def pathTables (first second : String) : PrincipalTables where
  memberships := [⟨"u1", some (.str "group:a"), none⟩, ⟨"u1", some (.str "group:b"), none⟩]
  hierarchy := [⟨first, some (.str second), none⟩, ⟨second, some (.str "group:c"), none⟩]

/-- With `maxDepth` 2 a path of three principals is refused when it starts at the membership that
is walked first, and is accepted when it starts at the other one. -/
theorem long_path_accepted :
    LongPath (loadParents Runtime.codePoints emptyCache (pathTables "group:b" "group:a"))
      (getDirectMemberships (pathTables "group:b" "group:a") "u1") 2 ∧
    resolveEffectivePrincipals Runtime.codePoints 2 emptyCache (pathTables "group:b" "group:a")
      "u1" = some ["group:a", "group:b", "group:c", "user:u1"] ∧
    resolveEffectivePrincipals Runtime.codePoints 2 emptyCache (pathTables "group:a" "group:b")
      "u1" = none ∧
    ¬ AlwaysCorrect Runtime.codePoints 2 (pathTables "group:b" "group:a") "u1" := by
  have hlong : LongPath (loadParents Runtime.codePoints emptyCache (pathTables "group:b" "group:a"))
      (getDirectMemberships (pathTables "group:b" "group:a") "u1") 2 := by
    refine ⟨"group:b", by decide +kernel, "group:c", 2, ?_, by decide⟩
    exact .step (b := "group:a") (by decide +kernel)
      (.step (b := "group:c") (by decide +kernel) (.none _))
  have haccepted : resolveEffectivePrincipals Runtime.codePoints 2 emptyCache
      (pathTables "group:b" "group:a") "u1" =
        some ["group:a", "group:b", "group:c", "user:u1"] := by decide +kernel
  refine ⟨hlong, haccepted, by decide +kernel, fun h => ?_⟩
  have hnone := (h _ emptyCache (sameHierarchy_refl _ _ _)
    (consistent_emptyCache _ _ _ _)).2.mpr (Or.inr hlong)
  cases hnone

end SuperFunctions.Datafn.Server.PrincipalClosure
