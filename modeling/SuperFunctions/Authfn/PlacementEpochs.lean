import SuperFunctions.Authfn.Placement

/-!
# Exclusive ownership of an identity

Every record that replaces another one carries the next epoch, and no operation expects a
tombstone, so the records of an identity form a sequence of growing epochs that ends at the
tombstone. What a cell admits was therefore owned by that cell alone.
-/
namespace SuperFunctions.Authfn.PlacementEpochs

open Lib.Processes Lib.Transition Placement Option

/-- What may become of a record: it stays, or one of a later epoch takes the place of one that is
not a tombstone. -/
def Later (old new : Option AuthFnIdentityPlacement) : Prop :=
  new = old ∨ ∃ q, new = some q ∧ ∀ p, old = some p → p.epoch < q.epoch ∧ p.state ≠ .tombstoned

theorem Later.refl (record : Option AuthFnIdentityPlacement) : Later record record := .inl rfl

theorem Later.trans {a b c : Option AuthFnIdentityPlacement} (hab : Later a b) (hbc : Later b c) :
    Later a c := by
  rcases hbc with rfl | ⟨q, rfl, hq⟩
  · exact hab
  rcases hab with rfl | ⟨r, rfl, hr⟩
  · exact .inr ⟨q, rfl, hq⟩
  · refine .inr ⟨q, rfl, fun p hp => ?_⟩
    have hpr := hr p hp
    have hrq := hq r rfl
    exact ⟨by omega, hpr.2⟩

/-- The arguments of every compare-and-set. -/
structure SwapOk (swap : Swap) : Prop where
  epoch : swap.placement.epoch = swap.expectedEpoch + 1
  state : swap.expectedState ≠ .tombstoned

variable {choice : Choice} {operation : Operation}

section Steps

variable {R : Type} (directory : Directory R) {identityKey : String} {ttl : Int}

/-- What a call under way has made sure of. -/
def PhaseInv : Phase R → Prop
  | .swapping _ swap => SwapOk swap
  | .replacing _ swap existingRaw =>
    SwapOk swap ∧ expects swap (directory.parse existingRaw) = true ∧
      validatePlacement swap.placement = true
  | _ => True

variable {directory}

/-- A valid placement is read back as it was written. -/
def RoundTrips (directory : Directory R) : Prop :=
  ∀ p, validatePlacement p = true → directory.parse (directory.serialize p) = some p

variable {swap : Swap} {existing : R}

theorem later_of_expects (hround : RoundTrips directory) {s : Shared R}
    (hraw : s.raw = some existing) (hok : SwapOk swap)
    (hexpects : expects swap (directory.parse existing) = true)
    (hvalid : validatePlacement swap.placement = true) :
    Later (s.record directory) ((s.store directory swap.placement).record directory) := by
  have hnew : (s.store directory swap.placement).record directory = some swap.placement :=
    hround _ hvalid
  have hold : s.record directory = directory.parse existing := by
    rw [Shared.record, hraw]
    rfl
  refine .inr ⟨swap.placement, hnew, fun p hp => ?_⟩
  rw [hold] at hp
  rw [hp, expects, any_some, decide_eq_true_eq] at hexpects
  obtain ⟨hepoch, hstate⟩ := hexpects
  have hnext := hok.epoch
  exact ⟨by omega, hstate ▸ hok.state⟩

theorem phaseInv_swapped (purpose : Purpose) (swap : Swap) :
    PhaseInv directory (swapped purpose swap) := by
  cases purpose <;> trivial

variable {purpose : Purpose}

theorem compareAndSet_spec (hround : RoundTrips directory) {s s' : Shared R} {phase : Phase R}
    (hok : SwapOk swap)
    (h : compareAndSet directory identityKey s choice purpose swap = (s', phase)) :
    Later (s.record directory) (s'.record directory) ∧ PhaseInv directory phase := by
  unfold compareAndSet at h
  split at h
  · cases h
    exact ⟨Later.refl _, trivial⟩
  rename_i hgo
  have hvalid : validatePlacement swap.placement = true := by
    rw [Bool.or_eq_true, not_or] at hgo
    have hadm : admissible identityKey swap.placement = true := by simpa using hgo.2
    exact (Bool.and_eq_true_iff.mp hadm).1
  split at h
  · cases h
    exact ⟨Later.refl _, trivial⟩
  rename_i existing hraw
  split at h
  · rename_i hexpects
    split at h
    · cases h
      exact ⟨Later.refl _, hok, hexpects, hvalid⟩
    · cases h
      exact ⟨later_of_expects hround hraw hok hexpects hvalid, phaseInv_swapped _ _⟩
  · cases h
    exact ⟨Later.refl _, trivial⟩

theorem replace_spec [DecidableEq R] (hround : RoundTrips directory) {s s' : Shared R}
    {phase : Phase R} (hinv : PhaseInv directory (.replacing purpose swap existing))
    (h : replace directory s choice purpose swap existing = (s', phase)) :
    Later (s.record directory) (s'.record directory) ∧ PhaseInv directory phase := by
  unfold replace at h
  split at h
  · cases h
    exact ⟨Later.refl _, trivial⟩
  split at h
  · rename_i hraw
    cases h
    exact ⟨later_of_expects hround hraw hinv.1 hinv.2.1 hinv.2.2, phaseInv_swapped _ _⟩
  · cases h
    exact ⟨Later.refl _, trivial⟩

theorem swapOk_settle {current : AuthFnIdentityPlacement} (h : current.state ≠ .tombstoned)
    (state : AuthFnIdentityPlacementState) (updatedAt : String) :
    PhaseInv directory (settle current state updatedAt) := ⟨rfl, h⟩

theorem phaseInv_leaveFence (current : Option AuthFnIdentityPlacement) (expected : Option Nat)
    (state : AuthFnIdentityPlacementState) (updatedAt : String) :
    PhaseInv directory (leaveFence current expected state updatedAt) := by
  unfold leaveFence
  split
  · trivial
  split
  · trivial
  split
  · trivial
  split
  · rename_i hdeleting
    apply swapOk_settle
    rw [hdeleting]
    decide
  · trivial

theorem phaseInv_enter (s : Shared R) (choice : Choice) (operation : Operation) :
    PhaseInv directory (enter directory s choice operation) := by
  cases operation with
  | request gateway allow => trivial
  | assertion regionId epoch => trivial
  | move source target resumes =>
    simp only [enter, moveAuthFnIdentityPlacement]
    split
    · trivial
    split
    · trivial
    · split
      · exact ⟨rfl, fun hstate => by cases hstate⟩
      · trivial
  | tombstone =>
    simp only [enter, tombstoneAuthFnIdentityPlacement]
    split
    · trivial
    split
    · trivial
    · split
      · trivial
      · rename_i hlive
        exact swapOk_settle hlive _ _
  | fence =>
    simp only [enter, fenceAuthFnIdentityDeletion]
    split
    · trivial
    split
    · trivial
    split
    · rename_i hactive
      apply swapOk_settle
      rw [hactive]
      decide
    · trivial
  | finalize expected =>
    simp only [enter, finalizeAuthFnIdentityDeletion]
    split
    · trivial
    · exact phaseInv_leaveFence _ _ _ _
  | restore expected =>
    simp only [enter, restoreAuthFnIdentityDeletion]
    split
    · trivial
    · exact phaseInv_leaveFence _ _ _ _

theorem phaseInv_moveOn {phase phase' : Phase R}
    (h : moveOn identityKey choice operation phase = some phase') : PhaseInv directory phase' := by
  unfold moveOn at h
  split at h
  · cases h
    unfold migrate
    split
    · split
      · split <;> trivial
      · trivial
    · split
      · trivial
      · exact ⟨rfl, fun hstate => by cases hstate⟩
  · cases h
    split
    · trivial
    · exact ⟨rfl, fun hstate => by cases hstate⟩
  · cases h

theorem phaseInv_forward (choice : Choice) (attempt : Nat) (placement : AuthFnIdentityPlacement) :
    PhaseInv directory (forward choice attempt placement) := by
  unfold forward
  split <;> trivial

theorem loadPlacement_spec {s s' : Shared R} {gateway attempt : Nat} {bypass allow : Bool}
    {phase : Phase R}
    (h : loadPlacement directory ttl s choice gateway attempt bypass allow = (s', phase)) :
    s'.raw = s.raw ∧ PhaseInv directory phase := by
  unfold loadPlacement at h
  simp only at h
  split at h
  · cases h
    exact ⟨rfl, phaseInv_forward _ _ _⟩
  split at h
  · cases h
    exact ⟨rfl, trivial⟩
  split at h
  · cases h
    exact ⟨rfl, phaseInv_forward _ _ _⟩
  · cases h
    refine ⟨rfl, ?_⟩
    split <;> trivial

section

variable (hround : RoundTrips directory)
include hround

theorem claimPlacement_spec {s s' : Shared R} {gateway attempt : Nat} {phase : Phase R}
    (h : claimPlacement directory identityKey ttl s choice gateway attempt = (s', phase)) :
    Later (s.record directory) (s'.record directory) ∧ PhaseInv directory phase := by
  unfold claimPlacement at h
  simp only at h
  split at h
  · cases h
    exact ⟨Later.refl _, trivial⟩
  rename_i hgo
  rw [Bool.or_eq_true, not_or] at hgo
  split at h
  · rename_i hraw
    cases h
    refine ⟨.inr ⟨_, hround _ (by simpa using hgo.2), ?_⟩, phaseInv_forward _ _ _⟩
    intro p hp
    rw [Shared.record, hraw] at hp
    cases hp
  · split at h
    · cases h
      exact ⟨Later.refl _, trivial⟩
    · cases h
      exact ⟨Later.refl _, phaseInv_forward _ _ _⟩

theorem requestOn_spec {s s' : Shared R} {phase phase' : Phase R}
    (h : requestOn directory identityKey ttl s choice operation phase = some (s', phase')) :
    Later (s.record directory) (s'.record directory) ∧ PhaseInv directory phase' := by
  unfold requestOn at h
  split at h
  · obtain ⟨hraw, hphase⟩ := loadPlacement_spec (some.inj h)
    refine ⟨.inl ?_, hphase⟩
    rw [Shared.record, Shared.record, hraw]
  · exact claimPlacement_spec hround (some.inj h)
  · split at h <;> cases h <;> exact ⟨Later.refl _, trivial⟩
  · cases h

omit hround in
theorem rest_cases {s s' : Shared R} {phase phase' : Phase R}
    (h : (match moveOn identityKey choice operation phase with
      | some next => some (s, next)
      | none => requestOn directory identityKey ttl s choice operation phase) = some (s', phase')) :
    moveOn identityKey choice operation phase = some phase' ∧ s' = s ∨
      requestOn directory identityKey ttl s choice operation phase = some (s', phase') := by
  split at h
  · next hmove =>
    cases h
    exact .inl ⟨hmove, rfl⟩
  · exact .inr h

theorem advance_spec [DecidableEq R] {s s' : Shared R} {phase phase' : Phase R}
    (hinv : PhaseInv directory phase)
    (h : advance directory identityKey ttl s choice operation phase = some (s', phase')) :
    Later (s.record directory) (s'.record directory) ∧ PhaseInv directory phase' := by
  have hrest : (moveOn identityKey choice operation phase = some phase' ∧ s' = s ∨
      requestOn directory identityKey ttl s choice operation phase = some (s', phase')) →
      Later (s.record directory) (s'.record directory) ∧ PhaseInv directory phase' := by
    rintro (⟨hmove, rfl⟩ | hrequest)
    · exact ⟨Later.refl _, phaseInv_moveOn hmove⟩
    · exact requestOn_spec hround hrequest
  cases phase with
  | entered =>
    cases h
    exact ⟨Later.refl _, phaseInv_enter _ _ _⟩
  | swapping purpose swap => exact compareAndSet_spec hround hinv (some.inj h)
  | replacing purpose swap existing => exact replace_spec hround hinv (some.inj h)
  | dispatched attempt regionId epoch =>
    simp only [advance] at h
    split at h
    · cases h
      exact ⟨Later.refl _, trivial⟩
    cases h
    refine ⟨Later.refl _, ?_⟩
    unfold cellAdmits
    split
    · trivial
    · split
      · trivial
      · split <;> trivial
  | migrating moving callbacks | resumingSource moving | loading attempt bypass | claiming attempt
  | mismatched attempt => exact hrest (rest_cases h)
  | admitted regionId epoch | answered | returned placement | threw => exact hrest (rest_cases h)

end

end Steps

section Admission

variable {R : Type} [DecidableEq R] {directory : Directory R} {identityKey : String} {ttl : Int}

/-- The region was active at the epoch. -/
def ActiveAt (record : Option AuthFnIdentityPlacement) (regionId : String) (epoch : Nat) : Prop :=
  ∃ p, record = some p ∧ p.state = .active ∧ p.regionId = regionId ∧ p.epoch = epoch

theorem admitted_activeAt {s s' : Shared R} {phase : Phase R} {regionId : String} {epoch : Nat}
    (h : advance directory identityKey ttl s choice operation phase
      = some (s', .admitted regionId epoch)) :
    (∃ attempt, phase = .dispatched attempt regionId epoch) ∧ choice.regionId = regionId ∧
      ActiveAt (s.record directory) regionId epoch := by
  have hforward : ∀ attempt placement,
      forward choice attempt placement ≠ (.admitted regionId epoch : Phase R) := by
    intro attempt placement
    unfold forward
    split <;> intro hphase <;> cases hphase
  have hrest : ∀ phase : Phase R,
      ¬ (moveOn identityKey choice operation phase = some (.admitted regionId epoch) ∧ s' = s ∨
        requestOn directory identityKey ttl s choice operation phase =
          some (s', .admitted regionId epoch)) := by
    rintro phase (⟨hmove, -⟩ | hphase)
    · unfold moveOn migrate at hmove
      (repeat' split at hmove) <;> cases hmove
    · unfold requestOn at hphase
      split at hphase
      · unfold loadPlacement at hphase
        simp only [some.injEq] at hphase
        (repeat' split at hphase) <;>
          first
            | exact hforward _ _ (Prod.mk.inj hphase).2
            | cases (Prod.mk.inj hphase).2
      · unfold claimPlacement at hphase
        simp only [some.injEq] at hphase
        (repeat' split at hphase) <;>
          first
            | exact hforward _ _ (Prod.mk.inj hphase).2
            | cases (Prod.mk.inj hphase).2
      · split at hphase <;> cases hphase
      · cases hphase
  cases phase with
  | dispatched attempt regionId' epoch' =>
    simp only [advance] at h
    split at h
    · cases h
    unfold cellAdmits at h
    split at h
    · cases h
    rename_i placement hrecord
    split at h
    · cases h
    rename_i hactive
    split at h
    · cases h
    rename_i hsame
    cases h
    simp only [ne_eq, not_or, not_not] at hactive hsame
    obtain ⟨hcell, hregion, hepoch⟩ := hsame
    exact ⟨⟨attempt, rfl⟩, hregion.symm, placement, hrecord, hactive,
      hcell.trans hregion.symm, hepoch.symm⟩
  | entered =>
    have hphase := (Prod.mk.inj (some.inj h)).2
    cases operation <;> simp only [enter, moveAuthFnIdentityPlacement,
      tombstoneAuthFnIdentityPlacement, fenceAuthFnIdentityDeletion, leaveFence, settle,
      finalizeAuthFnIdentityDeletion, restoreAuthFnIdentityDeletion] at hphase
    all_goals (repeat' split at hphase) <;> cases hphase
  | swapping purpose swap =>
    simp only [advance, compareAndSet, some.injEq] at h
    (repeat' split at h) <;> cases purpose <;> cases h
  | replacing purpose swap existing =>
    simp only [advance, replace, some.injEq] at h
    (repeat' split at h) <;> cases purpose <;> cases h
  | migrating moving callbacks | resumingSource moving | loading attempt bypass | claiming attempt
  | mismatched attempt => exact absurd (rest_cases h) (hrest _)
  | admitted regionId' epoch' | answered | returned placement | threw =>
    exact absurd (rest_cases h) (hrest _)

end Admission

section Runs

variable {R : Type} [DecidableEq R] {directory : Directory R} {identityKey : String} {ttl : Int}

/-- Every call under way has made sure of what its phase needs. -/
def Careful (directory : Directory R) (s : Deployment R) : Prop :=
  Each (fun _ _ call => PhaseInv directory call.phase) s

theorem step_spec (hround : RoundTrips directory) {s s' : Deployment R} {a : Act Operation Choice}
    (hinv : Careful directory s)
    (h : deploymentStep directory identityKey ttl s a = some s') :
    Careful directory s' ∧ Later (s.shared.record directory) (s'.shared.record directory) := by
  rcases act_cases h with ⟨operation, rfl, rfl⟩ | ⟨i, choice, call, t, call', rfl, hcall, hmove, rfl⟩
  · exact ⟨each_spawn hinv trivial, Later.refl _⟩
  obtain ⟨r, hadvance, hr⟩ := map_eq_some_iff.mp hmove
  obtain ⟨t', phase'⟩ := r
  cases hr
  obtain ⟨hlater, hphase⟩ := advance_spec hround (hinv i call hcall) hadvance
  exact ⟨each_move hphase fun j other _ hother => hinv j other hother, hlater⟩

theorem run_later (hround : RoundTrips directory) {s s' : Deployment R}
    {acts : List (Act Operation Choice)} (hinv : Careful directory s)
    (h : run (deploymentStep directory identityKey ttl) s acts = some s') :
    Careful directory s' ∧ Later (s.shared.record directory) (s'.shared.record directory) := by
  have hstep : ∀ m a m', Careful directory m ∧
      Later (s.shared.record directory) (m.shared.record directory) →
      deploymentStep directory identityKey ttl m a = some m' →
      Careful directory m' ∧ Later (s.shared.record directory) (m'.shared.record directory) := by
    intro m a m' hm hmove
    obtain ⟨hcareful, hlater⟩ := step_spec hround hm.1 hmove
    exact ⟨hcareful, hm.2.trans hlater⟩
  exact run_invariant (deploymentStep directory identityKey ttl) hstep ⟨hinv, Later.refl _⟩ h

theorem admitted_step {s s' : Deployment R} {i : Nat} {call : Call R} {regionId : String}
    {epoch : Nat} (h : deploymentStep directory identityKey ttl s (.move i choice) = some s')
    (hcall : s'.procs[i]? = some call) (hphase : call.phase = .admitted regionId epoch) :
    choice.regionId = regionId ∧ ActiveAt (s.shared.record directory) regionId epoch := by
  rcases act_cases h with ⟨_, hspawn, _⟩ | ⟨j, c, before, t, after, hact, hbefore, hmove, rfl⟩
  · cases hspawn
  cases hact
  have hlt : i < s.procs.length := (List.getElem?_eq_some_iff.mp hbefore).1
  have hset : (s.procs.set i after)[i]? = some after := List.getElem?_set_self hlt
  rw [hset] at hcall
  cases hcall
  obtain ⟨r, hadvance, hr⟩ := map_eq_some_iff.mp hmove
  obtain ⟨t', phase'⟩ := r
  cases hr
  have hadmitted : phase' = .admitted regionId epoch := hphase
  subst hadmitted
  exact (admitted_activeAt hadvance).2

/-- Between any two states of a run the record stays or is replaced under a larger epoch, no two
regions are active at one epoch, a tombstone stays, and whatever a cell admits there is for its own
region, active at the epoch of the assertion when the cell reads the directory. -/
theorem ownership_exclusive (hround : ∀ p, validatePlacement p = true →
      directory.parse (directory.serialize p) = some p)
    {shared : Shared R} {as bs : List (Act Operation Choice)} {m s : Deployment R}
    (hm : run (deploymentStep directory identityKey ttl) ⟨shared, []⟩ as = some m)
    (hs : run (deploymentStep directory identityKey ttl) m bs = some s) :
    (s.shared.record directory ≠ m.shared.record directory →
      ∃ q, s.shared.record directory = some q ∧
        ∀ p, m.shared.record directory = some p → p.epoch < q.epoch) ∧
    (∀ r r' epoch, ActiveAt (m.shared.record directory) r epoch →
      ActiveAt (s.shared.record directory) r' epoch → r = r') ∧
    (∀ p, m.shared.record directory = some p → p.state = .tombstoned →
      s.shared.record directory = some p) ∧
    ∀ i choice s' call regionId epoch,
      deploymentStep directory identityKey ttl s (.move i choice) = some s' →
      s'.procs[i]? = some call → call.phase = .admitted regionId epoch →
      choice.regionId = regionId ∧ ActiveAt (s.shared.record directory) regionId epoch := by
  have hstart : Careful directory (⟨shared, []⟩ : Deployment R) := each_nil _ _
  have hcareful := (run_later hround hstart hm).1
  have hlater := (run_later hround hcareful hs).2
  refine ⟨?_, ?_, ?_, ?_⟩
  · intro hchanged
    rcases hlater with hsame | ⟨q, hq, hold⟩
    · exact absurd hsame hchanged
    · exact ⟨q, hq, fun p hp => (hold p hp).1⟩
  · rintro r r' epoch ⟨p, hp, _, rfl, hpe⟩ ⟨q, hq, _, rfl, hqe⟩
    rcases hlater with hsame | ⟨q', hq', hold⟩
    · rw [hp] at hsame
      rw [hq] at hsame
      cases hsame
      rfl
    · have hlt := (hold p hp).1
      rw [hq] at hq'
      cases hq'
      omega
  · intro p hp htomb
    rcases hlater with hsame | ⟨q, _, hold⟩
    · exact hsame.trans hp
    · exact absurd htomb (hold p hp).2
  · intro i choice s' call regionId epoch hmove hcall hphase
    exact admitted_step hmove hcall hphase

end Runs

section Samples

def steady : Choice := ⟨false, "t", 0, "eu", true⟩

/-- A first-use claim of one gateway, a move to another region, and the same gateway acting on its
copy of the old placement. -/
def claimAndMove : List (Act Operation Choice) :=
  [.spawn (.request 0 true), .move 0 steady, .move 0 steady, .move 0 steady, .move 0 steady] ++
    .spawn (.move "eu" "us" true) :: List.replicate 9 (.move 1 steady)

def staleRequest : List (Act Operation Choice) :=
  [.spawn (.request 0 true), .move 2 steady, .move 2 steady, .move 2 steady]

def sampleStep : Deployment AuthFnIdentityPlacement → Act Operation Choice →
    Option (Deployment AuthFnIdentityPlacement) :=
  deploymentStep inMemoryPlacementDirectory "user" 1000

/-- The stale request is not admitted, and what the two states say about ownership agrees. -/
theorem staleRequest_refused :
    ∃ m s, run sampleStep ⟨⟨none, [none]⟩, []⟩ claimAndMove = some m ∧
      run sampleStep m staleRequest = some s ∧
      (s.procs.map (·.phase)).getLast? = some (.mismatched 0) ∧
      ∀ r r' epoch, ActiveAt (m.shared.record inMemoryPlacementDirectory) r epoch →
        ActiveAt (s.shared.record inMemoryPlacementDirectory) r' epoch → r = r' := by
  have hends : (run sampleStep ⟨⟨none, [none]⟩, []⟩ claimAndMove).any (fun m =>
      (run sampleStep m staleRequest).any fun s =>
        decide ((s.procs.map (·.phase)).getLast? = some (.mismatched 0))) = true := by
    decide +kernel
  obtain ⟨m, hm, hrest⟩ := (any_eq_true _ _).mp hends
  obtain ⟨s, hs, hphase⟩ := (any_eq_true _ _).mp hrest
  have hround : ∀ p, validatePlacement p = true →
      inMemoryPlacementDirectory.parse (inMemoryPlacementDirectory.serialize p) = some p :=
    fun _ _ => rfl
  exact ⟨m, s, hm, hs, of_decide_eq_true hphase, (ownership_exclusive hround hm hs).2.1⟩

end Samples

end SuperFunctions.Authfn.PlacementEpochs
