import SuperFunctions.Billfn.UsageMeters

/-!
# One move of a usage call

What a call has changed the meter by and what it has booked are known at each of its phases, and
what an open transaction has done is what its owner has done since it began. Every move keeps
that, as long as a compensation finds on the meter what it is to take back.
-/
namespace SuperFunctions.Billfn.UsageMoves

open Lib.Processes Usage UsageMeters

variable (fl : ℚ → ℚ)

def Request.key (request : Request) : String × String :=
  (request.billingAccountId, request.resource)

abbrev Call.key (call : Call) : String × String := Request.key call.toRequest

/-- The meter holds at least what the compensation takes back, and the difference is a number of
the language. -/
def CanTakeBack (db : Tables) (key : String × String) (applied : ℚ) : Prop :=
  applied ≤ metered db key.1 key.2 ∧
  fl (metered db key.1 key.2 - applied) = metered db key.1 key.2 - applied ∧
  fl (-applied) = -applied

/-- The moves that keep the meter and the ledger together. -/
def Careful (store : Store) (call : Call) (fails : Bool) : Prop :=
  match call.phase with
  | .update (.write _ existing) => Exact fl existing.current call.amount
  | .compensate applied (.find attempt) =>
    fails = false ∧ attempt < 50 ∧ CanTakeBack fl store.tables (Call.key call) applied
  | .compensate _ _ => fails = false
  | _ => True

def CarefulAct (s : Deployment) : Act Request Bool → Prop
  | .spawn _ => True
  | .move i fails => ∀ call, s.procs[i]? = some call → Careful fl s.shared call fails

instance (store : Store) (call : Call) (fails : Bool) : Decidable (Careful fl store call fails) := by
  unfold Careful Exact CanTakeBack
  split <;> infer_instance

instance (s : Deployment) : (a : Act Request Bool) → Decidable (CarefulAct fl s a)
  | .spawn _ => isTrue trivial
  | .move i fails =>
    decidable_of_iff (∀ call ∈ s.procs[i]?, Careful fl s.shared call fails) Iff.rfl

/-- The compensating write takes back what it is to take back. -/
def TakesBack (applied : ℚ) : Loop → Prop
  | .write _ existing =>
    nextCurrent fl existing.current (-applied) = existing.current - applied ∧
    nextAppliedAmount fl existing.current (-applied) = -applied
  | .create _ => applied ≤ 0
  | .find _ => True

/-- What a call has metered and booked, at each of its phases. -/
def Balanced (db : Tables) (call : Call) : Phase → Prop
  | .entered => call.metered = 0 ∧ call.booked = 0
  | .update loop => call.metered = 0 ∧ call.booked = 0 ∧ LoopRow db (Call.key call) loop ∧
      ∀ n, loop = .create n → 0 ≤ call.amount
  | .append applied => call.metered = applied ∧ call.booked = 0
  | .compensate applied loop => call.metered = applied ∧ call.booked = 0 ∧
      LoopRow db (Call.key call) loop ∧ TakesBack fl applied loop
  | .commit => call.metered = call.booked
  | .returned => call.metered = call.booked
  | .threw _ => call.metered = 0 ∧ call.booked = 0

/-- The tables a call reads: an open transaction is seen by its owner only. -/
def Store.view (store : Store) (i : Nat) : Tables :=
  match store.transaction with
  | some (owner, saved) => if owner = i then store.tables else saved
  | none => store.tables

/-- What an open transaction has done so far is what its owner has metered and booked. -/
structure Undone (saved db : Tables) (call : Call) : Prop where
  rows : Rows saved
  kept : Kept saved db
  meter : ∀ a r, metered db a r = metered saved a r + share (Call.key call) (a, r) call.metered
  ledger : ∀ a r, booked db a r = booked saved a r + share (Call.key call) (a, r) call.booked

def Undoable (store : Store) (i : Nat) (call : Call) : Prop :=
  ∀ saved, store.transaction = some (i, saved) → Undone saved store.tables call

structure CallInv (store : Store) (i : Nat) (call : Call) : Prop where
  balanced : Balanced fl (Store.view store i) call call.phase
  undoable : Undoable store i call
  committing : call.phase = .commit → ∃ saved, store.transaction = some (i, saved)

/-- What a move of one call leaves behind. -/
structure Moved (store store' : Store) (i : Nat) (call call' : Call) : Prop where
  rows : Rows store'.tables
  own : CallInv fl store' i call'
  key : Call.key call' = Call.key call
  meter : ∀ a r, metered store'.tables a r = metered store.tables a r +
    (share (Call.key call) (a, r) call'.metered - share (Call.key call) (a, r) call.metered)
  ledger : ∀ a r, booked store'.tables a r = booked store.tables a r +
    (share (Call.key call) (a, r) call'.booked - share (Call.key call) (a, r) call.booked)
  kept : ∀ j, j ≠ i → Kept (Store.view store j) (Store.view store' j)
  owner : ∀ j saved, store'.transaction = some (j, saved) → j = i

/-- What one adapter call writes to the meter and to the ledger of one account and resource. -/
structure Wrote (db db' : Tables) (key : String × String) (x y : ℚ) : Prop where
  rows : Rows db'
  kept : Kept db db'
  meter : ∀ a r, metered db' a r = metered db a r + share key (a, r) x
  ledger : ∀ a r, booked db' a r = booked db a r + share key (a, r) y

theorem wrote_refl {db : Tables} (hrows : Rows db) (key : String × String) :
    Wrote db db key 0 0 := by
  refine ⟨hrows, Kept.refl db, ?_, ?_⟩ <;> simp

theorem Wrote.of_changed {db db' : Tables} {key : String × String} {x : ℚ}
    (h : Changed db db' key x) : Wrote db db' key x 0 := { h with
  ledger := by
    intro a r
    rw [booked, booked, h.ledger, share_zero, add_zero] }

theorem wrote_append {db : Tables} (hrows : Rows db) (a r : String) (x : ℚ) :
    Wrote db (appendUsageLedgerEntry db a r x) (a, r) 0 x where
  rows := { hrows with }
  kept := fun _ _ => id
  meter := by
    intro a' r'
    rw [share_zero, add_zero]
    rfl
  ledger := by
    intro a' r'
    unfold booked appendUsageLedgerEntry share
    by_cases hkey : (a', r') = (a, r)
    · cases hkey
      simp
    · have hother : ¬ (a = a' ∧ r = r') := by
        rintro ⟨rfl, rfl⟩
        exact hkey rfl
      simp [hkey, hother]

section Moves

variable {fl} {store : Store} {i : Nat} {call call₁ : Call} {db : Tables} {x y : ℚ}

/-- The call may move: no other one has a transaction open. -/
def Holds (store : Store) (i : Nat) : Prop :=
  ∀ owner saved, store.transaction = some (owner, saved) → owner = i

theorem view_own (hholds : Holds store i) : Store.view store i = store.tables := by
  unfold Store.view
  split
  · rename_i owner saved h
    rw [if_pos (hholds owner saved h)]
  · rfl

theorem view_of_none {store : Store} (h : store.transaction = none) (j : Nat) :
    Store.view store j = store.tables := by
  simp [Store.view, h]

theorem view_other {store : Store} {saved : Tables} (h : store.transaction = some (i, saved))
    {j : Nat} (hj : j ≠ i) : Store.view store j = saved := by
  have hne : ¬ i = j := fun he => hj he.symm
  simp [Store.view, h, hne]

theorem moved_tables (hholds : Holds store i) (hinv : CallInv fl store i call)
    (hw : Wrote store.tables db (Call.key call) x y) (hkey : Call.key call₁ = Call.key call)
    (hm : call₁.metered = call.metered + x) (hb : call₁.booked = call.booked + y)
    (hbal : Balanced fl db call₁ call₁.phase)
    (hcommit : call₁.phase = .commit → ∃ saved, store.transaction = some (i, saved)) :
    Moved fl store { store with tables := db } i call call₁ := by
  have hholds' : Holds { store with tables := db } i := hholds
  refine ⟨hw.rows, ⟨?_, ?_, hcommit⟩, hkey, ?_, ?_, ?_, hholds⟩
  · rwa [view_own hholds']
  · intro saved hopen
    have hundone := hinv.undoable saved hopen
    refine ⟨hundone.rows, hundone.kept.trans hw.kept, ?_, ?_⟩
    · intro a r
      rw [hw.meter, hundone.meter, hkey, hm, share_add]
      ring
    · intro a r
      rw [hw.ledger, hundone.ledger, hkey, hb, share_add]
      ring
  · intro a r
    rw [hm, share_add]
    have h := hw.meter a r
    linarith
  · intro a r
    rw [hb, share_add]
    have h := hw.ledger a r
    linarith
  · intro j hj
    rcases Option.eq_none_or_eq_some store.transaction with hopen | ⟨⟨owner, saved⟩, hopen⟩
    · have hopen' : ({ store with tables := db } : Store).transaction = none := hopen
      rw [view_of_none hopen, view_of_none hopen']
      exact hw.kept
    · have howner := hholds owner saved hopen
      subst howner
      have hopen' : ({ store with tables := db } : Store).transaction = some (owner, saved) := hopen
      rw [view_other hopen hj, view_other hopen' hj]
      exact Kept.refl saved

theorem moved_throws (hholds : Holds store i) (hinv : CallInv fl store i call)
    (hw : Wrote store.tables db (Call.key call) x y) (hkey : Call.key call₁ = Call.key call)
    (hm : call₁.metered = call.metered + x) (hb : call₁.booked = call.booked + y)
    (hnone : store.transaction = none → call₁.metered = 0 ∧ call₁.booked = 0) (error : Thrown) :
    Moved fl store (call₁.throws store db error).1 i call (call₁.throws store db error).2 := by
  unfold Call.throws
  split
  · rename_i owner saved hopen
    have howner := hholds owner saved hopen
    subst howner
    have hundone := hinv.undoable saved hopen
    refine ⟨hundone.rows, ⟨⟨rfl, rfl⟩, nofun, nofun⟩, hkey, ?_, ?_, ?_, nofun⟩
    · intro a r
      have h := hundone.meter a r
      rw [share_zero]
      linarith
    · intro a r
      have h := hundone.ledger a r
      show booked saved a r = _
      rw [share_zero]
      linarith
    · intro j hj
      rw [view_other hopen hj]
      exact Kept.refl saved
  · rename_i hopen
    obtain ⟨hzero, hzero'⟩ := hnone hopen
    have hclosed : ({ store with tables := db } : Store) = ⟨db, none⟩ := by
      rw [← hopen]
    have hmoved : Moved fl store { store with tables := db } i call
        { call₁ with phase := .threw error } :=
      moved_tables hholds hinv hw hkey hm hb ⟨hzero, hzero'⟩ (fun hphase => by cases hphase)
    rwa [hclosed] at hmoved

theorem moved_finishes (hholds : Holds store i) (hinv : CallInv fl store i call)
    (hw : Wrote store.tables db (Call.key call) x y) (hkey : Call.key call₁ = Call.key call)
    (hm : call₁.metered = call.metered + x) (hb : call₁.booked = call.booked + y)
    (heven : call₁.metered = call₁.booked) :
    Moved fl store (call₁.finishes store db).1 i call (call₁.finishes store db).2 := by
  unfold Call.finishes
  split
  · rename_i held hopen
    obtain ⟨owner, saved⟩ := held
    have howner := hholds owner saved hopen
    subst howner
    have hmoved : Moved fl store { store with tables := db } owner call
        { call₁ with phase := .commit } :=
      moved_tables hholds hinv hw hkey hm hb heven fun _ => ⟨saved, hopen⟩
    exact hmoved
  · rename_i hopen
    have hclosed : ({ store with tables := db } : Store) = ⟨db, none⟩ := by
      rw [← hopen]
    have hmoved : Moved fl store { store with tables := db } i call
        { call₁ with phase := .returned } :=
      moved_tables hholds hinv hw hkey hm hb heven (fun hphase => by cases hphase)
    rwa [hclosed] at hmoved

end Moves

section Compensation

variable {fl} {a r : String} {applied : ℚ} {db : Tables}

theorem takesBack_of_find {existing : BillFnUsageMeter}
    (hfind : findUsageMeter db a r = some existing) (hcan : CanTakeBack fl db (a, r) applied) :
    nextCurrent fl existing.current (-applied) = existing.current - applied ∧
    nextAppliedAmount fl existing.current (-applied) = -applied := by
  obtain ⟨hle, hdiff, hneg⟩ := hcan
  rw [metered_of_find hfind] at hle hdiff
  have hnext : nextCurrent fl existing.current (-applied) = existing.current - applied := by
    rw [nextCurrent, ← sub_eq_add_neg, hdiff]
    exact max_eq_right (by linarith)
  refine ⟨hnext, ?_⟩
  rwa [nextAppliedAmount, hnext, sub_sub_cancel_left]

theorem compensation_spec {loop : Loop} {db' : Tables} {result : Updating}
    (htakes : TakesBack fl applied loop)
    (hcareful : ∀ attempt, loop = .find attempt → attempt < 50 ∧ CanTakeBack fl db (a, r) applied)
    (h : updateUsageMeter fl a r (-applied) db false loop = (db', result)) :
    result = .returned (-applied) ∨ ∃ loop', result = .going loop' ∧ TakesBack fl applied loop' := by
  cases loop with
  | find attempt =>
    obtain ⟨hattempt, hcan⟩ := hcareful attempt rfl
    simp only [updateUsageMeter, if_pos hattempt, Bool.false_eq_true, if_false] at h
    split at h
    · rename_i hfind
      have hle : applied ≤ 0 := metered_of_none hfind ▸ hcan.1
      rw [if_neg (by linarith)] at h
      cases h
      exact .inr ⟨_, rfl, hle⟩
    · rename_i existing hfind
      have htaken := takesBack_of_find hfind hcan
      split at h
      · rename_i hzero
        cases h
        rw [htaken.2] at hzero
        exact .inl (by rw [hzero])
      · cases h
        exact .inr ⟨_, rfl, htaken⟩
  | create attempt =>
    simp only [updateUsageMeter, Bool.false_eq_true, if_false] at h
    split at h <;> cases h
    · exact .inl rfl
    · exact .inr ⟨_, rfl, trivial⟩
  | write attempt existing =>
    simp only [updateUsageMeter, Bool.false_eq_true, if_false] at h
    split at h <;> cases h
    · exact .inl (by rw [htakes.2])
    · exact .inr ⟨_, rfl, trivial⟩

theorem loopExact_of_takesBack {loop : Loop} (h : TakesBack fl applied loop) :
    LoopExact fl (-applied) loop := by
  cases loop with
  | find attempt => trivial
  | create attempt =>
    have hle : applied ≤ 0 := h
    show 0 ≤ -applied
    linarith
  | write attempt existing =>
    show nextAppliedAmount fl existing.current (-applied) = _
    rw [h.2, h.1]
    ring

end Compensation

section Step

variable {fl} {store store' : Store} {i : Nat} {call call' : Call} {fails : Bool}

theorem moved_of_eq {next : Store × Call} (h : some next = some (store', call'))
    (hmoved : Moved fl store next.1 i call next.2) : Moved fl store store' i call call' := by
  cases h
  exact hmoved

theorem moved_advance (hholds : Holds store i) (hrows : Rows store.tables)
    (hinv : CallInv fl store i call) (hcareful : Careful fl store call fails)
    (h : call.advance fl store fails = some (store', call')) :
    Moved fl store store' i call call' := by
  have hbal := hinv.balanced
  rw [view_own hholds] at hbal
  have hsame := wrote_refl hrows (Call.key call)
  cases hphase : call.phase with
  | update loop =>
    simp only [Call.advance, hphase] at h
    simp only [Balanced, hphase] at hbal
    obtain ⟨hm, hb, hrow, hcreate⟩ := hbal
    have hexact : LoopExact fl call.amount loop := by
      simp only [Careful, hphase] at hcareful
      cases loop with
      | find n => trivial
      | create n => exact hcreate n rfl
      | write n existing => exact hcareful
    rcases hupdate : updateUsageMeter fl call.billingAccountId call.resource call.amount
      store.tables fails loop with ⟨db, result⟩
    have hspec := updateUsageMeter_spec hrows hrow hexact hupdate
    have hw := Wrote.of_changed hspec.1
    rw [hupdate] at h
    cases result with
    | going loop' =>
      cases h
      refine moved_tables hholds hinv hw rfl (add_zero _).symm (add_zero _).symm ?_ nofun
      exact ⟨hm, hb, hspec.2.1, hspec.2.2⟩
    | threw error =>
      exact moved_of_eq h (moved_throws hholds hinv hw rfl (add_zero _).symm (add_zero _).symm
        (fun _ => ⟨hm, hb⟩) error)
    | returned applied =>
      simp only at h
      split at h
      · rename_i hzero
        subst hzero
        exact moved_of_eq h (moved_finishes hholds hinv hw rfl (add_zero _).symm
          (add_zero _).symm (hm.trans hb.symm))
      · cases h
        refine moved_tables hholds hinv hw rfl ?_ (add_zero _).symm ?_ nofun
        · rw [hm, zero_add]
          rfl
        · exact ⟨rfl, hb⟩
  | append applied =>
    simp only [Call.advance, hphase] at h
    simp only [Balanced, hphase] at hbal
    obtain ⟨hm, hb⟩ := hbal
    split at h
    · split at h
      · rename_i hopen
        refine moved_of_eq h (moved_throws hholds hinv hsame rfl (add_zero _).symm
          (add_zero _).symm ?_ .adapter)
        intro hnone
        rw [hnone] at hopen
        cases hopen
      · cases h
        refine moved_tables hholds hinv hsame rfl (add_zero _).symm (add_zero _).symm ?_ nofun
        exact ⟨hm, hb, trivial, trivial⟩
    · have hw := wrote_append hrows call.billingAccountId call.resource applied
      refine moved_of_eq h (moved_finishes hholds hinv hw rfl (add_zero _).symm ?_ hm)
      rw [hb, zero_add]
  | compensate applied loop =>
    simp only [Call.advance, hphase] at h
    simp only [Balanced, hphase] at hbal
    obtain ⟨hm, hb, hrow, htakes⟩ := hbal
    have hworks : fails = false := by
      simp only [Careful, hphase] at hcareful
      cases loop with
      | find n => exact hcareful.1
      | create n | write n existing => exact hcareful
    have hfinds : ∀ attempt, loop = .find attempt →
        attempt < 50 ∧ CanTakeBack fl store.tables (Call.key call) applied := by
      intro attempt hloop
      simp only [Careful, hphase, hloop] at hcareful
      exact hcareful.2
    subst hworks
    rcases hupdate : updateUsageMeter fl call.billingAccountId call.resource (-applied)
      store.tables false loop with ⟨db, result⟩
    have hspec := updateUsageMeter_spec hrows hrow (loopExact_of_takesBack htakes) hupdate
    have hw := Wrote.of_changed hspec.1
    rw [hupdate] at h
    rcases compensation_spec htakes hfinds hupdate with hback | ⟨loop', hgoing, htakes'⟩
    · subst hback
      have hzero : call.metered + -applied = 0 := by rw [hm, add_neg_cancel]
      have hmoved := @moved_throws fl store i call { call with metered := call.metered + -applied }
        db _ _ hholds hinv hw rfl rfl (add_zero _).symm (fun _ => ⟨hzero, hb⟩) .adapter
      exact moved_of_eq h (by simpa only [hphase] using hmoved)
    · subst hgoing
      cases h
      refine moved_tables hholds hinv hw rfl (add_zero _).symm (add_zero _).symm ?_ nofun
      exact ⟨hm, hb, hspec.2.1, htakes'⟩
  | commit =>
    simp only [Call.advance, hphase] at h
    simp only [Balanced, hphase] at hbal
    obtain ⟨saved, hopen⟩ := hinv.committing hphase
    split at h
    · refine moved_of_eq h (moved_throws hholds hinv hsame rfl (add_zero _).symm
        (add_zero _).symm ?_ .adapter)
      intro hnone
      rw [hnone] at hopen
      cases hopen
    · cases h
      have hundone := hinv.undoable saved hopen
      refine ⟨hrows, ⟨hbal, nofun, nofun⟩, rfl, by simp, by simp, ?_, nofun⟩
      intro j hj
      rw [view_other hopen hj]
      exact hundone.kept
  | entered | returned | threw error =>
    simp only [Call.advance, hphase] at h
    cases h

theorem moved_step (hrows : Rows store.tables) (hinv : CallInv fl store i call)
    (hcareful : Careful fl store call fails) (h : step fl store i call fails = some (store', call')) :
    Moved fl store store' i call call' := by
  unfold step at h
  split at h
  · rename_i owner saved hopen
    have hholds : Holds store i := by
      intro owner' saved' hopen'
      rw [hopen] at hopen'
      split at h
      · rename_i howner
        cases hopen'
        exact howner
      · cases h
    split at h
    · exact moved_advance hholds hrows hinv hcareful h
    · cases h
  · rename_i hclosed
    have hholds : Holds store i := by
      intro owner saved hopen
      rw [hclosed] at hopen
      cases hopen
    split at h
    · rename_i hphase
      have hbal := hinv.balanced
      rw [view_own hholds, hphase] at hbal
      have hsame := wrote_refl hrows (Call.key call)
      split at h
      · cases h
        refine moved_tables hholds hinv hsame rfl (add_zero _).symm (add_zero _).symm ?_ nofun
        exact hbal.1.trans hbal.2.symm
      · split at h
        · cases h
          refine ⟨hrows, ⟨?_, ?_, nofun⟩, rfl, by simp, by simp, ?_, ?_⟩
          · exact ⟨hbal.1, hbal.2, trivial, fun _ hloop => by cases hloop⟩
          · intro saved hopen
            cases hopen
            refine ⟨hrows, Kept.refl _, ?_, ?_⟩
            · intro a r
              rw [hbal.1, share_zero, add_zero]
            · intro a r
              rw [hbal.2, share_zero, add_zero]
          · intro j hj
            rw [view_of_none hclosed]
            have hnew : Store.view { store with transaction := some (i, store.tables) } j
                = store.tables := view_other rfl hj
            rw [hnew]
            exact Kept.refl _
          · intro j saved hopen
            cases hopen
            rfl
        · cases h
          refine moved_tables hholds hinv hsame rfl (add_zero _).symm (add_zero _).symm ?_ nofun
          exact ⟨hbal.1, hbal.2, trivial, fun _ hloop => by cases hloop⟩
    · exact moved_advance hholds hrows hinv hcareful h

end Step

end SuperFunctions.Billfn.UsageMoves

/-!
# The meter and the ledger

What a call has changed the meter by and what it has booked differ only while it is under way.
The compensation after a ledger write that failed is the exception: it takes back less than was
applied when a decrement has used the meter up meanwhile.
-/
namespace SuperFunctions.Billfn.UsageLedger

open Lib.Processes Lib.Transition Usage UsageMeters UsageMoves List

variable (fl : ℚ → ℚ)

section Runs

variable {fl} {m₀ b₀ : String → String → ℚ}

def meteredAt (a r : String) (call : Call) : ℚ := share (Call.key call) (a, r) call.metered

def bookedAt (a r : String) (call : Call) : ℚ := share (Call.key call) (a, r) call.booked

/-- The tables are what they were at the start and what the calls have metered and booked since. -/
structure Inv (fl : ℚ → ℚ) (m₀ b₀ : String → String → ℚ) (s : Deployment) : Prop where
  rows : Rows s.shared.tables
  each : Each (CallInv fl) s
  meter : ∀ a r, metered s.shared.tables a r = m₀ a r + total (meteredAt a r) s
  ledger : ∀ a r, booked s.shared.tables a r = b₀ a r + total (bookedAt a r) s
  owner : ∀ i saved, s.shared.transaction = some (i, saved) → i < s.procs.length

theorem callInv_other {store store' : Store} {i j : Nat} {call call' other : Call}
    (hmoved : Moved fl store store' i call call') (hj : j ≠ i) (h : CallInv fl store j other)
    (hfree : ∀ saved, store.transaction ≠ some (j, saved)) : CallInv fl store' j other := by
  refine ⟨?_, ?_, ?_⟩
  · have hkept := hmoved.kept j hj
    have hbal := h.balanced
    cases hphase : other.phase with
    | update loop | compensate applied loop =>
      rw [hphase] at hbal
      exact ⟨hbal.1, hbal.2.1, hbal.2.2.1.kept hkept, hbal.2.2.2⟩
    | entered | append applied | commit | returned | threw error =>
      rwa [hphase] at hbal
  · intro saved hopen
    exact absurd (hmoved.owner j saved hopen) hj
  · intro hphase
    obtain ⟨saved, hopen⟩ := h.committing hphase
    exact absurd hopen (hfree saved)

theorem step_holds {store store' : Store} {i : Nat} {call call' : Call} {fails : Bool}
    (h : step fl store i call fails = some (store', call')) : Holds store i := by
  intro owner saved hopen
  simp only [step, hopen] at h
  split at h
  · rename_i howner
    exact howner
  · cases h

theorem inv_step (s : Deployment) (a : Act Request Bool) (s' : Deployment) (hinv : Inv fl m₀ b₀ s)
    (hcareful : CarefulAct fl s a) (h : deploymentStep fl s a = some s') : Inv fl m₀ b₀ s' := by
  rcases act_cases h with ⟨request, rfl, rfl⟩ | ⟨i, fails, call, store', call', rfl, hcall, hmove, rfl⟩
  · have hclear : ∀ saved, s.shared.transaction ≠ some (s.procs.length, saved) := by
      intro saved hopen
      exact absurd (hinv.owner _ _ hopen) (by omega)
    refine ⟨hinv.rows, ?_, ?_, ?_, ?_⟩
    · apply each_spawn hinv.each
      refine ⟨⟨rfl, rfl⟩, ?_, nofun⟩
      intro saved hopen
      exact absurd hopen (hclear saved)
    · intro a r
      have hzero : meteredAt a r (incrementUsage request) = 0 := share_zero _ _
      rw [total_spawn, hzero, add_zero]
      exact hinv.meter a r
    · intro a r
      have hzero : bookedAt a r (incrementUsage request) = 0 := share_zero _ _
      rw [total_spawn, hzero, add_zero]
      exact hinv.ledger a r
    · intro i saved hopen
      have hlt := hinv.owner i saved hopen
      rw [List.length_append]
      omega
  · have hlt : i < s.procs.length := (List.getElem?_eq_some_iff.mp hcall).1
    have hmoved := moved_step hinv.rows (hinv.each i call hcall) (hcareful call hcall) hmove
    refine ⟨hmoved.rows, ?_, ?_, ?_, ?_⟩
    · apply each_move hmoved.own
      intro j other hj hother
      apply callInv_other hmoved hj (hinv.each j other hother)
      intro saved hopen
      exact hj (step_holds hmove j saved hopen)
    · intro a r
      rw [total_move _ _ _ hcall, hmoved.meter a r, hinv.meter a r]
      unfold meteredAt
      rw [hmoved.key]
      ring
    · intro a r
      rw [total_move _ _ _ hcall, hmoved.ledger a r, hinv.ledger a r]
      unfold bookedAt
      rw [hmoved.key]
      ring
    · intro j saved hopen
      have hsame := hmoved.owner j saved hopen
      rw [List.length_set]
      omega

/-- All calls have finished. -/
def Finished (call : Call) : Prop := call.phase = .returned ∨ ∃ error, call.phase = .threw error

theorem inv_start {tables : Tables} (hrows : Rows tables) :
    Inv fl (metered tables) (booked tables) (start tables) where
  rows := hrows
  each := each_nil _ _
  meter := by simp [start, total]
  ledger := by simp [start, total]
  owner := by simp [start]

theorem finished_balanced {store : Store} {i : Nat} {call : Call} (h : CallInv fl store i call)
    (hdone : Finished call) : call.metered = call.booked := by
  have hbal := h.balanced
  rcases hdone with hphase | ⟨error, hphase⟩
  · rwa [hphase] at hbal
  · have hzero : call.metered = 0 ∧ call.booked = 0 := by
      rwa [hphase] at hbal
    exact hzero.1.trans hzero.2.symm

end Runs

/-- After any interleaving of careful moves, once all calls have finished, every meter is the sum
of its ledger entries and not below zero, and a call that throws has changed neither: what the
tables hold beyond the start is what the calls have metered and booked. -/
theorem meters_eq_ledgers {tables : Tables} (hrows : Rows tables)
    (heven : ∀ a r, metered tables a r = booked tables a r)
    {acts : List (Act Request Bool)} {s : Deployment}
    (hcareful : Guarded (deploymentStep fl) (CarefulAct fl) (start tables) acts)
    (hrun : run (deploymentStep fl) (start tables) acts = some s)
    (hdone : ∀ call ∈ s.procs, Finished call) :
    (∀ a r, 0 ≤ metered s.shared.tables a r ∧
      metered s.shared.tables a r = booked s.shared.tables a r) ∧
    (∀ call ∈ s.procs, ∀ error, call.phase = .threw error → call.metered = 0 ∧ call.booked = 0) ∧
    ∀ a r, metered s.shared.tables a r = metered tables a r + total (meteredAt a r) s ∧
      booked s.shared.tables a r = booked tables a r + total (bookedAt a r) s := by
  have hinv : Inv fl (metered tables) (booked tables) s :=
    guarded_run_invariant _ inv_step (inv_start hrows) hcareful hrun
  have hcalls : ∀ call ∈ s.procs, call.metered = call.booked := by
    intro call hmem
    obtain ⟨i, hi⟩ := mem_iff_getElem?.mp hmem
    exact finished_balanced (hinv.each i call hi) (hdone call hmem)
  refine ⟨?_, ?_, fun a r => ⟨hinv.meter a r, hinv.ledger a r⟩⟩
  · intro a r
    refine ⟨metered_nonneg hinv.rows a r, ?_⟩
    have htotal : total (meteredAt a r) s = total (bookedAt a r) s := by
      unfold total
      congr 1
      apply map_congr_left
      intro call hmem
      rw [meteredAt, bookedAt, hcalls call hmem]
    rw [hinv.meter, hinv.ledger, heven, htotal]
  · intro call hmem error hphase
    obtain ⟨i, hi⟩ := mem_iff_getElem?.mp hmem
    have hbal := (hinv.each i call hi).balanced
    rwa [hphase] at hbal

/-- Two calls on one meter: 10 is added, the ledger entry fails, and the 10 are released by another
call before the compensation runs. -/
def overlap : List (Act Request Bool) :=
  [.spawn ⟨"acct", "storage", 10, false⟩, .spawn ⟨"acct", "storage", -10, false⟩,
    .move 0 false, .move 0 false, .move 0 false, .move 0 true,
    .move 1 false, .move 1 false, .move 1 false, .move 1 false,
    .move 0 false]

/-- The compensation is clamped at zero: the meter shows 0 and the ledger adds up to -10. -/
theorem overlap_diverges :
    (run (deploymentStep id) (start ⟨[], []⟩) overlap).map (fun s =>
      (metered s.shared.tables "acct" "storage", booked s.shared.tables "acct" "storage",
        s.procs.map (·.phase), s.procs.map (·.metered)))
      = some (0, -10, [.threw .adapter, .returned], [10, -10]) := by
  decide +kernel

/-- The same failure compensated before the other call has read the meter. -/
def inTurn : List (Act Request Bool) :=
  [.spawn ⟨"acct", "storage", 10, false⟩, .spawn ⟨"acct", "storage", 10, false⟩,
    .move 1 false, .move 1 false, .move 1 false, .move 1 false,
    .move 0 false, .move 0 false, .move 0 false, .move 0 true, .move 0 false, .move 0 false]

theorem rows_empty : Rows ⟨[], []⟩ := ⟨nodup_nil, nodup_nil, by simp⟩

theorem inTurn_even :
    Guarded (deploymentStep id) (CarefulAct id) (start ⟨[], []⟩) inTurn ∧
    ∃ s, run (deploymentStep id) (start ⟨[], []⟩) inTurn = some s ∧
      (∀ call ∈ s.procs, Finished call) ∧
      ∀ a r, 0 ≤ metered s.shared.tables a r ∧
        metered s.shared.tables a r = booked s.shared.tables a r := by
  have hcareful : Guarded (deploymentStep id) (CarefulAct id) (start ⟨[], []⟩) inTurn := by
    decide +kernel
  have hdefined : (run (deploymentStep id) (start ⟨[], []⟩) inTurn).isSome = true := by
    decide +kernel
  obtain ⟨s, hrun⟩ := Option.isSome_iff_exists.mp hdefined
  have hphases : (run (deploymentStep id) (start ⟨[], []⟩) inTurn).map
      (fun s => s.procs.map (·.phase)) = some [.threw .adapter, .returned] := by
    decide +kernel
  have hdone : ∀ call ∈ s.procs, Finished call := by
    rw [hrun, Option.map_some, Option.some.injEq] at hphases
    intro call hcall
    have hphase : call.phase ∈ s.procs.map (·.phase) := mem_map_of_mem hcall
    rw [hphases] at hphase
    rcases mem_cons.mp hphase with hthrew | hreturned
    · exact .inr ⟨_, hthrew⟩
    · exact .inl (mem_singleton.mp hreturned)
  exact ⟨hcareful, s, hrun, hdone,
    (meters_eq_ledgers id rows_empty (fun _ _ => rfl) hcareful hrun hdone).1⟩

end SuperFunctions.Billfn.UsageLedger
