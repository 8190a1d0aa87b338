import SuperFunctions.Authfn.Regions

/-!
# An identifier belongs to one region

A registration goes on only when the prefixed key names its region, and the key is never given
another region by a write. What takes the name away is a delete, and a delete by a sign-up that has
put the entry there itself, with nobody else relying on it, takes away its own entry only.
-/
namespace SuperFunctions.Authfn.RegionOwners

open Lib.Processes Lib.Transition Regions Option

/-- The registration has passed its check of the lookup store and has not failed since. -/
def Standing : Phase → Prop
  | .refresh | .writeProfile | .project | .setCached | .registered | .signedUp => True
  | _ => False

instance : DecidablePred Standing := fun phase => by
  unfold Standing
  split <;> infer_instance

variable {call' call : Call} {store' store : LookupStore} {record : AuthFnRegionLookupRecord}
  {fails : Bool} {kind : Kind} {i : Nat} {phase : Phase}

section Moves

variable {toLowerCase : String → String} {identifier : String}

/-- The prefixed key names the region that the call registers. -/
def Fits (identifier : String) (store : LookupStore) (kind : Kind) : Prop :=
  ∀ record, entryOf identifier kind = some record →
    ∃ existing, parseLookupRecord store.current = some existing ∧
      existing.regionId = record.regionId

def Readable (store : LookupStore) : Prop :=
  ∀ value, store.current = some value → (parseLookupRecord (some value)).isSome = true

/-- The phase may be entered: a standing one where the entry fits, the refresh of an entry where
that entry names no user. -/
structure Entered (identifier : String) (store : LookupStore) (kind : Kind) (phase : Phase) :
    Prop where
  fits : Standing phase → Fits identifier store kind
  anonymous : phase = .refresh → ∃ existing,
    parseLookupRecord store.current = some existing ∧ normalizeOptionalString existing.userId = none
  notProject : phase ≠ .project

/-- Everything one move can do outside gateway mode. -/
inductive Moved (identifier : String) (store : LookupStore) (call : Call) (fails : Bool) :
    LookupStore → Call → Prop
  | keep (phase : Phase) (hphase : Standing call.phase ∧ phase ≠ .refresh ∧ phase ≠ .project ∨
        Entered identifier store call.kind phase) :
      Moved identifier store call fails store { call with phase := phase }
  | migrate (legacy : AuthFnRegionLookupRecord) (phase : Phase) (hfree : store.current = none)
      (hphase : Entered identifier
        { store with current := some (serializeLookupRecord legacy) } call.kind phase) :
      Moved identifier store call fails { store with current := some (serializeLookupRecord legacy) }
        { call with phase := phase }
  | insert (record : AuthFnRegionLookupRecord) (hfree : store.current = none)
      (hentry : entryOf identifier call.kind = some record) :
      Moved identifier store call fails { store with current := some (serializeLookupRecord record) }
        { call with phase := .writeProfile, insertedLookup := true }
  | refresh (record : AuthFnRegionLookupRecord) (hphase : call.phase = .refresh)
      (hentry : entryOf identifier call.kind = some record) :
      Moved identifier store call fails { store with current := some (serializeLookupRecord record) }
        { call with phase := .writeProfile }
  | delete (phase : Phase) (hphase : call.phase = .takeBack ∨ call.phase = .unregister)
      (hstanding : ¬ Standing phase) (hdone : fails = false) :
      Moved identifier store call fails { store with current := none }
        { call with phase := phase, insertedLookup := false }
  | deleteLegacy (hphase : call.phase = .unregisterLegacy) (hdone : fails = false) :
      Moved identifier store call fails { store with legacy := none } { call with phase := .failed }

theorem entered_of_not_standing (h : ¬ Standing phase) : Entered identifier store kind phase := by
  refine ⟨fun hstanding => absurd hstanding h, ?_, ?_⟩
  · intro hrefresh
    rw [hrefresh] at h
    exact absurd trivial h
  · intro hproject
    rw [hproject] at h
    exact absurd trivial h

variable {found : AuthFnRegionLookupRecord}

theorem checkExisting_entered {existing : AuthFnRegionLookupRecord}
    (hentry : entryOf identifier kind = some record)
    (hfound : parseLookupRecord store.current = some found)
    (hregion : existing.regionId = found.regionId)
    (huser : existing.userId = none → normalizeOptionalString found.userId = none) :
    Entered identifier store kind (checkExisting toLowerCase (some existing) record) := by
  unfold checkExisting
  dsimp only
  split
  · apply entered_of_not_standing
    exact id
  rename_i hsame
  have hfits : Fits identifier store kind := by
    intro r hr
    have hrr : record = r := some.inj (hentry.symm.trans hr)
    subst hrr
    unfold recordsReferToSameRegionUser at hsame
    simp only [Bool.not_eq_true', Bool.and_eq_false_iff, not_or, Bool.not_eq_false,
      decide_eq_true_eq] at hsame
    exact ⟨found, hfound, hregion.symm.trans hsame.1.2⟩
  split
  · rename_i hrefresh
    unfold shouldRefreshExistingLookup at hrefresh
    simp only [Bool.and_eq_true, decide_eq_true_eq] at hrefresh
    exact ⟨fun _ => hfits, fun _ => ⟨found, hfound, huser hrefresh.1⟩, nofun⟩
  · exact ⟨fun _ => hfits, nofun, nofun⟩

theorem afterRead_entered (hfound : parseLookupRecord store.current = some found)
    (hregion : record.regionId = found.regionId)
    (huser : normalizeOptionalString record.userId = none →
      normalizeOptionalString found.userId = none) :
    Entered identifier store kind (afterRead toLowerCase identifier kind (some record)) := by
  unfold afterRead
  split
  · apply entered_of_not_standing
    exact id
  rename_i signUp
  split
  · rename_i region record' hsome hrecord
    cases hrecord
    obtain ⟨userId, someRegion, createdAt, updatedAt⟩ := signUp
    subst hsome
    exact checkExisting_entered rfl hfound hregion huser
  · apply entered_of_not_standing
    exact id

theorem afterRead_none (kind : Kind) : ¬ Standing (afterRead toLowerCase identifier kind none) := by
  unfold afterRead
  split
  · exact id
  · split
    · rename_i hnone
      cases hnone
    · exact id

theorem afterFailure_not_standing (kind : Kind) : ¬ Standing (afterFailure kind) := by
  cases kind <;> exact id

theorem moved_keep (h : ¬ Standing phase) :
    Moved identifier store call fails store { call with phase := phase } :=
  .keep phase (.inr (entered_of_not_standing h))

theorem read_moved (hreadable : Readable store)
    (h : readLookupStoreRecord toLowerCase identifier store call fails = (store', call'))
    (hphase : call.phase = .getCurrent ∨ call.phase = .getLegacy ∨
      ∃ legacy, call.phase = .migrate legacy) : Moved identifier store call fails store' call' := by
  unfold readLookupStoreRecord at h
  split at h
  · cases h
    exact moved_keep (afterFailure_not_standing _)
  split at h
  · split at h
    · rename_i record hfound
      cases h
      exact .keep _ (.inr (afterRead_entered hfound rfl id))
    · cases h
      exact moved_keep id
  · split at h
    · cases h
      exact moved_keep id
    · cases h
      exact moved_keep (afterRead_none _)
  · rename_i legacy _
    split at h
    · rename_i hfree
      cases h
      apply Moved.migrate legacy _ hfree
      have hback : parseLookupRecord (some (serializeLookupRecord legacy)) = some { legacy with
          userId := normalizeOptionalString legacy.userId
          domain := normalizeOptionalString legacy.domain } := rfl
      refine afterRead_entered hback rfl ?_
      intro huser
      rw [huser]
      rfl
    · rename_i value hvalue
      cases h
      obtain ⟨found, hfound⟩ := isSome_iff_exists.mp (hreadable value hvalue)
      rw [hfound, getD_some]
      refine .keep _ (.inr (afterRead_entered ?_ rfl id))
      rwa [hvalue]
  · rename_i hcurrent hlegacy hmigrate
    rcases hphase with hphase | hphase | ⟨legacy, hphase⟩
    · exact absurd hphase hcurrent
    · exact absurd hphase hlegacy
    · exact absurd hphase (hmigrate legacy)

theorem register_moved (hreadable : Readable store)
    (hentry : entryOf identifier call.kind = some record) (hnotProject : call.phase ≠ .project)
    (h : registerUserRegion toLowerCase false store call fails record = (store', call'))
    (hphase : call.phase = .setIfAbsent ∨ call.phase = .refresh ∨ call.phase = .writeProfile ∨
      call.phase = .takeBack) : Moved identifier store call fails store' call' := by
  unfold registerUserRegion at h
  split at h
  · split at h
    · cases h
      exact moved_keep id
    split at h
    · rename_i hfree
      cases h
      exact .insert record hfree hentry
    rename_i value hvalue
    cases h
    obtain ⟨found, hfound⟩ := isSome_iff_exists.mp (hreadable value hvalue)
    rw [hfound]
    refine .keep _ (.inr (checkExisting_entered hentry ?_ rfl ?_))
    · rwa [hvalue]
    · intro hnone
      rw [hnone]
      rfl
  · rename_i hrefresh
    split at h
    · cases h
      exact moved_keep id
    · cases h
      exact .refresh record hrefresh hentry
  · rename_i hwrite
    split at h
    · cases h
      apply moved_keep
      split <;> exact id
    · cases h
      refine .keep _ (.inl ⟨?_, nofun, nofun⟩)
      rw [hwrite]
      trivial
  · rename_i htake
    split at h
    · cases h
      exact moved_keep id
    · rename_i hdone
      cases h
      exact .delete _ (.inl htake) id (by simpa using hdone)
  · rename_i hproject
    exact absurd hproject hnotProject
  rename_i h₁ h₂ h₃ h₄ h₅
  rcases hphase with hphase | hphase | hphase | hphase
  · exact absurd hphase h₁
  · exact absurd hphase h₂
  · exact absurd hphase h₃
  · exact absurd hphase h₄

theorem signUp_moved {signUp : SignUp} (hkind : call.kind = .signUp signUp)
    (h : signUpWithPassword false store call fails signUp = (store', call'))
    (hphase : call.phase = .createPasswordCredential ∨ call.phase = .findRegionProfile ∨
      call.phase = .setCached ∨ call.phase = .registered ∨ call.phase = .unregister ∨
      call.phase = .unregisterLegacy) : Moved identifier store call fails store' call' := by
  unfold signUpWithPassword at h
  split at h
  · rename_i hunregister
    split at h
    · cases h
      exact moved_keep id
    · rename_i hdone
      cases h
      exact .delete _ (.inr hunregister) id (by simpa using hdone)
  · rename_i hlegacy
    split at h
    · cases h
      exact moved_keep id
    · rename_i hdone
      cases h
      exact .deleteLegacy hlegacy (by simpa using hdone)
  · split at h
    · cases h
      exact moved_keep id
    split at h
    · cases h
      exact moved_keep id
    · rename_i hregion
      cases h
      refine .keep _ (.inr ⟨fun _ record hrecord => ?_, nofun, nofun⟩)
      obtain ⟨userId, someRegion, createdAt, updatedAt⟩ := signUp
      subst hregion
      rw [hkind] at hrecord
      cases hrecord
    · cases h
      exact moved_keep id
    · rename_i hcached
      cases h
      refine .keep _ (.inl ⟨?_, nofun, nofun⟩)
      rw [hcached]
      trivial
    · rename_i hunregister hlegacy _ _ _ h₁ h₂ h₃ h₄
      cases h
      refine .keep _ (.inl ⟨?_, nofun, nofun⟩)
      rcases hphase with hphase | hphase | hphase | hphase | hphase | hphase
      · exact absurd hphase h₁
      · cases hregion : signUp.region with
        | none => exact absurd hregion (h₃ hphase)
        | some region => exact absurd hregion (h₄ region hphase)
      · exact absurd hphase h₂
      · rw [hphase]
        trivial
      · exact absurd hphase hunregister
      · exact absurd hphase hlegacy

theorem step_moved (hreadable : Readable store) (hnotProject : call.phase ≠ .project)
    (h : step toLowerCase identifier false store i call fails = some (store', call')) :
    Moved identifier store call fails store' call' := by
  unfold step at h
  split at h
  · cases h
  · cases h
  · cases h
  · rename_i hphase
    exact read_moved hreadable (some.inj h) (.inl hphase)
  · rename_i hphase
    exact read_moved hreadable (some.inj h) (.inr (.inl hphase))
  · rename_i legacy hphase
    exact read_moved hreadable (some.inj h) (.inr (.inr ⟨legacy, hphase⟩))
  · rename_i hphase
    obtain ⟨record, hentry, hregister⟩ := map_eq_some_iff.mp h
    exact register_moved hreadable hentry hnotProject hregister (.inl hphase)
  · rename_i hphase
    obtain ⟨record, hentry, hregister⟩ := map_eq_some_iff.mp h
    exact register_moved hreadable hentry hnotProject hregister (.inr (.inl hphase))
  · rename_i hphase
    obtain ⟨record, hentry, hregister⟩ := map_eq_some_iff.mp h
    exact register_moved hreadable hentry hnotProject hregister (.inr (.inr (.inl hphase)))
  · rename_i hphase
    obtain ⟨record, hentry, hregister⟩ := map_eq_some_iff.mp h
    exact register_moved hreadable hentry hnotProject hregister (.inr (.inr (.inr hphase)))
  · rename_i hphase
    exact absurd hphase hnotProject
  split at h
  · rename_i signUp hkind
    apply signUp_moved hkind (some.inj h)
    cases hphase : call.phase
    all_goals simp_all
  · cases h

end Moves

section Runs

variable {toLowerCase : String → String} {identifier : String}

/-- A delete finds nothing to delete, or what the call's own `setIfAbsent` put there and no other
registration stands on. The second delete of a rollback finds no entry of the past. -/
def CarefulMove (s : Deployment) (i : Nat) (fails : Bool) (call : Call) : Prop :=
  match call.phase with
  | .takeBack | .unregister =>
    fails = true ∨ s.shared.current = none ∨ call.insertedLookup = true ∧
      ∀ j < s.procs.length, j ≠ i → ∀ other ∈ s.procs[j]?, ¬ Standing other.phase
  | .unregisterLegacy => fails = true ∨ parseLookupRecord s.shared.legacy = none
  | _ => True

def CarefulAct (s : Deployment) : Act Kind Bool → Prop
  | .spawn _ => True
  | .move i fails => ∀ call ∈ s.procs[i]?, CarefulMove s i fails call

instance (s : Deployment) (i : Nat) (fails : Bool) (call : Call) :
    Decidable (CarefulMove s i fails call) := by
  unfold CarefulMove
  split <;> infer_instance

instance (s : Deployment) : (a : Act Kind Bool) → Decidable (CarefulAct s a)
  | .spawn _ => isTrue trivial
  | .move i fails => inferInstanceAs (Decidable (∀ call ∈ s.procs[i]?, CarefulMove s i fails call))

/-- An entry that a call has put under the key and not deleted is still there. -/
def Owns (identifier : String) (store : LookupStore) (call : Call) : Prop :=
  call.insertedLookup = true → ∃ record, entryOf identifier call.kind = some record ∧
    store.current = some (serializeLookupRecord record)

structure CallInv (identifier : String) (store : LookupStore) (call : Call) : Prop where
  fits : Standing call.phase → Fits identifier store call.kind
  owns : Owns identifier store call
  present : call.phase = .refresh → store.current ≠ none
  notProject : call.phase ≠ .project

/-- One call at a time has an entry of its own under the key, and while an entry is refreshed no
call has. -/
def Apart (i : Nat) (call : Call) (j : Nat) (other : Call) : Prop :=
  (call.insertedLookup = true → other.insertedLookup = true → i = j) ∧
    (call.phase = .refresh → other.insertedLookup = false)

structure Inv (identifier : String) (s : Deployment) : Prop where
  readable : Readable s.shared
  each : Each (fun store _ call => CallInv identifier store call) s
  apart : Pairs Apart s

theorem entryOf_user (h : entryOf identifier kind = some record) :
    normalizeOptionalString (normalizeOptionalString record.userId) ≠ none := by
  unfold entryOf at h
  split at h
  · rename_i userId region createdAt updatedAt
    cases h
    show normalizeOptionalString (normalizeOptionalString (some userId.text)) ≠ none
    rw [userId.trimmed, userId.trimmed]
    nofun
  · cases h

theorem owned_named (howns : Owns identifier store call) (hinserted : call.insertedLookup = true)
    {existing : AuthFnRegionLookupRecord}
    (hexisting : parseLookupRecord store.current = some existing) :
    normalizeOptionalString existing.userId ≠ none := by
  obtain ⟨record, hentry, hcurrent⟩ := howns hinserted
  rw [hcurrent] at hexisting
  cases hexisting
  exact entryOf_user hentry

variable {s : Deployment}

theorem inserted_free (hinv : Inv identifier s) (hfree : s.shared.current = none) {j : Nat}
    (hcall : s.procs[j]? = some call) : call.insertedLookup = false := by
  cases hinserted : call.insertedLookup with
  | false => rfl
  | true =>
    obtain ⟨record, -, hcurrent⟩ := (hinv.each j call hcall).owns hinserted
    rw [hfree] at hcurrent
    cases hcurrent

theorem standing_free (hinv : Inv identifier s) (hfree : s.shared.current = none) {j : Nat}
    (hcall : s.procs[j]? = some call) (hstanding : Standing call.phase) :
    entryOf identifier call.kind = none := by
  cases hentry : entryOf identifier call.kind with
  | none => rfl
  | some record =>
    obtain ⟨existing, hexisting, -⟩ := (hinv.each j call hcall).fits hstanding record hentry
    rw [hfree] at hexisting
    cases hexisting

theorem callInv_other {other : Call} (h : CallInv identifier store other)
    (hfits : Standing other.phase → Fits identifier store other.kind →
      Fits identifier store' other.kind)
    (howns : other.insertedLookup = true → store'.current = store.current)
    (hpresent : other.phase = .refresh → store'.current ≠ none) :
    CallInv identifier store' other := by
  refine ⟨fun hstanding => hfits hstanding (h.fits hstanding), ?_, hpresent, h.notProject⟩
  intro hinserted
  rw [howns hinserted]
  exact h.owns hinserted

theorem fits_none (h : entryOf identifier kind = none) (store : LookupStore) :
    Fits identifier store kind := by
  intro record hrecord
  rw [h] at hrecord
  cases hrecord

section

variable (hinv : Inv identifier s)
include hinv

theorem inv_keep (hcall : s.procs[i]? = some call)
    (hphase : Standing call.phase ∧ phase ≠ .refresh ∧ phase ≠ .project ∨
      Entered identifier s.shared call.kind phase) :
    Inv identifier ⟨s.shared, s.procs.set i { call with phase := phase }⟩ := by
  have hbefore := hinv.each i call hcall
  refine ⟨hinv.readable, ?_, ?_⟩
  · refine each_move (G := fun store _ call => CallInv identifier store call) ?_
      fun j other _ hother => hinv.each j other hother
    rcases hphase with ⟨hstanding, hrefresh, hproject⟩ | hentered
    · exact ⟨fun _ => hbefore.fits hstanding, hbefore.owns, fun h => absurd h hrefresh, hproject⟩
    refine ⟨hentered.fits, hbefore.owns, ?_, hentered.notProject⟩
    intro hrefresh hnone
    obtain ⟨existing, hexisting, -⟩ := hentered.anonymous hrefresh
    rw [hnone] at hexisting
    cases hexisting
  · have hfree : phase = .refresh → ∀ (j : Nat) (other : Call), s.procs[j]? = some other →
        other.insertedLookup = false := by
      intro hrefresh j other hother
      rcases hphase with ⟨-, hnot, -⟩ | hentered
      · exact absurd hrefresh hnot
      obtain ⟨existing, hexisting, hanonymous⟩ := hentered.anonymous hrefresh
      cases hinserted : other.insertedLookup with
      | false => rfl
      | true =>
        exact absurd hanonymous (owned_named (hinv.each j other hother).owns hinserted hexisting)
    apply pairs_move hinv.apart
    · exact ⟨fun _ _ => rfl, fun hrefresh => hfree hrefresh i call hcall⟩
    · intro j other _ hother
      exact ⟨(hinv.apart i j call other hcall hother).1,
        fun hrefresh => hfree hrefresh j other hother⟩
    · intro j other _ hother
      exact hinv.apart j i other call hother hcall

/-- Where nothing was under the key, nobody had an entry and nobody was refreshing one. -/
theorem apart_free (hfree : s.shared.current = none)
    (hrefresh : call'.phase = .refresh → call'.insertedLookup = false) (store : LookupStore) :
    Pairs Apart (⟨store, s.procs.set i call'⟩ : Deployment) := by
  apply pairs_move hinv.apart
  · exact ⟨fun _ _ => rfl, hrefresh⟩
  · intro j other _ hother
    have hnone := inserted_free hinv hfree hother
    exact ⟨fun _ hinserted => absurd (hnone.symm.trans hinserted) nofun, fun _ => hnone⟩
  · intro j other _ hother
    have hnone := inserted_free hinv hfree hother
    refine ⟨fun hinserted => absurd (hnone.symm.trans hinserted) nofun, ?_⟩
    intro hphase
    exact absurd hfree ((hinv.each j other hother).present hphase)

theorem inv_write {value : LookupValue} (hvalue : (parseLookupRecord (some value)).isSome = true)
    (hfree : s.shared.current = none)
    (hown : CallInv identifier { s.shared with current := some value } call')
    (hrefresh : call'.phase = .refresh → call'.insertedLookup = false) :
    Inv identifier ⟨{ s.shared with current := some value }, s.procs.set i call'⟩ := by
  refine ⟨?_, ?_, apart_free hinv hfree hrefresh _⟩
  · intro v hv
    cases hv
    exact hvalue
  refine each_move (G := fun store _ call => CallInv identifier store call) hown ?_
  intro j other _ hother
  apply callInv_other (hinv.each j other hother)
  · intro hstanding _
    exact fits_none (standing_free hinv hfree hother hstanding) _
  · intro hinserted
    exact absurd ((inserted_free hinv hfree hother).symm.trans hinserted) nofun
  · intro _
    nofun

theorem inv_refresh (hcall : s.procs[i]? = some call) (hphase : call.phase = .refresh)
    (hentry : entryOf identifier call.kind = some record) :
    Inv identifier ⟨{ s.shared with current := some (serializeLookupRecord record) },
      s.procs.set i { call with phase := .writeProfile }⟩ := by
  have hbefore := hinv.each i call hcall
  have hfree : ∀ (j : Nat) (other : Call), s.procs[j]? = some other →
      other.insertedLookup = false :=
    fun j other hother => (hinv.apart i j call other hcall hother).2 hphase
  have hstanding : Standing call.phase := by
    rw [hphase]
    trivial
  obtain ⟨existing, hexisting, hregion⟩ := hbefore.fits hstanding record hentry
  refine ⟨?_, ?_, ?_⟩
  · intro value hvalue
    cases hvalue
    rfl
  · refine each_move (G := fun store _ call => CallInv identifier store call) ?_ ?_
    · refine ⟨fun _ r hr => ?_, ?_, nofun, nofun⟩
      · have hrr : record = r := some.inj (hentry.symm.trans hr)
        subst hrr
        exact ⟨_, rfl, rfl⟩
      · intro hinserted
        exact absurd ((hfree i call hcall).symm.trans hinserted) nofun
    · intro j other _ hother
      apply callInv_other (hinv.each j other hother)
      · intro _ hfits r hr
        obtain ⟨found, hfound, hsame⟩ := hfits r hr
        have heq : existing = found := some.inj (hexisting.symm.trans hfound)
        subst heq
        exact ⟨_, rfl, hregion.symm.trans hsame⟩
      · intro hinserted
        exact absurd ((hfree j other hother).symm.trans hinserted) nofun
      · intro _
        nofun
  · apply pairs_move hinv.apart
    · exact ⟨fun _ _ => rfl, nofun⟩
    · intro j other _ hother
      exact ⟨(hinv.apart i j call other hcall hother).1, nofun⟩
    · intro j other _ hother
      exact hinv.apart j i other call hother hcall

theorem inv_delete (hcall : s.procs[i]? = some call)
    (hcareful : s.shared.current = none ∨ call.insertedLookup = true ∧
      ∀ j < s.procs.length, j ≠ i → ∀ other ∈ s.procs[j]?, ¬ Standing other.phase)
    (hstanding : ¬ Standing phase) : Inv identifier ⟨{ s.shared with current := none },
      s.procs.set i { call with phase := phase, insertedLookup := false }⟩ := by
  have hclear : ∀ (j : Nat) (other : Call), j ≠ i → s.procs[j]? = some other →
      other.insertedLookup = false ∧ (Standing other.phase → entryOf identifier other.kind = none) ∧
        other.phase ≠ .refresh := by
    intro j other hj hother
    rcases hcareful with hfree | ⟨hinserted, halone⟩
    · refine ⟨inserted_free hinv hfree hother, standing_free hinv hfree hother, ?_⟩
      intro hrefresh
      exact (hinv.each j other hother).present hrefresh hfree
    have hlen : j < s.procs.length := (List.getElem?_eq_some_iff.mp hother).1
    have hnot : ¬ Standing other.phase := halone j hlen hj other hother
    refine ⟨?_, fun h => absurd h hnot, ?_⟩
    · cases hother' : other.insertedLookup with
      | false => rfl
      | true => exact absurd ((hinv.apart j i other call hother hcall).1 hother' hinserted) hj
    · intro hrefresh
      rw [hrefresh] at hnot
      exact hnot trivial
  refine ⟨nofun, ?_, ?_⟩
  · refine each_move (G := fun store _ call => CallInv identifier store call) ?_ ?_
    · refine ⟨fun h => absurd h hstanding, nofun, ?_, ?_⟩
      · intro hrefresh
        have hnow : phase = .refresh := hrefresh
        rw [hnow] at hstanding
        exact absurd trivial hstanding
      · intro hproject
        have hnow : phase = .project := hproject
        rw [hnow] at hstanding
        exact absurd trivial hstanding
    · intro j other hj hother
      obtain ⟨hinserted, hnone, hrefresh⟩ := hclear j other hj hother
      apply callInv_other (hinv.each j other hother)
      · intro hother' _
        exact fits_none (hnone hother') _
      · intro hyes
        exact absurd (hinserted.symm.trans hyes) nofun
      · intro hyes
        exact absurd hyes hrefresh
  · apply pairs_move hinv.apart
    · exact ⟨fun _ _ => rfl, fun _ => rfl⟩
    · intro j other hj hother
      exact ⟨nofun, fun _ => (hclear j other hj hother).1⟩
    · intro j other _ _
      exact ⟨fun _ => nofun, fun _ => rfl⟩

end

theorem inv_step (s : Deployment) (a : Act Kind Bool) (s' : Deployment) (hinv : Inv identifier s)
    (hcareful : CarefulAct s a) (h : deploymentStep toLowerCase identifier false s a = some s') :
    Inv identifier s' := by
  rcases act_cases h with ⟨kind, rfl, rfl⟩ | ⟨i, fails, call, store, call', rfl, hcall, hmove, rfl⟩
  · have hnew : (newCall kind).insertedLookup = false := by cases kind <;> rfl
    have hphase : ¬ Standing (newCall kind).phase := by cases kind <;> exact id
    refine ⟨hinv.readable, ?_, ?_⟩
    · apply each_spawn hinv.each
      refine ⟨fun h => absurd h hphase, ?_, ?_, ?_⟩
      · intro hinserted
        exact absurd (hnew.symm.trans hinserted) nofun
      · intro hrefresh
        rw [hrefresh] at hphase
        exact absurd trivial hphase
      · intro hproject
        rw [hproject] at hphase
        exact absurd trivial hphase
    · apply pairs_spawn hinv.apart
      · exact ⟨fun _ _ => rfl, fun _ => hnew⟩
      · intro j other hother
        refine ⟨fun hinserted => absurd (hnew.symm.trans hinserted) nofun, ?_⟩
        intro hrefresh
        rw [hrefresh] at hphase
        exact absurd trivial hphase
      · intro j other hother
        exact ⟨fun _ hinserted => absurd (hnew.symm.trans hinserted) nofun, fun _ => hnew⟩
  · have hguard : CarefulMove s i fails call := hcareful call hcall
    have hmoved := step_moved hinv.readable (hinv.each i call hcall).notProject hmove
    cases hmoved with
    | keep phase hphase => exact inv_keep hinv hcall hphase
    | migrate legacy phase hfree hphase =>
      have hnone := inserted_free hinv hfree hcall
      refine inv_write hinv rfl hfree ⟨hphase.fits, ?_, nofun, hphase.notProject⟩ fun _ => hnone
      intro hinserted
      exact absurd (hnone.symm.trans hinserted) nofun
    | insert record hfree hentry =>
      refine inv_write hinv rfl hfree ⟨?_, fun _ => ⟨record, hentry, rfl⟩, nofun, nofun⟩ nofun
      intro _ r hr
      have hrr : record = r := some.inj (hentry.symm.trans hr)
      subst hrr
      exact ⟨_, rfl, rfl⟩
    | refresh record hphase hentry => exact inv_refresh hinv hcall hphase hentry
    | delete phase hphase hstanding hdone =>
      apply inv_delete hinv hcall _ hstanding
      unfold CarefulMove at hguard
      rcases hphase with hphase | hphase
      · rw [hphase, hdone] at hguard
        exact hguard.resolve_left nofun
      · rw [hphase, hdone] at hguard
        exact hguard.resolve_left nofun
    | deleteLegacy hphase hdone =>
      have hfailed : ¬ Standing .failed := id
      have hkept := inv_keep hinv hcall (.inr (entered_of_not_standing hfailed))
      exact ⟨hkept.readable, fun j other hother => ⟨(hkept.each j other hother).fits,
        (hkept.each j other hother).owns, (hkept.each j other hother).present,
        (hkept.each j other hother).notProject⟩, hkept.apart⟩

/-- `registerUserRegion` has returned the record, and the sign-up is not being rolled back. -/
def Registered (identifier : String) (call : Call) (record : AuthFnRegionLookupRecord) : Prop :=
  entryOf identifier call.kind = some record ∧ (call.phase = .registered ∨ call.phase = .signedUp)

theorem registered_standing (h : Registered identifier call record) : Standing call.phase := by
  rcases h.2 with hphase | hphase
  · rw [hphase]
    trivial
  · rw [hphase]
    trivial

theorem removes_own {s' : Deployment} (hinv : Inv identifier s) (hcall : s.procs[i]? = some call)
    (hcareful : CarefulMove s i fails call)
    (h : deploymentStep toLowerCase identifier false s (.move i fails) = some s') :
    parseLookupRecord s'.shared.legacy = parseLookupRecord s.shared.legacy ∧
      (s.shared.current ≠ none → s'.shared.current = none →
        ∃ record, entryOf identifier call.kind = some record ∧
          s.shared.current = some (serializeLookupRecord record)) := by
  rcases act_cases h with ⟨kind, hact, -⟩ | ⟨j, c, call', store, after, hact, hcall', hmove, rfl⟩
  · cases hact
  cases hact
  have hsame : call = call' := some.inj (hcall.symm.trans hcall')
  subst hsame
  cases step_moved hinv.readable (hinv.each i call hcall).notProject hmove with
  | keep phase hphase => exact ⟨rfl, fun h hnone => absurd hnone h⟩
  | migrate legacy phase hfree hphase => exact ⟨rfl, fun _ hnone => by cases hnone⟩
  | insert record hfree hentry => exact ⟨rfl, fun _ hnone => by cases hnone⟩
  | refresh record hphase hentry => exact ⟨rfl, fun _ hnone => by cases hnone⟩
  | delete phase hphase hstanding hdone =>
    refine ⟨rfl, fun hsome _ => ?_⟩
    have hinserted : call.insertedLookup = true := by
      unfold CarefulMove at hcareful
      rcases hphase with hphase | hphase
      · rw [hphase, hdone] at hcareful
        exact ((hcareful.resolve_left nofun).resolve_left hsome).1
      · rw [hphase, hdone] at hcareful
        exact ((hcareful.resolve_left nofun).resolve_left hsome).1
    exact (hinv.each i call hcall).owns hinserted
  | deleteLegacy hphase hdone =>
    unfold CarefulMove at hcareful
    rw [hphase, hdone] at hcareful
    exact ⟨(hcareful.resolve_left nofun).symm, fun h hnone => absurd hnone h⟩

/-- After any careful run of sign-ups and lookups outside gateway mode the store names the region
of every registration that stands, no registration of another region has got past its check, and
a careful move takes no entry from the store but the mover's own. -/
theorem identifier_in_one_region {store : LookupStore} (hreadable : Readable store)
    {acts : List (Act Kind Bool)} {s : Deployment}
    (hcareful : Guarded (deploymentStep toLowerCase identifier false) CarefulAct ⟨store, []⟩ acts)
    (hrun : run (deploymentStep toLowerCase identifier false) ⟨store, []⟩ acts = some s) :
    (∀ call ∈ s.procs, ∀ record, Registered identifier call record →
      (∃ existing, parseLookupRecord s.shared.current = some existing ∧
        existing.regionId = record.regionId) ∧
      ∀ other ∈ s.procs, ∀ r, entryOf identifier other.kind = some r → Standing other.phase →
        r.regionId = record.regionId) ∧
    ∀ i fails call s', s.procs[i]? = some call → CarefulMove s i fails call →
      deploymentStep toLowerCase identifier false s (.move i fails) = some s' →
      parseLookupRecord s'.shared.legacy = parseLookupRecord s.shared.legacy ∧
        (s.shared.current ≠ none → s'.shared.current = none →
          ∃ record, entryOf identifier call.kind = some record ∧
            s.shared.current = some (serializeLookupRecord record)) := by
  have hstart : Inv identifier ⟨store, []⟩ := ⟨hreadable, each_nil _ _, pairs_nil _ _⟩
  have hinv : Inv identifier s := guarded_run_invariant _ inv_step hstart hcareful hrun
  have hfits : ∀ call ∈ s.procs, Standing call.phase → Fits identifier s.shared call.kind := by
    intro call hmem
    obtain ⟨i, hi⟩ := List.mem_iff_getElem?.mp hmem
    exact (hinv.each i call hi).fits
  refine ⟨?_, fun i fails call s' hcall hguard hstep => removes_own hinv hcall hguard hstep⟩
  intro call hmem record hregistered
  obtain ⟨existing, hexisting, hregion⟩ :=
    hfits call hmem (registered_standing hregistered) record hregistered.1
  refine ⟨⟨existing, hexisting, hregion⟩, ?_⟩
  intro other hother r hr hstanding
  obtain ⟨found, hfound, hsame⟩ := hfits other hother hstanding r hr
  have heq : existing = found := some.inj (hexisting.symm.trans hfound)
  subst heq
  exact hsame.symm.trans hregion

end Runs

section Race

def inRegion (userId : UserId) (region : String) : Act Kind Bool :=
  .spawn (.signUp ⟨userId, some ⟨region, "https://" ++ region, none⟩, "t", "t"⟩)

def ada : UserId := ⟨"user_ada", by decide +kernel⟩

def bob : UserId := ⟨"user_bob", by decide +kernel⟩

def eve : UserId := ⟨"user_eve", by decide +kernel⟩

def moves (i : Nat) (n : Nat) : List (Act Kind Bool) := List.replicate n (.move i false)

/-- A sign-up in "eu" succeeds, one in "us" finds the identifier taken and is rolled back, and a
third one registers in "us". -/
def lostRace : List (Act Kind Bool) :=
  inRegion ada "eu" :: moves 0 8 ++ inRegion bob "us" :: moves 1 5 ++ inRegion eve "us" :: moves 2 8

/-- The rollback has deleted the entry of "eu": the identifier is registered in two regions. -/
theorem lostRace_two_regions :
    (run (deploymentStep String.toLower "a@b" false) ⟨⟨none, none⟩, []⟩ lostRace).map (fun s =>
      ((parseLookupRecord s.shared.current).map (·.regionId), s.procs.map (·.phase))) =
        some (some "us", [.signedUp, .failed, .signedUp]) := by
  decide +kernel

/-- A sign-up in "us" fails at the database and takes its own entry back before one in "eu"
succeeds; another one in "us" then fails at the check and crashes. -/
def inTurn : List (Act Kind Bool) :=
  inRegion bob "us" :: moves 0 5 ++ .move 0 true :: moves 0 3 ++
    inRegion ada "eu" :: moves 1 8 ++ inRegion eve "us" :: moves 2 3

theorem inTurn_one_region :
    ∃ s, run (deploymentStep String.toLower "a@b" false) ⟨⟨none, none⟩, []⟩ inTurn = some s ∧
      s.procs.map (·.phase) = [.failed, .signedUp, .unregister] ∧
      ∀ call ∈ s.procs, ∀ record, Registered "a@b" call record →
        (∃ existing, parseLookupRecord s.shared.current = some existing ∧
          existing.regionId = record.regionId) ∧
        ∀ other ∈ s.procs, ∀ r, entryOf "a@b" other.kind = some r → Standing other.phase →
          r.regionId = record.regionId := by
  have hcareful : Guarded (deploymentStep String.toLower "a@b" false) CarefulAct
      ⟨⟨none, none⟩, []⟩ inTurn := by
    decide +kernel
  have hends : (run (deploymentStep String.toLower "a@b" false) ⟨⟨none, none⟩, []⟩ inTurn).any
      (fun s => decide (s.procs.map (·.phase) = [.failed, .signedUp, .unregister])) = true := by
    decide +kernel
  obtain ⟨s, hrun, hphases⟩ := (any_eq_true _ _).mp hends
  have hreadable : Readable ⟨none, none⟩ := nofun
  exact ⟨s, hrun, of_decide_eq_true hphases, (identifier_in_one_region hreadable hcareful hrun).1⟩

end Race

end SuperFunctions.Authfn.RegionOwners
