import Mathlib.Order.Nat
import SuperFunctions.Datafn.Server.SequenceStore

/-!
# When sequence numbers are issued once

Two stores give out numbers: the counter and the row. As long as the one that allocates has
caught up with the other, no number is issued twice. `ensureMinSeq` does not guarantee this: a
process without a last known number never syncs the row, and the row is written after the range
was taken from the counter.
-/
namespace SuperFunctions.Datafn.Server.SequenceUniqueness

open Lib.Transition SequenceStore List Option Nat

/-- The numbers a call has taken from the counter and may still return. -/
def heldBy (count : Nat) : Pc → List Nat
  | .recordPrimary last => seqs (last + 1 - count) count
  | .ensureMin _ _ (.highWater last) => seqs (last + 1 - count) count
  | _ => []

def held (c : Call) : List Nat := heldBy c.count c.pc

def heldAt (s : State) (id : Nat) : List Nat := ((s.calls id).map held).getD []

/-- A pending update of the row raises it, and reads a number the row can hold. -/
def WellPlaced : Pc → Prop
  | .ensureMin needed (.cas current) _ => current ≤ needed
  | .allocateSecondary _ (.cas current) _ => 1 ≤ current
  | _ => True

structure Unique (s : State) : Prop where
  placed : ∀ id c, s.calls id = some c → WellPlaced c.pc
  issued_bounded : ∀ xs ∈ s.issued, ∀ x ∈ xs, x ≤ s.counter ∨ x < rowNext s
  held_bounded : ∀ id, ∀ x ∈ heldAt s id, x ≤ s.counter
  issued_disjoint : s.issued.Pairwise List.Disjoint
  held_issued : ∀ id, ∀ xs ∈ s.issued, (heldAt s id).Disjoint xs
  held_disjoint : ∀ i j, i ≠ j → (heldAt s i).Disjoint (heldAt s j)

/-- The pending write of the call meets its condition, so that it allocates from the row. -/
def allocates (s : State) (c : Call) : Bool :=
  match c.pc with
  | .allocateSecondary _ .create _ => s.row = none
  | .allocateSecondary _ (.cas current) _ => s.row = some current
  | _ => false

def takesFromCounter : Action → Bool
  | .incr _ .ok => true
  | _ => false

def takesFromRow (s : State) : Action → Bool
  | .allocate id .ok => (s.calls id).any (allocates s)
  | _ => false

/-- The store that is about to give out numbers has caught up with the other one. -/
def CaughtUp (s : State) (a : Action) : Prop :=
  (takesFromCounter a = true → rowNext s ≤ s.counter + 1) ∧
    (takesFromRow s a = true → s.counter < rowNext s)

instance (s : State) (a : Action) : Decidable (CaughtUp s a) :=
  inferInstanceAs (Decidable (_ ∧ _))

/-! ## What one step does -/

/-- The step moves the call `id`, which then holds `numbers`. -/
def MovedTo (s s' : State) (id : Nat) (numbers : List Nat) : Prop :=
  ∃ c, s'.calls = Function.update s.calls id (some c) ∧ WellPlaced c.pc ∧ held c = numbers

/-- A step moves a call without handing out numbers, takes a range from the counter, returns a
range taken before, or allocates a range from the row. Under `guard`, the store that allocates
has caught up with the other. -/
inductive Effect (guard : Prop) (s s' : State) (id : Nat) : Prop where
  | silent (numbers : List Nat) (moved : MovedTo s s' id numbers)
      (kept : numbers ⊆ heldAt s id) (issued : s'.issued = s.issued)
      (counter : s.counter ≤ s'.counter) (row : rowNext s ≤ rowNext s')
  | taken (count : Nat) (moved : MovedTo s s' id (seqs (s.counter + 1) count))
      (issued : s'.issued = s.issued) (counter : s'.counter = s.counter + count)
      (row : rowNext s' = rowNext s) (caughtUp : guard → rowNext s ≤ s.counter + 1)
  | returned (moved : MovedTo s s' id []) (issued : s'.issued = heldAt s id :: s.issued)
      (counter : s.counter ≤ s'.counter) (row : rowNext s ≤ rowNext s')
  | allocated (count : Nat) (moved : MovedTo s s' id [])
      (issued : s'.issued = seqs (rowNext s) count :: s.issued)
      (counter : s'.counter = s.counter) (row : rowNext s' = rowNext s + count)
      (caughtUp : guard → s.counter < rowNext s)

/-- A place at which a call holds no numbers. -/
def Idle (count : Nat) (pc : Pc) : Prop := heldBy count pc = [] ∧ WellPlaced pc

theorem idle_enterFailover (count : Nat) (lastKnown : Option Nat) (inTry : Bool) :
    Idle count (enterFailover lastKnown inTry) := by
  unfold enterFailover
  split
  · exact ⟨rfl, trivial⟩
  · split <;> exact ⟨rfl, trivial⟩

theorem idle_onThrow (count : Nat) (lastKnown : Option Nat) (inTry : Bool) :
    Idle count (onThrow lastKnown inTry) := by
  unfold onThrow
  split
  · exact idle_enterFailover count lastKnown false
  · exact ⟨rfl, trivial⟩

theorem idle_nextAttempt (count : Nat) (lastKnown : Option Nat) (attempt : Nat) (inTry : Bool) :
    Idle count (nextAttempt lastKnown attempt inTry) := by
  unfold nextAttempt
  split
  · exact ⟨rfl, trivial⟩
  · exact idle_onThrow count lastKnown inTry

theorem idle_compareCurrents (count : Nat) (p d : Option Nat) :
    Idle count (compareCurrents p d) := by
  unfold compareCurrents
  split
  · split <;> exact ⟨rfl, trivial⟩
  · exact ⟨rfl, trivial⟩

theorem idle_syncFrom (count target current : Nat) : Idle count (syncFrom target current) := by
  unfold syncFrom
  split <;> exact ⟨rfl, trivial⟩

variable {s : State} {id : Nat}

theorem heldAt_of_call {c : Call} (h : s.calls id = some c) : heldAt s id = held c := by
  unfold heldAt
  rw [h]
  rfl

theorem orOne_pos (n : Nat) : 1 ≤ orOne n := by
  unfold orOne
  split <;> omega

/-- The stores move forward and nothing else changes. -/
structure Advances (s s₁ : State) : Prop where
  calls : s₁.calls = s.calls
  issued : s₁.issued = s.issued
  counter : s.counter ≤ s₁.counter
  row : rowNext s ≤ rowNext s₁

theorem Advances.refl (s : State) : Advances s s := ⟨rfl, rfl, le_refl _, le_refl _⟩

theorem advances_counter (s : State) {counter : Nat} (h : s.counter ≤ counter) :
    Advances s { s with counter := counter } := ⟨rfl, rfl, h, le_refl (rowNext s)⟩

theorem advances_create (s : State) (needed : Nat) (p : Prop) [Decidable p] :
    Advances s { s with row := if p ∧ s.row = none then some needed else s.row } := by
  refine ⟨rfl, rfl, le_refl _, ?_⟩
  split
  case isTrue h =>
    have := orOne_pos needed
    simpa [rowNext, h.2] using this
  case isFalse => exact le_refl _

variable {needed current : Nat}

theorem advances_raise (s : State) (hle : current ≤ needed) (p : Prop) [Decidable p] :
    Advances s { s with row := if p ∧ s.row = some current then some needed else s.row } := by
  refine ⟨rfl, rfl, le_refl _, ?_⟩
  split
  case isTrue h =>
    simp only [rowNext, h.2, map_some, getD_some, orOne]
    split <;> split <;> omega
  case isFalse => exact le_refl _

/-! ### The operations one by one -/

section Operations

variable {guard : Prop} {s s₁ s' : State} {id : Nat} {c : Call}

theorem effect_drop (h : Advances s s₁) {pc : Pc} (hpc : Idle c.count pc) :
    Effect guard s (s₁.setPc id c pc) id :=
  .silent [] ⟨{ c with pc := pc }, by rw [← h.calls]; rfl, hpc.2, hpc.1⟩ (nil_subset _)
    h.issued h.counter h.row

theorem effect_keep (h : Advances s s₁) (hc : s.calls id = some c) {pc : Pc}
    (hpc : heldBy c.count pc = held c) (hplaced : WellPlaced pc) :
    Effect guard s (s₁.setPc id c pc) id :=
  .silent (held c) ⟨{ c with pc := pc }, by rw [← h.calls]; rfl, hplaced, hpc⟩
    (by rw [heldAt_of_call hc]; exact List.Subset.refl _) h.issued h.counter h.row

theorem stepHealth_effect {answer : Option Bool} (h : stepHealth s id c answer = some s') :
    Effect guard s s' id := by
  unfold stepHealth at h
  split at h <;> split at h <;> cases h
  · exact effect_drop (.refl s) ⟨rfl, trivial⟩
  · exact effect_drop (.refl s) (idle_enterFailover _ _ _)
  · exact effect_drop (.refl s) (idle_enterFailover _ _ _)

variable {reply : Reply}

theorem stepReadPrimary_effect (h : stepReadPrimary s id c reply = some s') :
    Effect guard s s' id := by
  unfold stepReadPrimary at h
  split at h <;> cases h
  · exact effect_drop (.refl s) (idle_compareCurrents _ _ _)
  · exact effect_drop (.refl s) (idle_enterFailover _ _ _)

theorem stepReadSecondary_effect (h : stepReadSecondary s id c reply = some s') :
    Effect guard s s' id := by
  unfold stepReadSecondary at h
  split at h <;> cases h
  · exact effect_drop (.refl s) (idle_compareCurrents _ _ _)
  · exact effect_drop (.refl s) (idle_enterFailover _ _ _)

theorem stepSyncPrimary_effect (h : stepSyncPrimary s id c reply = some s') :
    Effect guard s s' id := by
  unfold stepSyncPrimary at h
  split at h <;> cases h
  · exact effect_drop (.refl s) (idle_syncFrom _ _ _)
  · exact effect_drop (.refl s) (idle_enterFailover _ _ _)
  · exact effect_drop (advances_counter s (le_add_right _ _)) (idle_syncFrom _ _ _)
  · refine effect_drop (advances_counter s ?_) (idle_enterFailover _ _ _)
    split <;> omega

theorem stepIncr_effect (h : stepIncr s id c reply = some s') :
    Effect (CaughtUp s (.incr id reply)) s s' id := by
  unfold stepIncr at h
  split at h
  case h_1 =>
    split at h <;> cases h
    case isTrue =>
      refine .taken c.count ⟨{ c with pc := .recordPrimary (s.counter + c.count) }, rfl, trivial, ?_⟩
        rfl rfl rfl fun hg => hg.1 rfl
      change seqs (s.counter + c.count + 1 - c.count) c.count = _
      congr 1
      omega
    case isFalse => exact effect_drop (.refl s) (idle_enterFailover _ _ _)
  case h_2 =>
    cases h
    refine effect_drop (advances_counter s ?_) (idle_enterFailover _ _ _)
    split <;> omega
  case h_3 => cases h

theorem stepSetLastKnown_effect (hc : s.calls id = some c)
    (h : stepSetLastKnown s id c = some s') : Effect guard s s' id := by
  unfold stepSetLastKnown at h
  split at h
  case h_1 last hpc =>
    cases h
    have hadv : Advances s { s with lastKnown := Function.update s.lastKnown c.process (some last) } :=
      ⟨rfl, rfl, le_refl _, le_refl (rowNext s)⟩
    refine effect_keep hadv hc ?_ trivial
    rw [held, hpc]
    rfl
  case h_2 => cases h

variable {purpose : EnsurePurpose} {stage : EnsureStage}

theorem ensureDone_effect (h : Advances s s₁) (hc : s.calls id = some c)
    (hpc : c.pc = .ensureMin needed stage purpose) :
    Effect guard s (ensureDone s₁ id c purpose) id := by
  cases purpose with
  | highWater last =>
    refine .returned ⟨{ c with pc := .returned }, by rw [← h.calls]; rfl, trivial, rfl⟩ ?_
      h.counter h.row
    rw [heldAt_of_call hc, ← h.issued, held, hpc]
    rfl
  | failover inTry => exact effect_drop h ⟨rfl, trivial⟩

theorem ensureFailed_effect (h : Advances s s₁) (purpose : EnsurePurpose) :
    Effect guard s (ensureFailed s₁ id c purpose) id := by
  cases purpose with
  | highWater last => exact effect_drop h (idle_enterFailover _ _ _)
  | failover inTry => exact effect_drop h (idle_onThrow _ _ _)

section

variable (hc : s.calls id = some c)
include hc

theorem ensureCompare_effect (hpc : c.pc = .ensureMin needed stage purpose) :
    Effect guard s (ensureCompare s id c needed current purpose) id := by
  unfold ensureCompare
  split
  case isTrue hlt =>
    refine effect_keep (.refl s) hc ?_ (le_of_lt hlt)
    rw [held, hpc]
    cases purpose <;> rfl
  case isFalse => exact ensureDone_effect (.refl s) hc hpc

theorem stepEnsureMinSeq_effect (hplaced : WellPlaced c.pc)
    (h : stepEnsureMinSeq s id c reply = some s') : Effect guard s s' id := by
  unfold stepEnsureMinSeq at h
  split at h
  case h_2 => cases h
  rename_i needed stage purpose hpc
  have hkeep : ∀ {s₁ stage'}, Advances s s₁ → WellPlaced (.ensureMin needed stage' purpose) →
      Effect guard s (s₁.setPc id c (.ensureMin needed stage' purpose)) id := by
    intro s₁ stage' hadv hp
    refine effect_keep hadv hc ?_ hp
    rw [held, hpc]
    cases purpose <;> rfl
  rw [hpc] at hplaced
  split at h
  case h_1 =>
    split at h <;> cases h
    · exact hkeep (.refl s) trivial
    · exact ensureCompare_effect hc hpc
  case h_2 =>
    cases h
    exact ensureFailed_effect (.refl s) purpose
  case h_3 =>
    split at h <;> cases h
    case isTrue hrow =>
      have hadv := advances_create s needed True
      rw [if_pos ⟨trivial, hrow⟩] at hadv
      exact ensureDone_effect hadv hc hpc
    case isFalse => exact hkeep (.refl s) trivial
  case h_4 effect =>
    cases h
    exact hkeep (advances_create s needed (effect = true)) trivial
  case h_5 =>
    cases h
    exact ensureCompare_effect hc hpc
  case h_6 =>
    cases h
    exact ensureFailed_effect (.refl s) purpose
  case h_7 current =>
    cases h
    have hadv := advances_raise s hplaced True
    simp only [true_and] at hadv
    exact ensureDone_effect hadv hc hpc
  case h_8 =>
    cases h
    exact ensureDone_effect (.refl s) hc hpc
  case h_9 current effect =>
    cases h
    exact ensureFailed_effect (advances_raise s hplaced (effect = true)) purpose
  case h_10 => cases h

theorem stepAllocate_effect (hplaced : WellPlaced c.pc) (h : stepAllocate s id c reply = some s') :
    Effect (CaughtUp s (.allocate id reply)) s s' id := by
  obtain ⟨process, count, pc⟩ := c
  unfold stepAllocate at h
  split at h
  case h_2 => cases h
  rename_i attempt stage inTry hpc
  subst hpc
  split at h
  case isTrue =>
    cases h
    exact effect_drop (.refl s) (idle_onThrow _ _ _)
  case isFalse hv =>
    split at h
    case h_1 =>
      split at h <;> cases h
      · exact effect_drop (.refl s) ⟨rfl, trivial⟩
      · exact effect_drop (.refl s) ⟨rfl, orOne_pos _⟩
    case h_2 =>
      cases h
      exact effect_drop (.refl s) (idle_nextAttempt _ _ _ _)
    case h_3 =>
      split at h <;> cases h
      case isTrue hrow =>
        refine .allocated count ⟨⟨process, count, .returned⟩, rfl, trivial, rfl⟩ ?_ rfl ?_ ?_
        · simp [State.resolve, State.setPc, rowNext, hrow]
        · simp [State.resolve, State.setPc, rowNext, hrow, orOne]
        · exact fun hg => hg.2 (by simp [takesFromRow, allocates, hc, hrow])
      case isFalse => exact effect_drop (.refl s) (idle_nextAttempt _ _ _ _)
    case h_4 effect =>
      cases h
      exact effect_drop (advances_create s (1 + count) (effect = true)) (idle_nextAttempt _ _ _ _)
    case h_5 current =>
      have hpos : current ≠ 0 := by
        have h1 : 1 ≤ current := hplaced
        omega
      split at h <;> cases h
      case isTrue hrow =>
        refine .allocated count ⟨⟨process, count, .returned⟩, rfl, trivial, rfl⟩ ?_ rfl ?_ ?_
        · simp [State.resolve, State.setPc, rowNext, hrow, orOne, hpos]
        · simp [State.resolve, State.setPc, rowNext, hrow, orOne, hpos]
        · exact fun hg => hg.2 (by simp [takesFromRow, allocates, hc, hrow])
      case isFalse => exact effect_drop (.refl s) (idle_nextAttempt _ _ _ _)
    case h_6 =>
      cases h
      exact effect_drop (.refl s) (idle_nextAttempt _ _ _ _)
    case h_7 current effect =>
      cases h
      exact effect_drop (advances_raise s (le_add_right _ _) (effect = true))
        (idle_nextAttempt _ _ _ _)
    case h_8 => cases h

end

theorem step_effect {a : Action} (hplaced : ∀ id c, s.calls id = some c → WellPlaced c.pc)
    (h : step s a = some s') : ∃ id, Effect (CaughtUp s a) s s' id := by
  cases a with
  | getNextN id process count =>
    simp only [step] at h
    split at h <;> cases h
    exact ⟨id, .silent [] ⟨⟨process, count, .checkHealth⟩, rfl, trivial, rfl⟩
      (nil_subset _) rfl (le_refl _) (le_refl _)⟩
  | isHealthy id answer =>
    obtain ⟨c, -, h⟩ := bind_eq_some_iff.mp h
    exact ⟨id, stepHealth_effect h⟩
  | readPrimary id reply =>
    obtain ⟨c, -, h⟩ := bind_eq_some_iff.mp h
    exact ⟨id, stepReadPrimary_effect h⟩
  | readSecondary id reply =>
    obtain ⟨c, -, h⟩ := bind_eq_some_iff.mp h
    exact ⟨id, stepReadSecondary_effect h⟩
  | syncPrimary id reply =>
    obtain ⟨c, -, h⟩ := bind_eq_some_iff.mp h
    exact ⟨id, stepSyncPrimary_effect h⟩
  | incr id reply =>
    obtain ⟨c, -, h⟩ := bind_eq_some_iff.mp h
    exact ⟨id, stepIncr_effect h⟩
  | setLastKnown id =>
    obtain ⟨c, hc, h⟩ := bind_eq_some_iff.mp h
    exact ⟨id, stepSetLastKnown_effect hc h⟩
  | ensureMinSeq id reply =>
    obtain ⟨c, hc, h⟩ := bind_eq_some_iff.mp h
    exact ⟨id, stepEnsureMinSeq_effect hc (hplaced id c hc) h⟩
  | allocate id reply =>
    obtain ⟨c, hc, h⟩ := bind_eq_some_iff.mp h
    exact ⟨id, stepAllocate_effect hc (hplaced id c hc) h⟩

end Operations

/-! ## The invariant -/

theorem mem_seqs {start count x : Nat} : x ∈ seqs start count ↔ start ≤ x ∧ x < start + count := by
  simp only [seqs, mem_range'_1]

variable {s' : State} {numbers : List Nat}

theorem MovedTo.heldAt (h : MovedTo s s' id numbers) (i : Nat) :
    heldAt s' i = if i = id then numbers else heldAt s i := by
  obtain ⟨c, hcalls, -, hheld⟩ := h
  unfold SequenceUniqueness.heldAt
  rw [hcalls]
  by_cases hi : i = id
  · simp [hi, hheld]
  · simp [hi]

theorem MovedTo.placed (h : MovedTo s s' id numbers)
    (hs : ∀ i c, s.calls i = some c → WellPlaced c.pc) :
    ∀ i c, s'.calls i = some c → WellPlaced c.pc := by
  obtain ⟨c', hcalls, hplaced, -⟩ := h
  intro i c hc
  rw [hcalls] at hc
  by_cases hi : i = id
  · subst hi
    rw [Function.update_self] at hc
    cases hc
    exact hplaced
  · rw [Function.update_of_ne hi] at hc
    exact hs i c hc

theorem unique_of_moved (hs : Unique s) (hmoved : MovedTo s s' id numbers)
    (hcounter : s.counter ≤ s'.counter) (hbounded : ∀ x ∈ numbers, x ≤ s'.counter)
    (hissued : s'.issued = s.issued) (hrow : rowNext s ≤ rowNext s')
    (happart : ∀ xs ∈ s.issued, numbers.Disjoint xs)
    (hothers : ∀ i, i ≠ id → (heldAt s i).Disjoint numbers) : Unique s' := by
  constructor
  · exact hmoved.placed hs.placed
  · intro xs hxs x hx
    rw [hissued] at hxs
    rcases hs.issued_bounded xs hxs x hx with h | h
    · exact .inl (h.trans hcounter)
    · exact .inr (h.trans_le hrow)
  · intro i x hx
    rw [hmoved.heldAt] at hx
    split at hx
    · exact hbounded x hx
    · exact (hs.held_bounded i x hx).trans hcounter
  · rw [hissued]
    exact hs.issued_disjoint
  · intro i xs hxs
    rw [hissued] at hxs
    rw [hmoved.heldAt]
    split
    · exact happart xs hxs
    · exact hs.held_issued i xs hxs
  · intro i j hij
    rw [hmoved.heldAt, hmoved.heldAt]
    by_cases hi : i = id
    · rw [if_pos hi, if_neg (fun hj => hij (hi.trans hj.symm))]
      exact disjoint_comm.mp (hothers j fun hj => hij (hi.trans hj.symm))
    · rw [if_neg hi]
      split
      · exact hothers i hi
      · exact hs.held_disjoint i j hij

theorem unique_of_issued (hs : Unique s) (hmoved : MovedTo s s' id [])
    (hissued : s'.issued = numbers :: s.issued) (hcounter : s.counter ≤ s'.counter)
    (hrow : rowNext s ≤ rowNext s') (hbounded : ∀ x ∈ numbers, x ≤ s'.counter ∨ x < rowNext s')
    (happart : ∀ xs ∈ s.issued, numbers.Disjoint xs)
    (hothers : ∀ i, i ≠ id → (heldAt s i).Disjoint numbers) : Unique s' := by
  constructor
  · exact hmoved.placed hs.placed
  · intro xs hxs x hx
    rw [hissued] at hxs
    rcases mem_cons.mp hxs with rfl | hxs
    · exact hbounded x hx
    · rcases hs.issued_bounded xs hxs x hx with h | h
      · exact .inl (h.trans hcounter)
      · exact .inr (h.trans_le hrow)
  · intro i x hx
    rw [hmoved.heldAt] at hx
    split at hx
    · cases hx
    · exact (hs.held_bounded i x hx).trans hcounter
  · rw [hissued, pairwise_cons]
    exact ⟨happart, hs.issued_disjoint⟩
  · intro i xs hxs
    rw [hissued] at hxs
    rw [hmoved.heldAt]
    split
    · exact disjoint_nil_left _
    case isFalse hi =>
      rcases mem_cons.mp hxs with rfl | hxs
      · exact hothers i hi
      · exact hs.held_issued i xs hxs
  · intro i j hij
    rw [hmoved.heldAt, hmoved.heldAt]
    split
    · exact disjoint_nil_left _
    · split
      · exact disjoint_nil_right _
      · exact hs.held_disjoint i j hij

theorem unique_step {a : Action} (hs : Unique s) (hg : CaughtUp s a) (h : step s a = some s') :
    Unique s' := by
  obtain ⟨id, heffect⟩ := step_effect hs.placed h
  cases heffect with
  | silent numbers moved kept issued counter row =>
    refine unique_of_moved hs moved counter (fun x hx => ?_) issued row
      (fun xs hxs x hx => hs.held_issued id xs hxs (kept hx))
      (fun i hi x hxi hx => hs.held_disjoint i id hi hxi (kept hx))
    exact (hs.held_bounded id x (kept hx)).trans counter
  | taken count moved issued counter row caughtUp =>
    have hrow := caughtUp hg
    refine unique_of_moved hs moved (by omega) (fun x hx => ?_) issued row.ge ?_ ?_
    · have := mem_seqs.mp hx
      omega
    · intro xs hxs x hx hmem
      have := mem_seqs.mp hx
      rcases hs.issued_bounded xs hxs x hmem with hle | hlt <;> omega
    · intro i _ x hheld hx
      have := hs.held_bounded i x hheld
      have := mem_seqs.mp hx
      omega
  | returned moved issued counter row =>
    exact unique_of_issued hs moved issued counter row
      (fun x hx => .inl ((hs.held_bounded id x hx).trans counter))
      (fun xs hxs => hs.held_issued id xs hxs) (fun i hi => hs.held_disjoint i id hi)
  | allocated count moved issued counter row caughtUp =>
    have hlt := caughtUp hg
    refine unique_of_issued hs moved issued counter.ge (by omega) (fun x hx => ?_) ?_ ?_
    · have := mem_seqs.mp hx
      exact .inr (by omega)
    · intro xs hxs x hx hmem
      have := mem_seqs.mp hx
      rcases hs.issued_bounded xs hxs x hmem with hle | hlt' <;> omega
    · intro i _ x hheld hx
      have := hs.held_bounded i x hheld
      have := mem_seqs.mp hx
      omega

/-! ## Runs -/

/-- No call is under way and nothing was returned yet; the counter, the row and what the
processes remember are arbitrary. -/
structure Fresh (s : State) : Prop where
  calls : ∀ id, s.calls id = none
  issued : s.issued = []

theorem unique_of_fresh (h : Fresh s) : Unique s := by
  have hheld : ∀ id, heldAt s id = [] := by
    intro id
    unfold heldAt
    rw [h.calls id]
    rfl
  constructor
  · intro id c hc
    rw [h.calls id] at hc
    cases hc
  · simp [h.issued]
  · simp [hheld]
  · rw [h.issued]
    exact List.Pairwise.nil
  · simp [h.issued]
  · intro i j _
    rw [hheld i]
    exact disjoint_nil_left _

/-- In every run in which the allocating store has caught up with the other one, for any number
of processes and any failures, the returned ranges are pairwise disjoint. -/
theorem issued_ranges_disjoint (s₀ s : State) (actions : List Action) (h₀ : Fresh s₀)
    (hg : Guarded step CaughtUp s₀ actions) (hr : run step s₀ actions = some s) :
    s.issued.Pairwise List.Disjoint :=
  (guarded_run_invariant step (fun _ _ _ hs ha hstep => unique_step hs ha hstep)
    (unique_of_fresh h₀) hg hr).issued_disjoint

def initial : State := ⟨0, none, fun _ => none, fun _ => none, []⟩

theorem fresh_initial : Fresh initial := ⟨fun _ => rfl, rfl⟩

/-- Process 1 takes a number from the counter; before it writes the high-water mark, process 2
finds the primary unhealthy and, knowing no primary number, allocates from the missing row. -/
def lateHighWater : List Action :=
  [.getNextN 1 1 1, .isHealthy 1 (some true), .readPrimary 1 .ok, .readSecondary 1 .ok,
    .incr 1 .ok,
    .getNextN 2 2 1, .isHealthy 2 (some false), .allocate 2 .ok, .allocate 2 .ok,
    .setLastKnown 1, .ensureMinSeq 1 .ok]

theorem lateHighWater_issues_twice :
    Fresh initial ∧ ∃ s, run step initial lateHighWater = some s ∧
      s.issued = [[1], [1]] ∧ ¬ s.issued.Pairwise List.Disjoint := by
  refine ⟨fresh_initial, _, rfl, rfl, fun h => ?_⟩
  exact (pairwise_cons.mp h).1 [1] (by decide) (mem_singleton_self 1) (mem_singleton_self 1)

/-- One process takes a number from the counter, writes the mark and then fails over. -/
def orderlyFailover : List Action :=
  [.getNextN 1 1 1, .isHealthy 1 (some true), .readPrimary 1 .ok, .readSecondary 1 .ok,
    .incr 1 .ok, .setLastKnown 1, .ensureMinSeq 1 .ok, .ensureMinSeq 1 .ok,
    .getNextN 2 1 2, .isHealthy 2 (some false), .ensureMinSeq 2 .ok, .allocate 2 .ok,
    .allocate 2 .ok]

theorem orderlyFailover_ranges_disjoint :
    ∃ s, run step initial orderlyFailover = some s ∧ s.issued = [[2, 3], [1]] ∧
      s.issued.Pairwise List.Disjoint :=
  ⟨_, rfl, rfl, issued_ranges_disjoint initial _ orderlyFailover fresh_initial (by decide) rfl⟩

end SuperFunctions.Datafn.Server.SequenceUniqueness
