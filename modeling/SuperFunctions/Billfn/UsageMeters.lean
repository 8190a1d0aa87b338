import Mathlib.Tactic.Linarith
import Mathlib.Tactic.Ring
import SuperFunctions.Lib.Processes

/-!
# Recording usage

`recordUsage` keeps one meter for each billing account and resource, and appends what it applied
to a ledger. The meter is changed by a compare-and-set that is tried fifty times and never goes
below zero; where the adapter has no transactions, a ledger entry that cannot be written is
answered by a second update of the meter that takes the amount back.
-/
namespace SuperFunctions.Billfn.Usage

open Lib.Processes (System Act act)

structure BillFnUsageMeter where
  id : String
  billingAccountId : String
  resource : String
  current : ℚ
deriving DecidableEq

structure BillFnUsageLedgerEntry where
  billingAccountId : String
  resource : String
  amount : ℚ

structure Tables where
  usageMeters : List BillFnUsageMeter
  usageLedger : List BillFnUsageLedgerEntry

inductive Thrown
  /-- The error of an adapter call, passed on. -/
  | adapter
  | billFn (code message : String)
deriving DecidableEq

def findUsageMeter (db : Tables) (billingAccountId resource : String) : Option BillFnUsageMeter :=
  db.usageMeters.find? fun m => m.billingAccountId = billingAccountId ∧ m.resource = resource

/-- `create` under the two unique indexes of the table; `none` is a duplicate key. -/
def createMeter (db : Tables) (meter : BillFnUsageMeter) : Option Tables :=
  if db.usageMeters.any fun m => m.id = meter.id ∨
      (m.billingAccountId = meter.billingAccountId ∧ m.resource = meter.resource) then none
  else some { db with usageMeters := db.usageMeters ++ [meter] }

/-- The row test of the compare-and-set. -/
def matched (existing m : BillFnUsageMeter) : Bool :=
  m.id = existing.id ∧ m.current = existing.current

/-- `updateMany` with the number of rows it affected. -/
def updateMeters (db : Tables) (existing : BillFnUsageMeter) (nextCurrent : ℚ) : Tables × Nat :=
  ({ db with
      usageMeters := db.usageMeters.map fun m =>
        if matched existing m then { m with current := nextCurrent } else m },
    db.usageMeters.countP (matched existing))

/-- Where the retry loop of `updateUsageMeter` stands. -/
inductive Loop
  | find (attempt : Nat)
  | create (attempt : Nat)
  | write (attempt : Nat) (existing : BillFnUsageMeter)
deriving DecidableEq

inductive Updating
  | going (loop : Loop)
  | returned (appliedAmount : ℚ)
  | threw (error : Thrown)

/-- `fl` rounds the exact result of one addition or subtraction to a number of the language. -/
def nextCurrent (fl : ℚ → ℚ) (current amount : ℚ) : ℚ := max 0 (fl (current + amount))

def nextAppliedAmount (fl : ℚ → ℚ) (current amount : ℚ) : ℚ :=
  fl (nextCurrent fl current amount - current)

def conflict (resource : String) : Thrown :=
  .billFn "BILLFN_CONFLICT" s!"Unable to update usage for {resource} after multiple retries"

/-- One adapter call of the loop; `fails` says that the adapter throws. -/
def updateUsageMeter (fl : ℚ → ℚ) (billingAccountId resource : String) (amount : ℚ)
    (db : Tables) (fails : Bool) : Loop → Tables × Updating
  | .find attempt =>
    if attempt < 50 then
      if fails then (db, .threw .adapter)
      else match findUsageMeter db billingAccountId resource with
        | none => if amount < 0 then (db, .returned 0) else (db, .going (.create attempt))
        | some existing =>
          if nextAppliedAmount fl existing.current amount = 0 then (db, .returned 0)
          else (db, .going (.write attempt existing))
    else (db, .threw (conflict resource))
  | .create attempt =>
    if fails then (db, .threw .adapter)
    else match createMeter db
        ⟨s!"{billingAccountId}:{resource}", billingAccountId, resource, amount⟩ with
      | some created => (created, .returned amount)
      | none => (db, .going (.find (attempt + 1)))
  | .write attempt existing =>
    if fails then (db, .threw .adapter)
    else
      let updated := updateMeters db existing (nextCurrent fl existing.current amount)
      if updated.2 = 1 then (updated.1, .returned (nextAppliedAmount fl existing.current amount))
      else (updated.1, .going (.find (attempt + 1)))

def appendUsageLedgerEntry (db : Tables) (billingAccountId resource : String) (amount : ℚ) :
    Tables :=
  { db with usageLedger := db.usageLedger ++ [⟨billingAccountId, resource, amount⟩] }

inductive Phase
  | entered
  | update (loop : Loop)
  | append (appliedAmount : ℚ)
  | compensate (appliedAmount : ℚ) (loop : Loop)
  | commit
  | returned
  | threw (error : Thrown)
deriving DecidableEq

structure Request where
  billingAccountId : String
  resource : String
  amount : ℚ
  /-- `capabilities.transactions.supported` of the adapter the call was made with. -/
  transactions : Bool

/-- A call of `incrementUsage`. `metered` is what it has changed the meter by and `booked` what it
has added to the ledger, so far. -/
structure Call extends Request where
  phase : Phase
  metered : ℚ
  booked : ℚ

def incrementUsage (request : Request) : Call := ⟨request, .entered, 0, 0⟩

/-- The tables, and while a transaction is open its owner and what a rollback brings back. -/
structure Store where
  tables : Tables
  transaction : Option (Nat × Tables)

def notCompensated (resource : String) : Thrown :=
  .billFn "BILLFN_INTERNAL_ERROR"
    s!"Usage ledger write failed and the {resource} meter could not be compensated"

/-- A callback that throws rolls its transaction back; outside one there is nothing to undo. -/
def Call.throws (call : Call) (store : Store) (tables : Tables) (error : Thrown) : Store × Call :=
  match store.transaction with
  | some (_, saved) => (⟨saved, none⟩, { call with phase := .threw error, metered := 0, booked := 0 })
  | none => (⟨tables, none⟩, { call with phase := .threw error })

/-- A call that has nothing more to write commits its transaction when it is in one. -/
def Call.finishes (call : Call) (store : Store) (tables : Tables) : Store × Call :=
  match store.transaction with
  | some _ => ({ store with tables := tables }, { call with phase := .commit })
  | none => (⟨tables, none⟩, { call with phase := .returned })

/-- The next adapter call of a call that is allowed to reach the tables. -/
def Call.advance (fl : ℚ → ℚ) (call : Call) (store : Store) (fails : Bool) :
    Option (Store × Call) :=
  match call.phase with
  | .update loop =>
    match updateUsageMeter fl call.billingAccountId call.resource call.amount store.tables fails
        loop with
    | (db, .going loop') => some ({ store with tables := db }, { call with phase := .update loop' })
    | (db, .threw error) => some (call.throws store db error)
    | (db, .returned applied) =>
      if applied = 0 then some (call.finishes store db)
      else some ({ store with tables := db }, { call with phase := .append applied, metered := applied })
  | .append applied =>
    if fails then
      if store.transaction.isSome then some (call.throws store store.tables .adapter)
      else some (store, { call with phase := .compensate applied (.find 0) })
    else
      some ({ call with booked := applied }.finishes store
        (appendUsageLedgerEntry store.tables call.billingAccountId call.resource applied))
  | .compensate applied loop =>
    match updateUsageMeter fl call.billingAccountId call.resource (-applied) store.tables fails
        loop with
    | (db, .going loop') =>
      some ({ store with tables := db }, { call with phase := .compensate applied loop' })
    | (db, .threw _) => some (call.throws store db (notCompensated call.resource))
    | (db, .returned back) =>
      some ({ call with metered := call.metered + back }.throws store db .adapter)
  | .commit =>
    if fails then some (call.throws store store.tables .adapter)
    else some (⟨store.tables, none⟩, { call with phase := .returned })
  | _ => none

/-- A call moves when no other one has a transaction open: a transaction is isolated. -/
def step (fl : ℚ → ℚ) (store : Store) (i : Nat) (call : Call) (fails : Bool) :
    Option (Store × Call) :=
  match store.transaction with
  | some (owner, _) => if owner = i then call.advance fl store fails else none
  | none =>
    match call.phase with
    | .entered =>
      if call.amount = 0 then some (store, { call with phase := .returned })
      else if call.transactions then
        some ({ store with transaction := some (i, store.tables) },
          { call with phase := .update (.find 0) })
      else some (store, { call with phase := .update (.find 0) })
    | _ => call.advance fl store fails

abbrev Deployment := System Store Call

/-- One action of a deployment in which any number of calls are under way. -/
def deploymentStep (fl : ℚ → ℚ) : Deployment → Act Request Bool → Option Deployment :=
  act incrementUsage (step fl)

def start (tables : Tables) : Deployment := ⟨⟨tables, none⟩, []⟩

/-- What the meter shows, an absent one being zero. -/
def metered (db : Tables) (billingAccountId resource : String) : ℚ :=
  ((findUsageMeter db billingAccountId resource).map (·.current)).getD 0

/-- The sum of the ledger entries. -/
def booked (db : Tables) (billingAccountId resource : String) : ℚ :=
  ((db.usageLedger.filter fun e => e.billingAccountId = billingAccountId ∧
    e.resource = resource).map (·.amount)).sum

end SuperFunctions.Billfn.Usage

/-!
# What one adapter call does to the meters

The rows of the table are told apart by their id and by their account and resource, and none of
them is below zero. A call of the retry loop changes the meter by exactly what it reports.
-/
namespace SuperFunctions.Billfn.UsageMeters

open Usage List

def BillFnUsageMeter.key (m : BillFnUsageMeter) : String × String :=
  (m.billingAccountId, m.resource)

/-- What the unique indexes of the table and the clamp keep true. -/
structure Rows (db : Tables) : Prop where
  ids : (db.usageMeters.map (·.id)).Nodup
  keys : (db.usageMeters.map BillFnUsageMeter.key).Nodup
  nonneg : ∀ m ∈ db.usageMeters, 0 ≤ m.current

/-- The row of a meter, found by its id. -/
def HasRow (db : Tables) (id : String) (key : String × String) : Prop :=
  ∃ m ∈ db.usageMeters, m.id = id ∧ BillFnUsageMeter.key m = key

/-- Every row is still there, under the same id and for the same account and resource. -/
def Kept (db db' : Tables) : Prop :=
  ∀ id key, HasRow db id key → HasRow db' id key

theorem Kept.refl (db : Tables) : Kept db db := fun _ _ => id

theorem Kept.trans {a b c : Tables} (hab : Kept a b) (hbc : Kept b c) : Kept a c :=
  fun id key h => hbc id key (hab id key h)

/-- An amount counted for one account and resource only. -/
def share (key key' : String × String) (amount : ℚ) : ℚ := if key' = key then amount else 0

@[simp] theorem share_zero (key key' : String × String) : share key key' 0 = 0 := by
  simp [share]

theorem share_add (key key' : String × String) (x y : ℚ) :
    share key key' (x + y) = share key key' x + share key key' y := by
  unfold share
  split <;> simp

section Find

variable {db : Tables} {a r : String} {m : BillFnUsageMeter}

theorem mem_of_find (h : findUsageMeter db a r = some m) : m ∈ db.usageMeters :=
  mem_of_find?_eq_some h

theorem key_of_find (h : findUsageMeter db a r = some m) : BillFnUsageMeter.key m = (a, r) := by
  have htest := find?_some h
  simp only [decide_eq_true_eq] at htest
  exact Prod.ext htest.1 htest.2

theorem find_of_mem (hrows : Rows db) (hm : m ∈ db.usageMeters)
    (hkey : BillFnUsageMeter.key m = (a, r)) : findUsageMeter db a r = some m := by
  cases hfind : findUsageMeter db a r with
  | none =>
    have hnot := find?_eq_none.mp hfind m hm
    have ha : m.billingAccountId = a := congrArg Prod.fst hkey
    have hr : m.resource = r := congrArg Prod.snd hkey
    simp [ha, hr] at hnot
  | some n =>
    have hsame : BillFnUsageMeter.key n = BillFnUsageMeter.key m :=
      (key_of_find hfind).trans hkey.symm
    rw [inj_on_of_nodup_map hrows.keys (mem_of_find hfind) hm hsame]

theorem metered_of_find (h : findUsageMeter db a r = some m) : metered db a r = m.current := by
  simp [metered, h]

theorem metered_of_none (h : findUsageMeter db a r = none) : metered db a r = 0 := by
  simp [metered, h]

theorem metered_nonneg (hrows : Rows db) (a r : String) : 0 ≤ metered db a r := by
  cases hfind : findUsageMeter db a r with
  | none => exact (metered_of_none hfind).ge
  | some m =>
    rw [metered_of_find hfind]
    exact hrows.nonneg m (mem_of_find hfind)

theorem hasRow_of_find (h : findUsageMeter db a r = some m) : HasRow db m.id (a, r) :=
  ⟨m, mem_of_find h, rfl, key_of_find h⟩

end Find

/-- The meter of one account and resource changed by an amount, and nothing else did. -/
structure Changed (db db' : Tables) (key : String × String) (amount : ℚ) : Prop where
  rows : Rows db'
  kept : Kept db db'
  ledger : db'.usageLedger = db.usageLedger
  meter : ∀ a r, metered db' a r = metered db a r + share key (a, r) amount

theorem changed_refl {db : Tables} (hrows : Rows db) (key : String × String) :
    Changed db db key 0 where
  rows := hrows
  kept := Kept.refl db
  ledger := rfl
  meter := by simp

section Create

variable {db db' : Tables} {meter : BillFnUsageMeter}

theorem createMeter_eq (h : createMeter db meter = some db') :
    (∀ m ∈ db.usageMeters, m.id ≠ meter.id ∧ BillFnUsageMeter.key m ≠ BillFnUsageMeter.key meter) ∧
    db' = { db with usageMeters := db.usageMeters ++ [meter] } := by
  unfold createMeter at h
  split at h
  · cases h
  rename_i hfree
  refine ⟨fun m hm => ?_, (Option.some.inj h).symm⟩
  simp only [List.any_eq_true, not_exists, not_and, decide_eq_true_eq, not_or] at hfree
  obtain ⟨hid, hkey⟩ := hfree m hm
  refine ⟨hid, fun hsame => ?_⟩
  exact hkey (congrArg Prod.fst hsame) (congrArg Prod.snd hsame)

theorem rows_create (hrows : Rows db) (hnonneg : 0 ≤ meter.current)
    (h : createMeter db meter = some db') : Rows db' := by
  obtain ⟨hfree, rfl⟩ := createMeter_eq h
  constructor
  · exact Lib.Processes.nodup_map_append hrows.ids fun m hm => (hfree m hm).1
  · exact Lib.Processes.nodup_map_append hrows.keys fun m hm => (hfree m hm).2
  intro m hm
  rcases mem_append.mp hm with hold | hnew
  · exact hrows.nonneg m hold
  · rwa [mem_singleton.mp hnew]

theorem changed_create (hrows : Rows db) (hnonneg : 0 ≤ meter.current)
    (h : createMeter db meter = some db') :
    Changed db db' (BillFnUsageMeter.key meter) meter.current := by
  have hrows' := rows_create hrows hnonneg h
  obtain ⟨hfree, rfl⟩ := createMeter_eq h
  refine ⟨hrows', ?_, rfl, ?_⟩
  · rintro id key ⟨m, hm, hid, hkey⟩
    exact ⟨m, mem_append_left _ hm, hid, hkey⟩
  intro a r
  have hlast : meter ∈ db.usageMeters ++ [meter] := by simp
  by_cases hkey : (a, r) = BillFnUsageMeter.key meter
  · have hnone : findUsageMeter db a r = none := by
      rw [findUsageMeter, find?_eq_none]
      intro m hm htest
      simp only [decide_eq_true_eq] at htest
      exact (hfree m hm).2 ((Prod.ext htest.1 htest.2 : BillFnUsageMeter.key m = (a, r)).trans hkey)
    rw [metered_of_find (find_of_mem hrows' hlast hkey.symm), metered_of_none hnone, share,
      if_pos hkey, zero_add]
  · rw [share, if_neg hkey, add_zero]
    cases hfind : findUsageMeter db a r with
    | none =>
      have hnone : findUsageMeter { db with usageMeters := db.usageMeters ++ [meter] } a r
          = none := by
        rw [findUsageMeter, find?_eq_none]
        intro m hm htest
        simp only [decide_eq_true_eq] at htest
        rcases mem_append.mp hm with hold | hnew
        · exact find?_eq_none.mp hfind m hold (by simpa using htest)
        · rw [mem_singleton.mp hnew] at htest
          exact hkey (Prod.ext htest.1.symm htest.2.symm)
      rw [metered_of_none hnone, metered_of_none hfind]
    | some m =>
      have hmem : m ∈ db.usageMeters ++ [meter] := mem_append_left _ (mem_of_find hfind)
      rw [metered_of_find (find_of_mem hrows' hmem (key_of_find hfind)), metered_of_find hfind]

end Create

section Update

variable {db : Tables} {existing : BillFnUsageMeter} {key : String × String} {next : ℚ}

/-- The row the compare-and-set writes. -/
def written (existing : BillFnUsageMeter) (next : ℚ) (m : BillFnUsageMeter) : BillFnUsageMeter :=
  if matched existing m then { m with current := next } else m

@[simp] theorem written_id (m : BillFnUsageMeter) : (written existing next m).id = m.id := by
  unfold written
  split <;> rfl

@[simp] theorem written_key (m : BillFnUsageMeter) :
    BillFnUsageMeter.key (written existing next m) = BillFnUsageMeter.key m := by
  unfold written
  split <;> rfl

theorem matched_iff (m : BillFnUsageMeter) :
    matched existing m = true ↔ m.id = existing.id ∧ m.current = existing.current := by
  simp [matched]

theorem key_of_matched (hrows : Rows db) (hrow : HasRow db existing.id key)
    {m : BillFnUsageMeter} (hm : m ∈ db.usageMeters) (hmatch : matched existing m = true) :
    BillFnUsageMeter.key m = key := by
  obtain ⟨n, hn, hid, hkey⟩ := hrow
  have hsame : m.id = n.id := ((matched_iff m).mp hmatch).1.trans hid.symm
  rwa [inj_on_of_nodup_map hrows.ids hm hn hsame]

theorem updateMeters_tables :
    (updateMeters db existing next).1
      = { db with usageMeters := db.usageMeters.map (written existing next) } := rfl

theorem affected_le_one (hrows : Rows db) : (updateMeters db existing next).2 ≤ 1 := by
  have hcount : db.usageMeters.countP (matched existing)
      ≤ db.usageMeters.countP fun m => m.id == existing.id := by
    apply countP_mono_left
    intro m _ hm
    exact beq_iff_eq.mpr ((matched_iff m).mp hm).1
  have hone := nodup_iff_count_le_one.mp hrows.ids existing.id
  rw [List.count, countP_map] at hone
  exact hcount.trans hone

theorem updateMeters_lost (hrows : Rows db) (hlost : (updateMeters db existing next).2 ≠ 1) :
    (updateMeters db existing next).1 = db := by
  have hle : (updateMeters db existing next).2 ≤ 1 := affected_le_one hrows
  have hzero : db.usageMeters.countP (matched existing) = 0 := by
    have hdef : (updateMeters db existing next).2 = db.usageMeters.countP (matched existing) := rfl
    omega
  have hnone := List.countP_eq_zero.mp hzero
  have hid : db.usageMeters.map (written existing next) = db.usageMeters := by
    have hfixed : ∀ m ∈ db.usageMeters, written existing next m = id m := by
      intro m hm
      exact if_neg (hnone m hm)
    rw [List.map_congr_left hfixed, List.map_id]
  rw [updateMeters_tables, hid]

theorem rows_updateMeters (hrows : Rows db) (hnext : 0 ≤ next) :
    Rows (updateMeters db existing next).1 := by
  rw [updateMeters_tables]
  constructor
  · have hids : (db.usageMeters.map (written existing next)).map (·.id)
        = db.usageMeters.map (·.id) := by
      simp
    exact hids ▸ hrows.ids
  · have hkeys : (db.usageMeters.map (written existing next)).map BillFnUsageMeter.key
        = db.usageMeters.map BillFnUsageMeter.key := by
      simp
    exact hkeys ▸ hrows.keys
  · refine forall_mem_map.mpr fun n hn => ?_
    unfold written
    split
    · exact hnext
    · exact hrows.nonneg n hn

theorem find_updateMeters (a r : String) :
    findUsageMeter (updateMeters db existing next).1 a r
      = (findUsageMeter db a r).map (written existing next) := by
  rw [updateMeters_tables, findUsageMeter, findUsageMeter, find?_map]
  congr 2
  funext m
  have hkey : BillFnUsageMeter.key (written existing next m) = BillFnUsageMeter.key m :=
    written_key m
  have ha : (written existing next m).billingAccountId = m.billingAccountId :=
    congrArg Prod.fst hkey
  have hr : (written existing next m).resource = m.resource := congrArg Prod.snd hkey
  simp [ha, hr]

theorem changed_updateMeters (hrows : Rows db) (hnext : 0 ≤ next)
    (hrow : HasRow db existing.id key) (hwon : (updateMeters db existing next).2 = 1) :
    Changed db (updateMeters db existing next).1 key (next - existing.current) := by
  refine ⟨rows_updateMeters hrows hnext, ?_, rfl, ?_⟩
  · rintro id key' ⟨m, hm, hid, hkey⟩
    exact ⟨written existing next m, mem_map_of_mem hm, by simpa using hid, by simpa using hkey⟩
  have hpos : 0 < db.usageMeters.countP (matched existing) := by
    have hdef : (updateMeters db existing next).2 = db.usageMeters.countP (matched existing) := rfl
    omega
  obtain ⟨m₀, hm₀, hmatch⟩ := countP_pos_iff.mp hpos
  have hkey₀ := key_of_matched hrows hrow hm₀ hmatch
  have hfound : findUsageMeter db key.1 key.2 = some m₀ := find_of_mem hrows hm₀ hkey₀
  intro a r
  have hfind : findUsageMeter (updateMeters db existing next).1 a r
      = (findUsageMeter db a r).map (written existing next) := find_updateMeters a r
  by_cases hkey : (a, r) = key
  · subst hkey
    rw [hfound, Option.map_some] at hfind
    rw [metered_of_find hfind, metered_of_find hfound, share, if_pos rfl, written, if_pos hmatch,
      ((matched_iff m₀).mp hmatch).2]
    ring
  · rw [share, if_neg hkey, add_zero]
    cases hold : findUsageMeter db a r with
    | none =>
      rw [hold, Option.map_none] at hfind
      rw [metered_of_none hfind, metered_of_none hold]
    | some m =>
      have hother : matched existing m ≠ true := by
        intro hm
        have hmkey := key_of_matched hrows hrow (mem_of_find hold) hm
        exact hkey ((key_of_find hold).symm.trans hmkey)
      rw [hold, Option.map_some, written, if_neg hother] at hfind
      rw [metered_of_find hfind, metered_of_find hold]

end Update

section Loop

variable (fl : ℚ → ℚ)

/-- The row a compare-and-set is about to write was read from the meter it belongs to. -/
def LoopRow (db : Tables) (key : String × String) : Loop → Prop
  | .write _ existing => HasRow db existing.id key
  | _ => True

/-- The difference the loop reports is the difference it has made. -/
def Exact (current amount : ℚ) : Prop :=
  nextAppliedAmount fl current amount = nextCurrent fl current amount - current

def LoopExact (amount : ℚ) : Loop → Prop
  | .write _ existing => Exact fl existing.current amount
  | .create _ => 0 ≤ amount
  | .find _ => True

def reported : Updating → ℚ
  | .returned applied => applied
  | _ => 0

/-- Where the loop goes on, it has read the row it is about to write. -/
def Continues (db : Tables) (key : String × String) (amount : ℚ) : Updating → Prop
  | .going loop => LoopRow db key loop ∧ ∀ n, loop = .create n → 0 ≤ amount
  | _ => True

variable {fl} {loop : Loop}

theorem LoopRow.kept {db db' : Tables} {key : String × String} (hkept : Kept db db')
    (h : LoopRow db key loop) : LoopRow db' key loop := by
  cases loop with
  | write n existing => exact hkept _ _ h
  | find n => trivial
  | create n => trivial

theorem updateUsageMeter_spec {a r : String} {amount : ℚ} {db db' : Tables} {fails : Bool}
    {result : Updating} (hrows : Rows db) (hrow : LoopRow db (a, r) loop)
    (hexact : LoopExact fl amount loop)
    (h : updateUsageMeter fl a r amount db fails loop = (db', result)) :
    Changed db db' (a, r) (reported result) ∧ Continues db' (a, r) amount result := by
  have hsame : Changed db db (a, r) 0 := changed_refl hrows _
  cases loop with
  | find n =>
    simp only [updateUsageMeter] at h
    split at h
    · split at h
      · cases h
        exact ⟨hsame, trivial⟩
      split at h
      · split at h
        · cases h
          exact ⟨hsame, trivial⟩
        · cases h
          exact ⟨hsame, trivial, fun _ _ => by linarith⟩
      · rename_i existing hfind
        split at h
        · cases h
          exact ⟨hsame, trivial⟩
        · cases h
          exact ⟨hsame, hasRow_of_find hfind, fun _ hloop => by cases hloop⟩
    · cases h
      exact ⟨hsame, trivial⟩
  | create n =>
    simp only [updateUsageMeter] at h
    split at h
    · cases h
      exact ⟨hsame, trivial⟩
    split at h
    · rename_i created hcreate
      cases h
      have hnonneg : 0 ≤ amount := hexact
      exact ⟨changed_create hrows hnonneg hcreate, trivial⟩
    · cases h
      exact ⟨hsame, trivial, fun _ hloop => by cases hloop⟩
  | write n existing =>
    have hnext : 0 ≤ nextCurrent fl existing.current amount := le_max_left _ _
    simp only [updateUsageMeter] at h
    split at h
    · cases h
      exact ⟨hsame, trivial⟩
    split at h
    · rename_i hwon
      cases h
      have hchanged := changed_updateMeters hrows hnext hrow hwon
      have hreported : reported (.returned (nextAppliedAmount fl existing.current amount))
          = nextCurrent fl existing.current amount - existing.current := hexact
      exact ⟨hreported ▸ hchanged, trivial⟩
    · rename_i hlost
      rw [updateMeters_lost hrows hlost] at h
      cases h
      exact ⟨hsame, trivial, fun _ hloop => by cases hloop⟩

end Loop

end SuperFunctions.Billfn.UsageMeters
