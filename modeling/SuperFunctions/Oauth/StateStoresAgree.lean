import SuperFunctions.Lib.Processes
import SuperFunctions.Oauth.StateStores

/-!
# Both state stores on the same calls

The stores hold the same records as long as the texts of the timestamps they compare have the order
of their instants, and the subjects survive their JSON text. Then they answer alike, and a state is
consumed in time and once.
-/
namespace SuperFunctions.Oauth.StateStoresAgree

open Lib.OrderedMap Lib.KeyedTables Lib.Transition Timestamps StateStores Option

variable {M : Type}

structure Event (M : Type) where
  call : Call M
  database : Answer M
  memory : Answer M

/-- The two stores and what they answered, the last call first. -/
structure World (M : Type) where
  records : MemoryOAuthStateStore.Records M
  rows : DbAdapterOAuthStateStore.Rows M
  log : List (Event M)

def start : World M where
  records := .empty
  rows := .empty
  log := []

variable (json : Json M) (adapter : Chooser (StateRow M))

def next (w : World M) (call : Call M) : World M where
  records := (MemoryOAuthStateStore.answer w.records call).1
  rows := (DbAdapterOAuthStateStore.answer json adapter w.rows call).1
  log := ⟨call, (DbAdapterOAuthStateStore.answer json adapter w.rows call).2,
    (MemoryOAuthStateStore.answer w.records call).2⟩ :: w.log

def step (w : World M) (call : Call M) : Option (World M) := some (next json adapter w call)

/-- The record that the database answered to a consumption. -/
def Event.consumed (e : Event M) : Option (OAuthStateRecord M) :=
  match e.call, e.database with
  | .consume .., .found (some record) => some record
  | _, _ => none

/-- Whether the call put the state and was not refused. -/
def Event.puts (e : Event M) (stateId : String) : Bool :=
  match e.call, e.database with
  | .put record, .stored => record.stateId == stateId
  | _, _ => false

/-- The state was consumed after it was last put. -/
def spent (stateId : String) : List (Event M) → Bool
  | [] => false
  | e :: older =>
    if e.puts stateId then false
    else (e.consumed.any fun record => record.stateId == stateId) || spent stateId older

/-- Consumed before it expires, and not consumed before. -/
def inTimeAndOnce : List (Event M) → Prop
  | [] => True
  | e :: older =>
    (∀ stateId consumedAt record, e.call = .consume stateId consumedAt → e.consumed = some record →
      record.stateId = stateId ∧ instantBefore consumedAt.text record.expiresAt = true ∧
        spent stateId older = false) ∧ inTimeAndOnce older

structure Agree (w : World M) : Prop where
  same : ∀ e ∈ w.log, e.database = e.memory
  once : inTimeAndOnce w.log

variable [DecidableEq M]

/-- The subject is the same after its JSON text, an unconsumed state has no consumption time, and
the texts compared have the order of their instants. -/
def alike (w : World M) : Call M → Bool
  | .put record =>
    record.consumedAt != some "" &&
      match resolveOAuthStoredSubject record with
      | .ok subject => decide (subjectThroughJson json subject = some subject)
      | .error _ => true
  | .get _ => true
  | .consume stateId consumedAt =>
    (w.rows.get stateId).all fun row =>
      row.consumedAt.isSome || comparesAlike consumedAt.text row.expiresAt
  | .deleteExpired before => w.rows.values.all fun row => comparesAlike row.expiresAt before.text

/-! ## What a stored record reads back as -/

variable {record : OAuthStateRecord M} {row : StateRow M}

section Mapping

omit [DecidableEq M]

theorem bind_ok {α β : Type} {x : Except StoreError α} {f : α → Except StoreError β} {b : β}
    (h : x >>= f = .ok b) : ∃ a, x = .ok a ∧ f a = .ok b := by
  cases x with
  | error e => cases h
  | ok a => exact ⟨a, rfl, h⟩

variable {subject : OAuthStoredSubject M}

theorem resolve_cases (h : resolveOAuthStoredSubject record = .ok subject) :
    validateOAuthStoredSubject subject = .ok () := by
  simp only [resolveOAuthStoredSubject] at h
  split at h
  · cases h
  rename_i given _
  cases hvalid : validateOAuthStoredSubject given with
  | error e =>
    rw [hvalid] at h
    cases h
  | ok u =>
    rw [hvalid] at h
    have hsame : given = subject := Except.ok.inj h
    rwa [← hsame]

theorem withSubject_kept (record : OAuthStateRecord M) (subject : OAuthStoredSubject M) :
    (withSubject record subject).subject = some subject ∧
      (withSubject record subject).stateId = record.stateId ∧
      (withSubject record subject).expiresAt = record.expiresAt ∧
      (withSubject record subject).consumedAt = record.consumedAt := by
  cases subject with
  | connection tenantId userId connectionId
  | browserAuth intentId tenantId regionId returnTo metadata => exact ⟨rfl, rfl, rfl, rfl⟩

theorem applySubject_of_some (hsome : record.subject = some subject)
    (hvalid : validateOAuthStoredSubject subject = .ok ()) :
    applySubjectToStateRecord record = .ok (withSubject record subject) := by
  simp only [applySubjectToStateRecord, resolveOAuthStoredSubject, givenSubject, hsome, hvalid]
  rfl

theorem clone_withSubject (hvalid : validateOAuthStoredSubject subject = .ok ()) :
    cloneOAuthStateRecord (withSubject record subject) = .ok (withSubject record subject) := by
  rw [cloneOAuthStateRecord, applySubject_of_some (withSubject_kept record subject).1 hvalid]
  cases subject with
  | connection tenantId userId connectionId => rfl
  | browserAuth intentId tenantId regionId returnTo metadata => rfl

theorem mapStateRowToRecord_rowOf (hvalid : validateOAuthStoredSubject subject = .ok ()) :
    mapStateRowToRecord (rowOf (withSubject record subject) subject subject) =
      .ok (withSubject record subject) := by
  simp only [mapStateRowToRecord, rowOf, hvalid]
  rw [applySubject_of_some rfl hvalid]
  cases subject with
  | connection tenantId userId connectionId => rfl
  | browserAuth intentId tenantId regionId returnTo metadata => rfl

theorem clone_consumedAt {clone : OAuthStateRecord M} (x : Option String)
    (h : cloneOAuthStateRecord record = .ok clone) :
    cloneOAuthStateRecord { record with consumedAt := x } = .ok { clone with consumedAt := x } := by
  simp only [cloneOAuthStateRecord, applySubjectToStateRecord] at h ⊢
  have hresolve : resolveOAuthStoredSubject { record with consumedAt := x } =
      resolveOAuthStoredSubject record := rfl
  rw [hresolve]
  cases hsubject : resolveOAuthStoredSubject record with
  | error e =>
    rw [hsubject] at h
    cases h
  | ok subject =>
    rw [hsubject] at h
    cases h
    cases subject with
    | connection tenantId userId connectionId => rfl
    | browserAuth intentId tenantId regionId returnTo metadata => rfl

theorem mapStateRowToRecord_consumedAt (x : Option String)
    (h : mapStateRowToRecord row = .ok record) :
    mapStateRowToRecord { row with consumedAt := x } = .ok { record with consumedAt := x } := by
  simp only [mapStateRowToRecord] at h ⊢
  cases hvalid : validateOAuthStoredSubject row.subjectPayload with
  | error e =>
    rw [hvalid] at h
    cases h
  | ok u =>
    rw [hvalid] at h
    exact clone_consumedAt x h

end Mapping

/-- The database holds the record that the memory does. -/
structure Stored (record : OAuthStateRecord M) (row : StateRow M) : Prop where
  back : mapStateRowToRecord row = .ok record
  clone : cloneOAuthStateRecord record = .ok record
  stateId : row.stateId = record.stateId
  expiresAt : row.expiresAt = record.expiresAt
  consumedAt : row.consumedAt = record.consumedAt
  dated : isIsoTimestamp record.expiresAt = true
  unconsumed : record.consumedAt ≠ some ""

omit [DecidableEq M] in
theorem Stored.consume (h : Stored record row) (t : Timestamp) :
    Stored { record with consumedAt := some t.text } { row with consumedAt := some t.text } where
  back := mapStateRowToRecord_consumedAt _ h.back
  clone := clone_consumedAt _ h.clone
  stateId := h.stateId
  expiresAt := h.expiresAt
  consumedAt := rfl
  dated := h.dated
  unconsumed := by
    intro hempty
    have hvalid := t.valid
    rw [some.inj hempty] at hvalid
    revert hvalid
    decide

omit [DecidableEq M] in
theorem validate_expiresAt (h : validateOAuthStateRecord record = .ok ()) :
    isIsoTimestamp record.expiresAt = true := by
  obtain ⟨_, -, h⟩ := bind_ok h
  obtain ⟨_, -, h⟩ := bind_ok h
  obtain ⟨_, -, h⟩ := bind_ok h
  obtain ⟨_, -, h⟩ := bind_ok h
  obtain ⟨_, -, h⟩ := bind_ok h
  obtain ⟨_, hexpires, -⟩ := bind_ok h
  by_contra hnot
  simp only [assertIsoTimestamp, if_neg hnot] at hexpires
  cases hexpires

/-! ## The tables under calls alike -/

structure Tables (records : MemoryOAuthStateStore.Records M)
    (rows : DbAdapterOAuthStateStore.Rows M) : Prop where
  aligned : Aligned Stored records rows
  keyed : Keyed StateRow.stateId rows

variable {records : MemoryOAuthStateStore.Records M} {rows : DbAdapterOAuthStateStore.Rows M}

namespace Tables

omit [DecidableEq M]

theorem start : Tables (M := M) .empty .empty where
  aligned := aligned_empty
  keyed := keyed_empty _

/-- One call: the tables stay the same two, and the answers are one. -/
structure CallAgrees (memory : MemoryOAuthStateStore.Records M × Answer M)
    (database : DbAdapterOAuthStateStore.Rows M × Answer M) : Prop where
  tables : Tables memory.1 database.1
  same : database.2 = memory.2

theorem put (h : Tables records rows) (json : Json M) (hunconsumed : record.consumedAt ≠ some "")
    (hjson : ∀ subject, resolveOAuthStoredSubject record = .ok subject →
      subjectThroughJson json subject = some subject) :
    CallAgrees (MemoryOAuthStateStore.put records record)
      (DbAdapterOAuthStateStore.put json rows record) := by
  rw [MemoryOAuthStateStore.put, DbAdapterOAuthStateStore.put]
  cases hvalidate : validateOAuthStateRecord record with
  | error e => exact ⟨h, rfl⟩
  | ok u =>
    cases hsubject : resolveOAuthStoredSubject record with
    | error e =>
      simp only [cloneOAuthStateRecord, applySubjectToStateRecord, mapStateRecordToRow, hsubject]
      exact ⟨h, rfl⟩
    | ok subject =>
      have hvalid := resolve_cases hsubject
      have hclone : cloneOAuthStateRecord record = .ok (withSubject record subject) := by
        simp only [cloneOAuthStateRecord, applySubjectToStateRecord, hsubject]
        rfl
      have hrow : mapStateRecordToRow json record =
          .ok (rowOf (withSubject record subject) subject subject) := by
        simp only [mapStateRecordToRow, hsubject, hjson subject hsubject]
      have hkey : (rowOf (withSubject record subject) subject subject).stateId =
          record.stateId := (withSubject_kept record subject).2.1
      have hstored : Stored (withSubject record subject)
          (rowOf (withSubject record subject) subject subject) := {
        back := mapStateRowToRecord_rowOf hvalid
        clone := clone_withSubject hvalid
        stateId := rfl
        expiresAt := rfl
        consumedAt := rfl
        dated := by
          rw [(withSubject_kept record _).2.2.1]
          exact validate_expiresAt hvalidate
        unconsumed := by
          rw [(withSubject_kept record _).2.2.2]
          exact hunconsumed }
      simp only [hclone, hrow, upsert, hkey]
      exact ⟨⟨h.aligned.set hstored, h.keyed.set hkey⟩, rfl⟩

theorem get (h : Tables records rows) (adapter : Chooser (StateRow M)) (stateId : String) :
    DbAdapterOAuthStateStore.get adapter rows stateId =
      MemoryOAuthStateStore.get records stateId := by
  have hfind : findOne adapter (fun row => decide (row.stateId = stateId)) rows =
      rows.get stateId := by
    have hkey := findOne_key (c := adapter) (q := fun _ => true) h.keyed stateId
    simp only [Bool.and_true] at hkey
    rw [hkey]
    cases rows.get stateId with
    | none => rfl
    | some row => rfl
  rw [DbAdapterOAuthStateStore.get, MemoryOAuthStateStore.get, hfind]
  rcases h.aligned.get_cases stateId with ⟨hm, hr⟩ | ⟨record, row, hm, hr, hstored⟩
  · rw [hm, hr]
  · rw [hm, hr]
    simp only [hstored.back, hstored.clone]

theorem consumable_eq (h : Stored record row) (t : Timestamp)
    (halike : row.consumedAt.isSome = true ∨ comparesAlike t.text row.expiresAt = true) :
    DbAdapterOAuthStateStore.consumable row t.text =
      (!truthy record.consumedAt && !MemoryOAuthStateStore.expired record t.text) := by
  rw [DbAdapterOAuthStateStore.consumable, h.consumedAt]
  rw [h.consumedAt] at halike
  cases hconsumed : record.consumedAt with
  | some s =>
    have hne : s ≠ "" := by
      intro hempty
      exact h.unconsumed (by rw [hconsumed, hempty])
    simp [truthy, hne]
  | none =>
    rw [hconsumed, h.expiresAt] at halike
    have hcompare : columnBefore t.text record.expiresAt = instantBefore t.text record.expiresAt := by
      rcases halike with hx | hx
      · cases hx
      · exact beq_iff_eq.mp hx
    have hexpires := h.dated
    have hat := t.valid
    rw [isIsoTimestamp, Option.isSome_iff_exists] at hexpires hat
    obtain ⟨x, hx⟩ := hexpires
    obtain ⟨y, hy⟩ := hat
    rw [h.expiresAt, hcompare]
    simp only [instantBefore, MemoryOAuthStateStore.expired, hx, hy, truthy, Option.getD_none,
      Option.isNone_none, Bool.true_and, bne_self_eq_false, Bool.not_false]
    rw [← decide_not, decide_eq_decide]
    omega

theorem update_row (h : Tables records rows) (adapter : Chooser (StateRow M)) {stateId at_ : String}
    (hrow : rows.get stateId = some row) :
    DbAdapterOAuthStateStore.consume adapter rows stateId at_ =
      if DbAdapterOAuthStateStore.consumable row at_ then
        (rows.set stateId { row with consumedAt := some at_ },
          foundOr (mapStateRowToRecord { row with consumedAt := some at_ }))
      else (rows, .found none) := by
  rw [DbAdapterOAuthStateStore.consume, update, findOne_key h.keyed, hrow]
  cases hc : DbAdapterOAuthStateStore.consumable row at_ with
  | false => simp [Option.filter, hc]
  | true => simp [Option.filter, hc, h.keyed stateId row hrow]

theorem consume (h : Tables records rows) (adapter : Chooser (StateRow M)) {stateId : String}
    {t : Timestamp} (halike : ∀ row, rows.get stateId = some row →
      row.consumedAt.isSome = true ∨ comparesAlike t.text row.expiresAt = true) :
    CallAgrees (MemoryOAuthStateStore.consume records stateId t.text)
      (DbAdapterOAuthStateStore.consume adapter rows stateId t.text) := by
  rw [MemoryOAuthStateStore.consume]
  rcases h.aligned.get_cases stateId with ⟨hm, hr⟩ | ⟨record, row, hm, hr, hstored⟩
  · rw [hm, DbAdapterOAuthStateStore.consume, update, findOne_key h.keyed, hr]
    exact ⟨h, rfl⟩
  rw [hm, h.update_row adapter hr, consumable_eq hstored t (halike row hr)]
  simp only
  cases truthy record.consumedAt with
  | true => exact ⟨h, rfl⟩
  | false =>
    cases MemoryOAuthStateStore.expired record t.text with
    | true => exact ⟨h, rfl⟩
    | false =>
      have hconsumed := hstored.consume t
      refine ⟨⟨h.aligned.set hconsumed, h.keyed.set (h.keyed stateId row hr)⟩, ?_⟩
      exact (congrArg foundOr hconsumed.back).trans (congrArg foundOr hconsumed.clone).symm

theorem deleteExpired (h : Tables records rows) {t : Timestamp}
    (halike : ∀ stateId row, rows.get stateId = some row →
      comparesAlike row.expiresAt t.text = true) :
    CallAgrees (MemoryOAuthStateStore.deleteExpired records t.text)
      (DbAdapterOAuthStateStore.deleteExpired rows t.text) := by
  have hsame : ∀ stateId record row, records.get stateId = some record →
      rows.get stateId = some row → Stored record row →
        instantBefore record.expiresAt t.text = columnBefore row.expiresAt t.text := by
    intro stateId record row _ hrow hstored
    have hcompare := halike stateId row hrow
    rw [comparesAlike, beq_iff_eq] at hcompare
    rw [hcompare, hstored.expiresAt]
  refine ⟨⟨?_, h.keyed.deleteMany _⟩, ?_⟩
  · apply h.aligned.filter (p := fun record => !instantBefore record.expiresAt t.text)
      (q := fun row => !columnBefore row.expiresAt t.text)
    intro stateId record row hm hr hstored
    rw [hsame stateId record row hm hr hstored]
  · have hcount := h.aligned.countWhere (p := fun record => instantBefore record.expiresAt t.text)
      (q := fun row => columnBefore row.expiresAt t.text) hsame
    exact congrArg Answer.deleted hcount.symm

end Tables

/-! ## Runs of calls alike -/

/-- What a call does to the rows and says of it. -/
inductive Effect (w w' : World M) (e : Event M) : Prop where
  | kept (hrows : ∀ stateId row, w'.rows.get stateId = some row → w.rows.get stateId = some row)
      (hconsumed : e.consumed = none) (hputs : ∀ stateId, e.puts stateId = false)
  | put (record : OAuthStateRecord M) (row : StateRow M)
      (hrows : w'.rows = w.rows.set record.stateId row) (hconsumed : e.consumed = none)
      (hputs : e.puts record.stateId = true)
  | consumed (stateId : String) (t : Timestamp) (row : StateRow M) (record : OAuthStateRecord M)
      (hcall : e.call = .consume stateId t) (hrow : w.rows.get stateId = some row)
      (hconsumable : DbAdapterOAuthStateStore.consumable row t.text = true)
      (hrows : w'.rows = w.rows.set stateId { row with consumedAt := some t.text })
      (hconsumed : e.consumed = some record) (hputs : ∀ id, e.puts id = false)
      (hstate : record.stateId = stateId) (hexpires : record.expiresAt = row.expiresAt)

variable {w : World M}

omit [DecidableEq M] in
theorem effect_next (h : Tables w.records w.rows) (call : Call M) :
    ∃ e, (next json adapter w call).log = e :: w.log ∧ e.call = call ∧
      Effect w (next json adapter w call) e := by
  refine ⟨_, rfl, rfl, ?_⟩
  cases call with
  | put record =>
    have hput : DbAdapterOAuthStateStore.answer json adapter w.rows (.put record) =
        DbAdapterOAuthStateStore.put json w.rows record := rfl
    simp only [next, hput, DbAdapterOAuthStateStore.put]
    cases validateOAuthStateRecord record with
    | error e => exact .kept (fun _ _ => id) rfl fun _ => rfl
    | ok u =>
      cases hmap : mapStateRecordToRow json record with
      | error e => exact .kept (fun _ _ => id) rfl fun _ => rfl
      | ok row =>
        have hid : row.stateId = record.stateId := by
          simp only [mapStateRecordToRow] at hmap
          split at hmap
          · cases hmap
          · split at hmap
            · cases hmap
            · cases hmap
              exact (withSubject_kept record _).2.1
        refine .put record row ?_ rfl ?_
        · show w.rows.set row.stateId row = _
          rw [hid]
        · exact beq_self_eq_true record.stateId
  | get stateId => exact .kept (fun _ _ => id) rfl fun _ => rfl
  | consume stateId t =>
    have hconsume : DbAdapterOAuthStateStore.answer json adapter w.rows (.consume stateId t) =
        DbAdapterOAuthStateStore.consume adapter w.rows stateId t.text := rfl
    rcases h.aligned.get_cases stateId with ⟨-, hr⟩ | ⟨record, row, -, hr, hstored⟩
    · have hnone : DbAdapterOAuthStateStore.consume adapter w.rows stateId t.text =
          (w.rows, .found none) := by
        rw [DbAdapterOAuthStateStore.consume, update, findOne_key h.keyed, hr]
        rfl
      simp only [next, hconsume, hnone]
      exact .kept (fun _ _ => id) rfl fun _ => rfl
    · simp only [next, hconsume, h.update_row adapter hr]
      cases hconsumable : DbAdapterOAuthStateStore.consumable row t.text with
      | false => exact .kept (fun _ _ => id) rfl fun _ => rfl
      | true =>
        have hback := (hstored.consume t).back
        refine .consumed stateId t row { record with consumedAt := some t.text } rfl hr hconsumable
          rfl ?_ (fun _ => rfl) ?_ hstored.expiresAt.symm
        · simp only [if_true, hback]
          rfl
        · show record.stateId = stateId
          rw [← hstored.stateId, h.keyed stateId row hr]
  | deleteExpired t =>
    refine .kept (fun stateId row hrow => ?_) rfl fun _ => rfl
    have hdeleted : (deleteMany _ w.rows).get stateId = some row := hrow
    rw [get_deleteMany, filter_eq_some_iff] at hdeleted
    exact hdeleted.1

structure Inv (w : World M) : Prop where
  tables : Tables w.records w.rows
  agree : Agree w
  marked : ∀ stateId row, w.rows.get stateId = some row → spent stateId w.log = true →
    row.consumedAt.isSome = true

omit [DecidableEq M] in
theorem inv_start : Inv (start : World M) where
  tables := Tables.start
  agree := ⟨List.forall_mem_nil _, trivial⟩
  marked := by
    intro stateId row h
    cases h

theorem callAgrees {call : Call M} (h : Tables w.records w.rows) (hg : alike json w call = true) :
    Tables.CallAgrees (MemoryOAuthStateStore.answer w.records call)
      (DbAdapterOAuthStateStore.answer json adapter w.rows call) := by
  cases call with
  | put record =>
    rw [alike, Bool.and_eq_true, bne_iff_ne] at hg
    apply h.put json hg.1
    intro subject hsubject
    have hjson := hg.2
    rw [hsubject] at hjson
    exact of_decide_eq_true hjson
  | get stateId => exact ⟨h, h.get adapter stateId⟩
  | consume stateId t =>
    apply h.consume adapter
    intro row hrow
    rwa [alike, hrow, all_some, Bool.or_eq_true] at hg
  | deleteExpired t =>
    apply h.deleteExpired
    intro stateId row hrow
    rw [alike, List.all_eq_true] at hg
    exact hg row ((OMap.mem_values_iff_get _ _).mpr ⟨stateId, hrow⟩)

omit [DecidableEq M] in
theorem marked_of_effect {w' : World M} {e : Event M}
    (h : ∀ stateId row, w.rows.get stateId = some row → spent stateId w.log = true →
      row.consumedAt.isSome = true) (heffect : Effect w w' e) :
    ∀ stateId row, w'.rows.get stateId = some row → spent stateId (e :: w.log) = true →
      row.consumedAt.isSome = true := by
  intro stateId row hrow hspent
  rw [spent] at hspent
  cases heffect with
  | kept hrows hconsumed hputs =>
    rw [hputs, if_neg Bool.false_ne_true, hconsumed, Option.any_none, Bool.false_or] at hspent
    exact h stateId row (hrows stateId row hrow) hspent
  | put record row' hrows hconsumed hputs =>
    rw [hrows, OMap.get_set] at hrow
    by_cases hid : stateId = record.stateId
    · rw [hid, hputs, if_pos rfl] at hspent
      cases hspent
    rw [if_neg hid] at hrow
    split at hspent
    · cases hspent
    · rw [hconsumed, Option.any_none, Bool.false_or] at hspent
      exact h stateId row hrow hspent
  | consumed stateId' t row' record hcall hrow' hconsumable hrows hconsumed hputs hstate hexpires =>
    rw [hrows, OMap.get_set] at hrow
    rw [hputs, if_neg Bool.false_ne_true, hconsumed, Option.any_some, hstate] at hspent
    split at hrow
    · cases hrow
      rfl
    · rename_i hid
      rw [beq_false_of_ne (Ne.symm hid), Bool.false_or] at hspent
      exact h stateId row hrow hspent

theorem inv_next {call : Call M} (h : Inv w) (hg : alike json w call = true) :
    Inv (next json adapter w call) := by
  have hcall := callAgrees json adapter h.tables hg
  obtain ⟨e, hlog, hecall, heffect⟩ := effect_next json adapter h.tables call
  refine ⟨hcall.tables, ⟨?_, ?_⟩, ?_⟩
  · intro e' he'
    rcases List.mem_cons.mp he' with rfl | hold
    · exact hcall.same
    · exact h.agree.same e' hold
  · rw [hlog]
    refine ⟨?_, h.agree.once⟩
    intro stateId t record hconsume hconsumed
    cases heffect with
    | kept _ hnone | put _ _ _ hnone =>
      rw [hnone] at hconsumed
      cases hconsumed
    | consumed stateId' t' row record' hcall' hrow hconsumable _ hsome _ hstate hexpires =>
      rw [hsome] at hconsumed
      cases hconsumed
      rw [hcall'] at hconsume
      obtain ⟨rfl, rfl⟩ := Call.consume.inj hconsume
      rw [DbAdapterOAuthStateStore.consumable, Bool.and_eq_true, isNone_iff_eq_none]
        at hconsumable
      refine ⟨hstate, ?_, ?_⟩
      · rw [← hecall, hcall', alike, hrow, all_some, hconsumable.1] at hg
        rw [hexpires, ← beq_iff_eq.mp hg]
        exact hconsumable.2
      · cases hspent : spent stateId' w.log with
        | false => rfl
        | true =>
          have hmarked := h.marked stateId' row hrow hspent
          rw [hconsumable.1] at hmarked
          cases hmarked
  · rw [hlog]
    exact marked_of_effect h.marked heffect

theorem agree_of_run {calls : List (Call M)}
    (hg : Guarded (step json adapter) (fun w call => alike json w call = true) start calls)
    (hr : run (step json adapter) start calls = some w) : Agree w := by
  have hinv : Inv w := guarded_run_invariant (step json adapter) (fun s call s' hs halike hstep => by
    cases hstep
    exact inv_next json adapter hs halike) inv_start hg hr
  exact hinv.agree

end SuperFunctions.Oauth.StateStoresAgree
