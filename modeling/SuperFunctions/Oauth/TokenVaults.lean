import SuperFunctions.Oauth.StateStoresAgree

/-!
# The OAuth token vaults

`MemoryTokenVault` and `DbAdapterTokenVault`, answering the same calls. The memory vault keeps an
index of the connections and evicts a connection's previous token; the database vault writes under
the token's id only.
-/
namespace SuperFunctions.Oauth.TokenVaults

open Lib.OrderedMap Lib.KeyedTables Lib.Transition Option OMap

structure TokenRecord where
  tokenId : String
  tenantId : String
  userId : String
  providerId : String
  connectionId : String
  encryptedPayload : String
  keyRef : String
  createdAt : String
  updatedAt : String
  expiresAt : Option String
deriving DecidableEq

structure TokenRow where
  tokenId : String
  tenantId : String
  userId : String
  providerId : String
  connectionId : String
  encryptedPayload : String
  keyRef : String
  createdAt : String
  updatedAt : String
  expiresAt : Option String

def mapTokenRecordToRow (record : TokenRecord) : TokenRow where
  tokenId := record.tokenId
  tenantId := record.tenantId
  userId := record.userId
  providerId := record.providerId
  connectionId := record.connectionId
  encryptedPayload := record.encryptedPayload
  keyRef := record.keyRef
  createdAt := record.createdAt
  updatedAt := record.updatedAt
  expiresAt := record.expiresAt

def mapTokenRowToRecord (row : TokenRow) : TokenRecord where
  tokenId := row.tokenId
  tenantId := row.tenantId
  userId := row.userId
  providerId := row.providerId
  connectionId := row.connectionId
  encryptedPayload := row.encryptedPayload
  keyRef := row.keyRef
  createdAt := row.createdAt
  updatedAt := row.updatedAt
  expiresAt := row.expiresAt

inductive Call where
  | put (record : TokenRecord)
  | get (tokenId : String)
  | getByConnection (connectionId : String)
  | deleteByConnection (connectionId : String)

inductive Answer where
  | done
  | found (record : Option TokenRecord)
deriving DecidableEq

/-! ## The memory vault -/

structure MemoryTokenVault where
  tokensById : OMap String TokenRecord
  tokenByConnection : OMap String String

namespace MemoryTokenVault

/-- The index without the entry of the connection the token had before. -/
def withoutPrevious (v : MemoryTokenVault) (record : TokenRecord) : OMap String String :=
  match v.tokensById.get record.tokenId with
  | none => v.tokenByConnection
  | some previous =>
    if previous.connectionId ≠ record.connectionId then
      v.tokenByConnection.delete previous.connectionId
    else v.tokenByConnection

/-- The tokens without the one the connection had before. -/
def withoutExisting (v : MemoryTokenVault) (record : TokenRecord) : OMap String TokenRecord :=
  match (v.withoutPrevious record).get record.connectionId with
  | none => v.tokensById
  | some existing =>
    if existing ≠ "" ∧ existing ≠ record.tokenId then v.tokensById.delete existing
    else v.tokensById

def put (v : MemoryTokenVault) (record : TokenRecord) : MemoryTokenVault where
  tokensById := (v.withoutExisting record).set record.tokenId record
  tokenByConnection := (v.withoutPrevious record).set record.connectionId record.tokenId

def get (v : MemoryTokenVault) (tokenId : String) : Option TokenRecord := v.tokensById.get tokenId

def getByConnection (v : MemoryTokenVault) (connectionId : String) :
    MemoryTokenVault × Option TokenRecord :=
  match v.tokenByConnection.get connectionId with
  | none => (v, none)
  | some tokenId =>
    if tokenId = "" then (v, none)
    else
      match v.tokensById.get tokenId with
      | none => ({ v with tokenByConnection := v.tokenByConnection.delete connectionId }, none)
      | some record =>
        if record.connectionId ≠ connectionId then
          ({ v with tokenByConnection := v.tokenByConnection.delete connectionId }, none)
        else (v, some record)

def deleteByConnection (v : MemoryTokenVault) (connectionId : String) : MemoryTokenVault :=
  match v.tokenByConnection.get connectionId with
  | none => v
  | some tokenId =>
    if tokenId = "" then v
    else
      { tokensById := v.tokensById.delete tokenId
        tokenByConnection := v.tokenByConnection.delete connectionId }

def answer (v : MemoryTokenVault) : Call → MemoryTokenVault × Answer
  | .put record => (v.put record, .done)
  | .get tokenId => (v, .found (v.get tokenId))
  | .getByConnection connectionId =>
    ((v.getByConnection connectionId).1, .found (v.getByConnection connectionId).2)
  | .deleteByConnection connectionId => (v.deleteByConnection connectionId, .done)

end MemoryTokenVault

/-! ## The database vault -/

namespace DbAdapterTokenVault

abbrev Rows := OMap String TokenRow

def put (rows : Rows) (record : TokenRecord) : Rows :=
  upsert TokenRow.tokenId (mapTokenRecordToRow record) rows

variable (adapter : Chooser TokenRow)

def get (rows : Rows) (tokenId : String) : Option TokenRecord :=
  (findOne adapter (fun row => decide (row.tokenId = tokenId)) rows).map mapTokenRowToRecord

def getByConnection (rows : Rows) (connectionId : String) : Option TokenRecord :=
  (findOne adapter (fun row => decide (row.connectionId = connectionId)) rows).map
    mapTokenRowToRecord

def deleteByConnection (rows : Rows) (connectionId : String) : Rows :=
  deleteMany (fun row => decide (row.connectionId = connectionId)) rows

def answer (rows : Rows) : Call → Rows × Answer
  | .put record => (put rows record, .done)
  | .get tokenId => (rows, .found (get adapter rows tokenId))
  | .getByConnection connectionId => (rows, .found (getByConnection adapter rows connectionId))
  | .deleteByConnection connectionId => (deleteByConnection rows connectionId, .done)

end DbAdapterTokenVault

/-! ## Both vaults on the same calls -/

structure Event where
  call : Call
  database : Answer
  memory : Answer

/-- The two vaults and what they answered, the last call first. -/
structure World where
  memory : MemoryTokenVault
  rows : DbAdapterTokenVault.Rows
  log : List Event

def start : World where
  memory := { tokensById := .empty, tokenByConnection := .empty }
  rows := .empty
  log := []

variable (adapter : Chooser TokenRow)

def next (w : World) (call : Call) : World where
  memory := (w.memory.answer call).1
  rows := (DbAdapterTokenVault.answer adapter w.rows call).1
  log := ⟨call, (DbAdapterTokenVault.answer adapter w.rows call).2, (w.memory.answer call).2⟩ :: w.log

def step (w : World) (call : Call) : Option World := some (next adapter w call)

/-- The record put last for the connection. -/
def lastPut (connectionId : String) : List Event → Option TokenRecord
  | [] => none
  | ⟨.put record, _, _⟩ :: older =>
    if record.connectionId = connectionId then some record else lastPut connectionId older
  | _ :: older => lastPut connectionId older

structure Agree (w : World) : Prop where
  same : ∀ e ∈ w.log, e.database = e.memory
  current : ∀ tokenId row, w.rows.get tokenId = some row →
    (lastPut row.connectionId w.log).map mapTokenRecordToRow = some row
  single : ∀ t t' row row', w.rows.get t = some row → w.rows.get t' = some row' →
    row.connectionId = row'.connectionId → t = t'

/-- A token put has an id, and its connection has no token under another id. -/
def inPlace (w : World) : Call → Bool
  | .put record => record.tokenId != "" && w.rows.values.all fun row =>
      decide (row.connectionId = record.connectionId → row.tokenId = record.tokenId)
  | _ => true


/-! ## The tables under calls in place -/

/-- The same tokens in both, and the memory's index is the one the rows would have. -/
structure Tables (v : MemoryTokenVault) (rows : DbAdapterTokenVault.Rows) : Prop where
  aligned : Aligned (fun record row => row = mapTokenRecordToRow record) v.tokensById rows
  keyed : Keyed TokenRow.tokenId rows
  named : ∀ t row, rows.get t = some row → t ≠ ""
  indexed : ∀ c t, v.tokenByConnection.get c = some t ↔
    ∃ row, rows.get t = some row ∧ row.connectionId = c

theorem tables_start : Tables start.memory start.rows where
  aligned := aligned_empty
  keyed := keyed_empty _
  named := by
    exact nofun
  indexed := by
    intro c t
    constructor
    · exact nofun
    · rintro ⟨row, h, -⟩
      cases h

variable {v : MemoryTokenVault} {rows : DbAdapterTokenVault.Rows} {record : TokenRecord}

namespace Tables

section

variable (h : Tables v rows)
include h

theorem get_tokensById (t : String) :
    v.tokensById.get t = (rows.get t).map mapTokenRowToRecord := by
  rcases h.aligned.get_cases t with ⟨hm, hr⟩ | ⟨record, row, hm, hr, rfl⟩
  · rw [hm, hr]
    rfl
  · rw [hm, hr]
    rfl

theorem record_of_row {t : String} {row : TokenRow} (hrow : rows.get t = some row) :
    v.tokensById.get t = some (mapTokenRowToRecord row) := by
  rw [h.get_tokensById, hrow]
  rfl

theorem single {t t' : String} {row row' : TokenRow} (hrow : rows.get t = some row)
    (hrow' : rows.get t' = some row') (hsame : row.connectionId = row'.connectionId) : t = t' := by
  have ht := (h.indexed row'.connectionId t).mpr ⟨row, hrow, hsame⟩
  have ht' := (h.indexed row'.connectionId t').mpr ⟨row', hrow', rfl⟩
  rw [ht] at ht'
  exact some.inj ht'

theorem findOne_connection (adapter : Chooser TokenRow) (c : String) :
    findOne adapter (fun row => decide (row.connectionId = c)) rows =
      (v.tokenByConnection.get c).bind rows.get := by
  cases hindex : v.tokenByConnection.get c with
  | none =>
    cases hfind : findOne adapter (fun row => decide (row.connectionId = c)) rows with
    | none => rfl
    | some row =>
      obtain ⟨⟨t, hrow⟩, hc⟩ := findOne_some hfind
      have hindexed := (h.indexed c t).mpr ⟨row, hrow, of_decide_eq_true hc⟩
      rw [hindex] at hindexed
      cases hindexed
  | some t =>
    obtain ⟨row, hrow, hc⟩ := (h.indexed c t).mp hindex
    have honly : ∀ t' row', rows.get t' = some row' → decide (row'.connectionId = c) = true →
        t' = t := by
      intro t' row' hrow' hc'
      exact h.single hrow' hrow ((of_decide_eq_true hc').trans hc.symm)
    rw [findOne_of_key honly, hrow]
    simp [Option.filter, hc, hrow]

theorem getByConnection (adapter : Chooser TokenRow) (c : String) :
    v.getByConnection c = (v, DbAdapterTokenVault.getByConnection adapter rows c) := by
  rw [DbAdapterTokenVault.getByConnection, h.findOne_connection, MemoryTokenVault.getByConnection]
  cases hindex : v.tokenByConnection.get c with
  | none => rfl
  | some t =>
    obtain ⟨row, hrow, hc⟩ := (h.indexed c t).mp hindex
    have hne := h.named t row hrow
    have hrecord := h.record_of_row hrow
    have hconnection : (mapTokenRowToRecord row).connectionId = c := hc
    simp [hne, hrecord, hconnection, hrow]

theorem get (adapter : Chooser TokenRow) (t : String) :
    v.get t = DbAdapterTokenVault.get adapter rows t := by
  have hall : findOne adapter (fun row => decide (row.tokenId = t)) rows = rows.get t := by
    have hkey := findOne_key (c := adapter) (q := fun _ => true) h.keyed t
    simp only [Bool.and_true] at hkey
    rw [hkey]
    cases rows.get t with
    | none => rfl
    | some row => rfl
  rw [DbAdapterTokenVault.get, hall]
  exact h.get_tokensById t

theorem withoutExisting
    (hplace : ∀ t row, rows.get t = some row → row.connectionId = record.connectionId →
      t = record.tokenId) : v.withoutExisting record = v.tokensById := by
  have hindex : ∀ existing, (v.withoutPrevious record).get record.connectionId = some existing →
      existing = record.tokenId := by
    intro existing hget
    have hold : v.tokenByConnection.get record.connectionId = some existing := by
      rw [MemoryTokenVault.withoutPrevious] at hget
      split at hget
      · exact hget
      split at hget
      · rename_i hne
        rwa [get_delete, if_neg (Ne.symm hne)] at hget
      · exact hget
    obtain ⟨row, hrow, hc⟩ := (h.indexed _ existing).mp hold
    exact hplace existing row hrow hc
  rw [MemoryTokenVault.withoutExisting]
  split
  · rfl
  · rename_i existing hget
    rw [if_neg]
    intro hne
    exact hne.2 (hindex existing hget)

theorem withoutPrevious_get {c : String} (hc : c ≠ record.connectionId) (t : String) :
    (v.withoutPrevious record).get c = some t ↔
      t ≠ record.tokenId ∧ ∃ row, rows.get t = some row ∧ row.connectionId = c := by
  rw [MemoryTokenVault.withoutPrevious, h.get_tokensById]
  cases hprev : rows.get record.tokenId with
  | none =>
    simp only [map_none]
    rw [h.indexed]
    constructor
    · rintro ⟨row, hrow, hconn⟩
      refine ⟨?_, row, hrow, hconn⟩
      intro ht
      rw [ht, hprev] at hrow
      cases hrow
    · exact fun hx => hx.2
  | some previous =>
    have hpc : (mapTokenRowToRecord previous).connectionId = previous.connectionId := rfl
    simp only [map_some, hpc]
    have hdelete : (v.tokenByConnection.delete previous.connectionId).get c = some t ↔
        t ≠ record.tokenId ∧ ∃ row, rows.get t = some row ∧ row.connectionId = c := by
      rw [get_delete]
      split
      · rename_i hsame
        constructor
        · exact nofun
        · rintro ⟨ht, row, hrow, hconn⟩
          exact absurd (h.single hrow hprev (hconn.trans hsame)) ht
      · rename_i hother
        rw [h.indexed]
        constructor
        · rintro ⟨row, hrow, hconn⟩
          refine ⟨?_, row, hrow, hconn⟩
          intro ht
          rw [ht, hprev] at hrow
          cases hrow
          exact hother hconn.symm
        · exact fun hx => hx.2
    split
    · exact hdelete
    rename_i hsame
    rw [not_not] at hsame
    rw [← hdelete, get_delete, if_neg]
    intro hcp
    exact hc (hcp.trans hsame)

theorem put (hname : record.tokenId ≠ "")
    (hplace : ∀ t row, rows.get t = some row → row.connectionId = record.connectionId →
      t = record.tokenId) : Tables (v.put record) (DbAdapterTokenVault.put rows record) where
  aligned := by
    rw [MemoryTokenVault.put, h.withoutExisting hplace]
    exact h.aligned.set rfl
  keyed := h.keyed.set rfl
  named := by
    intro t row hrow
    rw [DbAdapterTokenVault.put, upsert, get_set] at hrow
    split at hrow
    · rename_i ht
      rwa [ht]
    · exact h.named t row hrow
  indexed := by
    intro c t
    show ((v.withoutPrevious record).set record.connectionId record.tokenId).get c = some t ↔
      ∃ row, (rows.set record.tokenId (mapTokenRecordToRow record)).get t = some row ∧
        row.connectionId = c
    simp only [get_set]
    by_cases hc : c = record.connectionId
    · subst hc
      rw [if_pos rfl]
      constructor
      · intro ht
        cases ht
        exact ⟨mapTokenRecordToRow record, if_pos rfl, rfl⟩
      · rintro ⟨row, hrow, hconn⟩
        split at hrow
        · rename_i ht
          rw [ht]
        · rw [hplace t row hrow hconn]
    · rw [if_neg hc, h.withoutPrevious_get hc]
      constructor
      · rintro ⟨ht, row, hrow, hconn⟩
        exact ⟨row, by rw [if_neg ht, hrow], hconn⟩
      rintro ⟨row, hrow, hconn⟩
      split at hrow
      · cases hrow
        exact absurd hconn.symm hc
      · rename_i ht
        exact ⟨ht, row, hrow, hconn⟩

theorem deleteByConnection (c : String) :
    Tables (v.deleteByConnection c) (DbAdapterTokenVault.deleteByConnection rows c) := by
  have hget : ∀ t row, (DbAdapterTokenVault.deleteByConnection rows c).get t = some row ↔
      rows.get t = some row ∧ row.connectionId ≠ c := by
    intro t row
    rw [DbAdapterTokenVault.deleteByConnection, get_deleteMany, filter_eq_some_iff]
    simp
  have hkeyed : Keyed TokenRow.tokenId (DbAdapterTokenVault.deleteByConnection rows c) :=
    h.keyed.deleteMany _
  have hfilter : Aligned (fun record row => row = mapTokenRecordToRow record)
      (v.tokensById.filterEntries fun e => !decide (e.2.connectionId = c))
      (DbAdapterTokenVault.deleteByConnection rows c) := by
    apply h.aligned.filter (p := fun record => !decide (record.connectionId = c))
      (q := fun row => !decide (row.connectionId = c))
    intro t record row _ _ hrel
    rw [hrel]
    rfl
  cases hindex : v.tokenByConnection.get c with
  | none =>
    have hv : v.deleteByConnection c = v := by
      rw [MemoryTokenVault.deleteByConnection, hindex]
    have hno : ∀ t row, rows.get t = some row → row.connectionId ≠ c := by
      intro t row hrow hc
      have hindexed := (h.indexed c t).mpr ⟨row, hrow, hc⟩
      rw [hindex] at hindexed
      cases hindexed
    have hsame : (v.tokensById.filterEntries fun e => !decide (e.2.connectionId = c)) =
        v.tokensById := by
      apply OMap.ext
      apply List.filter_eq_self.mpr
      intro e he
      have hrecord := (mem_entries_iff_get _ _ _).mp he
      rw [h.get_tokensById, map_eq_some_iff] at hrecord
      obtain ⟨row, hrow, hmap⟩ := hrecord
      have hne : (mapTokenRowToRecord row).connectionId ≠ c := hno _ row hrow
      rw [← hmap]
      simpa using hne
    rw [hsame] at hfilter
    rw [hv]
    refine ⟨hfilter, hkeyed, fun t row hrow => h.named t row ((hget t row).mp hrow).1, ?_⟩
    intro c' t
    rw [h.indexed]
    constructor
    · rintro ⟨row, hrow, hc'⟩
      exact ⟨row, (hget t row).mpr ⟨hrow, hno t row hrow⟩, hc'⟩
    · rintro ⟨row, hrow, hc'⟩
      exact ⟨row, ((hget t row).mp hrow).1, hc'⟩
  | some t₀ =>
    obtain ⟨row₀, hrow₀, hc₀⟩ := (h.indexed c t₀).mp hindex
    have hv : v.deleteByConnection c =
        { tokensById := v.tokensById.delete t₀
          tokenByConnection := v.tokenByConnection.delete c } := by
      rw [MemoryTokenVault.deleteByConnection, hindex]
      simp [h.named t₀ row₀ hrow₀]
    have hsame : (v.tokensById.filterEntries fun e => !decide (e.2.connectionId = c)) =
        v.tokensById.delete t₀ := by
      apply OMap.ext
      apply List.filter_congr
      intro e he
      have hrecord := (mem_entries_iff_get _ _ _).mp he
      rw [h.get_tokensById, map_eq_some_iff] at hrecord
      obtain ⟨row, hrow, hmap⟩ := hrecord
      have hiff : e.2.connectionId = c ↔ e.1 = t₀ := by
        rw [← hmap]
        constructor
        · intro hc
          exact h.single hrow hrow₀ (Eq.trans hc hc₀.symm)
        · intro ht
          rw [ht, hrow₀] at hrow
          cases hrow
          exact hc₀
      simp [hiff]
    rw [hsame] at hfilter
    rw [hv]
    refine ⟨hfilter, hkeyed, fun t row hrow => h.named t row ((hget t row).mp hrow).1, ?_⟩
    intro c' t
    rw [get_delete]
    split
    · rename_i hsame'
      constructor
      · exact nofun
      · rintro ⟨row, hrow, hc'⟩
        exact absurd (hc'.trans hsame') ((hget t row).mp hrow).2
    · rename_i hother
      rw [h.indexed]
      constructor
      · rintro ⟨row, hrow, hc'⟩
        refine ⟨row, (hget t row).mpr ⟨hrow, ?_⟩, hc'⟩
        rwa [hc']
      · rintro ⟨row, hrow, hc'⟩
        exact ⟨row, ((hget t row).mp hrow).1, hc'⟩

end

end Tables

/-! ## Runs in place -/

structure Inv (w : World) : Prop where
  tables : Tables w.memory w.rows
  agree : Agree w

theorem inv_start : Inv start where
  tables := tables_start
  agree := {
    same := List.forall_mem_nil _
    current := by
      exact nofun
    single := by
      intro t t' row row' h
      cases h }

variable {w : World}

theorem current_of_subset {w' : World} (h : Agree w)
    (hrows : ∀ t row, w'.rows.get t = some row → w.rows.get t = some row)
    (hlast : ∀ c, lastPut c w'.log = lastPut c w.log) :
    ∀ tokenId row, w'.rows.get tokenId = some row →
      (lastPut row.connectionId w'.log).map mapTokenRecordToRow = some row := by
  intro t row hrow
  rw [hlast]
  exact h.current t row (hrows t row hrow)

variable {call : Call}

theorem same_next (h : ∀ e ∈ w.log, e.database = e.memory)
    (hnew : (DbAdapterTokenVault.answer adapter w.rows call).2 = (w.memory.answer call).2) :
    ∀ e ∈ (next adapter w call).log, e.database = e.memory := by
  intro e he
  rcases List.mem_cons.mp he with rfl | hold
  · exact hnew
  · exact h e hold

theorem inPlace_put (h : Tables w.memory w.rows) (hg : inPlace w (.put record) = true) :
    record.tokenId ≠ "" ∧
      ∀ t row, w.rows.get t = some row → row.connectionId = record.connectionId →
        t = record.tokenId := by
  rw [inPlace, Bool.and_eq_true, bne_iff_ne, List.all_eq_true] at hg
  refine ⟨hg.1, ?_⟩
  intro t row hrow hc
  have hmem : row ∈ w.rows.values := (OMap.mem_values_iff_get _ _).mpr ⟨t, hrow⟩
  rw [← h.keyed t row hrow]
  exact of_decide_eq_true (hg.2 row hmem) hc

theorem tables_next (h : Tables w.memory w.rows) (hg : inPlace w call = true) :
    Tables (next adapter w call).memory (next adapter w call).rows := by
  cases call with
  | put record =>
    obtain ⟨hname, hplace⟩ := inPlace_put h hg
    exact h.put hname hplace
  | get tokenId => exact h
  | getByConnection connectionId =>
    show Tables (w.memory.getByConnection connectionId).1 w.rows
    rwa [h.getByConnection adapter]
  | deleteByConnection connectionId => exact h.deleteByConnection connectionId

theorem current_put (h : Inv w)
    (hplace : ∀ t row, w.rows.get t = some row → row.connectionId = record.connectionId →
      t = record.tokenId) {t : String} {row : TokenRow}
    (hrow : (next adapter w (.put record)).rows.get t = some row) :
    (lastPut row.connectionId (next adapter w (.put record)).log).map mapTokenRecordToRow =
      some row := by
  have hlast : ∀ c, lastPut c (next adapter w (.put record)).log =
      if record.connectionId = c then some record else lastPut c w.log := fun _ => rfl
  have hput : (w.rows.set record.tokenId (mapTokenRecordToRow record)).get t = some row := hrow
  rw [hlast]
  rw [get_set] at hput
  split at hput
  · cases hput
    have hown : record.connectionId = (mapTokenRecordToRow record).connectionId := rfl
    rw [if_pos hown]
    rfl
  · rename_i ht
    rw [if_neg fun hc => ht (hplace t row hput hc.symm)]
    exact h.agree.current t row hput

theorem inv_next (h : Inv w) (hg : inPlace w call = true) : Inv (next adapter w call) := by
  have htables := tables_next adapter h.tables hg
  refine ⟨htables, ?_, ?_, fun t t' row row' hrow hrow' => htables.single hrow hrow'⟩
  · apply same_next adapter h.agree.same
    cases call with
    | put record => rfl
    | get tokenId => exact congrArg Answer.found (h.tables.get adapter tokenId).symm
    | getByConnection connectionId =>
      show Answer.found _ = Answer.found _
      rw [h.tables.getByConnection adapter]
    | deleteByConnection connectionId => rfl
  · cases call with
    | put record =>
      intro t row hrow
      exact current_put adapter h (inPlace_put h.tables hg).2 hrow
    | get tokenId => exact current_of_subset h.agree (fun _ _ => id) fun _ => rfl
    | getByConnection connectionId =>
      exact current_of_subset h.agree (fun _ _ => id) fun _ => rfl
    | deleteByConnection connectionId =>
      refine current_of_subset h.agree (fun t row hrow => ?_) fun _ => rfl
      have hdeleted : (deleteMany _ w.rows).get t = some row := hrow
      rw [get_deleteMany, filter_eq_some_iff] at hdeleted
      exact hdeleted.1

theorem agree_of_run {calls : List Call}
    (hg : Guarded (step adapter) (fun w call => inPlace w call = true) start calls)
    (hr : run (step adapter) start calls = some w) : Agree w := by
  have hinv : Inv w := guarded_run_invariant (step adapter) (fun s call s' hs hplace hstep => by
    cases hstep
    exact inv_next adapter hs hplace) inv_start hg hr
  exact hinv.agree

end SuperFunctions.Oauth.TokenVaults

/-!
# The database stores behave like the memory stores

Over any run of calls on the state stores and any run of calls on the token vaults, as long as each
call is one that the two spellings of a timestamp and the missing eviction cannot tell apart.
-/
namespace SuperFunctions.Oauth.StoresAgree

open Lib.KeyedTables Lib.Transition Timestamps StateStores Option

variable {M : Type} [DecidableEq M]

theorem database_stores_agree (json : Json M) (states : Chooser (StateRow M))
    (tokens : Chooser TokenVaults.TokenRow) {stateCalls : List (Call M)}
    {tokenCalls : List TokenVaults.Call} {w : StateStoresAgree.World M} {v : TokenVaults.World}
    (halike : Guarded (StateStoresAgree.step json states)
      (fun w call => StateStoresAgree.alike json w call = true) StateStoresAgree.start stateCalls)
    (hstates : run (StateStoresAgree.step json states) StateStoresAgree.start stateCalls = some w)
    (hplace : Guarded (TokenVaults.step tokens)
      (fun w call => TokenVaults.inPlace w call = true) TokenVaults.start tokenCalls)
    (htokens : run (TokenVaults.step tokens) TokenVaults.start tokenCalls = some v) :
    StateStoresAgree.Agree w ∧ TokenVaults.Agree v :=
  ⟨StateStoresAgree.agree_of_run json states halike hstates,
    TokenVaults.agree_of_run tokens hplace htokens⟩

section Runs

def signIn (expiresAt : String) : OAuthStateRecord String where
  stateId := "state"
  providerId := "google"
  redirectUri := "https://app.example/callback"
  requestedScopes := ["openid"]
  subject := some (.browserAuth "intent" none (some "eu") none (some "{}"))
  tenantId := none
  userId := none
  connectionId := none
  intentId := none
  regionId := none
  returnTo := none
  metadata := none
  codeVerifier := some "verifier"
  nonce := none
  createdAt := "2025-12-31T23:50:00Z"
  expiresAt := expiresAt
  consumedAt := none

def midnight : Timestamp := ⟨"2026-01-01T00:00:00.000Z", by decide +kernel⟩

def halfASecondPast : Timestamp := ⟨"2026-01-01T00:00:00.500Z", by decide +kernel⟩

def connectionToken (tokenId encryptedPayload : String) : TokenVaults.TokenRecord where
  tokenId := tokenId
  tenantId := "tenant"
  userId := "user"
  providerId := "google"
  connectionId := "connection"
  encryptedPayload := encryptedPayload
  keyRef := "key"
  createdAt := "2026-01-01T00:00:00.000Z"
  updatedAt := "2026-01-01T00:00:00.000Z"
  expiresAt := none

/-- The state is good until one o'clock, written without milliseconds. -/
theorem database_stores_agree_run : ∃ w v,
    run (StateStoresAgree.step some .first) StateStoresAgree.start
      [.put (signIn "2026-01-01T01:00:00Z"), .consume "state" midnight,
        .consume "state" halfASecondPast, .get "state", .deleteExpired halfASecondPast] = some w ∧
    run (TokenVaults.step .first) TokenVaults.start
      [.put (connectionToken "token" "one"), .put (connectionToken "token" "two"),
        .getByConnection "connection", .deleteByConnection "connection"] = some v ∧
    StateStoresAgree.Agree w ∧ TokenVaults.Agree v := by
  obtain ⟨w, hw⟩ := isSome_iff_exists.mp (by decide +kernel :
    (run (StateStoresAgree.step some .first) StateStoresAgree.start
      [.put (signIn "2026-01-01T01:00:00Z"), .consume "state" midnight,
        .consume "state" halfASecondPast, .get "state",
        .deleteExpired halfASecondPast]).isSome = true)
  obtain ⟨v, hv⟩ := isSome_iff_exists.mp (by decide +kernel :
    (run (TokenVaults.step .first) TokenVaults.start
      [.put (connectionToken "token" "one"), .put (connectionToken "token" "two"),
        .getByConnection "connection", .deleteByConnection "connection"]).isSome = true)
  exact ⟨w, v, hw, hv, database_stores_agree some .first .first (by decide +kernel) hw
    (by decide +kernel) hv⟩

/-- Half a second after its end the database still consumes a state, and a connection's old token
outlives the new one. -/
theorem database_stores_differ :
    (∃ w, run (StateStoresAgree.step some .first) StateStoresAgree.start
        [.put (signIn "2026-01-01T00:00:00Z"), .consume "state" halfASecondPast] = some w ∧
      ∃ e ∈ w.log, e.database ≠ e.memory) ∧
    ∃ v, run (TokenVaults.step .first) TokenVaults.start
        [.put (connectionToken "old" "one"), .put (connectionToken "new" "two"),
          .getByConnection "connection"] = some v ∧
      ∃ e ∈ v.log, e.database = .found (some (connectionToken "old" "one")) ∧
        e.memory = .found (some (connectionToken "new" "two")) := by
  constructor
  · obtain ⟨w, hw, hany⟩ := any_eq_true _ _ |>.mp (by decide +kernel :
      (run (StateStoresAgree.step some .first) StateStoresAgree.start
        [.put (signIn "2026-01-01T00:00:00Z"), .consume "state" halfASecondPast]).any
        (fun w => w.log.any fun e => decide (e.database ≠ e.memory)) = true)
    obtain ⟨e, he, hdiffer⟩ := List.any_eq_true.mp hany
    exact ⟨w, hw, e, he, of_decide_eq_true hdiffer⟩
  · obtain ⟨v, hv, hany⟩ := any_eq_true _ _ |>.mp (by decide +kernel :
      (run (TokenVaults.step .first) TokenVaults.start
        [.put (connectionToken "old" "one"), .put (connectionToken "new" "two"),
          .getByConnection "connection"]).any
        (fun v => v.log.any fun e =>
          decide (e.database = .found (some (connectionToken "old" "one")) ∧
            e.memory = .found (some (connectionToken "new" "two")))) = true)
    obtain ⟨e, he, hdiffer⟩ := List.any_eq_true.mp hany
    exact ⟨v, hv, e, he, of_decide_eq_true hdiffer⟩

end Runs

end SuperFunctions.Oauth.StoresAgree
