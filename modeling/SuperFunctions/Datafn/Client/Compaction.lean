import SuperFunctions.Datafn.Core.Value
import SuperFunctions.Lib.OrderedMap

/-!
# The client's changelog

Local mutations wait in the changelog, in the order of their local sequence numbers, until a
push acknowledges a prefix of them.
-/
namespace SuperFunctions.Datafn.Client.Changelog

open Lib.Objects Datafn.Core

/-- `DatafnChangelogEntry`, without its timestamps and actor. -/
structure ChangelogEntry where
  seq : Nat
  clientId : String
  mutationId : String
  mutation : Mutation
  deriving DecidableEq

/-- The mutation's own id, or else the entry's. -/
def getChangelogMutationId (entry : ChangelogEntry) : String :=
  entry.mutation.mutationId.getD entry.mutationId

def getChangelogClientId (entry : ChangelogEntry) : String :=
  entry.mutation.clientId.getD entry.clientId

/-- What `changelogAppend` keeps true of the stored entries: it numbers them upwards, rejects an
empty mutation id and stores a mutation id of one client once. -/
structure WellFormed (changelog : List ChangelogEntry) : Prop where
  ordered : changelog.Pairwise fun e f => e.seq < f.seq
  identified : ∀ e ∈ changelog, getChangelogMutationId e ≠ ""
  deduplicated : changelog.Pairwise fun e f =>
    getChangelogClientId e = getChangelogClientId f →
      getChangelogMutationId e ≠ getChangelogMutationId f

/-- A `limit` of `0` falls back to 100. -/
def changelogList (changelog : List ChangelogEntry) (limit : Nat) : List ChangelogEntry :=
  changelog.take (if limit = 0 then 100 else limit)

def changelogAck (changelog : List ChangelogEntry) (throughSeq : Nat) : List ChangelogEntry :=
  changelog.filter fun e => throughSeq < e.seq

theorem mem_changelogAck {changelog : List ChangelogEntry} {throughSeq : Nat}
    {e : ChangelogEntry} :
    e ∈ changelogAck changelog throughSeq ↔ e ∈ changelog ∧ throughSeq < e.seq := by
  simp [changelogAck]

/-! ## Schema sanitation -/

/-- The writable fields, defaults and edge metadata of each resource of the client's schema. -/
structure WritableSchema where
  fieldsByResource : Assoc String (List String)
  defaultsByResource : Assoc String Record
  metadataByResource : Assoc String (Assoc String (List String))

/-- Drop the edge metadata the relation does not declare. -/
def sanitizeRelationPayloadMetadata (allowed : List String) : RelationItem → RelationItem
  | .id toId => .id toId
  | .ref toId metadata => .ref toId (Assoc.restrict (fun k => k ∈ allowed) metadata)

/-- Keep the writable fields, and give a full write the defaults it leaves out. -/
def sanitizeRecord (schema : WritableSchema) (mutation : Mutation) (record : Record) : Record :=
  match schema.fieldsByResource.lookup mutation.resource with
  | none => record
  | some fields =>
    let kept := Assoc.restrict (fun k => k ∈ fields) record
    if mutation.operation = .insert ∨ mutation.operation = .replace then
      match schema.defaultsByResource.lookup mutation.resource with
      | none => kept
      | some defaults => Assoc.spread defaults kept
    else kept

def sanitizeRelations (schema : WritableSchema) (mutation : Mutation)
    (relations : Assoc String (List RelationItem)) : Assoc String (List RelationItem) :=
  match schema.metadataByResource.lookup mutation.resource with
  | none => relations
  | some metadata =>
    Assoc.mapEntries (fun relation items =>
      match metadata.lookup relation with
      | none => items
      | some allowed => items.map (sanitizeRelationPayloadMetadata allowed)) relations

def sanitizeChangelogMutationForSchema (schema : WritableSchema) (mutation : Mutation) :
    Mutation :=
  { mutation with
    record :=
      if isRecordMutationOperation mutation.operation
      then mutation.record.map (sanitizeRecord schema mutation) else mutation.record
    relations := mutation.relations.map (sanitizeRelations schema mutation) }

/-- The mutation as `processPush` hands it to the compaction: sanitized, and under its id. -/
def sanitizedMutation (schema : WritableSchema) (entry : ChangelogEntry) : Mutation :=
  let mutation := sanitizeChangelogMutationForSchema schema entry.mutation
  let mutationId := getChangelogMutationId entry
  if mutationId = "" ∨ mutation.mutationId.isSome then mutation
  else { mutation with mutationId := some mutationId }

theorem sanitizedMutation_mutationId (schema : WritableSchema) {entry : ChangelogEntry}
    (h : getChangelogMutationId entry ≠ "") :
    (sanitizedMutation schema entry).mutationId = some (getChangelogMutationId entry) := by
  unfold sanitizedMutation sanitizeChangelogMutationForSchema
  unfold getChangelogMutationId at *
  cases hm : entry.mutation.mutationId with
  | none =>
    rw [hm, Option.getD_none] at h
    simp [h]
  | some id => simp

end SuperFunctions.Datafn.Client.Changelog

/-!
# Compaction of deleted records

Before a push, the engine omits the writes of a record that a later mutation of the batch
deletes, as long as the local store does not hold the record.
-/
namespace SuperFunctions.Datafn.Client.Compaction

open Lib.OrderedMap Datafn.Core List

/-- `${resource}\u0000${id}`, for a mutation that names a record. -/
def recordKey (mutation : Mutation) : Option String :=
  mutation.id.map fun id => mutation.resource ++ "\u0000" ++ id

/-- The deletes of a key that carry a mutation id, each with its place in the batch. -/
def replacingDeletes (mutations : List Mutation) (key : String) : List (Nat × String) :=
  mutations.zipIdx.filterMap fun (mutation, index) =>
    if mutation.operation = .delete ∧ recordKey mutation = some key
    then mutation.mutationId.map fun mutationId => (index, mutationId) else none

def laterDeleteIds (mutations : List Mutation) (key : String) (index : Nat) : List String :=
  ((replacingDeletes mutations key).filter fun candidate => index < candidate.1).map Prod.snd

/-- The deletes that replace a record write, unless the local store holds the record. The answer
of the store is looked up once for each key and kept in `existingByKey`. -/
def replacedBy (existingByKey : String → Bool) (mutations : List Mutation) (mutation : Mutation)
    (index : Nat) : List String :=
  match recordKey mutation with
  | none => []
  | some key =>
    if isRecordMutationOperation mutation.operation ∧ existingByKey key = false
    then laterDeleteIds mutations key index else []

structure Compacted where
  mutations : List Mutation
  omittedMutationIds : List String
  replacingDeleteIdsByMutationId : OMap String (List String)

def compactStep (existingByKey : String → Bool) (mutations : List Mutation) (acc : Compacted)
    (item : Mutation × Nat) : Compacted :=
  let deletes := replacedBy existingByKey mutations item.1 item.2
  if deletes = [] then { acc with mutations := acc.mutations ++ [item.1] }
  else
    match item.1.mutationId with
    | none => acc
    | some mutationId =>
      { acc with
        omittedMutationIds := acc.omittedMutationIds ++ [mutationId]
        replacingDeleteIdsByMutationId :=
          acc.replacingDeleteIdsByMutationId.set mutationId deletes }

def compactDeletedRecordMutations (existingByKey : String → Bool) (mutations : List Mutation) :
    Compacted :=
  mutations.zipIdx.foldl (compactStep existingByKey mutations) ⟨[], [], OMap.empty⟩

/-- `d` is a delete, later in the batch than the write `w`, of the record `w` writes. -/
def Replaces (mutations : List Mutation) (d w : String) : Prop :=
  ∃ (i j : Nat) (mi mj : Mutation), i < j ∧ mutations[i]? = some mi ∧ mutations[j]? = some mj ∧
    mi.mutationId = some w ∧ mj.mutationId = some d ∧ mj.operation = .delete ∧
    (recordKey mi).isSome ∧ recordKey mj = recordKey mi

/-- Every mutation of the batch has a mutation id, and no two share one. -/
structure DistinctIds (mutations : List Mutation) : Prop where
  identified : ∀ m ∈ mutations, m.mutationId.isSome
  distinct : mutations.Pairwise fun m n => m.mutationId ≠ n.mutationId

variable {mutations : List Mutation}

theorem DistinctIds.index_eq (h : DistinctIds mutations) {i j : Nat} {mi mj : Mutation}
    (hi : mutations[i]? = some mi) (hj : mutations[j]? = some mj)
    (hid : mi.mutationId = mj.mutationId) : i = j := by
  obtain ⟨hi', rfl⟩ := List.getElem?_eq_some_iff.mp hi
  obtain ⟨hj', rfl⟩ := List.getElem?_eq_some_iff.mp hj
  have hp := List.pairwise_iff_getElem.mp h.distinct
  rcases Nat.lt_trichotomy i j with hlt | heq | hgt
  · exact absurd hid (hp i j hi' hj' hlt)
  · exact heq
  · exact absurd hid.symm (hp j i hj' hi' hgt)

/-! ## The deletes that replace a write -/

theorem mem_laterDeleteIds {key d : String} {index : Nat} :
    d ∈ laterDeleteIds mutations key index ↔
      ∃ j m, index < j ∧ mutations[j]? = some m ∧ m.mutationId = some d ∧
        m.operation = .delete ∧ recordKey m = some key := by
  simp only [laterDeleteIds, replacingDeletes, mem_map, mem_filter,
    mem_filterMap, Prod.exists, mk_mem_zipIdx_iff_getElem?]
  constructor
  · rintro ⟨j, id, ⟨⟨m, k, hm, hif⟩, hlt⟩, rfl⟩
    split at hif
    case isFalse => cases hif
    case isTrue hc =>
      obtain ⟨id', hid, hpair⟩ := Option.map_eq_some_iff.mp hif
      cases hpair
      exact ⟨j, m, by simpa using hlt, hm, hid, hc.1, hc.2⟩
  · rintro ⟨j, m, hlt, hm, hid, hop, hkey⟩
    refine ⟨j, d, ⟨⟨m, j, hm, ?_⟩, by simpa using hlt⟩, rfl⟩
    rw [if_pos ⟨hop, hkey⟩, hid]
    rfl

variable {m : Mutation}

theorem replacedBy_delete (existingByKey : String → Bool) (mutations : List Mutation)
    (hm : m.operation = .delete) (index : Nat) :
    replacedBy existingByKey mutations m index = [] := by
  unfold replacedBy
  split
  · rfl
  · rw [hm, if_neg (by simp)]

variable {w : String}

theorem mem_replacedBy_iff {existingByKey : String → Bool} (h : DistinctIds mutations) {i : Nat}
    (hi : mutations[i]? = some m) (hw : m.mutationId = some w)
    (hne : replacedBy existingByKey mutations m i ≠ []) (d : String) :
    d ∈ replacedBy existingByKey mutations m i ↔ Replaces mutations d w := by
  unfold replacedBy at hne ⊢
  split at hne
  case h_1 => exact absurd rfl hne
  rename_i key hkey
  split at hne
  case isFalse => exact absurd rfl hne
  rename_i hc
  rw [if_pos hc, mem_laterDeleteIds]
  constructor
  · rintro ⟨j, mj, hlt, hj, hid, hop, hk⟩
    exact ⟨i, j, m, mj, hlt, hi, hj, hw, hid, hop, by simp [hkey], by rw [hk, hkey]⟩
  rintro ⟨i', j, mi, mj, hlt, hi', hj, hid, hid', hop, -, hk⟩
  have hii : i = i' := h.index_eq hi hi' (hw.trans hid.symm)
  subst hii
  rw [hi] at hi'
  cases hi'
  exact ⟨j, mj, hlt, hj, hid', hop, hk.trans hkey⟩

/-! ## What the compaction keeps and omits -/

private theorem foldl_compactStep_mutations (existingByKey : String → Bool)
    (mutations : List Mutation) (items : List (Mutation × Nat)) (acc : Compacted) :
    (items.foldl (compactStep existingByKey mutations) acc).mutations =
      acc.mutations ++
        (items.filter fun i => replacedBy existingByKey mutations i.1 i.2 = []).map Prod.fst := by
  induction items generalizing acc with
  | nil => simp
  | cons item items ih =>
    rw [foldl_cons, ih]
    unfold compactStep
    by_cases h : replacedBy existingByKey mutations item.1 item.2 = []
    · simp [h]
    · cases hid : item.1.mutationId <;> simp [h]

private theorem foldl_compactStep_replacing (existingByKey : String → Bool)
    (mutations : List Mutation) (items : List (Mutation × Nat)) (acc : Compacted) {ds : List String}
    (h : (items.foldl (compactStep existingByKey mutations) acc).replacingDeleteIdsByMutationId.get
      w = some ds) : acc.replacingDeleteIdsByMutationId.get w = some ds ∨
      ∃ item ∈ items, item.1.mutationId = some w ∧
        replacedBy existingByKey mutations item.1 item.2 = ds ∧ ds ≠ [] := by
  induction items generalizing acc with
  | nil => exact .inl h
  | cons item items ih =>
    rcases ih _ h with hacc | ⟨i, hi, hrest⟩
    · unfold compactStep at hacc
      by_cases hr : replacedBy existingByKey mutations item.1 item.2 = []
      · exact .inl (by simpa [hr] using hacc)
      cases hid : item.1.mutationId with
      | none => exact .inl (by simpa [hr, hid] using hacc)
      | some id =>
        simp only [hr, hid, if_false, OMap.get_set] at hacc
        split at hacc
        case isTrue hw =>
          cases hacc
          exact .inr ⟨item, mem_cons_self, by rw [hid, hw], rfl, hr⟩
        case isFalse => exact .inl hacc
    · exact .inr ⟨i, mem_cons_of_mem _ hi, hrest⟩

private theorem foldl_compactStep_omitted (existingByKey : String → Bool)
    (mutations : List Mutation) (items : List (Mutation × Nat)) (acc : Compacted) (w : String) :
    w ∈ (items.foldl (compactStep existingByKey mutations) acc).omittedMutationIds ↔
      w ∈ acc.omittedMutationIds ∨ ∃ item ∈ items, item.1.mutationId = some w ∧
        replacedBy existingByKey mutations item.1 item.2 ≠ [] := by
  induction items generalizing acc with
  | nil => simp
  | cons item items ih =>
    rw [foldl_cons, ih]
    unfold compactStep
    by_cases h : replacedBy existingByKey mutations item.1 item.2 = []
    · simp [h]
    cases hid : item.1.mutationId with
    | none => simp [h, hid]
    | some id =>
      simp only [h, if_false, mem_append, mem_singleton, exists_mem_cons_iff, hid,
        Option.some.injEq, ne_eq, not_false_eq_true, and_true, or_assoc, eq_comm (a := w)]

/-- The omitted ids are exactly the keys of the replacing-deletes map. -/
private theorem foldl_compactStep_keys (existingByKey : String → Bool)
    (mutations : List Mutation) (items : List (Mutation × Nat)) (acc : Compacted)
    (hacc : ∀ w, w ∈ acc.omittedMutationIds ↔
      (acc.replacingDeleteIdsByMutationId.get w).isSome) (w : String) :
    w ∈ (items.foldl (compactStep existingByKey mutations) acc).omittedMutationIds ↔
      ((items.foldl (compactStep existingByKey mutations)
        acc).replacingDeleteIdsByMutationId.get w).isSome := by
  induction items generalizing acc with
  | nil => exact hacc w
  | cons item items ih =>
    refine ih _ fun w => ?_
    unfold compactStep
    by_cases h : replacedBy existingByKey mutations item.1 item.2 = []
    · simpa [h] using hacc w
    cases hid : item.1.mutationId with
    | none => simpa [h] using hacc w
    | some id =>
      simp only [h, if_false, mem_append, mem_singleton, OMap.get_set, hacc w]
      by_cases hw : w = id <;> simp [hw]

section Spec

variable (existingByKey : String → Bool) {mutations : List Mutation}

theorem mem_compacted_mutations :
    m ∈ (compactDeletedRecordMutations existingByKey mutations).mutations ↔
      ∃ i, mutations[i]? = some m ∧ replacedBy existingByKey mutations m i = [] := by
  unfold compactDeletedRecordMutations
  rw [foldl_compactStep_mutations]
  simp [mk_mem_zipIdx_iff_getElem?]

theorem mem_omittedMutationIds :
    w ∈ (compactDeletedRecordMutations existingByKey mutations).omittedMutationIds ↔
      ∃ i m, mutations[i]? = some m ∧ m.mutationId = some w ∧
        replacedBy existingByKey mutations m i ≠ [] := by
  unfold compactDeletedRecordMutations
  rw [foldl_compactStep_omitted]
  simp only [not_mem_nil, false_or, Prod.exists, mk_mem_zipIdx_iff_getElem?]
  exact exists_comm

theorem replacing_get (h : DistinctIds mutations)
    (hw : w ∈ (compactDeletedRecordMutations existingByKey mutations).omittedMutationIds) :
    ∃ ds, (compactDeletedRecordMutations existingByKey
        mutations).replacingDeleteIdsByMutationId.get w = some ds ∧
      ds ≠ [] ∧ ∀ d, d ∈ ds ↔ Replaces mutations d w := by
  have hkeys := foldl_compactStep_keys existingByKey mutations mutations.zipIdx
    ⟨[], [], OMap.empty⟩ (by simp) w
  obtain ⟨ds, hds⟩ := Option.isSome_iff_exists.mp (hkeys.mp hw)
  refine ⟨ds, hds, ?_⟩
  rcases foldl_compactStep_replacing existingByKey mutations _ _ hds with hnil | hitem
  · simp at hnil
  · obtain ⟨⟨m, i⟩, hi, hid, rfl, hne⟩ := hitem
    rw [mk_mem_zipIdx_iff_getElem?] at hi
    exact ⟨hne, mem_replacedBy_iff h hi hid hne⟩

theorem replacing_get_omitted {ds : List String} (h : (compactDeletedRecordMutations existingByKey
      mutations).replacingDeleteIdsByMutationId.get w = some ds) :
    w ∈ (compactDeletedRecordMutations existingByKey mutations).omittedMutationIds := by
  refine (foldl_compactStep_keys existingByKey mutations mutations.zipIdx
    ⟨[], [], OMap.empty⟩ (by simp) w).mpr ?_
  change ((compactDeletedRecordMutations existingByKey
    mutations).replacingDeleteIdsByMutationId.get w).isSome
  rw [h]
  rfl

theorem replacing_delete_sent {d : String} (h : Replaces mutations d w) :
    ∃ m ∈ (compactDeletedRecordMutations existingByKey mutations).mutations,
      m.mutationId = some d := by
  obtain ⟨-, j, -, mj, -, -, hj, -, hid, hop, -⟩ := h
  exact ⟨mj, (mem_compacted_mutations existingByKey).mpr
    ⟨j, hj, replacedBy_delete existingByKey mutations hop j⟩, hid⟩

theorem omitted_not_sent (h : DistinctIds mutations)
    (hw : w ∈ (compactDeletedRecordMutations existingByKey mutations).omittedMutationIds)
    (hm : m ∈ (compactDeletedRecordMutations existingByKey mutations).mutations) :
    m.mutationId ≠ some w := by
  intro hid
  obtain ⟨i, hi, hsent⟩ := (mem_compacted_mutations existingByKey).mp hm
  obtain ⟨j, n, hj, hn, hne⟩ := (mem_omittedMutationIds existingByKey).mp hw
  have hij : i = j := h.index_eq hi hj (hid.trans hn.symm)
  subst hij
  rw [hi] at hj
  cases hj
  exact hne hsent

theorem sent_or_omitted (hm : m ∈ mutations) (hw : m.mutationId = some w) :
    m ∈ (compactDeletedRecordMutations existingByKey mutations).mutations ∨
      w ∈ (compactDeletedRecordMutations existingByKey mutations).omittedMutationIds := by
  obtain ⟨i, hi⟩ := mem_iff_getElem?.mp hm
  by_cases h : replacedBy existingByKey mutations m i = []
  · exact .inl ((mem_compacted_mutations existingByKey).mpr ⟨i, hi, h⟩)
  · exact .inr ((mem_omittedMutationIds existingByKey).mpr ⟨i, m, hi, hw, h⟩)

end Spec

/-! ## What a batch does to a record -/

/-- What is dropped from an ordered list has no effect if something later forgets it. -/
theorem foldl_filter_forgotten {α β : Type*} {f : β → α → β} {keep : α → Bool} {rank : α → Nat}
    {l : List α} (hsorted : l.Pairwise fun a b => rank a < rank b)
    (h : ∀ a ∈ l, keep a = false → ∃ d ∈ l, rank a < rank d ∧ ∀ s t, f s d = f t d) (s : β) :
    (l.filter keep).foldl f s = l.foldl f s := by
  induction l generalizing s with
  | nil => rfl
  | cons a l ih =>
    obtain ⟨hfirst, hrest⟩ := pairwise_cons.mp hsorted
    have hlater : ∀ b ∈ a :: l, keep b = false → ∃ d ∈ l, rank b < rank d ∧ ∀ s t, f s d = f t d := by
      intro b hb hdropped
      obtain ⟨d, hd, hlt, hforgets⟩ := h b hb hdropped
      rcases mem_cons.mp hd with rfl | hd
      · rcases mem_cons.mp hb with rfl | hb
        · omega
        · have hgt := hfirst b hb
          omega
      · exact ⟨d, hd, hlt, hforgets⟩
    have hsame := ih hrest fun b hb => hlater b (mem_cons_of_mem _ hb)
    cases hkeep : keep a with
    | true =>
      rw [filter_cons_of_pos hkeep]
      exact hsame (f s a)
    | false =>
      rw [filter_cons_of_neg (by simp [hkeep]), hsame]
      obtain ⟨d, hd, -, hforgets⟩ := hlater a mem_cons_self hkeep
      obtain ⟨front, back, rfl⟩ := append_of_mem hd
      simp only [foldl_cons, foldl_append]
      rw [hforgets (front.foldl f s) (front.foldl f (f s a))]

/-- What a mutation leaves of its record, where `write` tells what the others than deletes do. -/
def effect {R : Type*} (write : Mutation → Option R → Option R) (record : Option R)
    (mutation : Mutation) : Option R :=
  if mutation.operation = .delete then none else write mutation record

/-- The compacted batch leaves of every record what the whole batch leaves. -/
theorem compacted_effect {R : Type*} (write : Mutation → Option R → Option R)
    (existingByKey : String → Bool) (mutations : List Mutation) (key : String)
    (record : Option R) :
    ((compactDeletedRecordMutations existingByKey mutations).mutations.filter
      fun m => recordKey m = some key).foldl (effect write) record =
    (mutations.filter fun m => recordKey m = some key).foldl (effect write) record := by
  have hsent : (compactDeletedRecordMutations existingByKey mutations).mutations =
      (mutations.zipIdx.filter fun e => replacedBy existingByKey mutations e.1 e.2 = []).map
        Prod.fst := foldl_compactStep_mutations existingByKey mutations _ _
  have hsorted : mutations.zipIdx.Pairwise fun a b => a.2 < b.2 := by
    rw [← pairwise_map, zipIdx_map_snd]
    exact pairwise_lt_range'
  rw [hsent, filter_map, foldl_map, filter_comm]
  conv_rhs => rw [← zipIdx_map_fst 0 mutations, filter_map, foldl_map]
  apply foldl_filter_forgotten (hsorted.filter _)
  intro e he hdropped
  obtain ⟨hmem, hkey⟩ := mem_filter.mp he
  have hnamed : recordKey e.1 = some key := by simpa using hkey
  have hreplaced : replacedBy existingByKey mutations e.1 e.2 ≠ [] := by simpa using hdropped
  rw [replacedBy, hnamed] at hreplaced
  dsimp only at hreplaced
  split_ifs at hreplaced
  case neg => exact absurd rfl hreplaced
  obtain ⟨d, hd⟩ := exists_mem_of_ne_nil _ hreplaced
  obtain ⟨j, m, hlt, hj, -, hdelete, hsame⟩ := mem_laterDeleteIds.mp hd
  refine ⟨(m, j), mem_filter.mpr ⟨mk_mem_zipIdx_iff_getElem?.mpr hj, by simpa using hsame⟩, hlt,
    fun s t => ?_⟩
  rw [effect, effect, if_pos hdelete, if_pos hdelete]

end SuperFunctions.Datafn.Client.Compaction

/-!
# The client's push

One call of `processPush`, from the pending changelog to its acknowledgement. The requests it
sends and the replies to them are recorded in order.
-/
namespace SuperFunctions.Datafn.Client.Push

open Lib.OrderedMap Datafn.Core Changelog Compaction

structure PushMutationError where
  mutationId : Option String
  retryable : Option Bool

structure PushSyncResult where
  ok : Bool
  applied : List String
  errors : List PushMutationError
  cursor : Option Nat
  cursorBefore : Option Nat
  cursors : OMap String Nat

/-- What comes back for one push request: an envelope, or a transport failure. -/
inductive PushReply where
  | response (ok : Bool) (result : Option PushSyncResult) (retryable : Option Bool)
  | failure (retryable : Option Bool)

namespace PushReply

def result? : PushReply → Option PushSyncResult
  | response _ result _ => result
  | failure _ => none

def retryable : PushReply → Option Bool
  | response _ _ retryable => retryable
  | failure retryable => retryable

end PushReply

def hasTerminalMutationError (result : PushSyncResult) : Bool :=
  result.errors.any fun error => error.retryable = some false

/-- The result that ends the retries; any other reply counts as a failed attempt. -/
def acceptedResult : PushReply → Option PushSyncResult
  | .response ok (some result) _ =>
    if ok || hasTerminalMutationError result then some result else none
  | _ => none

/-- A request and the reply to it. -/
structure Exchange where
  mutations : List Mutation
  reply : PushReply

/-- The answers of the environment to one call of `processPush`: whether the `beforeSync` hooks
let a payload pass, and the reply to the `n`-th request. -/
structure Remote where
  beforeSync : List Mutation → Bool
  push : Nat → List Mutation → PushReply

/-- The attempts that are left, numbered from `n` on. -/
def pushAttempts (remote : Remote) (mutations : List Mutation) :
    (n : Nat) → (attempts : Nat) → List Exchange × Option PushSyncResult
  | _, 0 => ([], none)
  | n, attempts + 1 =>
    let reply := remote.push n mutations
    match acceptedResult reply with
    | some result => ([⟨mutations, reply⟩], some result)
    | none =>
      if attempts = 0 ∨ reply.retryable = some false then ([⟨mutations, reply⟩], none)
      else
        let rest := pushAttempts remote mutations (n + 1) attempts
        (⟨mutations, reply⟩ :: rest.1, rest.2)

def pushWithRetries (remote : Remote) (pushMaxRetries : Nat) (n : Nat)
    (mutations : List Mutation) : List Exchange × Option PushSyncResult :=
  if remote.beforeSync mutations then pushAttempts remote mutations n (1 + pushMaxRetries)
  else ([], none)

/-! ## Acknowledgement -/

/-- The applied ids and the last unresolved error of each mutation, over the results so far. -/
structure PushReport where
  applied : List String
  errorsByMutationId : OMap String PushMutationError

def reportApplied (report : PushReport) (mutationId : String) : PushReport :=
  ⟨mutationId :: report.applied, report.errorsByMutationId.delete mutationId⟩

def reportError (report : PushReport) (error : PushMutationError) : PushReport :=
  match error.mutationId with
  | none => report
  | some mutationId =>
    if mutationId ∈ report.applied then report
    else { report with errorsByMutationId := report.errorsByMutationId.set mutationId error }

def reportResult (report : PushReport) (result : PushSyncResult) : PushReport :=
  result.errors.foldl reportError (result.applied.foldl reportApplied report)

def collectReport (results : List PushSyncResult) : PushReport :=
  results.foldl reportResult ⟨[], OMap.empty⟩

/-- The entry needs no further push: applied, acknowledged as omitted, or failed for good. -/
def resolvedBy (report : PushReport) (omitted : List String) (mutationId : String) : Bool :=
  mutationId ∈ report.applied || mutationId ∈ omitted ||
    ((report.errorsByMutationId.get mutationId).bind PushMutationError.retryable) = some false

def ackPrefix (report : PushReport) (omitted : List String) :
    List ChangelogEntry → Option Nat → Option Nat
  | [], throughSeq => throughSeq
  | entry :: entries, throughSeq =>
    let mutationId := getChangelogMutationId entry
    if mutationId ≠ "" ∧ resolvedBy report omitted mutationId
    then ackPrefix report omitted entries (some entry.seq) else throughSeq

def computeAckThroughSeq (entries : List ChangelogEntry) (results : List PushSyncResult)
    (omitted : List String) : Option Nat :=
  ackPrefix (collectReport results) omitted entries none

/-! ## One push -/

/-- The prefix of the pending entries that one client wrote. -/
def clientBatch (pending : List ChangelogEntry) : List ChangelogEntry :=
  match pending with
  | [] => []
  | first :: _ =>
    pending.takeWhile fun e => getChangelogClientId e = getChangelogClientId first

/-- The omitted writes none of whose replacing deletes the first result lists as applied. -/
def replayableOmitted (compacted : Compacted) (first : PushSyncResult) : List String :=
  (compacted.replacingDeleteIdsByMutationId.entries.filter fun e =>
    e.2.all fun d => d ∉ first.applied).map Prod.fst

/-- The batch sent a second time: without the omitted writes that are not replayable. -/
def replayMutations (sanitized : List Mutation) (compacted : Compacted)
    (replayable : List String) : List Mutation :=
  sanitized.filter fun m =>
    match m.mutationId with
    | none => true
    | some mutationId =>
      mutationId = "" || mutationId ∉ compacted.omittedMutationIds || mutationId ∈ replayable

def acknowledgedOmitted (compacted : Compacted) (results : List PushSyncResult) : List String :=
  (compacted.replacingDeleteIdsByMutationId.entries.filter fun e =>
    e.2.any fun d => d ∈ results.flatMap PushSyncResult.applied).map Prod.fst

/-- The exchanges of the call, and the acknowledgement it ends with, if any. -/
structure PushRun where
  exchanges : List Exchange
  throughSeq : Option Nat
  result : Option PushSyncResult

def finishPush (batch : List ChangelogEntry) (compacted : Compacted) (exchanges : List Exchange)
    (results : List PushSyncResult) (last : PushSyncResult) : PushRun where
  exchanges := exchanges
  throughSeq :=
    if last.ok then (batch.getLast?).map ChangelogEntry.seq
    else computeAckThroughSeq batch results (acknowledgedOmitted compacted results)
  result := some last

structure PushConfig where
  schema : WritableSchema
  pushBatchSize : Nat
  pushMaxRetries : Nat

def sanitizedBatch (config : PushConfig) (changelog : List ChangelogEntry) : List Mutation :=
  (clientBatch (changelogList changelog config.pushBatchSize)).map (sanitizedMutation config.schema)

def processPush (config : PushConfig) (existingByKey : String → Bool) (remote : Remote)
    (changelog : List ChangelogEntry) : PushRun :=
  let batch := clientBatch (changelogList changelog config.pushBatchSize)
  let sanitized := sanitizedBatch config changelog
  if batch = [] then ⟨[], none, none⟩
  else
    let compacted := compactDeletedRecordMutations existingByKey sanitized
    let first := pushWithRetries remote config.pushMaxRetries 0 compacted.mutations
    match first.2 with
    | none => ⟨first.1, none, none⟩
    | some result =>
      let replayable := replayableOmitted compacted result
      if ¬ result.ok ∧ compacted.omittedMutationIds ≠ [] ∧ replayable ≠ [] then
        let second := pushWithRetries remote config.pushMaxRetries first.1.length
          (replayMutations sanitized compacted replayable)
        match second.2 with
        | none => ⟨first.1 ++ second.1, none, none⟩
        | some replayed =>
          finishPush batch compacted (first.1 ++ second.1) [result, replayed] replayed
      else finishPush batch compacted first.1 [result] result

/-- The changelog after the call; `appended` arrived while the call was waiting. -/
def changelogAfter (run : PushRun) (changelog appended : List ChangelogEntry) :
    List ChangelogEntry :=
  match run.throughSeq with
  | none => changelog ++ appended
  | some throughSeq => changelogAck (changelog ++ appended) throughSeq

end SuperFunctions.Datafn.Client.Push
