import SuperFunctions.Lib.OrderedMap

/-!
# Ingestion of documents

The fields of a document become tokens, and the tokens the frequency and the metadata of each term
in each field.
-/
namespace SuperFunctions.SearchFn.Ingest

open Lib.OrderedMap List

structure Token (M : Type) where
  value : String
  metadata : Option M

/-- The tokens of the text of a field, and the metadata whose `isPrefix` is `true`. -/
structure Pipeline (M : Type) where
  run : String → String → List (Token M)
  isPrefix : M → Bool

structure FieldStatistics (M : Type) where
  termFrequencies : OMap String Nat
  termMetadata : OMap String M
  length : Nat

/-- One term of one field of a document. -/
structure Entry (M : Type) where
  field : String
  term : String
  frequency : Nat
  metadata : Option M

variable {M : Type}

namespace FieldStatistics

def empty : FieldStatistics M := ⟨OMap.empty, OMap.empty, 0⟩

end FieldStatistics

variable (p : Pipeline M)

/-- Metadata that marks a prefix gives way to metadata that does not. -/
def replaces (existing : Option M) (metadata : M) : Bool :=
  existing.isNone || (existing.any p.isPrefix && !p.isPrefix metadata)

def addToken (entry : FieldStatistics M) (token : Token M) : FieldStatistics M :=
  if token.value = "" then entry
  else
    { termFrequencies := entry.termFrequencies.modify token.value 0 (· + 1)
      termMetadata :=
        match token.metadata with
        | some metadata =>
          if replaces p (entry.termMetadata.get token.value) metadata then
            entry.termMetadata.set token.value metadata
          else entry.termMetadata
        | none => entry.termMetadata
      length := entry.length + 1 }

/-- A field without text or without tokens is left out. -/
def ingestField (field text : String) : Option (String × FieldStatistics M) :=
  if text = "" then none
  else
    let statistics := (p.run field text).foldl (addToken p) FieldStatistics.empty
    if statistics.length = 0 then none else some (field, statistics)

def ingest (fields : OMap String String) : List (String × FieldStatistics M) :=
  fields.entries.filterMap fun e => ingestField p e.1 e.2

def totalLength (fields : OMap String String) : Nat :=
  ((ingest p fields).map fun e => e.2.length).sum

def fieldEntries (field : String) (statistics : FieldStatistics M) : List (Entry M) :=
  statistics.termFrequencies.entries.map fun e =>
    ⟨field, e.1, e.2, statistics.termMetadata.get e.1⟩

def entriesOf (fields : OMap String String) : List (Entry M) :=
  (ingest p fields).flatMap fun e => fieldEntries e.1 e.2

/-! ## Terms -/

variable {p} {fields : OMap String String}

theorem mem_ingest {field : String} {statistics : FieldStatistics M}
    (h : (field, statistics) ∈ ingest p fields) :
    ∃ text, (field, text) ∈ fields.entries ∧ ingestField p field text = some (field, statistics) := by
  obtain ⟨⟨f, text⟩, hmem, heq⟩ := mem_filterMap.mp h
  have hfield : f = field := by
    unfold ingestField at heq
    dsimp only at heq
    split_ifs at heq
    cases heq
    rfl
  rw [hfield] at hmem heq
  exact ⟨text, hmem, heq⟩

theorem entriesOf_eq_nil (h : totalLength p fields = 0) : entriesOf p fields = [] := by
  have hingest : ingest p fields = [] := by
    rw [List.eq_nil_iff_forall_not_mem]
    intro ⟨field, statistics⟩ he
    obtain ⟨text, -, hone⟩ := mem_ingest he
    have hlength : statistics.length = 0 :=
      List.sum_eq_zero_iff_forall_eq_nat.mp h _ (List.mem_map_of_mem he)
    unfold ingestField at hone
    dsimp only at hone
    split_ifs at hone with htext hzero
    cases hone
    exact hzero hlength
  rw [entriesOf, hingest]
  rfl

theorem term_ne_empty (tokens : List (Token M)) {start : FieldStatistics M}
    (hstart : ∀ term ∈ start.termFrequencies.keys, term ≠ "") :
    ∀ term ∈ (tokens.foldl (addToken p) start).termFrequencies.keys, term ≠ "" := by
  induction tokens generalizing start with
  | nil => exact hstart
  | cons token rest ih =>
    refine ih fun term hterm => ?_
    rw [addToken] at hterm
    split_ifs at hterm with hvalue
    · exact hstart term hterm
    have hmem : term = token.value ∨ term ∈ start.termFrequencies.keys :=
      (mem_keys_setEntries token.value term _ start.termFrequencies.entries).mp hterm
    rcases hmem with heq | hold
    · rwa [heq]
    · exact hstart term hold

theorem entry_term_ne_empty {entry : Entry M} (h : entry ∈ entriesOf p fields) :
    entry.term ≠ "" := by
  obtain ⟨⟨field, statistics⟩, hmem, hentry⟩ := mem_flatMap.mp h
  obtain ⟨text, -, hingest⟩ := mem_ingest hmem
  obtain ⟨e, he, rfl⟩ := mem_map.mp hentry
  unfold ingestField at hingest
  dsimp only at hingest
  split_ifs at hingest
  cases hingest
  exact term_ne_empty _ (by intro term hterm; cases hterm) e.1 (mem_map_of_mem he)

theorem nodup_entriesOf (fields : OMap String String) :
    ((entriesOf p fields).map fun entry => (entry.field, entry.term)).Nodup := by
  have hfields : ((ingest p fields).map Prod.fst).Nodup := by
    have hsub : ((ingest p fields).map Prod.fst).Sublist (fields.entries.map Prod.fst) := by
      have hmap : (ingest p fields).map Prod.fst =
          fields.entries.filterMap fun e => (ingestField p e.1 e.2).map fun _ => e.1 := by
        rw [ingest, map_filterMap]
        refine filterMap_congr fun e _ => ?_
        cases hone : ingestField p e.1 e.2 with
        | none => rfl
        | some found =>
          unfold ingestField at hone
          dsimp only at hone
          split_ifs at hone
          cases hone
          rfl
      rw [hmap]
      generalize fields.entries = es
      induction es with
      | nil => exact List.Sublist.refl _
      | cons e es ih =>
        rw [filterMap_cons, map_cons]
        cases ingestField p e.1 e.2 with
        | none => exact ih.cons e.1
        | some found => exact ih.cons_cons e.1
    exact fields.nodup.sublist hsub
  rw [entriesOf, map_flatMap, nodup_flatMap]
  refine ⟨fun e _ => ?_, ?_⟩
  · rw [fieldEntries, map_map]
    have hterms := e.2.termFrequencies.nodup
    rw [List.Nodup, pairwise_map] at hterms ⊢
    refine hterms.imp fun {a b} hne heq => hne ?_
    exact congrArg Prod.snd heq
  · rw [List.Nodup, pairwise_map] at hfields
    refine hfields.imp fun {a b} hne => ?_
    intro pair ha hb
    obtain ⟨entry, hentry, rfl⟩ := mem_map.mp ha
    obtain ⟨entry', hentry', heq⟩ := mem_map.mp hb
    obtain ⟨x, -, rfl⟩ := mem_map.mp hentry
    obtain ⟨y, -, rfl⟩ := mem_map.mp hentry'
    exact hne (congrArg Prod.fst heq).symm

end SuperFunctions.SearchFn.Ingest

/-!
# Keys of postings

A posting is stored under its field and its term with two colons between them, and a removal takes
the term out of the key again.
-/
namespace SuperFunctions.SearchFn.PostingKey

open List

def postingKey (field term : String) : String := field ++ "::" ++ term

/-- `split("::")` -/
def splitKey : List Char → List (List Char)
  | [] => [[]]
  | [c] => [[c]]
  | c :: d :: rest =>
    if c = ':' ∧ d = ':' then [] :: splitKey rest
    else
      match splitKey (d :: rest) with
      | [] => [[c]]
      | piece :: pieces => (c :: piece) :: pieces

/-- `key.split("::")[1] ?? ""` -/
def keyTerm (key : String) : String :=
  match splitKey key.toList with
  | _ :: term :: _ => String.ofList term
  | _ => ""

/-- The field neither has two colons in a row nor ends in a colon. -/
def PlainField (field : String) : Prop :=
  splitKey (field.toList ++ [':']) = [field.toList ++ [':']]

/-- The term has no two colons in a row. -/
def PlainTerm (term : String) : Prop := splitKey term.toList = [term.toList]

instance (field : String) : Decidable (PlainField field) := inferInstanceAs (Decidable (_ = _))

instance (term : String) : Decidable (PlainTerm term) := inferInstanceAs (Decidable (_ = _))

theorem splitKey_ne_nil (cs : List Char) : splitKey cs ≠ [] := by
  cases cs with
  | nil => simp [splitKey]
  | cons c rest =>
    cases rest with
    | nil => simp [splitKey]
    | cons d rest =>
      rw [splitKey]
      split_ifs
      · simp
      · split
        · simp
        · simp

theorem splitKey_append {field : List Char} (h : splitKey (field ++ [':']) = [field ++ [':']])
    (term : List Char) : splitKey (field ++ ':' :: ':' :: term) = field :: splitKey term := by
  induction field with
  | nil => simp [splitKey]
  | cons c rest ih =>
    cases rest with
    | nil =>
      have hc : c ≠ ':' := by
        intro hc
        rw [hc] at h
        simp [splitKey] at h
      show splitKey (c :: ':' :: ':' :: term) = [c] :: splitKey term
      rw [splitKey, if_neg fun hcolons => hc hcolons.1]
      have hrest : splitKey (':' :: ':' :: term) = [] :: splitKey term := by simp [splitKey]
      rw [hrest]
    | cons d rest =>
      have hboth : ¬(c = ':' ∧ d = ':') := by
        intro hboth
        rw [cons_append, cons_append, splitKey, if_pos hboth] at h
        cases h
      have hrest : splitKey (d :: rest ++ [':']) = [d :: rest ++ [':']] := by
        rw [cons_append, cons_append, splitKey, if_neg hboth] at h
        rw [cons_append]
        cases hsplit : splitKey (d :: (rest ++ [':'])) with
        | nil => exact absurd hsplit (splitKey_ne_nil _)
        | cons piece pieces =>
          rw [hsplit] at h
          simp only [List.cons.injEq, true_and] at h
          rw [h.1, h.2]
      have ih' := ih hrest
      show splitKey (c :: d :: (rest ++ ':' :: ':' :: term)) = (c :: d :: rest) :: splitKey term
      rw [splitKey, if_neg hboth]
      rw [cons_append] at ih'
      rw [ih']

theorem splitKey_postingKey {field : String} (h : PlainField field) (term : String) :
    splitKey (postingKey field term).toList = field.toList :: splitKey term.toList := by
  have hkey : (postingKey field term).toList = field.toList ++ ':' :: ':' :: term.toList := by
    rw [postingKey, String.toList_append, String.toList_append, append_assoc]
    rfl
  rw [hkey, splitKey_append h]

theorem keyTerm_postingKey {field term : String} (hfield : PlainField field)
    (hterm : PlainTerm term) : keyTerm (postingKey field term) = term := by
  rw [keyTerm, splitKey_postingKey hfield, hterm]
  exact String.ofList_toList

theorem postingKey_cancel {field term term' : String}
    (h : postingKey field term = postingKey field term') : term = term' := by
  have hlists := congrArg String.toList h
  simp only [postingKey, String.toList_append] at hlists
  exact String.toList_inj.mp (append_cancel_left hlists)

theorem postingKey_injective {field field' term term' : String} (hfield : PlainField field)
    (hfield' : PlainField field') (h : postingKey field term = postingKey field' term') :
    field = field' ∧ term = term' := by
  have hsplit := splitKey_postingKey hfield term
  rw [h, splitKey_postingKey hfield' term'] at hsplit
  have hfields : field = field' :=
    String.toList_inj.mp (head_eq_of_cons_eq hsplit).symm
  rw [hfields] at h
  exact ⟨hfields, postingKey_cancel h⟩

end SuperFunctions.SearchFn.PostingKey
