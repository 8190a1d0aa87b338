import SuperFunctions.Db.MemoryDatabase

/-!
# Transactions of the memory adapter are atomic

Where callbacks leave the transaction adapter alone once they rolled back or returned, and a batch
fails at its first record or not at all, the adapter does what it would do if every transaction
worked on a copy.
-/
namespace SuperFunctions.Db.TransactionAtomicity

open Lib.OrderedMap Lib.Transition Where Memory MemoryDatabase MemoryTransactions Option
open List

variable {V K : Type} [DecidableEq K] {e : Engine V K}

/-! ## Operations that fail -/

variable {model : String} {failure : Failure} {st : Store V K} {row : Row V}

theorem insertRow_failed (h : (insertRow e st model row).2 = .failed failure) :
    (insertRow e st model row).1 = st := by
  rw [insertRow] at h ⊢
  split
  · rfl
  · next hget =>
    rw [hget] at h
    cases h

theorem updateRow_failed {clauses : Option (List (Clause V))} {data : Row V}
    (h : (updateRow e st model clauses data).2 = .failed failure) :
    (updateRow e st model clauses data).1 = st := by
  rw [updateRow] at h ⊢
  split
  · rfl
  next hwhere =>
  rw [if_neg hwhere] at h
  split
  · next entry hentry =>
    rw [hentry] at h
    cases h
  · rfl

/-- The key of the row is taken. -/
def Taken (e : Engine V K) (st : Store V K) (model : String) (row : Row V) : Prop :=
  ((st.table model).get (e.keyOf row)).isSome = true

instance (st : Store V K) (model : String) (row : Row V) : Decidable (Taken e st model row) :=
  inferInstanceAs (Decidable (_ = true))

/-- The first row is refused, or none is. -/
def CleanRows (e : Engine V K) (st : Store V K) (model : String) (rows : List (Row V)) : Prop :=
  (∃ row ∈ rows.head?, Taken e st model row) ∨
    ((rows.map e.keyOf).Nodup ∧ ∀ row ∈ rows, ¬ Taken e st model row)

instance (st : Store V K) (model : String) (rows : List (Row V)) :
    Decidable (CleanRows e st model rows) := by
  unfold CleanRows
  cases rows with
  | nil => exact isTrue (.inr ⟨List.nodup_nil, by intro row hrow; cases hrow⟩)
  | cons row rest =>
    exact decidable_of_iff (Taken e st model row ∨ (((row :: rest).map e.keyOf).Nodup ∧
      ∀ r ∈ row :: rest, ¬ Taken e st model r)) (by simp)

theorem table_insertRow (h : ¬ Taken e st model row) :
    insertRow e st model row =
      (st.setTable model ((st.table model).set (e.keyOf row) row), .rows [row]) := by
  have hnone : (st.table model).get (e.keyOf row) = none := by
    rw [Taken] at h
    simpa using h
  rw [insertRow, hnone]

theorem insertRows_rows {rows : List (Row V)} (hkeys : (rows.map e.keyOf).Nodup)
    (hfree : ∀ row ∈ rows, ¬ Taken e st model row) :
    (insertRows e st model rows).2 = .rows rows := by
  induction rows generalizing st with
  | nil => rfl
  | cons row rest ih =>
    rw [map_cons, nodup_cons] at hkeys
    have hrest : ∀ r ∈ rest, ¬ Taken e
        (st.setTable model ((st.table model).set (e.keyOf row) row)) model r := by
      intro r hr
      have hne : e.keyOf r ≠ e.keyOf row := by
        intro heq
        exact hkeys.1 (heq ▸ mem_map_of_mem hr)
      have hold := hfree r (mem_cons_of_mem _ hr)
      rw [Taken, Store.table, Store.setTable, OMap.get_set, if_pos rfl, getD_some,
        OMap.get_set, if_neg hne]
      exact hold
    have hmore := ih hkeys.2 hrest
    rw [insertRows, table_insertRow (hfree row mem_cons_self)]
    dsimp only
    generalize insertRows e (st.setTable model _) model rest = result at hmore ⊢
    obtain ⟨st₂, answer⟩ := result
    obtain rfl : answer = .rows rest := hmore
    rfl

theorem insertRows_failed {rows : List (Row V)} (hclean : CleanRows e st model rows)
    (h : (insertRows e st model rows).2 = .failed failure) :
    (insertRows e st model rows).1 = st := by
  obtain ⟨row, hhead, htaken⟩ | ⟨hkeys, hfree⟩ := hclean
  · cases rows with
    | nil => cases hhead
    | cons first rest =>
      obtain rfl : first = row := some.inj hhead
      obtain ⟨old, hold⟩ := isSome_iff_exists.mp htaken
      rw [insertRows, insertRow, hold]
  · rw [insertRows_rows hkeys hfree] at h
    cases h

/-- A batch that is called outside of a transaction fails at its first record or not at all. -/
def CleanBatch (e : Engine V K) (db : Database V K) : Op V → Prop
  | .call (.createMany model data _) =>
    let (rows, generated) := transformCreates e db.generated data
    CleanRows e ⟨db.content.tables, generated⟩ model rows
  | _ => True

instance (db : Database V K) (op : Op V) : Decidable (CleanBatch e db op) := by
  unfold CleanBatch
  split <;> infer_instance

variable {db : Database V K}

theorem tables_of_failed {c : Call V} (hclean : CleanBatch e db (.call c))
    (h : (call e ⟨db.content.tables, db.generated⟩ c).2 = .failed failure) :
    (call e ⟨db.content.tables, db.generated⟩ c).1.tables = db.content.tables := by
  cases c with
  | create model data select =>
    exact congrArg Store.tables (insertRow_failed h)
  | createMany model data select => exact congrArg Store.tables (insertRows_failed hclean h)
  | findOne model clauses select => rfl
  | findMany model clauses orderBy offset limit select => rfl
  | update model clauses data select => exact congrArg Store.tables (updateRow_failed h)
  | updateMany model clauses data => cases h
  | delete model clauses =>
    rw [call] at h ⊢
    split
    · rfl
    next hwhere =>
    rw [if_neg hwhere] at h
    split at h
    · cases h
    · cases h
  | deleteMany model clauses => cases h
  | upsert model clauses create update conflictTarget select =>
    rw [call] at h ⊢
    dsimp only at h ⊢
    split
    · next entry hentry =>
      rw [hentry] at h
      exact congrArg Store.tables (updateRow_failed h)
    · next hentry =>
      rw [hentry] at h
      exact congrArg Store.tables (insertRow_failed h)
  | count model clauses => rfl

/-! ## Internal tables -/

omit [DecidableEq K] in
theorem matchesInternalWhere_none {row' : Row V} {clauses : List (Clause V)}
    (h : matchesInternalWhere e row clauses = none) :
    matchesInternalWhere e row' clauses ≠ some true := by
  induction clauses with
  | nil => cases h
  | cons clause rest ih =>
    rw [matchesInternalWhere] at h ⊢
    split_ifs at h ⊢ with hop hmatch hmatch'
    · simp
    · exact ih h
    · simp

variable {entries : List (K × Row V)}

omit [DecidableEq K] in
theorem visitInternal_of_unmatched {clauses : List (Clause V)}
    {change : Table V K → K × Row V → Table V K} (table : Table V K)
    (h : ∀ entry ∈ entries, matchesInternalWhere e entry.2 clauses ≠ some true) :
    (visitInternal e clauses change entries table).1 = table := by
  induction entries with
  | nil => rfl
  | cons entry rest ih =>
    have hrest := ih fun r hr => h r (mem_cons_of_mem _ hr)
    rw [visitInternal]
    split
    · rfl
    · next hmatch => exact absurd hmatch (h entry mem_cons_self)
    · exact hrest

omit [DecidableEq K] in
theorem matches_none_of_visitInternal {clauses : List (Clause V)}
    {change : Table V K → K × Row V → Table V K} {table : Table V K}
    (h : (visitInternal e clauses change entries table).2 = none) :
    ∃ entry ∈ entries, matchesInternalWhere e entry.2 clauses = none := by
  induction entries generalizing table with
  | nil => cases h
  | cons entry rest ih =>
    rw [visitInternal] at h
    cases hmatch : matchesInternalWhere e entry.2 clauses with
    | none => exact ⟨entry, mem_cons_self, hmatch⟩
    | some matched =>
      rw [hmatch] at h
      have hrest : ∃ table, (visitInternal e clauses change rest table).2 = none := by
        cases matched with
        | false => exact ⟨_, h⟩
        | true => exact ⟨_, map_eq_none_iff.mp h⟩
      obtain ⟨table', hnone⟩ := hrest
      obtain ⟨found, hin, hfound⟩ := ih hnone
      exact ⟨found, mem_cons_of_mem _ hin, hfound⟩

omit [DecidableEq K] in
theorem visitInternal_threw {clauses : List (Clause V)} {change : Table V K → K × Row V → Table V K}
    {table : Table V K} (h : (visitInternal e clauses change entries table).2 = none) :
    (visitInternal e clauses change entries table).1 = table := by
  obtain ⟨entry, -, hnone⟩ := matches_none_of_visitInternal h
  exact visitInternal_of_unmatched table fun r _ => matchesInternalWhere_none hnone

private theorem count_of_elim_threw {count : Option Nat}
    (h : (count.elim OpAnswer.threw OpAnswer.count : OpAnswer V).refused = true) :
    count = none := by
  cases count with
  | none => rfl
  | some n => cases h

theorem content_of_internal {c : InternalCall V} (h : (internalCall e db c).2.refused = true) :
    (internalCall e db c).1.content = db.content := by
  cases c with
  | ensureTable name =>
    rw [internalCall] at h ⊢
    split_ifs at h ⊢ with hname hin hthere
    · rfl
    · cases h
    · cases h
    · cases h
  | create table data => cases h
  | findOne table clauses | findMany table clauses orderBy limit =>
    rw [internalCall]
    split
    · rfl
    · rfl
  | update table clauses data | delete table clauses =>
    rw [internalCall] at h ⊢
    split
    · rfl
    next records hget =>
    rw [hget] at h
    have hthrew := visitInternal_threw (count_of_elim_threw h)
    dsimp only
    rw [hthrew, OMap.set_of_get hget]
  | createMany table data => cases h

/-! ## Operations -/

variable {op : Op V}

theorem content_of_refused (hclean : CleanBatch e db op) (h : (exec e db op).2.refused = true) :
    (exec e db op).1.content = db.content := by
  cases op with
  | call c =>
    cases hanswer : (call e ⟨db.content.tables, db.generated⟩ c).2 with
    | rows found | number n =>
      rw [exec] at h
      dsimp only at h
      rw [hanswer] at h
      cases h
    | failed failure =>
      have htables := tables_of_failed hclean hanswer
      rw [exec]
      dsimp only
      rw [htables]
  | getSchemaVersion ns => rfl
  | setSchemaVersion ns version => cases h
  | internal c => exact content_of_internal h

theorem exec_of_reads (h : op.reads = true) : (exec e db op).1 = db := by
  cases op with
  | call c =>
    cases c with
    | findOne model clauses select => rfl
    | findMany model clauses orderBy offset limit select => rfl
    | count model clauses => rfl
    | _ => cases h
  | getSchemaVersion ns => rfl
  | setSchemaVersion ns version => cases h
  | internal c =>
    cases c with
    | findOne table clauses | findMany table clauses orderBy limit =>
      rw [exec, internalCall]
      split
      · rfl
      · rfl
    | _ => cases h

theorem atomically_eq (hclean : CleanBatch e db op) : Atomic.atomically e db op = exec e db op := by
  rw [Atomic.atomically]
  dsimp only
  split_ifs with hrefused
  · have hcontent := content_of_refused hclean hrefused
    rw [Atomic.undo, ← hcontent]
  · rfl

/-! ## Refinement -/

/-- The adapter holds what is committed, or the copy of the transaction that runs. -/
inductive Holds (db committed : Database V K) : Option (Live V K) → Option (Staged V K) → Prop
  | idle (h : db = committed) : Holds db committed none none
  | running (live : Live V K) (staged : Staged V K) (hdb : db = staged.db)
      (hsnapshot : live.snapshot = committed.content) (hflag : live.rolledBack = staged.rolledBack)
      (hundone : live.rolledBack = true → db.content = committed.content) :
      Holds db committed (some live) (some staged)

structure Refines (s : System V K) (a : Atomic V K) : Prop where
  queue : s.queue = a.queue
  answers : s.answers = a.answers
  ended : s.ended.length = a.ended
  holds : Holds s.db a.committed s.live a.live

/-- A callback that rolled back only reads, an adapter whose transaction has ended reads while no
other transaction runs, and a batch outside of a transaction is clean. -/
def Careful (e : Engine V K) (s : System V K) : Action V → Prop
  | .serve =>
    match s.queue with
    | .op op :: _ => CleanBatch e s.db op
    | _ => True
  | .use op => ∀ live ∈ s.live, live.rolledBack = true → op.reads = true
  | .useEnded op => op.reads = true ∧ s.live.isNone = true
  | .rollbackEnded _ => False
  | _ => True

instance (s : System V K) (action : Action V) : Decidable (Careful e s action) := by
  unfold Careful
  split
  · split <;> infer_instance
  all_goals infer_instance

omit [DecidableEq K] in
theorem refines_begin (db : Database V K) : Refines (begin db) (Atomic.begin db) :=
  ⟨rfl, rfl, rfl, .idle rfl⟩

variable {a : Atomic V K}

omit [DecidableEq K] in
theorem db_of_idle {s : System V K} (h : Refines s a) (hlive : s.live = none) :
    s.db = a.committed := by
  have hholds := h.holds
  rw [hlive] at hholds
  generalize a.live = copy at hholds
  cases hholds with
  | idle hdb => exact hdb

theorem serve_refines {s s' : System V K} (h : Refines s a) (hcareful : Careful e s .serve)
    (hserve : serve e s = some s') : ∃ a', Atomic.serve e a = some a' ∧ Refines s' a' := by
  obtain ⟨db, queue, live, ended, answers⟩ := s
  obtain ⟨committed, queue', live', ended', answers'⟩ := a
  obtain ⟨rfl, rfl, rfl, hholds⟩ := h
  cases hholds with
  | running => cases queue <;> cases hserve
  | idle h =>
    obtain rfl : db = committed := h
    cases queue with
    | nil => cases hserve
    | cons job rest =>
      cases job with
      | op op =>
        cases hserve
        have heq : Atomic.atomically e db op = exec e db op := atomically_eq hcareful
        refine ⟨_, rfl, rfl, ?_, rfl, .idle ?_⟩
        · show answers ++ [(exec e db op).2] = answers ++ [(Atomic.atomically e db op).2]
          rw [heq]
        · show (exec e db op).1 = (Atomic.atomically e db op).1
          rw [heq]
      | transaction =>
        cases hserve
        exact ⟨_, rfl, rfl, rfl, rfl, .running _ _ rfl rfl rfl (by intro h; cases h)⟩
      | close =>
        cases hserve
        exact ⟨_, rfl, rfl, rfl, rfl, .idle rfl⟩

theorem step_refines {s s' : System V K} {action : Action V} (h : Refines s a)
    (hcareful : Careful e s action) (hstep : step e s action = some s') :
    ∃ a', Atomic.step e a action = some a' ∧ Refines s' a' := by
  obtain ⟨db, queue, live, ended, answers⟩ := s
  obtain ⟨committed, queue', live', ended', answers'⟩ := a
  obtain ⟨rfl, rfl, rfl, hholds⟩ := h
  cases action with
  | serve => exact serve_refines ⟨rfl, rfl, rfl, hholds⟩ hcareful hstep
  | submit job =>
    cases hstep
    exact ⟨_, rfl, rfl, rfl, rfl, hholds⟩
  | use op =>
    cases hholds with
    | idle => cases hstep
    | running live staged hdb hsnapshot hflag hundone =>
      cases hstep
      obtain rfl : db = staged.db := hdb
      refine ⟨_, rfl, rfl, rfl, rfl, .running _ _ rfl hsnapshot hflag ?_⟩
      intro hrolled
      have hreads : op.reads = true := hcareful live rfl hrolled
      show (exec e staged.db op).1.content = committed.content
      rw [exec_of_reads hreads]
      exact hundone hrolled
  | commit =>
    cases hholds with
    | idle => cases hstep
    | running live staged hdb hsnapshot hflag hundone =>
      cases hstep
      exact ⟨_, rfl, rfl, rfl, rfl, .running _ _ hdb hsnapshot hflag hundone⟩
  | rollback =>
    cases hholds with
    | idle => cases hstep
    | running live staged hdb hsnapshot hflag hundone =>
      cases hstep
      refine ⟨_, rfl, rfl, rfl, rfl, .running _ _ ?_ hsnapshot rfl fun _ => hsnapshot⟩
      obtain rfl : db = staged.db := hdb
      show restore live.snapshot staged.db = Atomic.undo committed staged.db
      rw [restore, Atomic.undo, hsnapshot]
  | settle threw =>
    cases hholds with
    | idle => cases hstep
    | running live staged hdb hsnapshot hflag hundone =>
      cases hstep
      refine ⟨_, rfl, rfl, rfl, by simp, .idle ?_⟩
      show (if (threw && !live.rolledBack) = true then restore live.snapshot db else db) =
        if (threw || staged.rolledBack) = true then Atomic.undo committed staged.db else staged.db
      obtain rfl : db = staged.db := hdb
      cases hrolled : live.rolledBack with
      | true =>
        rw [← hflag, hrolled, Bool.not_true, Bool.and_false, Bool.or_true, if_neg (by decide),
          if_pos rfl, Atomic.undo, ← hundone hrolled]
      | false =>
        rw [← hflag, hrolled, Bool.not_false, Bool.and_true, Bool.or_false]
        split_ifs
        · rw [restore, Atomic.undo, hsnapshot]
        · rfl
  | useEnded op =>
    obtain ⟨hreads, hlive⟩ := hcareful
    cases hholds with
    | running => cases hlive
    | idle h =>
      obtain rfl : db = committed := h
      cases ended with
      | nil => cases hstep
      | cons snapshot rest =>
        cases hstep
        refine ⟨_, rfl, rfl, rfl, rfl, .idle ?_⟩
        exact exec_of_reads hreads
  | rollbackEnded n => exact hcareful.elim

/-! ## What the copies make sure of -/

/-- Whatever callers and callbacks do, in any order: the adapter keeps its queue, gives the
answers, and holds the rows that transactions on copies would. -/
theorem refines_of_careful {db : Database V K} {actions : List (Action V)} {s : System V K}
    (hcareful : Guarded (step e) (Careful e) (begin db) actions)
    (hrun : run (step e) (begin db) actions = some s) :
    ∃ a, run (Atomic.step e) (Atomic.begin db) actions = some a ∧ Refines s a := by
  have hstep : ∀ (s : System V K) (action : Action V) (s' : System V K) (a : Atomic V K),
      Refines s a → Careful e s action → step e s action = some s' →
      ∃ a', Atomic.step e a action = some a' ∧ Refines s' a' :=
    fun _ _ _ _ h hc hs => step_refines h hc hs
  exact guarded_run_simulates (step e) hstep (refines_begin db) hcareful hrun

/-! ## Two callers -/

def emptyDatabase : Database Value (Option Value) := ⟨⟨OMap.empty, OMap.empty, OMap.empty, []⟩, 0⟩

def post (id : String) : Row Value := Finmap.singleton "id" (.str id)

def createPost (id : String) : Op Value := .call (.create "posts" (post id) none)

/-- One transaction rolls back and one commits while another caller waits; a batch that repeats an
id is refused at its first record. -/
def sampleActions : List (Action Value) :=
  [.submit .transaction, .submit (.op (createPost "theirs")), .serve, .use (createPost "draft"),
    .use (.setSchemaVersion "app" 2), .rollback, .use (.call (.count "posts" none)),
    .settle true, .serve, .useEnded (.call (.findMany "posts" none none none none none)),
    .submit .transaction, .serve, .use (createPost "kept"),
    .use (.internal (.create "__datafn_log" (post "entry"))), .commit, .settle false,
    .submit (.op (.call (.createMany "posts" [post "kept", post "new"] none))), .serve]

def sampleSystem : System Value (Option Value) :=
  (run (step (memoryEngine quietRuntime)) (begin emptyDatabase) sampleActions).get (by decide)

theorem sampleActions_refine :
    ∃ a, run (Atomic.step (memoryEngine quietRuntime)) (Atomic.begin emptyDatabase)
      sampleActions = some a ∧ Refines sampleSystem a :=
  refines_of_careful (by decide) (some_get (by decide)).symm

/-- The callback writes after it rolled back, and throws. -/
def writeAfterRollback : List (Action Value) :=
  [.submit .transaction, .serve, .rollback, .use (createPost "draft"), .settle true]

def strayWrite : System Value (Option Value) :=
  (run (step (memoryEngine quietRuntime)) (begin emptyDatabase) writeAfterRollback).get (by decide)

def withoutStrayWrite : Atomic Value (Option Value) :=
  (run (Atomic.step (memoryEngine quietRuntime)) (Atomic.begin emptyDatabase)
    writeAfterRollback).get (by decide)

/-- The write stays, though the transaction rolled back and failed. -/
theorem writeAfterRollback_stays :
    ¬ ∀ (db : Database Value (Option Value)) (actions : List (Action Value))
      (s : System Value (Option Value)),
      run (step (memoryEngine quietRuntime)) (begin db) actions = some s →
      ∃ a, run (Atomic.step (memoryEngine quietRuntime)) (Atomic.begin db) actions = some a ∧
        Refines s a := by
  intro h
  obtain ⟨a, ha, hrefines⟩ :=
    h emptyDatabase writeAfterRollback strayWrite (some_get (by decide)).symm
  have hintended : withoutStrayWrite = a := get_of_eq_some (by decide) ha
  have hdb := db_of_idle hrefines (by decide)
  rw [← hintended] at hdb
  exact absurd (congrArg (fun db => db.content.tables) hdb) (by decide)

end SuperFunctions.Db.TransactionAtomicity
