import SuperFunctions.Db.ScopedCalls

/-!
# Isolation of row-level namespaces

A session of one namespace reads and changes the rows of this namespace only. It is told the same
whatever rows others have, as long as no row that it creates has the key of one of them.
-/
namespace SuperFunctions.Db.NamespaceIsolation

open Lib.Objects Lib.OrderedMap Lib.Transition Where Memory RowLevelNamespace ScopedCalls Option

section
variable {V K : Type} [DecidableEq V] [DecidableEq K] {e : Engine V K} {ns : String}

/-! ## Runs of one namespace -/

/-- No row that the call creates has the key of a stored row of another namespace. -/
def Careful (e : Engine V K) (config : Config) (ns : String) (s : Session V K) (c : Call V) :
    Prop :=
  match scopedCall e config.columnName (some ns) c with
  | some inner => Apart e config.columnName ns s.store inner
  | none => True

instance (config : Config) (s : Session V K) (c : Call V) :
    Decidable (Careful e config ns s c) := by
  unfold Careful
  split <;> infer_instance

/-- What a session of the namespace did to the store it began with. -/
structure Isolated (e : Engine V K) (col ns : String) (before : Store V K) (s : Session V K) :
    Prop where
  foreign : ∀ model, foreignRows e col ns s.store model = foreignRows e col ns before model
  handedOut : ∀ row ∈ s.handedOut, own e col ns row = true

variable {s : Session V K} {before : Store V K}

omit [DecidableEq K] in
theorem Isolated.written (h : Isolated e col ns before s) (model : String) :
    ∀ entry ∈ (s.store.table model).entries,
      entry ∉ (before.table model).entries → own e col ns entry.2 = true := by
  intro entry hentry hnew
  by_contra hown
  have hforeign : entry ∈ foreignRows e col ns s.store model :=
    List.mem_filter.mpr ⟨hentry, by simpa using hown⟩
  rw [h.foreign model] at hforeign
  exact hnew (List.mem_filter.mp hforeign).1

omit [DecidableEq V] [DecidableEq K] in
private theorem resolveNamespace_some (hns : ns ≠ "") (mandatory : Bool) :
    resolveNamespace (some ns) mandatory = some (some ns) := by
  unfold resolveNamespace
  split
  · next heq => exact absurd (some.inj heq) hns
  · next heq => rw [some.inj heq]
  · next heq => cases heq

variable {config : Config}

theorem isolated_step (hlaw : Lawful e) (hns : ns ≠ "")
    (h : Isolated e config.columnName ns before s) {c : Call V} {s₁ : Session V K}
    (hstep : step e config (some ns) s c = some s₁) :
    Isolated e config.columnName ns before s₁ := by
  rw [step, wrappedCall, resolveNamespace_some hns] at hstep
  dsimp only at hstep
  cases hinner : scopedCall e config.columnName (some ns) c with
  | none =>
    rw [hinner] at hstep
    cases hstep
    exact ⟨h.foreign, by simpa using h.handedOut⟩
  | some inner =>
    have hcall := confined_call hlaw hns s.store (scopedCall_scoped hlaw hinner)
    rw [hinner] at hstep
    cases hstep
    refine ⟨fun model => (hcall.foreign model).trans (h.foreign model), fun row hrow => ?_⟩
    rcases List.mem_append.mp hrow with hrow | hrow
    · exact h.handedOut row hrow
    · exact hcall.handedOut row hrow

/-- Sessions that tell nothing of the rows of other namespaces. -/
structure Alike (e : Engine V K) (col ns : String) (s s' : Session V K) : Prop where
  store : SameOwn e col ns s.store s'.store
  replies : s.replies = s'.replies

theorem alike_step (hlaw : Lawful e) (hns : ns ≠ "") {s' : Session V K}
    (h : Alike e config.columnName ns s s') {c : Call V} (hcareful : Careful e config ns s c)
    (hcareful' : Careful e config ns s' c) {s₁ s₁' : Session V K}
    (hstep : step e config (some ns) s c = some s₁)
    (hstep' : step e config (some ns) s' c = some s₁') : Alike e config.columnName ns s₁ s₁' := by
  rw [step, wrappedCall, resolveNamespace_some hns] at hstep hstep'
  dsimp only at hstep hstep'
  cases hinner : scopedCall e config.columnName (some ns) c with
  | none =>
    rw [hinner] at hstep hstep'
    cases hstep
    cases hstep'
    exact ⟨h.store, by rw [h.replies]⟩
  | some inner =>
    rw [Careful, hinner] at hcareful hcareful'
    have hcall := agree_call hlaw hns (scopedCall_scoped hlaw hinner) h.store hcareful hcareful'
    rw [hinner] at hstep hstep'
    cases hstep
    cases hstep'
    refine ⟨hcall.store, ?_⟩
    dsimp only
    rw [h.replies, hcall.answer]

variable {calls : List (Call V)}

/-- What a session does to a store is confined to its namespace, however long it runs. -/
theorem isolated_run (hlaw : Lawful e) (hns : ns ≠ "") {st : Store V K}
    (hrun : run (step e config (some ns)) ⟨st, [], []⟩ calls = some s) :
    Isolated e config.columnName ns st s := by
  have hstep : ∀ s c s', Isolated e config.columnName ns st s →
      step e config (some ns) s c = some s' → Isolated e config.columnName ns st s' :=
    fun _ _ _ h hnext => isolated_step hlaw hns h hnext
  have hbegin : Isolated e config.columnName ns st ⟨st, [], []⟩ :=
    ⟨fun _ => rfl, by intro row hrow; cases hrow⟩
  exact run_invariant _ hstep hbegin hrun

theorem alike_run (hlaw : Lawful e) (hns : ns ≠ "") {s' s₁ s₁' : Session V K}
    (h : Alike e config.columnName ns s s')
    (hcareful : Guarded (step e config (some ns)) (Careful e config ns) s calls)
    (hcareful' : Guarded (step e config (some ns)) (Careful e config ns) s' calls)
    (hrun : run (step e config (some ns)) s calls = some s₁)
    (hrun' : run (step e config (some ns)) s' calls = some s₁') :
    Alike e config.columnName ns s₁ s₁' := by
  induction calls generalizing s s' with
  | nil =>
    cases hrun
    cases hrun'
    exact h
  | cons c rest ih =>
    obtain ⟨m, hm, hrest⟩ := run_cons _ hrun
    obtain ⟨m', hm', hrest'⟩ := run_cons _ hrun'
    exact ih (alike_step hlaw hns h hcareful.1 hcareful'.1 hm hm') (hcareful.2 m hm)
      (hcareful'.2 m' hm') hrest hrest'

/-- A session of a namespace stays within its rows. On stores that differ in rows of other
namespaces two sessions are told the same, as long as every call is careful. -/
theorem noninterference_of_careful (hlaw : Lawful e) (hns : ns ≠ "") {config : Config}
    {st st' : Store V K} (hsame : SameOwn e config.columnName ns st st') {calls : List (Call V)}
    {s s' : Session V K}
    (hrun : run (step e config (some ns)) ⟨st, [], []⟩ calls = some s)
    (hrun' : run (step e config (some ns)) ⟨st', [], []⟩ calls = some s') :
    (∀ model, foreignRows e config.columnName ns s.store model =
      foreignRows e config.columnName ns st model) ∧
    (∀ row ∈ s.handedOut, own e config.columnName ns row = true) ∧
    (∀ model, ∀ entry ∈ (s.store.table model).entries,
      entry ∉ (st.table model).entries → own e config.columnName ns entry.2 = true) ∧
    (Guarded (step e config (some ns)) (Careful e config ns) ⟨st, [], []⟩ calls →
      Guarded (step e config (some ns)) (Careful e config ns) ⟨st', [], []⟩ calls →
      s.replies = s'.replies ∧ SameOwn e config.columnName ns s.store s'.store) := by
  have hisolated := isolated_run hlaw hns hrun
  refine ⟨hisolated.foreign, hisolated.handedOut, hisolated.written, ?_⟩
  intro hcareful hcareful'
  have hbegin : Alike e config.columnName ns ⟨st, [], []⟩ ⟨st', [], []⟩ := ⟨hsame, rfl⟩
  have halike := alike_run hlaw hns hbegin hcareful hcareful' hrun hrun'
  exact ⟨halike.replies, halike.store⟩

end

/-! ## The memory adapter -/

theorem lawful_memoryEngine (rt : Runtime) : Lawful (memoryEngine rt) where
  str_injective _ _ h := Value.str.inj h
  truthy_str _ h := decide_eq_true h
  matches_eq _ _ _ _ := decide_eq_true_iff
  order_subset _ _ _ h := (List.mem_insertionSort _).mp h

def sampleEngine : Engine Value (Option Value) := memoryEngine quietRuntime

def sampleConfig : Config := ⟨"tenant", true⟩

def sampleRow (id tenant title : String) : Row Value :=
  Assoc.spread (Assoc.spread (Finmap.singleton "id" (.str id))
    (Finmap.singleton "tenant" (.str tenant))) (Finmap.singleton "title" (.str title))

/-- One post of namespace `a`. -/
def ownPosts : Table Value (Option Value) :=
  OMap.empty.set (some (.str "mine")) (sampleRow "mine" "a" "first")

def storeOf (posts : Table Value (Option Value)) : Store Value (Option Value) :=
  Store.setTable ⟨OMap.empty, 0⟩ "posts" posts

/-- Namespace `b` has a post as well. -/
def sharedStore : Store Value (Option Value) :=
  storeOf (ownPosts.set (some (.str "taken")) (sampleRow "taken" "b" "secret"))

theorem sameOwn_sharedStore : SameOwn sampleEngine "tenant" "a" (storeOf ownPosts) sharedStore where
  rows model := by
    rw [ownRows, ownRows, sharedStore, storeOf, storeOf, table_setTable, table_setTable]
    split_ifs
    · decide
    · rfl
  generated := rfl

/-- Calls of `a` that name the rows and the namespace of `b` wherever they can. -/
def sampleCalls : List (Call Value) :=
  [.create "posts" (sampleRow "next" "b" "second") none,
    .upsert "posts" (some [⟨"id", .eq, .one (.str "third"), none⟩])
      (sampleRow "third" "b" "third") (sampleRow "third" "b" "again") none none,
    .findMany "posts" (some [⟨"title", .contains, .one (.str "s"), none⟩,
      ⟨"tenant", .eq, .one (.str "b"), some .or⟩]) none none none (some ["id", "tenant"]),
    .updateMany "posts" none (Finmap.singleton "tenant" (.str "b")),
    .deleteMany "posts" (some [⟨"id", .eq, .one (.str "taken"), none⟩,
      ⟨"title", .ne, .one .null, some .or⟩])]

/-- The calls of `a` on a store. -/
def session (st : Store Value (Option Value)) (calls : List (Call Value)) :
    Option (Session Value (Option Value)) :=
  run (step sampleEngine sampleConfig (some "a")) ⟨st, [], []⟩ calls

def ownSession : Session Value (Option Value) :=
  (session (storeOf ownPosts) sampleCalls).get (by decide)

def sharedSession : Session Value (Option Value) :=
  (session sharedStore sampleCalls).get (by decide)

theorem sampleCalls_noninterference : ownSession.replies = sharedSession.replies := by
  have hlaw : Lawful sampleEngine := lawful_memoryEngine _
  have hsame : SameOwn sampleEngine sampleConfig.columnName "a" (storeOf ownPosts) sharedStore :=
    sameOwn_sharedStore
  have hrun : session (storeOf ownPosts) sampleCalls = some ownSession :=
    (some_get (by decide)).symm
  have hrun' : session sharedStore sampleCalls = some sharedSession :=
    (some_get (by decide)).symm
  obtain ⟨-, -, -, hsilent⟩ :=
    noninterference_of_careful hlaw (by decide) hsame hrun hrun'
  exact (hsilent (by decide) (by decide)).1

/-- A post of `a` under an id that is taken in `b`. -/
def takenCreate : Call Value := .create "posts" (sampleRow "taken" "a" "mine") none

/-- The create is refused because of a row of another namespace. -/
theorem takenCreate_interferes :
    ¬ ∀ (st st' : Store Value (Option Value)) (calls : List (Call Value))
      (s s' : Session Value (Option Value)),
      SameOwn sampleEngine sampleConfig.columnName "a" st st' →
      session st calls = some s → session st' calls = some s' → s.replies = s'.replies := by
  intro h
  have hsame := h _ _ [takenCreate] _ _ sameOwn_sharedStore
    (some_get (by decide)).symm (some_get (by decide)).symm
  revert hsame
  decide

end SuperFunctions.Db.NamespaceIsolation
