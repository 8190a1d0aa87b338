import SuperFunctions.Lib.Processes
import Mathlib.Data.Rat.Lemmas

/-!
# List selection

What is selected of a collection, with the key where ranges pivot and the key reached last.
-/
namespace SuperFunctions.Uifn.Selection

open Lib.Transition List

inductive CollectionKey
  | str (text : String)
  | num (value : Rat)
deriving DecidableEq

def CollectionKey.truthy : CollectionKey → Bool
  | .str text => text ≠ ""
  | .num value => value ≠ 0

structure ListCollection where
  keys : List CollectionKey
  disabled : List CollectionKey
  unique : keys.Nodup

inductive SelectionMode
  | none
  | single
  | multiple
deriving DecidableEq

inductive SelectionBehavior
  | replace
  | toggle
deriving DecidableEq

structure ListSelection where
  mode : SelectionMode
  behavior : SelectionBehavior
  selectedKeys : List CollectionKey
  anchorKey : Option CollectionKey
  currentKey : Option CollectionKey

namespace ListCollection

variable (c : ListCollection)

def isDisabled (key : CollectionKey) : Bool := key ∈ c.disabled

def indexOf (key : CollectionKey) : Int := if key ∈ c.keys then c.keys.idxOf key else -1

/-- `keys.slice(start, stop)`, where a negative index counts from the end. -/
def sliceKeys (start stop : Int) : List CollectionKey :=
  let «at» (i : Int) : Nat := (if i < 0 then c.keys.length + i else i).toNat
  (c.keys.take («at» stop)).drop («at» start)

/-- From one key to another inclusive, in either direction. -/
def Between (a b key : CollectionKey) : Prop :=
  key ∈ c.keys ∧ min (c.keys.idxOf a) (c.keys.idxOf b) ≤ c.keys.idxOf key ∧
    c.keys.idxOf key ≤ max (c.keys.idxOf a) (c.keys.idxOf b)

end ListCollection

def addKey (selected : List CollectionKey) (key : CollectionKey) : List CollectionKey :=
  if key ∈ selected then selected else selected ++ [key]

def SelectionMode.limit (selected : List CollectionKey) : SelectionMode → List CollectionKey
  | .none => []
  | .single => selected.take 1
  | .multiple => selected

def createListSelection (s : ListSelection) : ListSelection :=
  { s with selectedKeys := s.mode.limit s.selectedKeys }

def selectCollectionKey (c : ListCollection) (s : ListSelection) (key : CollectionKey) :
    ListSelection :=
  if s.mode = .none ∨ c.isDisabled key ∨ key ∉ c.keys then s
  else
    let selected := if s.mode = .single ∨ s.behavior = .replace then [] else s.selectedKeys
    let selected :=
      if s.mode = .multiple ∧ s.behavior = .toggle ∧ key ∈ selected then selected.filter (· ≠ key)
      else addKey selected key
    createListSelection
      { s with selectedKeys := selected, anchorKey := some key, currentKey := some key }

def rangeAnchor (c : ListCollection) (s : ListSelection) (toKey : CollectionKey) : CollectionKey :=
  match s.anchorKey with
  | none => toKey
  | some anchor => if anchor.truthy ∧ anchor ∈ c.keys then anchor else toKey

def selectCollectionRange (c : ListCollection) (s : ListSelection) (toKey : CollectionKey) :
    ListSelection :=
  if s.mode ≠ .multiple ∨ c.isDisabled toKey then selectCollectionKey c s toKey
  else
    let anchor := rangeAnchor c s toKey
    let start := min (c.indexOf anchor) (c.indexOf toKey)
    let «end» := max (c.indexOf anchor) (c.indexOf toKey)
    let selected := if s.behavior = .replace then [] else s.selectedKeys
    let keys := (c.sliceKeys start («end» + 1)).filter (!c.isDisabled ·)
    createListSelection
      { s with
        selectedKeys := keys.foldl addKey selected
        anchorKey := some anchor
        currentKey := some toKey }

def reconcileListSelection (c : ListCollection) (s : ListSelection) : ListSelection :=
  createListSelection
    { s with
      selectedKeys := s.selectedKeys.filter fun key => key ∈ c.keys ∧ ¬c.isDisabled key
      anchorKey := s.anchorKey.filter (· ∈ c.keys)
      currentKey := s.currentKey.filter fun key => key ∈ c.keys ∧ ¬c.isDisabled key }

/-! ## Runs -/

structure State where
  collection : ListCollection
  selection : ListSelection

/-- The selection is reconciled whenever the collection changes. -/
inductive Act
  | key (key : CollectionKey)
  | range (toKey : CollectionKey)
  | change (collection : ListCollection)

def State.act (s : State) : Act → State
  | .key key => ⟨s.collection, selectCollectionKey s.collection s.selection key⟩
  | .range toKey => ⟨s.collection, selectCollectionRange s.collection s.selection toKey⟩
  | .change c => ⟨c, reconcileListSelection c s.selection⟩

def step (s : State) (x : Act) : Option State := some (s.act x)

def start (c : ListCollection) (mode : SelectionMode) (behavior : SelectionBehavior) : State :=
  ⟨c, createListSelection ⟨mode, behavior, [], none, none⟩⟩

/-- A range has a target that the collection knows and no falsy anchor. -/
def Known (s : State) : Act → Prop
  | .range toKey => s.selection.mode = .multiple →
      toKey ∈ s.collection.keys ∧ ∀ anchor ∈ s.selection.anchorKey, anchor.truthy = true
  | _ => True

structure Valid (s : State) : Prop where
  none : s.selection.mode = .none → s.selection.selectedKeys = []
  single : s.selection.mode = .single → s.selection.selectedKeys.length ≤ 1
  anchor : ∀ key ∈ s.selection.anchorKey, key ∈ s.collection.keys
  current : ∀ key ∈ s.selection.currentKey, key ∈ s.collection.keys

/-- The range goes from the anchor, which stays, or from the target where there is none. -/
structure Ranged (s s' : State) (toKey : CollectionKey) : Prop where
  anchor : s'.selection.anchorKey = some (s.selection.anchorKey.getD toKey)
  selected : ∀ key, key ∈ s'.selection.selectedKeys ↔
    s.collection.Between (s.selection.anchorKey.getD toKey) toKey key ∧
        s.collection.isDisabled key = false ∨
      s.selection.behavior = .toggle ∧ key ∈ s.selection.selectedKeys

structure Sound (s : State) (x : Act) : Prop where
  added : ∀ key ∈ (s.act x).selection.selectedKeys, key ∉ s.selection.selectedKeys →
    key ∈ (s.act x).collection.keys ∧ (s.act x).collection.isDisabled key = false
  range : ∀ toKey, x = .range toKey → s.selection.mode = .multiple →
    if s.collection.isDisabled toKey then s.act x = s else Ranged s (s.act x) toKey

theorem mem_addKey {selected : List CollectionKey} {key k : CollectionKey} :
    k ∈ addKey selected key ↔ k ∈ selected ∨ k = key := by
  unfold addKey
  split
  · rename_i hmem
    exact ⟨.inl, fun h => h.elim id (· ▸ hmem)⟩
  · simp

theorem mem_addKeys {keys selected : List CollectionKey} {k : CollectionKey} :
    k ∈ keys.foldl addKey selected ↔ k ∈ selected ∨ k ∈ keys := by
  induction keys generalizing selected with
  | nil => simp
  | cons key keys ih => simp [ih, mem_addKey, or_assoc]

section Collection

variable {c : ListCollection} {s : ListSelection}

/-- The slice between two keys of the collection holds the keys between them. -/
theorem mem_sliceKeys {a b key : CollectionKey} (ha : a ∈ c.keys) (hb : b ∈ c.keys) :
    key ∈ c.sliceKeys (min (c.indexOf a) (c.indexOf b)) (max (c.indexOf a) (c.indexOf b) + 1) ↔
      c.Between a b key := by
  simp only [ListCollection.sliceKeys, ListCollection.indexOf, if_pos ha, if_pos hb,
    ListCollection.Between]
  rw [if_neg (by omega), if_neg (by omega),
    show (min (c.keys.idxOf a : Int) (c.keys.idxOf b)).toNat =
      min (c.keys.idxOf a) (c.keys.idxOf b) by omega,
    show (max (c.keys.idxOf a : Int) (c.keys.idxOf b) + 1).toNat =
      max (c.keys.idxOf a) (c.keys.idxOf b) + 1 by omega]
  generalize min (c.keys.idxOf a) (c.keys.idxOf b) = i
  generalize max (c.keys.idxOf a) (c.keys.idxOf b) = j
  rw [List.mem_iff_getElem?]
  constructor
  · rintro ⟨n, hn⟩
    rw [List.getElem?_drop, List.getElem?_take] at hn
    split at hn
    · obtain ⟨hlt, rfl⟩ := List.getElem?_eq_some_iff.mp hn
      rw [c.unique.idxOf_getElem]
      exact ⟨List.getElem_mem hlt, by omega, by omega⟩
    · cases hn
  · rintro ⟨hkey, hi, hj⟩
    refine ⟨c.keys.idxOf key - i, ?_⟩
    rw [List.getElem?_drop, Nat.add_sub_cancel' hi, List.getElem?_take, if_pos (by omega)]
    exact List.getElem?_idxOf hkey

theorem createListSelection_valid (hanchor : ∀ key ∈ s.anchorKey, key ∈ c.keys)
    (hcurrent : ∀ key ∈ s.currentKey, key ∈ c.keys) : Valid ⟨c, createListSelection s⟩ where
  none h := by
    show s.mode.limit s.selectedKeys = []
    rw [show s.mode = .none from h]
    rfl
  single h := by
    show (s.mode.limit s.selectedKeys).length ≤ 1
    rw [show s.mode = .single from h]
    exact length_take_le 1 _
  anchor := hanchor
  current := hcurrent

theorem mem_createListSelection {key : CollectionKey}
    (h : key ∈ (createListSelection s).selectedKeys) : key ∈ s.selectedKeys := by
  change key ∈ s.mode.limit s.selectedKeys at h
  cases hmode : s.mode with
  | none => cases hmode ▸ h
  | single => exact mem_of_mem_take (hmode ▸ h)
  | multiple => rwa [hmode] at h

/-- A key is selected when it is an enabled key of the collection. -/
theorem selectCollectionKey_cases (c : ListCollection) (s : ListSelection) (key : CollectionKey) :
    selectCollectionKey c s key = s ∨
      key ∈ c.keys ∧ c.isDisabled key = false ∧ ∃ selected,
        (∀ k ∈ selected, k ∈ s.selectedKeys ∨ k = key) ∧
        selectCollectionKey c s key = createListSelection
          { s with selectedKeys := selected, anchorKey := some key, currentKey := some key } := by
  unfold selectCollectionKey
  split
  · exact .inl rfl
  rename_i hkey
  simp only [not_or, not_not, Bool.not_eq_true] at hkey
  refine .inr ⟨hkey.2.2, hkey.2.1, _, fun k hk => ?_, rfl⟩
  generalize hstart : (if s.mode = .single ∨ s.behavior = .replace then [] else s.selectedKeys) =
    start at hk
  have hsub : k ∈ start → k ∈ s.selectedKeys := by
    rw [← hstart]
    split <;> simp
  split at hk
  · exact .inl (hsub (mem_of_mem_filter hk))
  · exact (mem_addKey.mp hk).imp_left hsub

end Collection

variable {s : State} {toKey : CollectionKey}

/-- With a known target and no falsy anchor the range pivots on the anchor. -/
theorem rangeAnchor_eq (hvalid : Valid s)
    (hanchor : ∀ anchor ∈ s.selection.anchorKey, anchor.truthy = true) :
    rangeAnchor s.collection s.selection toKey = s.selection.anchorKey.getD toKey := by
  unfold rangeAnchor
  cases h : s.selection.anchorKey with
  | none => rfl
  | some anchor => exact if_pos ⟨hanchor anchor h, hvalid.anchor anchor h⟩

theorem anchor_mem (hvalid : Valid s) (hto : toKey ∈ s.collection.keys) :
    s.selection.anchorKey.getD toKey ∈ s.collection.keys := by
  cases h : s.selection.anchorKey with
  | none => exact hto
  | some anchor => exact hvalid.anchor anchor h

theorem act_valid {x : Act} (hvalid : Valid s) (hknown : Known s x) : Valid (s.act x) := by
  have hkey : ∀ key, Valid ⟨s.collection, selectCollectionKey s.collection s.selection key⟩ := by
    intro key
    obtain hsame | ⟨hmem, -, selected, -, hnew⟩ :=
      selectCollectionKey_cases s.collection s.selection key
    · rwa [hsame]
    rw [hnew]
    refine createListSelection_valid ?_ ?_
    · rintro _ ⟨⟩
      exact hmem
    · rintro _ ⟨⟩
      exact hmem
  cases x with
  | key key => exact hkey key
  | range toKey =>
    simp only [State.act, selectCollectionRange]
    split
    · exact hkey toKey
    rename_i hrange
    simp only [not_or, not_not] at hrange
    obtain ⟨hto, hanchor⟩ := hknown hrange.1
    refine createListSelection_valid ?_ ?_
    · rintro _ ⟨⟩
      rw [rangeAnchor_eq hvalid hanchor]
      exact anchor_mem hvalid hto
    · rintro _ ⟨⟩
      exact hto
  | change c =>
    refine createListSelection_valid (fun key hkey => ?_) fun key hkey => ?_
    · simpa using (Option.mem_filter_iff.mp hkey).2
    · simpa using And.left (of_decide_eq_true (Option.mem_filter_iff.mp hkey).2)

theorem key_added {key k : CollectionKey} {c : ListCollection} {s : ListSelection}
    (h : k ∈ (selectCollectionKey c s key).selectedKeys) (hnew : k ∉ s.selectedKeys) :
    k ∈ c.keys ∧ c.isDisabled k = false := by
  obtain hsame | ⟨hmem, henabled, selected, hold, hkey⟩ := selectCollectionKey_cases c s key
  · exact absurd (hsame ▸ h) hnew
  · rw [hkey] at h
    obtain hk | rfl := hold k (mem_createListSelection h)
    · exact absurd hk hnew
    · exact ⟨hmem, henabled⟩

theorem range_ranged (hvalid : Valid s) (hknown : Known s (.range toKey))
    (hmode : s.selection.mode = .multiple) (henabled : s.collection.isDisabled toKey = false) :
    Ranged s (s.act (.range toKey)) toKey := by
  obtain ⟨hto, hanchor⟩ := hknown hmode
  simp only [State.act, selectCollectionRange, hmode, henabled, ne_eq, not_true, false_or,
    Bool.false_eq_true, if_false, rangeAnchor_eq hvalid hanchor]
  refine ⟨rfl, fun key => ?_⟩
  show key ∈ List.foldl addKey _ _ ↔ _
  rw [mem_addKeys, mem_filter, mem_sliceKeys (anchor_mem hvalid hto) hto, or_comm]
  cases s.selection.behavior <;> simp

theorem act_sound {x : Act} (hvalid : Valid s) (hknown : Known s x) : Sound s x := by
  refine ⟨fun k hk hnew => ?_, fun toKey hx hmode => ?_⟩
  · cases x with
    | key key => exact key_added hk hnew
    | range toKey =>
      by_cases hkey : s.selection.mode ≠ .multiple ∨ s.collection.isDisabled toKey = true
      · simp only [State.act, selectCollectionRange, if_pos hkey] at hk
        exact key_added hk hnew
      simp only [not_or, not_not, Bool.not_eq_true] at hkey
      have hrange := range_ranged hvalid hknown hkey.1 hkey.2
      obtain ⟨hbetween, henabled⟩ | ⟨-, hold⟩ := (hrange.selected k).mp hk
      · exact ⟨hbetween.1, henabled⟩
      · exact absurd hold hnew
    | change c => exact absurd (mem_of_mem_filter (mem_createListSelection hk)) hnew
  · subst hx
    split
    · rename_i hdisabled
      simp [State.act, selectCollectionRange, selectCollectionKey, hdisabled]
    · rename_i henabled
      exact range_ranged hvalid hknown hmode (by simpa using henabled)

theorem selection_runs (c : ListCollection) (mode : SelectionMode) (behavior : SelectionBehavior)
    {acts : List Act} {s : State} (hknown : Guarded step Known (start c mode behavior) acts)
    (hrun : run step (start c mode behavior) acts = some s) :
    Valid s ∧ ∀ x, Known s x → Sound s x := by
  have hstart : Valid (start c mode behavior) :=
    createListSelection_valid (fun _ h => nomatch h) fun _ h => nomatch h
  have hstep : ∀ s x s', Valid s → Known s x → step s x = some s' → Valid s' :=
    fun s x s' hs hx h => Option.some.inj h ▸ act_valid hs hx
  have hvalid : Valid s := guarded_run_invariant step hstep hstart hknown hrun
  exact ⟨hvalid, fun x hx => act_sound hvalid hx⟩

def digits : ListCollection := ⟨[.num 0, .num 1, .num 2], [.num 1], by decide⟩

theorem digits_selected : Valid ((start digits .multiple .replace).act (.key (.num 2))) ∧
    ∀ x, Known ((start digits .multiple .replace).act (.key (.num 2))) x →
      Sound ((start digits .multiple .replace).act (.key (.num 2))) x :=
  @selection_runs digits .multiple .replace [.key (.num 2)] _ ⟨trivial, fun _ _ => trivial⟩ rfl

/-- A range from the key 0 selects its target alone. -/
theorem zero_anchor_lost : ¬∀ (c : ListCollection) acts s x,
    run step (start c .multiple .replace) acts = some s → Sound s x := by
  intro h
  have hsound := (h digits [.key (.num 0)] _ (.range (.num 2)) rfl).range _ rfl rfl
  exact absurd hsound.anchor (by decide)

end SuperFunctions.Uifn.Selection
