import SuperFunctions.Lib.Processes
import SuperFunctions.Secfn.Vault

/-!
# Resolving scopes

What a resolved scope is: a namespace and an environment of the vault, both of the requested
tenant. Resolving may add rows to these two tables and changes nothing else, and a scope given
by ids resolves to just these records.
-/
namespace SuperFunctions.Secfn.VaultScopes

open Vault List Option

variable {P : Type} {host : Host P} {v v' : Tables P}

/-! ## Slugs -/

theorem slugChar_dashes : ∀ (l : List Char) (inRun : Bool), ∀ c ∈ dashes inRun l, slugChar c = true
  | [], _ => fun _ hc => absurd hc List.not_mem_nil
  | d :: l, inRun => by
    intro c hc
    unfold dashes at hc
    split at hc
    case isTrue hd =>
      rcases List.mem_cons.mp hc with rfl | hc
      · exact hd
      · exact slugChar_dashes l false c hc
    case isFalse =>
      split at hc
      · exact slugChar_dashes l true c hc
      · rcases List.mem_cons.mp hc with rfl | hc
        · decide
        · exact slugChar_dashes l true c hc

theorem dashes_of_slug : ∀ (l : List Char), (∀ c ∈ l, slugChar c = true) → dashes false l = l
  | [], _ => rfl
  | d :: l, h => by
    rw [dashes, if_pos (h d List.mem_cons_self),
      dashes_of_slug l fun c hc => h c (List.mem_cons_of_mem _ hc)]

/-- Without the dashes at its ends. -/
def stripDashes (l : List Char) : List Char :=
  ((l.dropWhile (· = '-')).reverse.dropWhile (· = '-')).reverse

theorem mem_stripDashes {l : List Char} {c : Char} (h : c ∈ stripDashes l) : c ∈ l := by
  unfold stripDashes at h
  rw [mem_reverse] at h
  have hrest := (dropWhile_sublist _).subset h
  rw [mem_reverse] at hrest
  exact (dropWhile_sublist _).subset hrest

variable {α : Type}

theorem dropWhile_idem (p : α → Bool) (l : List α) :
    (l.dropWhile p).dropWhile p = l.dropWhile p := by
  induction l with
  | nil => rfl
  | cons a l ih =>
    by_cases ha : p a = true
    · rw [dropWhile_cons_of_pos ha, ih]
    · rw [dropWhile_cons_of_neg ha, dropWhile_cons_of_neg ha]

theorem dropWhile_reverse_dropWhile (p : α → Bool) (l : List α) (h : l.dropWhile p = l) :
    (l.reverse.dropWhile p).reverse.dropWhile p = (l.reverse.dropWhile p).reverse := by
  cases l with
  | nil => rfl
  | cons a l =>
    have ha : ¬p a = true := by
      intro hp
      rw [dropWhile_cons_of_pos hp] at h
      have hlen := congrArg List.length h
      have hle := (dropWhile_sublist (l := l) p).length_le
      rw [length_cons] at hlen
      omega
    have hsplit : ((a :: l).reverse.dropWhile p).reverse = [] ∨
        ∃ rest, ((a :: l).reverse.dropWhile p).reverse = a :: rest := by
      rw [reverse_cons, dropWhile_append]
      split
      · rw [dropWhile_cons_of_neg ha]
        exact .inr ⟨[], rfl⟩
      · rw [reverse_append]
        exact .inr ⟨_, rfl⟩
    rcases hsplit with hnil | ⟨rest, hcons⟩
    · rw [hnil]
      rfl
    · rw [hcons, dropWhile_cons_of_neg ha]

theorem stripDashes_idem (l : List Char) : stripDashes (stripDashes l) = stripDashes l := by
  have hfront : (stripDashes l).dropWhile (· = '-') = stripDashes l :=
    dropWhile_reverse_dropWhile _ _ (dropWhile_idem _ l)
  show (((stripDashes l).dropWhile (· = '-')).reverse.dropWhile (· = '-')).reverse = stripDashes l
  rw [hfront]
  unfold stripDashes
  rw [reverse_reverse, dropWhile_idem]

theorem normalizeSlug_idem (value : String) :
    normalizeSlug host (normalizeSlug host value) = normalizeSlug host value := by
  have hslug : ∀ c ∈ (normalizeSlug host value).toList, slugChar c = true := by
    intro c hc
    have hc : c ∈ stripDashes (dashes false (host.toLowerCase (host.trim value)).toList) := by
      rwa [normalizeSlug, String.toList_ofList] at hc
    exact slugChar_dashes _ _ c (mem_stripDashes hc)
  have htrim := host.trim_slug _ hslug
  have hlower := host.lower_slug _ hslug
  show String.ofList (stripDashes (dashes false
    (host.toLowerCase (host.trim (normalizeSlug host value))).toList)) = normalizeSlug host value
  rw [htrim, hlower, dashes_of_slug _ hslug]
  show String.ofList (stripDashes (String.ofList (stripDashes
    (dashes false (host.toLowerCase (host.trim value)).toList))).toList) = _
  rw [String.toList_ofList, stripDashes_idem]
  rfl

/-! ## The directory -/

variable {l : List α} {a : α}

theorem find?_satisfies {p : α → Prop} [DecidablePred p]
    (h : l.find? (fun b => decide (p b)) = some a) : p a :=
  of_decide_eq_true (find?_some (p := fun b => decide (p b)) h)

theorem find?_of_unique {p : α → Bool} (hmem : a ∈ l) (hp : p a = true)
    (hunique : ∀ b ∈ l, p b = true → b = a) : l.find? p = some a := by
  cases hfind : l.find? p with
  | none => exact absurd hp (find?_eq_none.mp hfind a hmem)
  | some b => rw [hunique b (mem_of_find?_eq_some hfind) (find?_some hfind)]

/-- Ids are given once, slugs are normalized and names trimmed. -/
structure DirectoryOk (host : Host P) (v : Tables P) : Prop where
  namespaceIds : (v.namespaces.map Namespace.id).Nodup
  namespaceFresh : ∀ n ∈ v.namespaces, n.id < v.nextId
  slugs : ∀ n ∈ v.namespaces, normalizeSlug host n.slug = n.slug
  environmentIds : (v.environments.map Environment.id).Nodup
  environmentFresh : ∀ e ∈ v.environments, e.id < v.nextId
  names : ∀ e ∈ v.environments, normalizeName host e.name = e.name

/-- The directory has grown and nothing else has changed. -/
structure Grows (v v' : Tables P) : Prop where
  namespaces : ∃ l, v'.namespaces = v.namespaces ++ l
  environments : ∃ l, v'.environments = v.environments ++ l
  nextId : v.nextId ≤ v'.nextId
  secrets : v'.secrets = v.secrets
  versions : v'.versions = v.versions
  sets : v'.sets = v.sets
  members : v'.members = v.members
  tokens : v'.tokens = v.tokens

theorem Grows.refl : Grows v v :=
  ⟨⟨[], by simp⟩, ⟨[], by simp⟩, le_rfl, rfl, rfl, rfl, rfl, rfl⟩

theorem Grows.trans {v'' : Tables P} (h : Grows v v') (h' : Grows v' v'') : Grows v v'' where
  namespaces := by
    obtain ⟨l, hl⟩ := h.namespaces
    obtain ⟨l', hl'⟩ := h'.namespaces
    exact ⟨l ++ l', by rw [hl', hl, append_assoc]⟩
  environments := by
    obtain ⟨l, hl⟩ := h.environments
    obtain ⟨l', hl'⟩ := h'.environments
    exact ⟨l ++ l', by rw [hl', hl, append_assoc]⟩
  nextId := Nat.le_trans h.nextId h'.nextId
  secrets := h'.secrets.trans h.secrets
  versions := h'.versions.trans h.versions
  sets := h'.sets.trans h.sets
  members := h'.members.trans h.members
  tokens := h'.tokens.trans h.tokens

variable {n : Namespace} {id : Nat}

theorem getNamespace_some (h : getNamespace v id = .ok n) : n ∈ v.namespaces ∧ n.id = id := by
  unfold getNamespace at h
  split at h
  case h_1 found hfind =>
    cases h
    have hid := find?_satisfies hfind
    exact ⟨mem_of_find?_eq_some hfind, hid⟩
  case h_2 => cases h

variable {e : Environment}

theorem getEnvironment_some (h : getEnvironment v id = .ok e) : e ∈ v.environments ∧ e.id = id := by
  unfold getEnvironment at h
  split at h
  case h_1 found hfind =>
    cases h
    have hid := find?_satisfies hfind
    exact ⟨mem_of_find?_eq_some hfind, hid⟩
  case h_2 => cases h

theorem getNamespace_of_mem (h : DirectoryOk host v) (hn : n ∈ v.namespaces) :
    getNamespace v n.id = .ok n := by
  have hfind : v.namespaces.find? (fun m => m.id = n.id) = some n :=
    find?_of_unique hn (decide_eq_true rfl) fun b hb hid =>
      inj_on_of_nodup_map h.namespaceIds hb hn (of_decide_eq_true hid)
  unfold getNamespace
  rw [hfind]

theorem getEnvironment_of_mem (h : DirectoryOk host v) (he : e ∈ v.environments) :
    getEnvironment v e.id = .ok e := by
  have hfind : v.environments.find? (fun f => f.id = e.id) = some e :=
    find?_of_unique he (decide_eq_true rfl) fun b hb hid =>
      inj_on_of_nodup_map h.environmentIds hb he (of_decide_eq_true hid)
  unfold getEnvironment
  rw [hfind]

theorem Grows.mem_namespaces (h : Grows v v') (hn : n ∈ v.namespaces) : n ∈ v'.namespaces := by
  obtain ⟨l, hl⟩ := h.namespaces
  rw [hl]
  exact mem_append_left _ hn

theorem Grows.mem_environments (h : Grows v v') (he : e ∈ v.environments) :
    e ∈ v'.environments := by
  obtain ⟨l, hl⟩ := h.environments
  rw [hl]
  exact mem_append_left _ he

theorem nodup_append_fresh {f : α → Nat} {bound : Nat} (hnodup : (l.map f).Nodup)
    (hbound : ∀ b ∈ l, f b < bound) (ha : f a = bound) : ((l ++ [a]).map f).Nodup := by
  apply Lib.Processes.nodup_map_append hnodup
  intro b hb
  have hlt := hbound b hb
  omega

/-! ## What a call resolves to -/

/-- A call that may add to the directory keeps it in order. -/
structure Extends (host : Host P) (v v' : Tables P) : Prop where
  ok : DirectoryOk host v'
  grows : Grows v v'

theorem Extends.trans {v'' : Tables P} (h : Extends host v v') (h' : Extends host v' v'') :
    Extends host v v'' := ⟨h'.ok, h.grows.trans h'.grows⟩

theorem Extends.refl (h : DirectoryOk host v) : Extends host v v := ⟨h, Grows.refl⟩

theorem findNamespace_some {tenantId name : Option String}
    (h : findNamespace host v tenantId name = some n) :
    n ∈ v.namespaces ∧ (truthy tenantId = none ∨ n.tenantId = tenantId) := by
  unfold findNamespace at h
  dsimp only at h
  split at h
  · cases h
  have hmem : n ∈ v.namespaces.filter fun n =>
      truthy tenantId = none ∨ n.tenantId = tenantId := by
    rcases or_eq_some_iff.mp h with hslug | ⟨_, hlabel⟩
    · exact mem_of_find?_eq_some hslug
    · exact mem_of_find?_eq_some hlabel
  obtain ⟨hn, htenant⟩ := mem_filter.mp hmem
  exact ⟨hn, of_decide_eq_true htenant⟩

theorem insertNamespace_ok (hv : DirectoryOk host v) {tenantId : Option String}
    {slug label : String} (hslug : normalizeSlug host slug = slug)
    (h : insertNamespace v tenantId slug label = .ok (v', n)) :
    Extends host v v' ∧ n ∈ v'.namespaces ∧ n.tenantId = tenantId ∧ n.slug = slug := by
  unfold insertNamespace at h
  split at h
  · cases h
  cases h
  refine ⟨⟨⟨?_, ?_, ?_, hv.environmentIds, ?_, hv.names⟩, ?_⟩, ?_, rfl, rfl⟩
  · exact nodup_append_fresh hv.namespaceIds hv.namespaceFresh rfl
  · intro m hm
    rcases mem_append.mp hm with hm | hm
    · have hlt := hv.namespaceFresh m hm
      show m.id < v.nextId + 1
      omega
    · rw [mem_singleton.mp hm]
      show v.nextId < v.nextId + 1
      omega
  · intro m hm
    rcases mem_append.mp hm with hm | hm
    · exact hv.slugs m hm
    · rwa [mem_singleton.mp hm]
  · intro e he
    have hlt := hv.environmentFresh e he
    show e.id < v.nextId + 1
    omega
  · exact ⟨⟨_, rfl⟩, ⟨[], (append_nil _).symm⟩, Nat.le_succ _, rfl, rfl, rfl, rfl, rfl⟩
  · exact mem_append_right _ (mem_singleton.mpr rfl)

theorem createNamespace_ok (hv : DirectoryOk host v) {tenantId : Option String} {slug : String}
    {label : Option String} (h : createNamespace host v tenantId slug label = .ok (v', n)) :
    Extends host v v' ∧ n ∈ v'.namespaces ∧ n.tenantId = tenantId := by
  unfold createNamespace at h
  dsimp only at h
  split at h
  · cases h
  · split at h
    · cases h
    · obtain ⟨hext, hn, htenant, _⟩ := insertNamespace_ok hv (normalizeSlug_idem slug) h
      exact ⟨hext, hn, htenant⟩

variable {namespaceId : Option Nat} {create : Bool}

theorem ensureNamespace_ok (hv : DirectoryOk host v) {tenantId : Option String}
    {name : Option String}
    (h : ensureNamespace host v tenantId namespaceId name create = .ok (v', n)) :
    Extends host v v' ∧ n ∈ v'.namespaces ∧ (truthy tenantId ≠ none → n.tenantId = tenantId) := by
  unfold ensureNamespace at h
  cases namespaceId with
  | some id =>
    dsimp only at h
    cases hget : getNamespace v id with
    | error e =>
      rw [hget] at h
      cases h
    | ok m =>
      rw [hget] at h
      simp only [bind, Except.bind] at h
      split at h
      · cases h
      case isFalse hother =>
      split at h
      · cases h
      · cases h
        refine ⟨Extends.refl hv, (getNamespace_some hget).1, fun htruthy => ?_⟩
        by_contra hne
        exact hother ⟨fun hnone => htruthy (by rw [hnone]; rfl), hne⟩
  | none =>
    dsimp only at h
    split at h
    case h_1 found hfound =>
      cases h
      obtain ⟨_, _, hfind⟩ := bind_eq_some_iff.mp hfound
      obtain ⟨hn, htenant⟩ := findNamespace_some hfind
      exact ⟨Extends.refl hv, hn, fun htruthy => htenant.resolve_left htruthy⟩
    case h_2 =>
      split at h
      · cases h
      · obtain ⟨hext, hn, htenant⟩ := createNamespace_ok hv h
        exact ⟨hext, hn, fun _ => htenant⟩

variable {environment : Option String}

theorem findEnvironment_some {tenantId : Option String}
    (h : findEnvironment host v tenantId namespaceId environment = some e) :
    e ∈ v.environments ∧ (tenantId = none ∨ e.tenantId = tenantId) ∧
      e.namespaceId = namespaceId := by
  unfold findEnvironment at h
  dsimp only at h
  split at h
  · cases h
  have hrow := mem_of_mem_take (mem_of_find?_eq_some h)
  obtain ⟨he, hscope⟩ := mem_filter.mp hrow
  have hscope := of_decide_eq_true hscope
  have hfound := find?_satisfies h
  exact ⟨he, hscope.1, hfound.2⟩

theorem addEnvironment_ok (hv : DirectoryOk host v) {tenantId : Option String} {name : String}
    (h : addEnvironment host v tenantId namespaceId name = .ok (v', e)) :
    Extends host v v' ∧ e ∈ v'.environments ∧ e.tenantId = tenantId ∧
      e.namespaceId = namespaceId := by
  unfold addEnvironment at h
  dsimp only at h
  split at h
  · cases h
  split at h
  · cases h
  unfold insertEnvironment at h
  split at h
  · cases h
  cases h
  refine ⟨⟨⟨hv.namespaceIds, ?_, hv.slugs, ?_, ?_, ?_⟩, ?_⟩, ?_, rfl, rfl⟩
  · intro n hn
    have hlt := hv.namespaceFresh n hn
    show n.id < v.nextId + 1
    omega
  · exact nodup_append_fresh hv.environmentIds hv.environmentFresh rfl
  · intro f hf
    rcases mem_append.mp hf with hf | hf
    · have hlt := hv.environmentFresh f hf
      show f.id < v.nextId + 1
      omega
    · rw [mem_singleton.mp hf]
      show v.nextId < v.nextId + 1
      omega
  · intro f hf
    rcases mem_append.mp hf with hf | hf
    · exact hv.names f hf
    · rw [mem_singleton.mp hf]
      exact host.trim_trim name
  · exact ⟨⟨[], (append_nil _).symm⟩, ⟨_, rfl⟩, Nat.le_succ _, rfl, rfl, rfl, rfl, rfl⟩
  · exact mem_append_right _ (mem_singleton.mpr rfl)

theorem ensureEnvironment_ok (hv : DirectoryOk host v) {tenantId : Option String}
    {environmentId : Option Nat}
    (h : ensureEnvironment host v tenantId namespaceId environmentId environment create =
      .ok (v', e)) :
    Extends host v v' ∧ e ∈ v'.environments ∧ (tenantId ≠ none → e.tenantId = tenantId) ∧
      (e.namespaceId = none ∨ e.namespaceId = namespaceId) := by
  unfold ensureEnvironment at h
  cases environmentId with
  | some id =>
    dsimp only at h
    cases hget : getEnvironment v id with
    | error e =>
      rw [hget] at h
      cases h
    | ok f =>
      rw [hget] at h
      simp only [bind, Except.bind] at h
      split at h
      · cases h
      case isFalse hother =>
      split at h
      · cases h
      cases h
      obtain ⟨htenant, hparent⟩ := not_or.mp hother
      refine ⟨Extends.refl hv, (getEnvironment_some hget).1, fun hsome => ?_, ?_⟩
      · by_contra hne
        exact htenant ⟨hsome, hne⟩
      by_cases hnone : e.namespaceId = none
      · exact .inl hnone
      · refine .inr ?_
        by_contra hne
        exact hparent ⟨hnone, hne⟩
  | none =>
    dsimp only at h
    split at h
    case h_1 found hfound =>
      cases h
      obtain ⟨name, _, hfind⟩ := bind_eq_some_iff.mp hfound
      rcases or_eq_some_iff.mp hfind with hown | ⟨_, hglobal⟩
      · obtain ⟨he, htenant, hparent⟩ := findEnvironment_some hown
        exact ⟨Extends.refl hv, he, fun hsome => htenant.resolve_left hsome, .inr hparent⟩
      · obtain ⟨he, htenant, hparent⟩ := findEnvironment_some hglobal
        exact ⟨Extends.refl hv, he, fun hsome => htenant.resolve_left hsome, .inl hparent⟩
    case h_2 =>
      split at h
      · cases h
      · obtain ⟨hext, he, htenant, hparent⟩ := addEnvironment_ok hv h
        exact ⟨hext, he, fun _ => htenant, .inl hparent⟩

/-- The records of a resolved scope are in the vault and belong together. -/
structure Resolves (v : Tables P) (r : ResolvedScope) : Prop where
  namespaceIn : r.«namespace» ∈ v.namespaces
  namespaceTenant : truthy r.tenantId ≠ none → r.«namespace».tenantId = r.tenantId
  environmentIn : ∀ e, r.environment = some e → e ∈ v.environments ∧
    (r.tenantId ≠ none → e.tenantId = r.tenantId) ∧
    (e.namespaceId = none ∨ e.namespaceId = some r.«namespace».id)

theorem resolveScope_ok (hv : DirectoryOk host v) (scope : Scope)
    (ignoreEnvironment requireEnvironment : Bool) :
    Extends host v (resolveScope host v scope ignoreEnvironment requireEnvironment).1 ∧
    ∀ r, (resolveScope host v scope ignoreEnvironment requireEnvironment).2 = .ok r →
      Resolves (resolveScope host v scope ignoreEnvironment requireEnvironment).1 r ∧
        (ignoreEnvironment = false → r.environment.isSome) := by
  unfold resolveScope
  cases validateScopeRepresentations host v scope with
  | error e => exact ⟨Extends.refl hv, fun _ h => by cases h⟩
  | ok scope =>
    dsimp only
    split
    case h_1 => exact ⟨Extends.refl hv, fun _ h => by cases h⟩
    rename_i v₁ n hn
    obtain ⟨hext, hin, htenant⟩ := ensureNamespace_ok hv hn
    cases hignore : ignoreEnvironment with
    | true =>
      refine ⟨hext, fun r hr => ?_⟩
      cases hr
      exact ⟨⟨hin, htenant, fun _ h => by cases h⟩, (by simp)⟩
    | false =>
      rw [if_neg (by decide)]
      split
      case h_1 => exact ⟨hext, fun _ h => by cases h⟩
      rename_i v₂ e he
      obtain ⟨hext', hine, htenante, hparent⟩ := ensureEnvironment_ok hext.ok he
      refine ⟨hext.trans hext', fun r hr => ?_⟩
      cases hr
      refine ⟨⟨hext'.grows.mem_namespaces hin, htenant, fun f hf => ?_⟩, fun _ => rfl⟩
      cases hf
      exact ⟨hine, htenante, hparent⟩

theorem resolveScope_ids (hv : DirectoryOk host v) {tenant : String} (hn : n ∈ v.namespaces)
    (he : e ∈ v.environments) (hntenant : n.tenantId = some tenant)
    (hetenant : e.tenantId = some tenant)
    (hparent : e.namespaceId = none ∨ e.namespaceId = some n.id) :
    resolveScope host v ⟨some tenant, some n.id, none, some e.id, none⟩ false true =
      (v, .ok ⟨some tenant, n, some e⟩) := by
  have hgetn := getNamespace_of_mem hv hn
  have hgete := getEnvironment_of_mem hv he
  have hvalid : validateScopeRepresentations host v
      ⟨some tenant, some n.id, none, some e.id, none⟩ =
        .ok ⟨some tenant, some n.id, some n.slug, some e.id, some e.name⟩ := by
    have hpass : applyEnvironment host ⟨some tenant, some n.id, none, some e.id, none⟩ e =
        .ok ⟨some tenant, some n.id, none, some e.id, some e.name⟩ := by
      simp [applyEnvironment, hetenant]
    have hpass' : applyNamespace host ⟨some tenant, some n.id, none, some e.id, none⟩
        ⟨some tenant, some n.id, none, some e.id, some e.name⟩ n =
          .ok ⟨some tenant, some n.id, some n.slug, some e.id, some e.name⟩ := by
      simp [applyNamespace, hntenant]
    have henv : (some e.id).mapM (getEnvironment v) = .ok (some e) :=
      congrArg (Except.map some) hgete
    have hns : (some n.id).mapM (getNamespace v) = .ok (some n) :=
      congrArg (Except.map some) hgetn
    unfold validateScopeRepresentations
    simp only [henv, bind, Except.bind, elim_some, hpass, hns, hpass']
    rcases hparent with hnone | hsome
    · simp [hnone]
    · simp [hsome]
  unfold resolveScope
  rw [hvalid]
  dsimp only
  have hensure : ensureNamespace host v (some tenant) (some n.id)
      ((some n.slug).or (if (some n.id : Option Nat) = none then some defaultNamespace else none))
      true = .ok (v, n) := by
    simp [ensureNamespace, hgetn, hntenant, hv.slugs n hn, bind, Except.bind]
  have hensure' : ensureEnvironment host v (some tenant) (some n.id) (some e.id)
      ((some e.name).or (if true = true ∧ (some e.id : Option Nat) = none then
        some defaultEnvironment else none)) true = .ok (v, e) := by
    rcases hparent with hnone | hsome
    · simp [ensureEnvironment, hgete, hetenant, hnone, hv.names e he, bind, Except.bind]
    · simp [ensureEnvironment, hgete, hetenant, hsome, hv.names e he, bind, Except.bind]
  rw [hensure]
  dsimp only
  rw [if_neg (by decide), hensure']

end SuperFunctions.Secfn.VaultScopes
