import SuperFunctions.Lib.OrderedMap
import SuperFunctions.Datafn.Core.Schema
import SuperFunctions.Datafn.Core.Value

/-!
# Filters

The operators of a filter and their evaluation on one record. An evaluation that throws has no
value. `$and`, `$or` and relations are the query executor's.
-/
namespace SuperFunctions.Datafn.Core.Filters

open Lib.OrderedMap

/-! ## Operator names -/

def opRemap : List (String × String) :=
  [("eq", "$eq"), ("ne", "$ne"), ("gt", "$gt"), ("gte", "$gte"), ("lt", "$lt"), ("lte", "$lte"),
    ("in", "$in"), ("not_in", "$nin"),
    ("contains", "$contains"), ("startsWith", "$startsWith"), ("endsWith", "$endsWith"),
    ("like", "$like"), ("ilike", "$ilike"), ("not_like", "$not_like"), ("not_ilike", "$not_ilike"),
    ("is_null", "$is_null"), ("is_not_null", "$is_not_null"),
    ("is_empty", "$is_empty"), ("is_not_empty", "$is_not_empty"),
    ("before", "$before"), ("after", "$after"), ("between", "$between"),
    ("not_between", "$not_between")]

/-- `OP_REMAP[op] ?? op` -/
def mapOp (op : String) : String := (opRemap.lookup op).getD op

/-- `assertSafeKey` -/
def isSafeKey (key : String) : Bool := key ∉ ["__proto__", "constructor", "prototype"]

/-- The operators of one field under their mapped names; the last of two that meet wins. -/
def normalizeOps (ops : Fields) : Option Fields :=
  ops.foldlM (fun normalized e =>
    if isSafeKey (mapOp e.1) then some (setEntries (mapOp e.1) e.2 normalized) else none) []

mutual

/-- `normalizeFilterOps` on any value: its entries, normalized. -/
def normalizeFilterOps : Json → Option Fields
  | .null => none
  | .obj members => normalizeEntries members
  | .arr items => normalizeItems 0 items
  | .str s => some (s.toList.zipIdx.map fun c => (toString c.2, .str (String.singleton c.1)))
  | .bool _ => some []
  | .num _ => some []

/-- One entry of a filter. A field without operators is dropped. -/
def normalizeEntry (key : String) : Json → Option Fields
  | .arr subs =>
    if isSafeKey key then
      if key = "$and" ∨ key = "$or" then
        (normalizeSubs subs).map fun out => [(key, .arr out)]
      else some [(key, .arr subs)]
    else none
  | .obj ops =>
    if isSafeKey key then
      (normalizeOps ops).map fun normalized =>
        if normalized = [] then [] else [(key, .obj normalized)]
    else none
  | value => if isSafeKey key then some [(key, value)] else none

def normalizeEntries : Fields → Option Fields
  | [] => some []
  | (key, value) :: rest =>
    (normalizeEntry key value).bind fun out => (normalizeEntries rest).map fun outs => out ++ outs

/-- The entries of an array are its items under their index. -/
def normalizeItems (i : Nat) : List Json → Option Fields
  | [] => some []
  | item :: rest =>
    (normalizeEntry (toString i) item).bind fun out =>
      (normalizeItems (i + 1) rest).map fun outs => out ++ outs

def normalizeSubs : List Json → Option (List Json)
  | [] => some []
  | sub :: rest =>
    (normalizeFilterOps sub).bind fun out =>
      (normalizeSubs rest).map fun outs => .obj out :: outs

end

/-! ## Patterns -/

/-- The loop of `likeMatches`; `wildcard` is the place of the last `%` that was passed. -/
def likeLoop (source target : List Char) (patternIndex targetIndex : Nat)
    (wildcard : Option Nat) (matchIndex : Nat) (h : matchIndex ≤ targetIndex) : Bool :=
  if ht : targetIndex < target.length then
    if hw : source[patternIndex]? = some '%' then
      likeLoop source target (patternIndex + 1) targetIndex (some patternIndex) targetIndex le_rfl
    else if hm : source[patternIndex]? = some '_' ∨ source[patternIndex]? = target[targetIndex]? then
      likeLoop source target (patternIndex + 1) (targetIndex + 1) wildcard matchIndex (by omega)
    else
      match wildcard with
      | some w =>
        likeLoop source target (w + 1) (matchIndex + 1) (some w) (matchIndex + 1) le_rfl
      | none => false
  else ((source.drop patternIndex).dropWhile (· = '%')).isEmpty
termination_by (target.length - matchIndex, source.length - patternIndex)
decreasing_by
  · have hp : patternIndex < source.length := (List.getElem?_eq_some_iff.mp hw).1
    obtain hlt | rfl := Nat.lt_or_eq_of_le h
    · exact Prod.Lex.left _ _ (by omega)
    · exact Prod.Lex.right _ (by omega)
  · have hp : patternIndex < source.length := by
      by_contra hnot
      rw [List.getElem?_eq_none (by omega), List.getElem?_eq_getElem ht] at hm
      simp at hm
    exact Prod.Lex.right _ (by omega)
  · exact Prod.Lex.left _ _ (by omega)

def likeMatches (rt : Runtime) (pattern candidate : String) (caseInsensitive : Bool) : Bool :=
  let text := fun s => if caseInsensitive then rt.toLowerCase s else s
  likeLoop (text pattern).toList (text candidate).toList 0 0 none 0 le_rfl

/-! ## Operators -/

def isEmptyValue : Option Json → Bool
  | some (.str s) => s = ""
  | some (.arr items) => items.isEmpty
  | value => Json.isNullish value

/-- `fieldValue.includes(opVal)` on arrays. -/
def arrayIncludes (items : List Json) (value : Option Json) : Bool :=
  items.any fun item => Json.strictEq (some item) value

/-- A flag operator: `true` asks for `holds`, `false` for its opposite. -/
def flagMatches (opVal : Json) (holds : Bool) : Bool :=
  match opVal with
  | .bool wanted => wanted == holds
  | _ => true

def endsWith (s suffix : String) : Bool := suffix.toList.isSuffixOf s.toList

/-- `low <= fieldValue` -/
def atLeast (rt : Runtime) (value bound : Option Json) : Bool :=
  rt.relational value bound = some .gt ∨ rt.relational value bound = some .eq

/-- `fieldValue <= high` -/
def atMost (rt : Runtime) (value bound : Option Json) : Bool :=
  rt.relational value bound = some .lt ∨ rt.relational value bound = some .eq

/-- One operator of `evaluateOperators`. -/
def evaluateOperator (rt : Runtime) (fieldValue : Option Json) (op : String) (opVal : Json) :
    Option Bool :=
  match op with
  | "$eq" => some (Json.strictEq fieldValue (some opVal))
  | "$ne" => some (!Json.strictEq fieldValue (some opVal))
  | "$gt" => some (rt.relational fieldValue (some opVal) = some .gt)
  | "$gte" => some (atLeast rt fieldValue (some opVal))
  | "$lt" => some (rt.relational fieldValue (some opVal) = some .lt)
  | "$lte" => some (atMost rt fieldValue (some opVal))
  | "$in" =>
    match opVal with
    | .arr items => some (arrayIncludes items fieldValue)
    | _ => none
  | "$nin" =>
    match opVal with
    | .arr items => some (!arrayIncludes items fieldValue)
    | _ => none
  | "$contains" =>
    match fieldValue with
    | some (.str s) => some (includes s (rt.stringOf opVal))
    | some (.arr items) => some (arrayIncludes items (some opVal))
    | _ => some false
  | "$startsWith" =>
    match fieldValue with
    | some (.str s) => some (startsWith s (rt.stringOf opVal))
    | _ => some false
  | "$endsWith" =>
    match fieldValue with
    | some (.str s) => some (endsWith s (rt.stringOf opVal))
    | _ => some false
  | "$like" =>
    match fieldValue, opVal with
    | some (.str s), .str pattern => some (likeMatches rt pattern s false)
    | _, _ => some false
  | "$ilike" =>
    match fieldValue, opVal with
    | some (.str s), .str pattern => some (likeMatches rt pattern s true)
    | _, _ => some false
  | "$not_like" =>
    match fieldValue, opVal with
    | some (.str s), .str pattern => some (!likeMatches rt pattern s false)
    | _, .str _ => some true
    | _, _ => some false
  | "$not_ilike" =>
    match fieldValue, opVal with
    | some (.str s), .str pattern => some (!likeMatches rt pattern s true)
    | _, .str _ => some true
    | _, _ => some false
  | "$is_null" => some (flagMatches opVal (Json.isNullish fieldValue))
  | "$is_not_null" => some (flagMatches opVal (!Json.isNullish fieldValue))
  | "$is_empty" => some (flagMatches opVal (isEmptyValue fieldValue))
  | "$is_not_empty" => some (flagMatches opVal (!isEmptyValue fieldValue))
  | "$before" => some (rt.relational fieldValue (some opVal) = some .lt)
  | "$after" => some (rt.relational fieldValue (some opVal) = some .gt)
  | "$between" =>
    match opVal with
    | .arr [low, high] => some (atLeast rt fieldValue (some low) && atMost rt fieldValue (some high))
    | _ => none
  | "$not_between" =>
    match opVal with
    | .arr [low, high] =>
      some (rt.relational fieldValue (some low) = some .lt ∨
        rt.relational fieldValue (some high) = some .gt)
    | _ => none
  | _ => none

/-- Every operator holds; the first that fails ends the evaluation. -/
def evaluateOperators (rt : Runtime) (fieldValue : Option Json) (ops : Fields) : Option Bool :=
  ops.allM fun e => evaluateOperator rt fieldValue e.1 e.2

/-! ## Fields -/

/-- `resolvePath` -/
def resolvePath (record : Fields) (parts : List String) : Option Json :=
  parts.foldl (fun current part => current.bind (Json.member part)) (some (.obj record))

def splitDot (key : String) : List String := (key.toList.splitOn '.').map String.ofList

def isDotted (key : String) : Bool := '.' ∈ key.toList

def evaluateFieldValue (rt : Runtime) (fieldValue : Option Json) : Json → Option Bool
  | .obj ops => evaluateOperators rt fieldValue ops
  | value => some (Json.strictEq fieldValue (some value))

/-- `evaluateFilter` on one entry, without a resolver. Its callers have handled the arrays of
`$and` and `$or`. -/
def evaluateFilter (rt : Runtime) (record : Fields) (key : String) (value : Json) : Option Bool :=
  if key = "$and" ∨ key = "$or" then none
  else if isDotted key then
    if Json.isNullish (record.lookup ((splitDot key).headD "")) then some false
    else evaluateFieldValue rt (resolvePath record (splitDot key)) value
  else evaluateFieldValue rt (record.lookup key) value

end SuperFunctions.Datafn.Core.Filters
