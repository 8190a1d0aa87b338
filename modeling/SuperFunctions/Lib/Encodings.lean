import Mathlib.Algebra.Group.Nat.Defs
import Mathlib.Data.Char
import Mathlib.Data.List.Basic

/-!
# UTF-8

Text as bytes, read back strictly or with a replacement character for what is no UTF-8. Both give
back the text that was written.
-/
namespace SuperFunctions.Lib.Utf8

open List

open Option

abbrev Bytes := List UInt8

def encodeChars (chars : List Char) : Bytes := chars.flatMap String.utf8EncodeChar

def encode (text : String) : Bytes := encodeChars text.toList

/-- The character at the front. -/
def decodeChar (bytes : Bytes) : Option Char := bytes.toByteArray.utf8DecodeChar? 0

theorem decodeChar_append (c : Char) (rest : Bytes) :
    decodeChar (String.utf8EncodeChar c ++ rest) = some c := by
  rw [decodeChar, toByteArray_append]
  exact ByteArray.utf8DecodeChar?_utf8EncodeChar_append

variable {bytes : Bytes}

theorem eq_append_of_decodeChar {c : Char} (h : decodeChar bytes = some c) :
    bytes = String.utf8EncodeChar c ++ bytes.drop c.utf8Size := by
  obtain ⟨rest, hrest⟩ := ByteArray.exists_of_utf8DecodeChar?_eq_some h
  have hlist : bytes = String.utf8EncodeChar c ++ rest.data.toList := by
    have hdata := congrArg (fun b : ByteArray => b.data.toList) hrest
    simpa [toList_data_toByteArray] using hdata
  have hdrop : bytes.drop c.utf8Size = rest.data.toList := by
    rw [hlist, ← String.length_utf8EncodeChar, drop_left]
  rwa [hdrop]

theorem drop_utf8Size (c : Char) (rest : Bytes) :
    (String.utf8EncodeChar c ++ rest).drop c.utf8Size = rest := by
  rw [← String.length_utf8EncodeChar, drop_left]

theorem length_utf8EncodeChar_pos (c : Char) : 0 < (String.utf8EncodeChar c).length := by
  rw [String.length_utf8EncodeChar]
  exact c.utf8Size_pos

/-! ## Strict reading -/

def decodeGo : Nat → Bytes → Option (List Char)
  | _, [] => some []
  | 0, _ :: _ => none
  | fuel + 1, bytes =>
    (decodeChar bytes).bind fun c => (decodeGo fuel (bytes.drop c.utf8Size)).map (c :: ·)

/-- The text of the bytes; a character has a byte at least. -/
def decode (bytes : Bytes) : Option (List Char) := decodeGo bytes.length bytes

theorem decodeGo_cons (fuel : Nat) (c : Char) (rest : Bytes) :
    decodeGo (fuel + 1) (String.utf8EncodeChar c ++ rest) = (decodeGo fuel rest).map (c :: ·) := by
  have hpos := length_utf8EncodeChar_pos c
  obtain ⟨b, bs, hb⟩ := exists_cons_of_length_pos hpos
  have hchar := decodeChar_append c rest
  have hdrop := drop_utf8Size c rest
  rw [decodeGo, hchar, bind_some, hdrop]
  · intro h
    simp at h

variable {fuel : Nat}

theorem decodeGo_encode (chars : List Char) (h : (encodeChars chars).length ≤ fuel) :
    decodeGo fuel (encodeChars chars) = some chars := by
  induction chars generalizing fuel with
  | nil => exact decodeGo.eq_1 fuel
  | cons c rest ih =>
    have hpos := length_utf8EncodeChar_pos c
    rw [encodeChars, flatMap_cons, length_append] at h
    rw [encodeChars, flatMap_cons]
    obtain ⟨fuel, rfl⟩ : ∃ n, fuel = n + 1 := ⟨fuel - 1, by omega⟩
    have hrest : (encodeChars rest).length ≤ fuel := by
      rw [encodeChars]
      omega
    rw [decodeGo_cons, ← encodeChars, ih hrest]
    rfl

theorem decode_encode (chars : List Char) : decode (encodeChars chars) = some chars :=
  decodeGo_encode chars le_rfl

variable {chars : List Char}

theorem encode_of_decodeGo (h : decodeGo fuel bytes = some chars) : bytes = encodeChars chars := by
  induction fuel generalizing bytes chars with
  | zero =>
    cases bytes with
    | nil =>
      rw [decodeGo, some.injEq] at h
      rw [← h]
      rfl
    | cons b bs => cases h
  | succ fuel ih =>
    cases bytes with
    | nil =>
      rw [decodeGo, some.injEq] at h
      rw [← h]
      rfl
    | cons b bs =>
      rw [decodeGo, bind_eq_some_iff] at h
      · obtain ⟨c, hc, hrest⟩ := h
        obtain ⟨rest, hdecoded, rfl⟩ := map_eq_some_iff.mp hrest
        rw [eq_append_of_decodeChar hc, ih hdecoded, encodeChars, encodeChars, flatMap_cons]
      · nofun

theorem encode_of_decode (h : decode bytes = some chars) :
    bytes = encodeChars chars := encode_of_decodeGo h

/-! ## Reading with replacements -/

/-- The continuation bytes a first byte asks for, and the bounds of the first of them. -/
def wanted (first : UInt8) : Nat × UInt8 × UInt8 :=
  if 0xC2 ≤ first ∧ first ≤ 0xDF then (1, 0x80, 0xBF)
  else if first = 0xE0 then (2, 0xA0, 0xBF)
  else if first = 0xED then (2, 0x80, 0x9F)
  else if 0xE1 ≤ first ∧ first ≤ 0xEF then (2, 0x80, 0xBF)
  else if first = 0xF0 then (3, 0x90, 0xBF)
  else if first = 0xF4 then (3, 0x80, 0x8F)
  else if 0xF1 ≤ first ∧ first ≤ 0xF3 then (3, 0x80, 0xBF)
  else (0, 0x80, 0xBF)

def continuations : Nat → UInt8 → UInt8 → Bytes → Nat
  | 0, _, _, _ => 0
  | _ + 1, _, _, [] => 0
  | n + 1, low, high, b :: rest =>
    if low ≤ b ∧ b ≤ high then continuations n 0x80 0xBF rest + 1 else 0

/-- The length of the truncated character one replacement stands for. -/
def subpart : Bytes → Nat
  | [] => 0
  | first :: rest => continuations (wanted first).1 (wanted first).2.1 (wanted first).2.2 rest + 1

def replacement : Char := Char.ofNat 0xFFFD

def lossyGo : Nat → Bytes → List Char
  | _, [] => []
  | 0, _ :: _ => []
  | fuel + 1, bytes =>
    match decodeChar bytes with
    | some c => c :: lossyGo fuel (bytes.drop c.utf8Size)
    | none => replacement :: lossyGo fuel (bytes.drop (subpart bytes))

def decodeLossy (bytes : Bytes) : List Char := lossyGo bytes.length bytes

theorem lossyGo_of_decodeGo (h : decodeGo fuel bytes = some chars) :
    lossyGo fuel bytes = chars := by
  induction fuel generalizing bytes chars with
  | zero =>
    cases bytes with
    | nil =>
      rw [decodeGo, some.injEq] at h
      rw [lossyGo, h]
    | cons b bs => cases h
  | succ fuel ih =>
    cases bytes with
    | nil =>
      rw [decodeGo, some.injEq] at h
      rw [lossyGo, h]
    | cons b bs =>
      rw [decodeGo, bind_eq_some_iff] at h
      · obtain ⟨c, hc, hrest⟩ := h
        obtain ⟨rest, hdecoded, rfl⟩ := map_eq_some_iff.mp hrest
        rw [lossyGo]
        · simp only [hc, ih hdecoded]
        · nofun
      · nofun

theorem decodeLossy_of_decode (h : decode bytes = some chars) :
    decodeLossy bytes = chars := lossyGo_of_decodeGo h

theorem decodeLossy_encode (chars : List Char) : decodeLossy (encodeChars chars) = chars :=
  decodeLossy_of_decode (decode_encode chars)

end SuperFunctions.Lib.Utf8

/-!
# UTF-16

Strings as code units. A surrogate that is not half of a pair stands for no character, and is
written as U+FFFD.
-/
namespace SuperFunctions.Lib.Utf16

/-- The code units of a string. -/
abbrev Text := List UInt16

def isHigh (u : UInt16) : Bool := 0xD800 ≤ u && u ≤ 0xDBFF

def isLow (u : UInt16) : Bool := 0xDC00 ≤ u && u ≤ 0xDFFF

def pairChar (high low : UInt16) : Char :=
  Char.ofNat (0x10000 + (high.toNat - 0xD800) * 0x400 + (low.toNat - 0xDC00))

def unitChar (u : UInt16) : Char :=
  if isHigh u || isLow u then Utf8.replacement else Char.ofNat u.toNat

def toChars : Text → List Char
  | [] => []
  | [u] => [unitChar u]
  | u :: v :: rest =>
    if isHigh u && isLow v then pairChar u v :: toChars rest
    else unitChar u :: toChars (v :: rest)

/-- The bytes of a `TextEncoder`. -/
def encodeUtf8 (text : Text) : Utf8.Bytes := Utf8.encodeChars (toChars text)

end SuperFunctions.Lib.Utf16

/-!
# Reading from a list

Readers take what they read off the front of a list. Writers in a row are read back in a row, and
the list from an offset on is what an indexed reader sees there.
-/
namespace SuperFunctions.Lib.Framing

open List

open Option

variable {α β : Type}

/-- The next `n` items. -/
def takeItems (n : Nat) (items : List β) : Option (List β × List β) :=
  if n ≤ items.length then some (items.take n, items.drop n) else none

theorem takeItems_append (items rest : List β) :
    takeItems items.length (items ++ rest) = some (items, rest) := by
  rw [takeItems, if_pos, take_left, drop_left]
  rw [length_append]
  omega

/-- Item by item, `n` times. -/
def takeMany (take : List β → Option (α × List β)) : Nat → List β → Option (List α × List β)
  | 0, items => some ([], items)
  | n + 1, items =>
    (take items).bind fun (a, rest) => (takeMany take n rest).map fun (as, rest) => (a :: as, rest)

variable {take : List β → Option (α × List β)}

theorem takeMany_flatMap {γ : Type} {write : γ → List β} {read : γ → α} {as : List γ}
    (h : ∀ a ∈ as, ∀ rest, take (write a ++ rest) = some (read a, rest)) (rest : List β) :
    takeMany take as.length (as.flatMap write ++ rest) = some (as.map read, rest) := by
  induction as with
  | nil => rfl
  | cons a as ih =>
    have hrest := ih fun b hb => h b (mem_cons_of_mem _ hb)
    rw [flatMap_cons, append_assoc, length_cons, takeMany,
      h a mem_cons_self, bind_some]
    show (takeMany take as.length (as.flatMap write ++ rest)).map _ = _
    rw [hrest]
    rfl

theorem length_of_takeMany {k : Nat}
    (hk : ∀ items a rest, take items = some (a, rest) → rest.length + k ≤ items.length) {n : Nat}
    {items rest : List β} {as : List α} (h : takeMany take n items = some (as, rest)) :
    rest.length + k * n ≤ items.length := by
  induction n generalizing items as with
  | zero =>
    rw [takeMany, some.injEq, Prod.mk.injEq] at h
    rw [h.2]
    omega
  | succ n ih =>
    rw [takeMany, bind_eq_some_iff] at h
    obtain ⟨⟨a, mid⟩, hfirst, hmap⟩ := h
    obtain ⟨⟨as', rest'⟩, hmany, heq⟩ := map_eq_some_iff.mp hmap
    have hrest : rest' = rest := (Prod.mk.inj heq).2
    have hlen := hk _ _ _ hfirst
    rw [hrest] at hmany
    have hlen' := ih hmany
    rw [Nat.mul_succ]
    omega

/-! ## Offsets -/

variable {items : List β} {offset n : Nat}

theorem takeItems_drop (hoffset : offset ≤ items.length) :
    takeItems n (items.drop offset) =
      if offset + n ≤ items.length then
        some ((items.take (offset + n)).drop offset, items.drop (offset + n))
      else none := by
  rw [takeItems, length_drop]
  split_ifs
  · rw [drop_drop, drop_take, Nat.add_sub_cancel_left]
  · omega
  · omega
  · rfl

end SuperFunctions.Lib.Framing

/-!
# Fixed-width decimal fields

A reader of texts that takes a fixed number of digits or one given character. Two texts that such
readers accept compare as texts the way their fields compare, the first difference deciding.
-/
namespace SuperFunctions.Lib.FixedWidth

open Option

def digit (c : Char) : Option Nat :=
  if 48 ≤ c.toNat ∧ c.toNat ≤ 57 then some (c.toNat - 48) else none

/-- The value of the next `n` digits after the digits read so far, and the rest of the text. -/
def digitsFrom : Nat → Nat → List Char → Option (Nat × List Char)
  | 0, value, cs => some (value, cs)
  | _ + 1, _, [] => none
  | n + 1, value, c :: cs => (digit c).bind fun d => digitsFrom n (10 * value + d) cs

def digits (n : Nat) (cs : List Char) : Option (Nat × List Char) := digitsFrom n 0 cs

def literal (c : Char) : List Char → Option (List Char)
  | [] => none
  | a :: cs => if a = c then some cs else none

theorem char_lt_iff (a b : Char) : a < b ↔ a.toNat < b.toNat := Iff.rfl

theorem digit_cases {c : Char} {d : Nat} (h : digit c = some d) : c.toNat = 48 + d ∧ d ≤ 9 := by
  simp only [digit] at h
  split at h
  · have hd := some.inj h
    omega
  · cases h

theorem digit_lt_iff {a b : Char} {d e : Nat} (ha : digit a = some d) (hb : digit b = some e) :
    a < b ↔ d < e := by
  have hda := (digit_cases ha).1
  have hdb := (digit_cases hb).1
  rw [char_lt_iff]
  omega

theorem digit_eq_iff {a b : Char} {d e : Nat} (ha : digit a = some d) (hb : digit b = some e) :
    a = b ↔ d = e := by
  have hda := (digit_cases ha).1
  have hdb := (digit_cases hb).1
  constructor
  · intro hab
    rw [hab] at hda
    omega
  · intro hde
    apply Char.toNat_inj.mp
    omega

variable {v : Nat} {cs rest : List Char}

theorem digitsFrom_succ {n value : Nat} (h : digitsFrom (n + 1) value cs = some (v, rest)) :
    ∃ c tail d, cs = c :: tail ∧ digit c = some d ∧
      digitsFrom n (10 * value + d) tail = some (v, rest) := by
  cases cs with
  | nil => cases h
  | cons c tail =>
    obtain ⟨d, hd, hrest⟩ := bind_eq_some_iff.mp h
    exact ⟨c, tail, d, rfl, hd, hrest⟩

/-- What is read so far stays in front: the value lies in the block of its leading digits. -/
theorem digitsFrom_bounds {n value : Nat} (h : digitsFrom n value cs = some (v, rest)) :
    10 ^ n * value ≤ v ∧ v < 10 ^ n * (value + 1) := by
  induction n generalizing value cs with
  | zero =>
    obtain ⟨rfl, -⟩ := Prod.mk.inj (Option.some.inj h)
    omega
  | succ n ih =>
    obtain ⟨c, tail, d, -, hd, hrest⟩ := digitsFrom_succ h
    have hd9 := (digit_cases hd).2
    obtain ⟨hlow, hhigh⟩ := ih hrest
    have hpow : 10 ^ (n + 1) = 10 ^ n * 10 := Nat.pow_succ _ _
    have hfirst : 10 ^ (n + 1) * value ≤ 10 ^ n * (10 * value + d) := by
      rw [hpow, Nat.mul_assoc]
      exact Nat.mul_le_mul_left _ (by omega)
    have hlast : 10 ^ n * (10 * value + d + 1) ≤ 10 ^ (n + 1) * (value + 1) := by
      rw [hpow, Nat.mul_assoc]
      exact Nat.mul_le_mul_left _ (by omega)
    omega

variable {w : Nat} {as bs restA restB : List Char}

theorem digitsFrom_lt {n value other : Nat} (ha : digitsFrom n value as = some (v, restA))
    (hb : digitsFrom n other bs = some (w, restB)) (hlt : value < other) : v < w := by
  have hv := (digitsFrom_bounds ha).2
  have hw := (digitsFrom_bounds hb).1
  have hblock : 10 ^ n * (value + 1) ≤ 10 ^ n * other := Nat.mul_le_mul_left _ hlt
  omega

theorem digitsFrom_lt_iff {n value : Nat} (ha : digitsFrom n value as = some (v, restA))
    (hb : digitsFrom n value bs = some (w, restB)) : as < bs ↔ v < w ∨ v = w ∧ restA < restB := by
  induction n generalizing value as bs with
  | zero =>
    obtain ⟨rfl, rfl⟩ := Prod.mk.inj (some.inj ha)
    obtain ⟨rfl, rfl⟩ := Prod.mk.inj (some.inj hb)
    simp
  | succ n ih =>
    obtain ⟨a, tailA, d, rfl, hd, hrestA⟩ := digitsFrom_succ ha
    obtain ⟨b, tailB, e, rfl, he, hrestB⟩ := digitsFrom_succ hb
    rw [List.cons_lt_cons_iff, digit_lt_iff hd he, digit_eq_iff hd he]
    rcases Nat.lt_trichotomy d e with hlt | heq | hgt
    · have hvw := digitsFrom_lt hrestA hrestB (by omega)
      constructor
      · intro _
        exact .inl hvw
      · intro _
        exact .inl hlt
    · subst heq
      have hsame := ih hrestA hrestB
      constructor
      · rintro (h | ⟨-, h⟩)
        · omega
        · exact hsame.mp h
      · intro h
        exact .inr ⟨rfl, hsame.mpr h⟩
    · have hwv := digitsFrom_lt hrestB hrestA (by omega)
      constructor
      · rintro (h | ⟨h, -⟩)
        · omega
        · omega
      · rintro (h | ⟨h, -⟩)
        · omega
        · omega

theorem digits_lt_iff {n : Nat} (ha : digits n as = some (v, restA))
    (hb : digits n bs = some (w, restB)) : as < bs ↔ v < w ∨ v = w ∧ restA < restB :=
  digitsFrom_lt_iff ha hb

/-! ## Writing the digits -/

/-- The last `n` digits of the value, with leading zeros. -/
def fixedDigits : Nat → Nat → List Char
  | 0, _ => []
  | n + 1, value => Char.ofNat (48 + value / 10 ^ n % 10) :: fixedDigits n value

theorem digit_ofNat {d : Nat} (h : d ≤ 9) : digit (Char.ofNat (48 + d)) = some d := by
  have hcases : ∀ d : Fin 10, digit (Char.ofNat (48 + d.val)) = some d.val := by decide
  exact hcases ⟨d, by omega⟩

theorem digitsFrom_fixedDigits (n value front : Nat) (rest : List Char) :
    digitsFrom n front (fixedDigits n value ++ rest) =
      some (10 ^ n * front + value % 10 ^ n, rest) := by
  induction n generalizing front with
  | zero => simp [digitsFrom, fixedDigits, Nat.mod_one]
  | succ n ih =>
    have hdigit : value / 10 ^ n % 10 ≤ 9 := by omega
    simp only [fixedDigits, List.cons_append, digitsFrom, digit_ofNat hdigit, Option.bind_some, ih]
    have hsplit : value % 10 ^ (n + 1) = value % 10 ^ n + 10 ^ n * (value / 10 ^ n % 10) := by
      rw [Nat.pow_succ, Nat.mod_mul]
    rw [hsplit, Nat.pow_succ]
    congr 2
    rw [Nat.mul_add, ← Nat.mul_assoc]
    omega

theorem digits_fixedDigits {n value : Nat} (h : value < 10 ^ n) (rest : List Char) :
    digits n (fixedDigits n value ++ rest) = some (value, rest) := by
  rw [digits, digitsFrom_fixedDigits, Nat.mod_eq_of_lt h, Nat.mul_zero, Nat.zero_add]

/-! ## Given characters -/

theorem literal_cases {c : Char} (h : literal c cs = some rest) : cs = c :: rest := by
  cases cs with
  | nil => cases h
  | cons a tail =>
    simp only [literal] at h
    split at h
    · rename_i hac
      rw [hac, some.inj h]
    · cases h

end SuperFunctions.Lib.FixedWidth
