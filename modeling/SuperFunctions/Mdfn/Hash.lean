import Mathlib.Algebra.Group.Int.Defs
import SuperFunctions.Lib.Sha256

/-!
# The hash of sources and schemas

SHA-256 written over numbers: words come out of the operators signed or unsigned, and sums are
doubles until they are cut to 32 bits.
-/
namespace SuperFunctions.Mdfn.Hash

open Lib Lib.Sha256 List

/-! ## Numbers -/

/-- The double nearest to an integer, the even one of two. -/
def toDouble (n : Int) : Int :=
  if n.natAbs ≤ 2 ^ 53 then n
  else
    let unit : Int := 2 ^ (n.natAbs.log2 - 52)
    let q := n / unit
    if 2 * (n % unit) < unit ∨ 2 * (n % unit) = unit ∧ q % 2 = 0 then q * unit
    else (q + 1) * unit

def add (a b : Int) : Int := toDouble (a + b)

def toUint32 (n : Int) : Word := .ofInt 32 n

def bitwise (op : Word → Word → Word) (a b : Int) : Int := (op (toUint32 a) (toUint32 b)).toInt

abbrev bitOr := bitwise (· ||| ·)

abbrev bitXor := bitwise (· ^^^ ·)

abbrev bitAnd := bitwise (· &&& ·)

def bitNot (a : Int) : Int := (~~~toUint32 a).toInt

def shiftLeft (a : Int) (n : Nat) : Int := (toUint32 a <<< (n % 32)).toInt

/-- `>>>` -/
def shiftRight (a : Int) (n : Nat) : Int := (toUint32 a >>> (n % 32)).toNat

/-! ## The hash -/

def sha256Initial : List Word :=
  [0x6a09e667, 0xbb67ae85, 0x3c6ef372, 0xa54ff53a, 0x510e527f, 0x9b05688c, 0x1f83d9ab, 0x5be0cd19]

def sha256Round : List Word :=
  [0x428a2f98, 0x71374491, 0xb5c0fbcf, 0xe9b5dba5, 0x3956c25b, 0x59f111f1, 0x923f82a4, 0xab1c5ed5,
  0xd807aa98, 0x12835b01, 0x243185be, 0x550c7dc3, 0x72be5d74, 0x80deb1fe, 0x9bdc06a7, 0xc19bf174,
  0xe49b69c1, 0xefbe4786, 0x0fc19dc6, 0x240ca1cc, 0x2de92c6f, 0x4a7484aa, 0x5cb0a9dc, 0x76f988da,
  0x983e5152, 0xa831c66d, 0xb00327c8, 0xbf597fc7, 0xc6e00bf3, 0xd5a79147, 0x06ca6351, 0x14292967,
  0x27b70a85, 0x2e1b2138, 0x4d2c6dfc, 0x53380d13, 0x650a7354, 0x766a0abb, 0x81c2c92e, 0x92722c85,
  0xa2bfe8a1, 0xa81a664b, 0xc24b8b70, 0xc76c51a3, 0xd192e819, 0xd6990624, 0xf40e3585, 0x106aa070,
  0x19a4c116, 0x1e376c08, 0x2748774c, 0x34b0bcb5, 0x391c0cb3, 0x4ed8aa4a, 0x5b9cca4f, 0x682e6ff3,
  0x748f82ee, 0x78a5636f, 0x84c87814, 0x8cc70208, 0x90befffa, 0xa4506ceb, 0xbef9a3f7, 0xc67178f2]

def rotateRight (value : Int) (amount : Nat) : Int :=
  bitOr (shiftRight value amount) (shiftLeft value (32 - amount))

/-- Bytes written over others. -/
def setBytes (bytes : Utf8.Bytes) (offset : Nat) (new : Utf8.Bytes) : Utf8.Bytes :=
  bytes.take offset ++ new ++ bytes.drop (offset + new.length)

def bigEndian (value : Nat) : Utf8.Bytes :=
  [.ofNat (value / 2 ^ 24), .ofNat (value / 2 ^ 16), .ofNat (value / 2 ^ 8), .ofNat value]

def setUint32 (bytes : Utf8.Bytes) (offset value : Nat) : Utf8.Bytes :=
  setBytes bytes offset (bigEndian value)

def paddedBytes (input : Utf8.Bytes) : Utf8.Bytes :=
  let bitLength := input.length * 8
  let paddedLength := (input.length + 9 + 63) / 64 * 64
  let bytes := setBytes (replicate paddedLength 0) 0 input
  let bytes := setBytes bytes input.length [0x80]
  let bytes := setUint32 bytes (paddedLength - 8) (bitLength / 2 ^ 32 % 2 ^ 32)
  setUint32 bytes (paddedLength - 4) (bitLength % 2 ^ 32)

/-- The word that follows those before it. -/
def nextWord (words : List Word) (index : Nat) : Int :=
  let previous15 := (words.getD (index - 15) 0).toNat
  let previous2 := (words.getD (index - 2) 0).toNat
  let sigma0 := bitXor (bitXor (rotateRight previous15 7) (rotateRight previous15 18))
    (shiftRight previous15 3)
  let sigma1 := bitXor (bitXor (rotateRight previous2 17) (rotateRight previous2 19))
    (shiftRight previous2 10)
  shiftRight (add (add (add (words.getD (index - 16) 0).toNat sigma0)
    (words.getD (index - 7) 0).toNat) sigma1) 0

def numbers (r : Registers Word) : Registers Int := r.map fun w => (w.toNat : Int)

def hashRound (r : Registers Int) (k w : Word) : Registers Int :=
  let sum1 := bitXor (bitXor (rotateRight r.e 6) (rotateRight r.e 11)) (rotateRight r.e 25)
  let choice := bitXor (bitAnd r.e r.f) (bitAnd (bitNot r.e) r.g)
  let temporary1 := shiftRight (add (add (add (add r.h sum1) choice) k.toNat) w.toNat) 0
  let sum0 := bitXor (bitXor (rotateRight r.a 2) (rotateRight r.a 13)) (rotateRight r.a 22)
  let majority := bitXor (bitXor (bitAnd r.a r.b) (bitAnd r.a r.c)) (bitAnd r.b r.c)
  let temporary2 := shiftRight (add sum0 majority) 0
  ⟨shiftRight (add temporary1 temporary2) 0, r.a, r.b, r.c, shiftRight (add r.d temporary1) 0,
    r.e, r.f, r.g⟩

def setWord (value : List Word → Nat → Word) (words : List Word) (index : Nat) : List Word :=
  words.set index (value words index)

/-- The words of a block, written over those of the block before it. -/
def blockWords (bytes : Utf8.Bytes) (offset : Nat) (words : List Word) : List Word :=
  let words := (range' 0 16).foldl (setWord fun _ i => wordAt bytes (offset + i * 4)) words
  (range' 16 48).foldl (setWord fun words i => toUint32 (nextWord words i)) words

def hashBlock (bytes : Utf8.Bytes) (state : Registers Word × List Word) (offset : Nat) :
    Registers Word × List Word :=
  let words := blockWords bytes offset state.2
  let r := (range 64).foldl (fun r i => hashRound r (sha256Round.getD i 0) (words.getD i 0))
    (numbers state.1)
  let put (w : Word) (n : Int) : Word := toUint32 (shiftRight (add w.toNat n) 0)
  (⟨put state.1.a r.a, put state.1.b r.b, put state.1.c r.c, put state.1.d r.d, put state.1.e r.e,
    put state.1.f r.f, put state.1.g r.g, put state.1.h r.h⟩, words)

def hex (state : Registers Word) : String :=
  .join (state.toList.map fun w => .ofList ((Nat.toDigits 16 w.toNat).leftpad 8 '0'))

def hashString (value : Utf16.Text) : String :=
  let bytes := paddedBytes (Utf16.encodeUtf8 value)
  "sha256:" ++ hex (((range ((bytes.length + 63) / 64)).map (64 * ·)).foldl (hashBlock bytes)
    (.ofFn (sha256Initial.getD · 0), replicate 64 0)).1

/-! ## Numbers are words -/

variable {a b c d e : Int}

theorem add_eq (h : (a + b).natAbs ≤ 2 ^ 53) : add a b = a + b := if_pos h

@[simp] theorem toUint32_natCast (w : Word) : toUint32 w.toNat = w := by simp [toUint32]

@[simp] theorem toUint32_bitwise (op : Word → Word → Word) :
    toUint32 (bitwise op a b) = op (toUint32 a) (toUint32 b) := BitVec.ofInt_toInt

@[simp] theorem toUint32_not : toUint32 (bitNot a) = ~~~toUint32 a := BitVec.ofInt_toInt

@[simp] theorem toUint32_shiftLeft (n : Nat) :
    toUint32 (shiftLeft a n) = toUint32 a <<< (n % 32) := BitVec.ofInt_toInt

@[simp] theorem toUint32_shiftRight (n : Nat) :
    toUint32 (shiftRight a n) = toUint32 a >>> (n % 32) := toUint32_natCast _

theorem shiftRight_zero : shiftRight a 0 = (toUint32 a).toNat := by simp [shiftRight]

/-- What an operator on words gives. -/
def Fits (n : Int) : Prop := n.natAbs ≤ 2 ^ 32

theorem fits_toNat (w : Word) : Fits w.toNat := by
  have h := w.isLt
  unfold Fits
  omega

theorem fits_toInt (w : Word) : Fits w.toInt := by
  have hlow := BitVec.le_toInt w
  have hhigh := BitVec.toInt_lt (x := w)
  unfold Fits
  omega

theorem fits_bitwise (op : Word → Word → Word) : Fits (bitwise op a b) := fits_toInt _

theorem toUint32_add (ha : Fits a) (hb : Fits b) :
    toUint32 (add a b) = toUint32 a + toUint32 b := by
  unfold Fits at ha hb
  rw [add_eq (by omega)]
  exact BitVec.ofInt_add a b

theorem toUint32_sum (ha : Fits a) (hb : Fits b) (hc : Fits c) (hd : Fits d) :
    toUint32 (add (add (add a b) c) d) = toUint32 a + toUint32 b + toUint32 c + toUint32 d ∧
      ∀ e, Fits e → toUint32 (add (add (add (add a b) c) d) e) =
        toUint32 a + toUint32 b + toUint32 c + toUint32 d + toUint32 e := by
  unfold Fits at *
  have hab : add a b = a + b := add_eq (by omega)
  have habc : add (a + b) c = a + b + c := add_eq (by omega)
  have habcd : add (a + b + c) d = a + b + c + d := add_eq (by omega)
  rw [hab, habc, habcd]
  have hsum : toUint32 (a + b + c + d) = toUint32 a + toUint32 b + toUint32 c + toUint32 d := by
    simp [toUint32, BitVec.ofInt_add]
  refine ⟨hsum, fun e he => ?_⟩
  rw [add_eq (by omega), ← hsum]
  exact BitVec.ofInt_add _ e

/-! ## Rounds -/

@[simp] theorem toUint32_rotateRight (n : Nat) : toUint32 (rotateRight a n) =
    toUint32 a >>> (n % 32) ||| toUint32 a <<< ((32 - n) % 32) := by simp [rotateRight]

theorem hashRound_numbers (r : Registers Word) (k w : Word) :
    hashRound (numbers r) k w = numbers (Sha256.round r k w) := by
  simp only [hashRound, Sha256.round, numbers, Registers.map, shiftRight_zero, toUint32_natCast,
    toUint32_add (fits_toNat _) (fits_toNat _), toUint32_add (fits_bitwise _) (fits_bitwise _),
    (toUint32_sum (fits_toNat _) (fits_bitwise _) (fits_bitwise _) (fits_toNat _)).2 _ (fits_toNat _),
    toUint32_bitwise, toUint32_not, toUint32_rotateRight, sum0, sum1, ch, maj, rotr]

theorem nextWord_eq (words : List Word) (i : Nat) : toUint32 (nextWord words i) =
    sigma1 (words.getD (i - 2) 0) + words.getD (i - 7) 0 + sigma0 (words.getD (i - 15) 0) +
      words.getD (i - 16) 0 := by
  simp only [nextWord, shiftRight_zero, toUint32_natCast,
    (toUint32_sum (fits_toNat _) (fits_bitwise _) (fits_toNat _) (fits_bitwise _)).1, toUint32_bitwise,
    toUint32_rotateRight, toUint32_shiftRight]
  show words.getD (i - 16) 0 + sigma0 (words.getD (i - 15) 0) + words.getD (i - 7) 0 +
    sigma1 (words.getD (i - 2) 0) = _
  ac_rfl

/-! ## Words of a block -/

/-- The first words, of as many as a block has, are those of the schedule. -/
def Filled (block : Nat → Word) (n : Nat) (words : List Word) : Prop :=
  words.length = 64 ∧ ∀ j < n, words.getD j 0 = schedule block j

theorem filled_foldl {block : Nat → Word} (value : List Word → Nat → Word) (n : Nat) :
    ∀ (start stop : Nat) (words : List Word), start + n = stop → stop ≤ 64 →
      Filled block start words →
      (∀ words i, start ≤ i → i < stop → Filled block i words → value words i = schedule block i) →
      Filled block stop ((range' start n).foldl (setWord value) words) := by
  induction n with
  | zero => exact fun start stop words heq _ hwords _ => heq ▸ hwords
  | succ n ih =>
    intro start stop words heq hle hwords hvalue
    refine ih (start + 1) stop _ (by omega) hle ?_ fun words i hi => hvalue words i (by omega)
    refine ⟨length_set.trans hwords.1, fun j hj => ?_⟩
    rw [setWord, getD_eq_getElem?_getD, getElem?_set]
    split_ifs with heq hlt
    · exact heq ▸ hvalue words start le_rfl (by omega) hwords
    · exact absurd hwords.1 (by omega)
    · exact hwords.2 j (by omega)

theorem filled_blockWords (bytes : Utf8.Bytes) (offset : Nat) {words : List Word}
    (hlength : words.length = 64) :
    Filled (fun t => wordAt bytes (offset + 4 * t)) 64 (blockWords bytes offset words) := by
  unfold blockWords
  refine filled_foldl (fun words i => toUint32 (nextWord words i)) 48 16 64 _ (by decide)
    (by decide) (filled_foldl (fun _ i => wordAt bytes (offset + i * 4)) 16 0 16 words (by decide)
      (by decide) ⟨hlength, nofun⟩ fun _ i _ hi _ => ?_) fun words i hi _ hbefore => ?_
  · rw [schedule, dif_pos (by omega), Nat.mul_comm]
  · rw [nextWord_eq, hbefore.2 _ (by omega), hbefore.2 _ (by omega), hbefore.2 _ (by omega),
      hbefore.2 _ (by omega), schedule.eq_1 _ i, dif_neg (by omega)]

theorem foldl_hashRound {block : Nat → Word} {words : List Word} (hwords : Filled block 64 words)
    (s : Registers Word) :
    (range 64).foldl (fun r i => hashRound r (sha256Round.getD i 0) (words.getD i 0)) (numbers s) =
      numbers ((range 64).foldl (fun r t => round r (rootFraction 3 t) (schedule block t)) s) := by
  have hconstants : ∀ i ∈ range 64, sha256Round.getD i 0 = rootFraction 3 i := by decide +kernel
  calc
    _ = (range 64).foldl (fun r t => hashRound r (rootFraction 3 t) (schedule block t))
        (numbers s) := by
      refine foldl_ext _ _ _ fun r i hi => ?_
      rw [hconstants i hi, hwords.2 i (mem_range.mp hi)]
    _ = _ := foldl_hom numbers fun r t => hashRound_numbers r _ _

theorem length_hashBlock (bytes : Utf8.Bytes) {state : Registers Word × List Word} (offset : Nat)
    (hlength : state.2.length = 64) : (hashBlock bytes state offset).2.length = 64 := by
  obtain ⟨hwords, -⟩ := filled_blockWords bytes offset hlength
  simpa only [hashBlock] using hwords

theorem hashBlock_eq (bytes : Utf8.Bytes) {state : Registers Word × List Word} (offset : Nat)
    (hlength : state.2.length = 64) :
    (hashBlock bytes state offset).1 =
      compress state.1 fun t => wordAt bytes (offset + 4 * t) := by
  have hrounds := foldl_hashRound (filled_blockWords bytes offset hlength) state.1
  simp only [hashBlock, hrounds]
  simp only [compress, numbers, Registers.map, shiftRight_zero, toUint32_natCast,
    toUint32_add (fits_toNat _) (fits_toNat _)]

/-! ## Padding -/

theorem setBytes_append (before old after new : Utf8.Bytes) {offset : Nat}
    (hoffset : offset = before.length) (h : old.length = new.length) :
    setBytes (before ++ old ++ after) offset new = before ++ new ++ after := by
  rw [setBytes, hoffset, append_assoc before, take_left, ← h, ← length_append, ← append_assoc,
    drop_left]

/-- The length in two words is the length in eight bytes. -/
theorem bigEndian_append (n : Nat) :
    bigEndian (n * 8 / 2 ^ 32 % 2 ^ 32) ++ bigEndian (n * 8 % 2 ^ 32) =
      (range 8).map fun i => .ofNat (8 * n / 256 ^ (7 - i)) := by
  have hbyte : ∀ {a b : Nat}, a % 256 = b % 256 → UInt8.ofNat a = UInt8.ofNat b := fun hab =>
    UInt8.toNat_inj.mp hab
  simp only [bigEndian, range, range.loop, map_cons, map_nil, cons_append, nil_append, cons.injEq,
    Nat.reduceSub, Nat.reducePow]
  refine ⟨hbyte ?_, hbyte ?_, hbyte ?_, hbyte ?_, hbyte ?_, hbyte ?_, hbyte ?_, hbyte ?_, trivial⟩
    <;> omega

theorem paddedBytes_eq (input : Utf8.Bytes) : paddedBytes input = pad input := by
  let n := input.length
  let z := (119 - n % 64) % 64
  let marked : Utf8.Bytes := input ++ [0x80] ++ replicate z 0
  have hlength : (n + 9 + 63) / 64 * 64 = n + (1 + (z + (4 + 4))) := by omega
  have hmarked : marked.length = n + (z + 1) := by simp [marked, n]
  have hinput : setBytes (replicate (n + (1 + (z + (4 + 4)))) 0) 0 input =
      input ++ [0] ++ (replicate z 0 ++ (replicate 4 0 ++ replicate 4 0)) := by
    simp only [replicate_add]
    exact (setBytes_append [] (replicate n 0) (replicate 1 0 ++ (replicate z 0 ++ (replicate 4 0 ++
      replicate 4 0))) input rfl length_replicate).trans (append_assoc ..).symm
  have hone : setBytes (input ++ [0] ++ (replicate z 0 ++ (replicate 4 0 ++ replicate 4 0))) n
      [0x80] = marked ++ replicate 4 0 ++ replicate 4 0 := by
    rw [setBytes_append input [0] _ [0x80] rfl rfl]
    simp only [marked, append_assoc]
  show setBytes (setBytes (setBytes (setBytes (replicate ((n + 9 + 63) / 64 * 64) 0) 0 input) n
    [0x80]) ((n + 9 + 63) / 64 * 64 - 8) _) ((n + 9 + 63) / 64 * 64 - 4) _ = _
  have hlow (high low : Utf8.Bytes) (hhigh : high.length = 4) (hlow : low.length = 4) :
      setBytes (marked ++ high ++ replicate 4 0) (n + (1 + (z + (4 + 4))) - 4) low =
        marked ++ high ++ low := by
    have hat : n + (1 + (z + (4 + 4))) - 4 = (marked ++ high).length := by
      rw [length_append]
      omega
    have hset := setBytes_append (marked ++ high) (replicate 4 0) [] low hat hlow.symm
    rwa [append_nil, append_nil] at hset
  rw [hlength, hinput, hone, setBytes_append marked (replicate 4 0) _
    (bigEndian (n * 8 / 2 ^ 32 % 2 ^ 32)) (by omega) rfl, hlow _ _ rfl rfl, append_assoc marked, bigEndian_append, pad]
  simp only [marked, append_assoc, cons_append, nil_append]
  rfl

theorem hashString_sha256 (value : Utf16.Text) :
    hashString value = "sha256:" ++ hex (sha256 (Utf16.encodeUtf8 value)) := by
  have hinitial : (.ofFn (sha256Initial.getD · 0) : Registers Word) = initial := by decide +kernel
  have hblocks : ∀ (bytes : Utf8.Bytes) (l : List Nat) (state : Registers Word × List Word),
      state.2.length = 64 → ((l.map (64 * ·)).foldl (hashBlock bytes) state).1 =
        l.foldl (fun s i => compress s fun t => wordAt bytes (64 * i + 4 * t)) state.1 := by
    intro bytes l
    induction l with
    | nil => exact fun state _ => rfl
    | cons i l ih =>
      intro state hlength
      rw [map_cons, foldl_cons, foldl_cons, ih _ (length_hashBlock bytes _ hlength),
        hashBlock_eq bytes _ hlength]
  have hrounded : ((pad (Utf16.encodeUtf8 value)).length + 63) / 64 =
      (pad (Utf16.encodeUtf8 value)).length / 64 := by
    simp [pad]
    omega
  rw [hashString, paddedBytes_eq, hblocks _ _ _ length_replicate, hrounded, hinitial, sha256]

end SuperFunctions.Mdfn.Hash
