import Mathlib.Data.List.DropRight
import SuperFunctions.Lib.Regrouping

/-!
# TOTP secrets as Base32 text

`generateBase32Secret` writes five bits a character and `decodeBase32` reads them back, each
through a 32-bit buffer that is never masked. `generateTotp` hashes the counter as eight bytes.
-/

namespace SuperFunctions.Authfn.TotpSecret

open Lib.Regrouping List

def BASE32_ALPHABET : List Char := "ABCDEFGHIJKLMNOPQRSTUVWXYZ234567".toList

/-- `<<` and `>>>` take the shift count modulo 32. -/
def shl (x : BitVec 32) (n : Nat) : BitVec 32 := x <<< (n % 32)

def shr (x : BitVec 32) (n : Nat) : BitVec 32 := x >>> (n % 32)

structure Loop (α : Type) where
  buffer : BitVec 32
  bits : Nat
  output : List α

/-- `BASE32_ALPHABET[x & 31]`. -/
def charAt (x : BitVec 32) : Char := BASE32_ALPHABET.getD (x &&& 31).toNat '='

/-- The `while (bits >= 5)` loop. -/
def writeChars (buffer : BitVec 32) (bits : Nat) (output : List Char) : Loop Char :=
  if 5 ≤ bits then
    writeChars buffer (bits - 5) (output ++ [charAt (shr buffer (bits - 5))])
  else ⟨buffer, bits, output⟩
termination_by bits

def writeByte (s : Loop Char) (byte : BitVec 8) : Loop Char :=
  writeChars (shl s.buffer 8 ||| byte.setWidth 32) (s.bits + 8) s.output

/-- `generateBase32Secret` on the bytes drawn. -/
def generateBase32Secret (bytes : List (BitVec 8)) : List Char :=
  let s := bytes.foldl writeByte ⟨0, 0, []⟩
  if 0 < s.bits then s.output ++ [charAt (shl s.buffer (5 - s.bits))] else s.output

def readChar (s : Loop (BitVec 8)) (char : Char) : Loop (BitVec 8) :=
  match BASE32_ALPHABET.idxOf? char with
  | none => s
  | some index =>
    let buffer := shl s.buffer 5 ||| BitVec.ofNat 32 index
    let bits := s.bits + 5
    if 8 ≤ bits then
      ⟨buffer, bits - 8, s.output ++ [(shr buffer (bits - 8) &&& 0xff).setWidth 8]⟩
    else ⟨buffer, bits, s.output⟩

def decodeBase32 (toUpperCase : List Char → List Char) (secret : List Char) : List (BitVec 8) :=
  let normalized := toUpperCase (secret.rdropWhile (· == '='))
  (normalized.foldl readChar ⟨0, 0, []⟩).output

/-- `writeUInt32BE`, which refuses a value that does not fit. -/
def writeUInt32BE (value : Nat) : Option (List (BitVec 8)) :=
  if value < 2 ^ 32 then
    some ([value / 2 ^ 24, value / 2 ^ 16, value / 2 ^ 8, value].map (BitVec.ofNat 8))
  else none

/-- The block that `generateTotp` hashes: `counter >>> 0` is the counter modulo `2 ^ 32`. -/
def counterBlock (counter : Nat) : Option (List (BitVec 8)) := do
  let high ← writeUInt32BE (counter / 0x100000000)
  let low ← writeUInt32BE (counter % 0x100000000)
  return high ++ low

/-! ## The two loops regroup the same bits -/

/-- The digits that the characters stand for. -/
def digits (text : List Char) : List Nat := text.map (BASE32_ALPHABET.idxOf ·)

def octets (bytes : List (BitVec 8)) : List Nat := bytes.map BitVec.toNat

variable {bytes : List (BitVec 8)}

theorem octets_lt : ∀ d ∈ octets bytes, d < 2 ^ 8 := by
  refine forall_mem_map.mpr fun byte _ => ?_
  exact byte.isLt

theorem charAt_mem (x : BitVec 32) :
    charAt x ∈ BASE32_ALPHABET ∧ BASE32_ALPHABET.idxOf (charAt x) = x.toNat % 2 ^ 5 := by
  have hmod : (x &&& 31).toNat = x.toNat % 2 ^ 5 := by
    exact Nat.and_two_pow_sub_one_eq_mod x.toNat 5
  have hall : ∀ i < 32, BASE32_ALPHABET.getD i '=' ∈ BASE32_ALPHABET ∧
      BASE32_ALPHABET.idxOf (BASE32_ALPHABET.getD i '=') = i := by decide
  have hlt : x.toNat % 2 ^ 5 < 32 := Nat.mod_lt _ (by decide)
  rw [charAt, hmod]
  exact hall _ hlt

/-- Between bytes fewer than five bits wait, and every character written is in the alphabet. -/
structure Writing (n len : Nat) (s : Loop Char) : Prop where
  carries : Carries 5 n len s.buffer s.bits (digits s.output)
  alphabet : ∀ c ∈ s.output, c ∈ BASE32_ALPHABET

theorem Writing.snoc {n len bits : Nat} {b : BitVec 32} {output : List Char}
    (h : Writing n len ⟨b, bits, output⟩) (hbits : 5 ≤ bits) (hfit : bits < 37) :
    Writing n len ⟨b, bits - 5, output ++ [charAt (shr b (bits - 5))]⟩ where
  carries := by
    have hcarries : Carries 5 n len b bits (digits output) := h.carries
    have hemit := hcarries.emit hbits
    rw [digits, map_append, map_singleton, (charAt_mem _).2, shr,
      Nat.mod_eq_of_lt (show bits - 5 < 32 by omega)]
    exact hemit
  alphabet := by
    intro c hc
    rcases mem_append.mp hc with hc | hc
    · exact h.alphabet c hc
    · rw [mem_singleton.mp hc]
      exact (charAt_mem _).1

theorem writeChars_writing {n len : Nat} {b : BitVec 32} {bits : Nat} {output : List Char}
    (h : Writing n len ⟨b, bits, output⟩) (hfit : bits < 37) :
    Writing n len (writeChars b bits output) ∧ (writeChars b bits output).bits < 5 := by
  fun_induction writeChars b bits output with
  | case1 bits output hbits ih => exact ih (h.snoc hbits hfit) (by omega)
  | case2 bits output hbits => exact ⟨h, by simpa using hbits⟩

theorem writeBytes_writing (bytes : List (BitVec 8)) :
    Writing (value 8 (octets bytes)) (8 * bytes.length) (bytes.foldl writeByte ⟨0, 0, []⟩) ∧
      (bytes.foldl writeByte ⟨0, 0, []⟩).bits < 5 := by
  induction bytes using List.reverseRecOn with
  | nil => exact ⟨⟨carries_start 5, by simp⟩, by decide⟩
  | append_singleton bytes byte ih =>
    obtain ⟨h, hbits⟩ := ih
    have hbyte : (byte.setWidth 32).toNat = byte.toNat :=
      BitVec.toNat_setWidth_of_le (by decide)
    have hfeed := h.carries.feed (byte.setWidth 32) (v := 8) (by omega)
      (by rw [hbyte]; exact byte.isLt)
    rw [foldl_append, octets, map_append, map_singleton, value_snoc,
      length_append, length_singleton, Nat.mul_add]
    exact writeChars_writing ⟨hfeed, h.alphabet⟩ (by omega)

/-- The text carries the bytes, and up to four zero bits after them. -/
theorem generateBase32Secret_writing (bytes : List (BitVec 8)) :
    ∃ pad < 5, ∃ b, Writing (value 8 (octets bytes) * 2 ^ pad) (8 * bytes.length + pad)
      ⟨b, 0, generateBase32Secret bytes⟩ := by
  obtain ⟨h, hbits⟩ := writeBytes_writing bytes
  rw [generateBase32Secret]
  generalize bytes.foldl writeByte ⟨0, 0, []⟩ = s at h hbits
  by_cases hrest : 0 < s.bits
  · have hfeed := h.carries.feed 0 (v := 5 - s.bits) (by omega) (by simp)
    have hwriting : Writing (value 8 (octets bytes) * 2 ^ (5 - s.bits))
        (8 * bytes.length + (5 - s.bits)) ⟨shl s.buffer (5 - s.bits), 5, s.output⟩ := by
      refine ⟨?_, h.alphabet⟩
      rw [shl, Nat.mod_eq_of_lt (show 5 - s.bits < 32 by omega)]
      simpa [show s.bits + (5 - s.bits) = 5 by omega] using hfeed
    have hsnoc := hwriting.snoc (by decide) (by decide)
    refine ⟨5 - s.bits, by omega, shl s.buffer (5 - s.bits), ?_⟩
    simpa [hrest, shr] using hsnoc
  · obtain ⟨b, bits, output⟩ := s
    obtain rfl : bits = 0 := by
      simpa using hrest
    exact ⟨0, by decide, b, by simpa using h⟩

theorem idxOf?_alphabet :
    ∀ c ∈ BASE32_ALPHABET, BASE32_ALPHABET.idxOf? c = some (BASE32_ALPHABET.idxOf c) :=
  List.forall_iff_forall_mem.mp (by decide)

/-- Reading the characters of the alphabet regroups their digits into bytes. -/
theorem readChars_carries {text : List Char} (h : ∀ c ∈ text, c ∈ BASE32_ALPHABET) :
    let s := text.foldl readChar ⟨0, 0, []⟩
    Carries 8 (value 5 (digits text)) (5 * (digits text).length) s.buffer s.bits (octets s.output) ∧
      s.bits < 8 := by
  induction text using List.reverseRecOn with
  | nil => exact ⟨carries_start 8, by decide⟩
  | append_singleton text c ih =>
    obtain ⟨hcarries, hbits⟩ := ih (fun d hd => h d (List.mem_append_left _ hd))
    have hmem := h c (by simp)
    have hlt : BASE32_ALPHABET.idxOf c < 2 ^ 5 := List.idxOf_lt_length_of_mem hmem
    have hof : (BitVec.ofNat 32 (BASE32_ALPHABET.idxOf c)).toNat = BASE32_ALPHABET.idxOf c := by
      rw [BitVec.toNat_ofNat, Nat.mod_eq_of_lt (by omega)]
    have hfeed := hcarries.feed (BitVec.ofNat 32 (BASE32_ALPHABET.idxOf c)) (v := 5) (by omega)
      (by rwa [hof])
    rw [hof] at hfeed
    have hidx := idxOf?_alphabet c hmem
    rw [digits, List.map_append, List.map_singleton, value_snoc, List.foldl_append,
      List.length_append, Nat.mul_add]
    generalize text.foldl readChar ⟨0, 0, []⟩ = s at hfeed hbits
    simp only [List.foldl_cons, List.foldl_nil, readChar, hidx, shl]
    split
    · next hfull =>
      have hemit := hfeed.emit hfull
      refine ⟨?_, show s.bits + 5 - 8 < 8 by omega⟩
      rw [octets, List.map_append, List.map_singleton, BitVec.toNat_setWidth, BitVec.toNat_and,
        show (0xff : BitVec 32).toNat = 2 ^ 8 - 1 from rfl, Nat.and_two_pow_sub_one_eq_mod,
        Nat.mod_mod, shr, Nat.mod_eq_of_lt (show s.bits + 5 - 8 < 32 by omega)]
      exact hemit
    · next hfull => exact ⟨hfeed, Nat.lt_of_not_le hfull⟩

/-- Upper-casing and stripping give the text of the loop back. -/
theorem decodeBase32_text {toUpperCase : List Char → List Char}
    (hupper : ∀ text, (∀ c ∈ text, c.toNat < 128) → toUpperCase text = text.map Char.toUpper)
    {text : List Char} (k : Nat) (hascii : ∀ c ∈ text, c.toNat < 128 ∧ c ≠ '=')
    (htext : text.map Char.toUpper = generateBase32Secret bytes) :
    decodeBase32 toUpperCase (text ++ List.replicate k '=') = bytes := by
  have hstrip : (text ++ List.replicate k '=').rdropWhile (· == '=') = text := by
    have hrev : ∀ c ∈ text.reverse, ¬(c == '=') := by simpa using fun c hc => (hascii c hc).2
    rw [List.rdropWhile, reverse_append, reverse_replicate,
      dropWhile_append_of_pos (by simp), dropWhile_eq_self_iff.mpr, reverse_reverse]
    exact fun hpos => hrev _ (getElem_mem hpos)
  obtain ⟨pad, hpad, b, hwriting⟩ := generateBase32Secret_writing bytes
  obtain ⟨hread, hbits⟩ := readChars_carries hwriting.alphabet
  rw [decodeBase32, hstrip, hupper text (fun c hc => (hascii c hc).1), htext]
  have hcarries := hwriting.carries
  rw [show bytes.length = (octets bytes).length by simp [octets]] at hcarries
  have hback := hcarries.back octets_lt hread (by omega) hbits
  exact map_injective_iff.mpr (fun _ _ => BitVec.eq_of_toNat_eq) hback

theorem counterBlock_bigEndian (counter : Nat) (hcounter : counter < 2 ^ 53) :
    counterBlock counter =
      some ((List.range 8).map fun i => BitVec.ofNat 8 (counter / 256 ^ (7 - i))) := by
  have hhigh : counter / 0x100000000 < 2 ^ 32 := by omega
  have hlow : counter % 0x100000000 < 2 ^ 32 := by omega
  simp only [counterBlock, writeUInt32BE, if_pos hhigh, if_pos hlow, List.range, List.range.loop,
    List.map_cons, List.map_nil, Option.bind_eq_bind, Option.bind_some, List.cons_append,
    List.nil_append, Option.pure_def, Option.some.injEq, List.cons.injEq, and_true]
  refine ⟨?_, ?_, ?_, ?_, ?_, ?_, ?_, ?_⟩ <;>
  · apply BitVec.eq_of_toNat_eq
    simp only [BitVec.toNat_ofNat]
    omega

/-- The text written, with padding and in either case, reads back as the bytes it was written
from, and the counter goes into the block with its highest byte first. -/
theorem totp_secret_survives {toUpperCase : List Char → List Char}
    (hupper : ∀ text, (∀ c ∈ text, c.toNat < 128) → toUpperCase text = text.map Char.toUpper) :
    (∀ bytes k, let secret := generateBase32Secret bytes
      decodeBase32 toUpperCase (secret ++ List.replicate k '=') = bytes ∧
      decodeBase32 toUpperCase (secret.map Char.toLower ++ List.replicate k '=') = bytes) ∧
    ∀ counter < 2 ^ 53, counterBlock counter =
      some ((List.range 8).map fun i => BitVec.ofNat 8 (counter / 256 ^ (7 - i))) := by
  have hupperCase : ∀ c ∈ BASE32_ALPHABET, (c.toNat < 128 ∧ c ≠ '=') ∧ c.toUpper = c :=
    List.forall_iff_forall_mem.mp (by decide)
  have hlowerCase : ∀ c ∈ BASE32_ALPHABET,
      (c.toLower.toNat < 128 ∧ c.toLower ≠ '=') ∧ c.toLower.toUpper = c :=
    List.forall_iff_forall_mem.mp (by decide)
  refine ⟨fun bytes k => ?_, counterBlock_bigEndian⟩
  obtain ⟨_, -, _, hwriting⟩ := generateBase32Secret_writing bytes
  have hmem := hwriting.alphabet
  constructor
  · apply decodeBase32_text hupper k (fun c hc => (hupperCase c (hmem c hc)).1)
    rw [List.map_congr_left fun c hc => (hupperCase c (hmem c hc)).2, List.map_id']
  · apply decodeBase32_text hupper k
    · refine List.forall_mem_map.mpr fun d hd => ?_
      exact (hlowerCase d (hmem d hd)).1
    · rw [List.map_map]
      exact (List.map_congr_left fun c hc => (hlowerCase c (hmem c hc)).2).trans (List.map_id _)

theorem totp_secret_survives_ascii :
    decodeBase32 (List.map Char.toUpper)
      ((generateBase32Secret [0xde, 0xad]).map Char.toLower ++ List.replicate 4 '=') =
        [0xde, 0xad] :=
  ((totp_secret_survives fun _ _ => rfl).1 [0xde, 0xad] 4).2

end SuperFunctions.Authfn.TotpSecret
