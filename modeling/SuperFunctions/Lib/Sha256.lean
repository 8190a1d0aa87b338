import Mathlib.Data.Nat.NthRoot.Defs
import SuperFunctions.Lib.Encodings

/-!
# SHA-256

The hash of FIPS 180-4, its constants as the fractions of the roots they are taken from.
-/
namespace SuperFunctions.Lib.Sha256

open List

abbrev Word := BitVec 32

structure Registers (α : Type) where
  (a b c d e f g h : α)
  deriving DecidableEq

namespace Registers

variable {α β : Type}

def ofFn (v : Nat → α) : Registers α := ⟨v 0, v 1, v 2, v 3, v 4, v 5, v 6, v 7⟩

def map (f : α → β) (r : Registers α) : Registers β :=
  ⟨f r.a, f r.b, f r.c, f r.d, f r.e, f r.f, f r.g, f r.h⟩

def toList (r : Registers α) : List α := [r.a, r.b, r.c, r.d, r.e, r.f, r.g, r.h]

end Registers

def rotr (n : Nat) (x : Word) : Word := x >>> n ||| x <<< (32 - n)

def ch (x y z : Word) : Word := (x &&& y) ^^^ (~~~x &&& z)

def maj (x y z : Word) : Word := (x &&& y) ^^^ (x &&& z) ^^^ (y &&& z)

def sum0 (x : Word) : Word := rotr 2 x ^^^ rotr 13 x ^^^ rotr 22 x

def sum1 (x : Word) : Word := rotr 6 x ^^^ rotr 11 x ^^^ rotr 25 x

def sigma0 (x : Word) : Word := rotr 7 x ^^^ rotr 18 x ^^^ x >>> 3

def sigma1 (x : Word) : Word := rotr 17 x ^^^ rotr 19 x ^^^ x >>> 10

def primes : List Nat := (range 312).filter fun n => (range n).filter (· ∣ n) = [1]

/-- The first bits of the fraction of the `k`-th root of the prime with a number. -/
def rootFraction (k i : Nat) : Word := .ofNat 32 (Nat.nthRoot k (primes.getD i 0 * 2 ^ (32 * k)))

def initial : Registers Word := .ofFn (rootFraction 2)

/-- The words of the message schedule. -/
def schedule (block : Nat → Word) (t : Nat) : Word :=
  if _ : t < 16 then block t
  else sigma1 (schedule block (t - 2)) + schedule block (t - 7) +
    sigma0 (schedule block (t - 15)) + schedule block (t - 16)

def round (r : Registers Word) (k w : Word) : Registers Word :=
  let t1 := r.h + sum1 r.e + ch r.e r.f r.g + k + w
  let t2 := sum0 r.a + maj r.a r.b r.c
  ⟨t1 + t2, r.a, r.b, r.c, r.d + t1, r.e, r.f, r.g⟩

def compress (s : Registers Word) (block : Nat → Word) : Registers Word :=
  let r := (range 64).foldl (fun r t => round r (rootFraction 3 t) (schedule block t)) s
  ⟨s.a + r.a, s.b + r.b, s.c + r.c, s.d + r.d, s.e + r.e, s.f + r.f, s.g + r.g, s.h + r.h⟩

/-- A one and as few zeros as leave room for the 64 bits of the length at the end of a block. -/
def pad (message : Utf8.Bytes) : Utf8.Bytes :=
  message ++ 0x80 :: replicate ((119 - message.length % 64) % 64) 0 ++
    (range 8).map fun i => .ofNat (8 * message.length / 256 ^ (7 - i))

def wordAt (bytes : Utf8.Bytes) (i : Nat) : Word :=
  (range 4).foldl (fun w j => w <<< 8 ||| .ofNat 32 (bytes.getD (i + j) 0).toNat) 0

def sha256 (message : Utf8.Bytes) : Registers Word :=
  (range ((pad message).length / 64)).foldl
    (fun s i => compress s fun t => wordAt (pad message) (64 * i + 4 * t)) initial

end SuperFunctions.Lib.Sha256
