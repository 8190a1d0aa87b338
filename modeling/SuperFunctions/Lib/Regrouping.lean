import Mathlib.Data.Nat.Digits.Defs

/-!
# Regrouping digits through a bit buffer

A 32-bit buffer takes digits of one width in at the bottom and gives digits of another width out
at the top of its pending bits. The bits above the pending ones are never cleared.
-/

namespace SuperFunctions.Lib.Regrouping

/-- The number that a list of `w`-bit digits denotes, the first digit highest. -/
def value (w : Nat) (ds : List Nat) : Nat := Nat.ofDigits (2 ^ w) ds.reverse

theorem value_snoc (w : Nat) (ds : List Nat) (d : Nat) :
    value w (ds ++ [d]) = value w ds * 2 ^ w + d := by
  rw [value, List.reverse_append, List.reverse_singleton, List.singleton_append,
    Nat.ofDigits_cons, Nat.mul_comm, Nat.add_comm]
  rfl

theorem value_inj {w : Nat} (hw : 0 < w) {ds es : List Nat} (hlen : ds.length = es.length)
    (hds : ∀ d ∈ ds, d < 2 ^ w) (hes : ∀ d ∈ es, d < 2 ^ w) (h : value w ds = value w es) :
    ds = es := by
  have hbase : 1 < 2 ^ w := Nat.one_lt_two_pow (by omega)
  refine List.reverse_inj.mp (Nat.ofDigits_inj_of_len_eq hbase (by simp [hlen]) ?_ ?_ h)
  · simpa using hds
  · simpa using hes

/-- The `len` bits of `n` are the `w`-bit digits `ds` followed by the low `bits` bits of `b`. -/
structure Carries (w n len : Nat) (b : BitVec 32) (bits : Nat) (ds : List Nat) : Prop where
  digits : ∀ d ∈ ds, d < 2 ^ w
  length : w * ds.length + bits = len
  number : value w ds * 2 ^ bits + b.toNat % 2 ^ bits = n

theorem carries_start (w : Nat) : Carries w 0 0 0 0 [] :=
  ⟨by simp, rfl, by simp [value]⟩

/-- Shifting a digit in extends the pending bits by it, as long as they fit the buffer. -/
theorem shiftLeft_or_low (b d : BitVec 32) {bits v : Nat} (hfit : bits + v ≤ 32)
    (hd : d.toNat < 2 ^ v) :
    (b <<< v ||| d).toNat % 2 ^ (bits + v) = b.toNat % 2 ^ bits * 2 ^ v + d.toNat := by
  have hshift : b.toNat <<< v % 2 ^ 32 = (b.toNat % 2 ^ (32 - v)) <<< v := by
    rw [Nat.shiftLeft_eq, Nat.shiftLeft_eq, ← Nat.mul_mod_mul_right, ← pow_add,
      Nat.sub_add_cancel (by omega)]
  have hlow : b.toNat % 2 ^ (32 - v) % 2 ^ bits = b.toNat % 2 ^ bits :=
    Nat.mod_mod_of_dvd _ (pow_dvd_pow 2 (by omega))
  rw [BitVec.toNat_or, BitVec.toNat_shiftLeft, hshift, ← Nat.shiftLeft_add_eq_or_of_lt hd,
    Nat.shiftLeft_eq, Nat.add_mod, pow_add, Nat.mul_mod_mul_right, hlow]
  have hle : b.toNat % 2 ^ bits * 2 ^ v + 2 ^ v ≤ 2 ^ bits * 2 ^ v := by
    have := Nat.mul_le_mul_right (2 ^ v) (Nat.mod_lt b.toNat (Nat.two_pow_pos bits))
    rwa [Nat.succ_mul] at this
  have hd' : d.toNat % (2 ^ bits * 2 ^ v) = d.toNat := Nat.mod_eq_of_lt (by omega)
  rw [hd', Nat.mod_eq_of_lt (by omega)]

namespace Carries

variable {w n len bits : Nat} {b : BitVec 32} {ds : List Nat}

theorem feed (h : Carries w n len b bits ds) {v : Nat} (d : BitVec 32) (hfit : bits + v ≤ 32)
    (hd : d.toNat < 2 ^ v) :
    Carries w (n * 2 ^ v + d.toNat) (len + v) (b <<< v ||| d) (bits + v) ds := { h with
  length := by rw [← h.length, Nat.add_assoc]
  number := by
    rw [shiftLeft_or_low b d hfit hd, ← h.number, pow_add]
    ring }

theorem emit (h : Carries w n len b bits ds) (hbits : w ≤ bits) :
    Carries w n len b (bits - w) (ds ++ [(b >>> (bits - w)).toNat % 2 ^ w]) where
  digits := by
    intro d hd
    rcases List.mem_append.mp hd with hd | hd
    · exact h.digits d hd
    · rw [List.mem_singleton.mp hd]
      exact Nat.mod_lt _ (Nat.two_pow_pos w)
  length := by
    have := h.length
    rw [List.length_append, List.length_singleton, Nat.mul_add]
    omega
  number := by
    have hpow : 2 ^ bits = 2 ^ (bits - w) * 2 ^ w := by
      rw [← pow_add, Nat.sub_add_cancel hbits]
    have hsplit : b.toNat % 2 ^ bits = b.toNat % 2 ^ (bits - w) +
        2 ^ (bits - w) * (b.toNat / 2 ^ (bits - w) % 2 ^ w) := by
      rw [hpow, Nat.mod_mul]
    rw [value_snoc, BitVec.toNat_ushiftRight, Nat.shiftRight_eq_div_pow, ← h.number, hsplit, hpow]
    ring

end Carries

/-- Digits regrouped twice are the first ones, when less than a digit is left over each time. -/
theorem Carries.back {w v pad bits : Nat} {b c : BitVec 32} {ds es fs : List Nat}
    (hds : ∀ d ∈ ds, d < 2 ^ w) (h : Carries v (value w ds * 2 ^ pad) (w * ds.length + pad) b 0 es)
    (k : Carries w (value v es) (v * es.length) c bits fs) (hpad : pad < w) (hbits : bits < w) :
    fs = ds := by
  have hlen : w * fs.length + bits = w * ds.length + pad := by
    have := h.length
    have := k.length
    omega
  have hcount : fs.length = ds.length := by
    have := congrArg (· / w) hlen
    simpa [Nat.mul_add_div (show 0 < w by omega), Nat.div_eq_of_lt hpad,
      Nat.div_eq_of_lt hbits] using this
  obtain rfl : bits = pad := by
    rw [hcount] at hlen
    omega
  have hnum : value w fs * 2 ^ bits + c.toNat % 2 ^ bits = value w ds * 2 ^ bits := by
    have := h.number
    rw [k.number]
    simpa [Nat.mod_one] using this
  refine value_inj (by omega) hcount k.digits hds ?_
  calc value w fs = (value w fs * 2 ^ bits + c.toNat % 2 ^ bits) / 2 ^ bits := by
        rw [Nat.add_comm, Nat.add_mul_div_right _ _ (Nat.two_pow_pos bits),
          Nat.div_eq_of_lt (Nat.mod_lt _ (Nat.two_pow_pos bits)), Nat.zero_add]
    _ = value w ds := by rw [hnum, Nat.mul_div_cancel _ (Nat.two_pow_pos bits)]

end SuperFunctions.Lib.Regrouping
