/-!
Decimal digits and the numbers they spell.

A digit is a number below ten, so a list of digits needs no check when it is read or written.
`Digits.ofNat` spells a natural number without a leading zero and `Digits.toNat` reads a spelling
back; `Digits.toNat_ofNat` says that nothing is lost on the way.
-/

namespace JobTrace

abbrev Digit := Fin 10

def Digit.char (d : Digit) : Char := Char.ofNat (48 + d.val)

def Digit.ofChar? (c : Char) : Option Digit :=
  if h : 48 ≤ c.toNat ∧ c.toNat < 58 then some ⟨c.toNat - 48, by omega⟩ else none

theorem Digit.ofChar?_char : ∀ d : Digit, Digit.ofChar? d.char = some d := by decide

theorem Digit.char_of_ofChar? {c : Char} {d : Digit} (h : Digit.ofChar? c = some d) :
    d.char = c := by
  unfold ofChar? at h
  split at h
  · next hrange =>
    obtain rfl := Option.some.inj h
    have hcode : 48 + (c.toNat - 48) = c.toNat := by omega
    show Char.ofNat (48 + (c.toNat - 48)) = c
    rw [hcode, Char.ofNat_toNat]
  · exact absurd h (by simp)

namespace Digits

/-- The digits of a natural number, the most significant first. -/
def ofNat (n : Nat) : List Digit :=
  if h : n < 10 then [⟨n, h⟩] else ofNat (n / 10) ++ [⟨n % 10, Nat.mod_lt _ (by decide)⟩]
termination_by n

/-- The number that a list of digits spells, the most significant digit first. -/
def toNat (ds : List Digit) : Nat := ds.foldl (fun n d => 10 * n + d.val) 0

theorem toNat_append_singleton (ds : List Digit) (d : Digit) :
    toNat (ds ++ [d]) = 10 * toNat ds + d.val := by
  simp [toNat]

/-- A number is read back from its digits. -/
theorem toNat_ofNat (n : Nat) : toNat (ofNat n) = n := by
  fun_induction ofNat n with
  | case1 n h => simp [toNat]
  | case2 n h ih =>
    rw [toNat_append_singleton, ih]
    simp only
    omega

/-- A number is spelt with at least one digit, and a number other than zero has no zero in
    front. -/
theorem ofNat_eq_cons (n : Nat) : ∃ d ds, ofNat n = d :: ds ∧ (n ≠ 0 → d ≠ 0) := by
  fun_induction ofNat n with
  | case1 n h => exact ⟨⟨n, h⟩, [], rfl, fun hn h0 => hn (by simpa using congrArg Fin.val h0)⟩
  | case2 n h ih =>
    obtain ⟨d, ds, hds, hd⟩ := ih
    exact ⟨d, ds ++ [⟨n % 10, Nat.mod_lt _ (by decide)⟩], by rw [hds]; rfl,
      fun _ => hd (by omega)⟩

end Digits

end JobTrace
