import DataGrid.Address.Basic
import DataGrid.Address.Reader
import DataGrid.Json.Printer
import DataGrid.Json.Reader
import DataGrid.Text.Ulid

/-
Numbers in text: what is written in some base is read back, and what follows
it is left as it is. This holds of the numbers in an address
(`Address.readNumber_toDigits`) and of those in JSON (`Json.readNumber_intText`),
as long as nothing follows that could be part of the number. An identifier is
a number too, of a fixed count of digits (`Ulid.parse_text`).
-/

namespace DataGrid

variable {base n : Nat} {rest : List Char}

/-- A list is read if each of its elements is. -/
theorem mapM_eq_some {α β : Type} {f : α → Option β} {g : α → β} {l : List α}
    (h : ∀ a ∈ l, f a = some (g a)) : l.mapM f = some (l.map g) := by
  induction l with
  | nil => rfl
  | cons a l ih =>
    have hrest := ih fun b hb => h b (.tail _ hb)
    simp [List.mapM_cons, h a (.head _), hrest]

/-- No number but zero is written with a leading zero. -/
theorem head?_toDigits (h1 : 1 < base) (h : (Nat.toDigits base n).head? = some '0') : n = 0 := by
  induction n using Nat.strongRecOn with
  | ind n ih =>
    rw [Nat.toDigits_eq_if h1] at h
    split at h
    next hlt => exact Nat.digitChar_eq_zero.1 (by simpa using h)
    next hge =>
      have hhead : (Nat.toDigits base (n / base)).head? = some '0' := by
        cases hd : Nat.toDigits base (n / base) with
        | nil => exact absurd hd Nat.toDigits_ne_nil
        | cons c r => simpa [hd] using h
      have hzero := ih (n / base) (Nat.div_lt_self (by omega) h1) hhead
      have hpos : 0 < n / base := Nat.div_pos (by omega) (by omega)
      omega

namespace Address

/-! ## In an address -/

theorem digitIn_digitChar {d : Nat} (hbase : base ≤ 16) (hd : d < base) :
    digitIn base (Nat.digitChar d) = some d := by
  have h16 : ∀ d < 16, digitIn 16 (Nat.digitChar d) = some d := by decide
  have h := h16 d (by omega)
  simp only [digitIn, Option.filter_eq_some_iff] at h ⊢
  exact ⟨h.1, by simpa using hd⟩

theorem isSome_digitIn (h1 : 1 < base) (hbase : base ≤ 16) {c : Char}
    (hc : c ∈ Nat.toDigits base n) : (digitIn base c).isSome = true := by
  induction n using Nat.strongRecOn with
  | ind n ih =>
    rw [Nat.toDigits_eq_if h1] at hc
    split at hc
    next hlt =>
      rw [List.mem_singleton.1 hc, digitIn_digitChar hbase hlt]
      rfl
    next hge =>
      rcases List.mem_append.1 hc with hc | hc
      · exact ih (n / base) (Nat.div_lt_self (by omega) h1) hc
      · rw [List.mem_singleton.1 hc, digitIn_digitChar hbase (Nat.mod_lt _ (by omega))]
        rfl

/-- The number that the digits stand for. -/
theorem foldl_toDigits (h1 : 1 < base) (hbase : base ≤ 16) (n : Nat) :
    ((Nat.toDigits base n).filterMap (digitIn base)).foldl (fun n d => n * base + d) 0 = n := by
  induction n using Nat.strongRecOn with
  | ind n ih =>
    rw [Nat.toDigits_eq_if h1]
    split
    next hlt => simp [digitIn_digitChar hbase hlt]
    next hge =>
      have hdigit := digitIn_digitChar hbase (Nat.mod_lt n (by omega : 0 < base))
      rw [List.filterMap_append, List.foldl_append,
        ih (n / base) (Nat.div_lt_self (by omega) h1)]
      simp only [List.filterMap_cons, hdigit, List.filterMap_nil, List.foldl_cons, List.foldl_nil]
      exact Nat.div_add_mod' n base

/-- What follows does not start with a digit. -/
def NoDigit (base : Nat) (rest : List Char) : Prop := ∀ c r, rest = c :: r → digitIn base c = none

theorem noDigit_nil : NoDigit base [] := nofun

theorem noDigit_cons {c : Char} {r : List Char} (h : digitIn base c = none) :
    NoDigit base (c :: r) := by
  rintro c' r' ⟨⟩
  exact h

theorem NoDigit.takeWhile (h : NoDigit base rest) :
    rest.takeWhile (fun c => (digitIn base c).isSome) = [] := by
  cases rest with
  | nil => rfl
  | cons c r => simp [h c r rfl]

theorem readNumber_toDigits {most : Nat} (h1 : 1 < base) (hbase : base ≤ 16)
    (hlength : (Nat.toDigits base n).length ≤ most) (hrest : NoDigit base rest) :
    readNumber base most (Nat.toDigits base n ++ rest) = some (n, rest) := by
  have hdigits : (Nat.toDigits base n ++ rest).takeWhile (fun c => (digitIn base c).isSome) =
      Nat.toDigits base n := by
    rw [List.takeWhile_append_of_pos (fun c hc => isSome_digitIn h1 hbase hc), hrest.takeWhile,
      List.append_nil]
  have hread : ¬ (Nat.toDigits base n = [] ∨ most < (Nat.toDigits base n).length) := by
    rintro (h | h)
    · exact Nat.toDigits_ne_nil h
    · omega
  simp only [readNumber, hdigits, hread, if_false, foldl_toDigits h1 hbase, List.drop_left]

theorem readNumber_eq_none {most : Nat} (hrest : NoDigit base rest) :
    readNumber base most rest = none := by
  simp [readNumber, hrest.takeWhile]

end Address

namespace Json

/-! ## In JSON -/

theorem digitValue_digits (n : Nat) : digitValue (digits n) = n := by
  have h := Nat.ofDigitChars_toDigits (b := 10) (n := n) (by decide) (by decide)
  simpa only [digitValue, digits, Nat.ofDigitChars, Nat.mul_comm] using h

theorem isDigit_of_mem {c : Char} (hc : c ∈ digits n) : c.isDigit = true :=
  Nat.isDigit_of_mem_toDigits (by decide) (by decide) hc

theorem digits_ne_nil (n : Nat) : digits n ≠ [] := Nat.toDigits_ne_nil

theorem no_leading_zero (n : Nat) : ¬ ((digits n).length > 1 ∧ (digits n).head? = some '0') := by
  rintro ⟨hlength, hhead⟩
  have hzero : n = 0 := head?_toDigits (by decide) hhead
  rw [hzero] at hlength
  exact absurd hlength (by decide)

theorem digits_head (n : Nat) : ∃ c r, digits n = c :: r ∧ c.isDigit = true := by
  cases hd : digits n with
  | nil => exact absurd hd (digits_ne_nil n)
  | cons c r => exact ⟨c, r, rfl, isDigit_of_mem (n := n) (by rw [hd]; exact .head _)⟩

/-- What follows is no part of a number. -/
def NoNumber (rest : List Char) : Prop :=
  ∀ c r, rest = c :: r → c.isDigit = false ∧ c ≠ '.' ∧ c ≠ 'e' ∧ c ≠ 'E'

theorem readTail_eq (h : NoNumber rest) : readTail rest = some (true, rest) := by
  cases rest with
  | nil => rfl
  | cons c r =>
    obtain ⟨-, hdot, he, hE⟩ := h c r rfl
    unfold readTail
    split
    next heq => simp_all
    next =>
      simp only [Option.bind_eq_bind, Option.bind_some]
      split <;> simp_all

theorem split_digits (n : Nat) (h : NoNumber rest) :
    (digits n ++ rest).takeWhile Char.isDigit = digits n ∧
      (digits n ++ rest).dropWhile Char.isDigit = rest := by
  have hdigits : ∀ c ∈ digits n, c.isDigit = true := fun c => isDigit_of_mem
  rw [List.takeWhile_append_of_pos hdigits, List.dropWhile_append_of_pos hdigits]
  cases rest with
  | nil => simp
  | cons c r => simp [(h c r rfl).1]

theorem readNumber_intText (n : Int) (h : NoNumber rest) :
    readNumber (intText n ++ rest) = some (.int n, rest) := by
  cases n with
  | ofNat n =>
    obtain ⟨htake, hdrop⟩ := split_digits n h
    obtain ⟨c, r, hcs, hc⟩ := digits_head n
    have hsign : c ≠ '-' := by
      rintro rfl
      cases hc
    have hne := digits_ne_nil n
    have hzero := no_leading_zero n
    rw [intText]
    unfold readNumber
    split
    next negative body heq =>
    -- the text starts with a digit, so no sign is taken off it
    have hbody : negative = false ∧ body = digits n ++ rest := by
      rw [hcs] at heq ⊢
      split at heq <;> simp_all
    obtain ⟨rfl, rfl⟩ := hbody
    simp only [htake, hdrop, readTail_eq h, digitValue_digits, hne, hzero, if_false]
    simp
  | negSucc n =>
    obtain ⟨htake, hdrop⟩ := split_digits (n + 1) h
    have hne := digits_ne_nil (n + 1)
    have hzero := no_leading_zero (n + 1)
    simp only [intText, readNumber, List.cons_append, htake, hdrop, readTail_eq h,
      digitValue_digits, hne, hzero, if_false]
    simp [Int.negSucc_eq]

end Json

namespace Ulid

/-! ## In an identifier -/

theorem digitValue?_digit : ∀ d < 32, digitValue? (digits.getD d '0') = some d := by decide

/-- A digit is put behind the digits before it. -/
theorem shift_digit {x : BitVec 128} {m : Nat} (h : m ≤ x.toNat) :
    (BitVec.ofNat 128 (m / 32) <<< 5) ||| BitVec.ofNat 128 (m % 32) = BitVec.ofNat 128 m := by
  apply BitVec.eq_of_toNat_eq
  have hm : m < 2 ^ 128 := Nat.lt_of_le_of_lt h x.isLt
  have hlow : m % 32 < 2 ^ 5 := Nat.mod_lt _ (by decide)
  have hhigh : (m / 32) <<< 5 < 2 ^ 128 := by omega
  calc ((BitVec.ofNat 128 (m / 32) <<< 5) ||| BitVec.ofNat 128 (m % 32)).toNat
      = (m / 32) <<< 5 ||| m % 32 := by
        rw [BitVec.toNat_or, BitVec.toNat_shiftLeft, BitVec.toNat_ofNat, BitVec.toNat_ofNat,
          Nat.mod_eq_of_lt (by omega : m / 32 < 2 ^ 128),
          Nat.mod_eq_of_lt (by omega : m % 32 < 2 ^ 128), Nat.mod_eq_of_lt hhigh]
    _ = (m / 32) <<< 5 + m % 32 := (Nat.shiftLeft_add_eq_or_of_lt hlow _).symm
    _ = m := by omega
    _ = (BitVec.ofNat 128 m).toNat := by rw [BitVec.toNat_ofNat, Nat.mod_eq_of_lt hm]

/-- The value of the digit at place `i` from the left. -/
def digitAt (u : Ulid) (i : Nat) : Nat := (u.bits.toNat >>> (5 * (width - 1 - i))) % 32

/-- The first digits hold the bits to the left of the others. -/
theorem ofDigits_front (u : Ulid) {k : Nat} (hk : k ≤ width) :
    ofDigits ((List.range k).map u.digitAt) =
      ⟨BitVec.ofNat 128 (u.bits.toNat >>> (5 * (width - k)))⟩ := by
  induction k with
  | zero =>
    have hnone : u.bits.toNat >>> (5 * (width - 0)) = 0 := by
      rw [Nat.shiftRight_eq_div_pow]
      refine Nat.div_eq_of_lt (Nat.lt_of_lt_of_le u.bits.isLt ?_)
      exact Nat.pow_le_pow_right (by decide) (by decide)
    rw [hnone]
    rfl
  | succ k ih =>
    let m := u.bits.toNat >>> (5 * (width - (k + 1)))
    have hm : m ≤ u.bits.toNat := Nat.shiftRight_le _ _
    have hprefix : u.bits.toNat >>> (5 * (width - k)) = m / 32 := by
      rw [show 5 * (width - k) = 5 * (width - (k + 1)) + 5 by omega, Nat.shiftRight_add,
        Nat.shiftRight_eq_div_pow _ 5]
    have hdigit : u.digitAt k = m % 32 := by
      rw [digitAt, Nat.sub_sub, Nat.add_comm 1 k]
    have hbits : ∀ ds d, (ofDigits (ds ++ [d])).bits =
        ((ofDigits ds).bits <<< 5) ||| BitVec.ofNat 128 d := by
      intro ds d
      simp [ofDigits]
    have hstep := hbits ((List.range k).map u.digitAt) (u.digitAt k)
    rw [ih (by omega), hprefix, hdigit, shift_digit hm] at hstep
    rw [List.range_succ, List.map_append, List.map_singleton]
    exact congrArg Ulid.mk (hdigit ▸ hstep)

theorem ofDigits_digits (u : Ulid) : ofDigits ((List.range width).map u.digitAt) = u := by
  rw [ofDigits_front u (Nat.le_refl _)]
  simp

theorem parse_text (u : Ulid) : Ulid.parse u.text = some u := by
  have hread : (((List.range width).map fun i => digits.getD (u.digitAt i) '0').mapM digitValue?) =
      some ((List.range width).map u.digitAt) := by
    rw [List.mapM_map]
    exact mapM_eq_some fun i _ => digitValue?_digit _ (Nat.mod_lt _ (by decide))
  have htext : u.text.toList = (List.range width).map fun i => digits.getD (u.digitAt i) '0' :=
    String.toList_ofList
  rw [Ulid.parse, htext, if_pos (by simp), hread, Option.map_some, ofDigits_digits]

end Ulid
end DataGrid
