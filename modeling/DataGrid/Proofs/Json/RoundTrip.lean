import DataGrid.Proofs.Text.Numeral

/-
A JSON value is read back from its text (`parse_render`): any value without
fractions and broken texts, whatever its strings hold and however its arrays
and objects nest.

The reader works with fuel and on a text that goes on after the value, so the
property of a value that the induction carries is `ReadBack`: with more fuel
than the value has characters, the value is read and what follows it is left.
-/

namespace DataGrid.Json

variable {fuel : Nat} {rest : List Char}

/-! ## Strings -/

theorem hexValue_hexDigit : ∀ n < 16, hexValue (hexDigit n) = some n := by decide

theorem hexNumber_control {n : Nat} (h : n < 32) :
    hexNumber ['0', '0', hexDigit (n / 16), hexDigit (n % 16)] = some n := by
  have hhigh := hexValue_hexDigit (n / 16) (by omega)
  have hlow := hexValue_hexDigit (n % 16) (Nat.mod_lt _ (by decide))
  have hzero : hexValue '0' = some 0 := by decide
  simp [hexNumber, hhigh, hlow, hzero]
  omega

/-- A control character is no half of a surrogate pair, so its unit stands alone. -/
theorem joinUnits_control {n : Nat} (h : n < 32) (units : List TextUnit) :
    joinUnits (.escaped n :: units) = (joinUnits units).map (Char.ofNat n :: ·) := by
  have hhigh : isHighSurrogate n = false := by simp [isHighSurrogate]; omega
  have hlow : isLowSurrogate n = false := by simp [isLowSurrogate]; omega
  cases units with
  | nil => simp [joinUnits, hhigh, hlow]
  | cons u units => cases u <;> simp [joinUnits, hhigh, hlow]

/-- A character with a short escape is read back from it. -/
theorem scanText_short {c e : Char} (h : shortEscape e = some c) (hu : e ≠ 'u') (cs : List Char) :
    scanText ('\\' :: e :: cs) = (scanText cs).map (fun p => (.plain c :: p.1, p.2)) := by
  rw [scanText.eq_def]
  split
  next heq => cases heq
  next heq => cases heq
  next heq =>
    cases heq
    exact absurd rfl hu
  next heq =>
    cases heq
    rw [h]
    cases scanText cs <;> rfl
  next c' r hquote hunicode hslash heq =>
    cases heq
    exact absurd rfl (hslash _ _ rfl)

theorem scanText_control {n : Nat} (h : n < 32) (cs : List Char) :
    scanText (['\\', 'u', '0', '0', hexDigit (n / 16), hexDigit (n % 16)] ++ cs) =
      (scanText cs).map (fun p => (.escaped n :: p.1, p.2)) := by
  simp only [List.cons_append, List.nil_append, scanText, hexNumber_control h]
  cases scanText cs <;> rfl

theorem scanText_plain {c : Char} (hquote : c ≠ '"') (hslash : c ≠ '\\') (h : ¬ c.toNat < 32)
    (cs : List Char) :
    scanText (c :: cs) = (scanText cs).map (fun p => (.plain c :: p.1, p.2)) := by
  rw [scanText.eq_def]
  split
  next heq => cases heq
  next heq =>
    cases heq
    exact absurd rfl hquote
  next heq =>
    cases heq
    exact absurd rfl hslash
  next heq =>
    cases heq
    exact absurd rfl hslash
  next heq =>
    cases heq
    rw [if_neg h]
    cases scanText cs <;> rfl

theorem ofNat_of_toNat {c : Char} {n : Nat} (h : c.toNat = n) : Char.ofNat n = c := by
  rw [← h, Char.ofNat_toNat]

/-- An escaped character is one unit, which stands for it. -/
theorem scanText_escapeChar (c : Char) (cs : List Char) :
    ∃ u, scanText (escapeChar c ++ cs) = (scanText cs).map (fun p => (u :: p.1, p.2)) ∧
      ∀ units, joinUnits (u :: units) = (joinUnits units).map (c :: ·) := by
  have hshort {e : Char} (h : shortEscape e = some c) (hu : e ≠ 'u') :
      ∃ u, scanText (['\\', e] ++ cs) = (scanText cs).map (fun p => (u :: p.1, p.2)) ∧
        ∀ units, joinUnits (u :: units) = (joinUnits units).map (c :: ·) :=
    ⟨.plain c, scanText_short h hu cs, fun _ => rfl⟩
  unfold escapeChar
  split
  next h => exact hshort (by rw [h]; decide) (by decide)
  split
  next h => exact hshort (by rw [h]; decide) (by decide)
  split
  next h => exact hshort (by rw [h]; decide) (by decide)
  split
  next h => exact hshort (by rw [h]; decide) (by decide)
  split
  next h => exact hshort (by rw [h]; decide) (by decide)
  split
  next h => exact hshort (by rw [← ofNat_of_toNat h]; decide) (by decide)
  split
  next h => exact hshort (by rw [← ofNat_of_toNat h]; decide) (by decide)
  split
  next h =>
    refine ⟨.escaped c.toNat, scanText_control h cs, fun units => ?_⟩
    rw [joinUnits_control h, Char.ofNat_toNat]
  next hquote hslash _ _ _ _ _ h =>
    exact ⟨.plain c, scanText_plain hquote hslash h cs, fun _ => rfl⟩

theorem scanText_quote (s : List Char) (rest : List Char) :
    ∃ units, scanText (s.flatMap escapeChar ++ '"' :: rest) = some (units, rest) ∧
      joinUnits units = some s := by
  induction s with
  | nil => exact ⟨[], rfl, rfl⟩
  | cons c s ih =>
    obtain ⟨units, hscan, hjoin⟩ := ih
    obtain ⟨u, hu, hc⟩ := scanText_escapeChar c (s.flatMap escapeChar ++ '"' :: rest)
    refine ⟨u :: units, ?_, ?_⟩
    · rw [List.flatMap_cons, List.append_assoc, hu, hscan]
      rfl
    · rw [hc, hjoin]
      rfl

/-! ## Values -/

/-- No fraction and no broken text is in the value. -/
inductive Whole : Json → Prop
  | null : Whole .null
  | bool (b : Bool) : Whole (.bool b)
  | int (n : Int) : Whole (.int n)
  | text (s : String) : Whole (.text s)
  | array {items : List Json} (h : ∀ j ∈ items, Whole j) : Whole (.array items)
  | object {fields : List (String × Json)} (h : ∀ f ∈ fields, Whole f.2) : Whole (.object fields)

/-- What may follow a value: an end of what it stands in, or the next value. -/
def Closes (rest : List Char) : Prop := ∀ c r, rest = c :: r → c = ',' ∨ c = ']' ∨ c = '\x7d'

theorem closes_nil : Closes [] := nofun

theorem closes_cons {c : Char} (h : c = ',' ∨ c = ']' ∨ c = '\x7d') (r : List Char) :
    Closes (c :: r) := by
  rintro c' r' ⟨⟩
  exact h

theorem Closes.noNumber (h : Closes rest) : NoNumber rest := by
  intro c r hrest
  rcases h c r hrest with rfl | rfl | rfl <;> decide

/-- The value is read from its text, wherever that stands. -/
def ReadBack (j : Json) : Prop :=
  ∀ fuel rest, (chars j).length < fuel → Closes rest →
    readValue fuel (chars j ++ rest) = some (j, rest)

theorem ne_of_isDigit {c d : Char} (hc : c.isDigit = true) (hd : d.isDigit = false) : c ≠ d := by
  rintro rfl
  rw [hc] at hd
  cases hd

theorem isBlank_of_isDigit {c : Char} (hc : c.isDigit = true) : isBlank c = false := by
  have hspace : c ≠ ' ' := ne_of_isDigit hc rfl
  have hline : c ≠ '\n' := ne_of_isDigit hc rfl
  have htab : c ≠ '\t' := ne_of_isDigit hc rfl
  have hreturn : c ≠ '\r' := ne_of_isDigit hc rfl
  simp [isBlank, hspace, hline, htab, hreturn]

/-- A value starts with what is neither a blank nor the end of an array. -/
theorem chars_head {j : Json} (h : j.Whole) :
    ∃ c r, chars j = c :: r ∧ isBlank c = false ∧ c ≠ ']' := by
  cases h with
  | null => exact ⟨'n', _, rfl, by decide⟩
  | bool b =>
    cases b with
    | true => exact ⟨'t', _, rfl, by decide⟩
    | false => exact ⟨'f', _, rfl, by decide⟩
  | int n =>
    cases n with
    | ofNat n =>
      obtain ⟨c, r, hdigits, hc⟩ := digits_head n
      have htext : chars (.int (.ofNat n)) = c :: r := by
        rw [← hdigits]
        rfl
      exact ⟨c, r, htext, isBlank_of_isDigit hc, ne_of_isDigit hc rfl⟩
    | negSucc n => exact ⟨'-', _, rfl, by decide⟩
  | text s => exact ⟨'"', _, rfl, by decide⟩
  | array h => exact ⟨'[', _, rfl, by decide⟩
  | object h => exact ⟨'\x7b', _, rfl, by decide⟩

theorem readItems_items {items : List Json} (hne : items ≠ []) (h : ∀ j ∈ items, j.ReadBack)
    (hfuel : (commaSeparated (itemChars items)).length + 1 < fuel) :
    readItems fuel (commaSeparated (itemChars items) ++ ']' :: rest) = some (items, rest) := by
  induction items generalizing fuel with
  | nil => exact absurd rfl hne
  | cons j items ih =>
    obtain ⟨fuel, rfl⟩ : ∃ f, fuel = f + 1 := ⟨fuel - 1, by omega⟩
    cases items with
    | nil =>
      simp only [itemChars, commaSeparated] at hfuel ⊢
      have hread := h j (.head _) fuel (']' :: rest) (by omega) (closes_cons (by decide) rest)
      simp [readItems, hread, skipBlanks, isBlank]
    | cons k items =>
      have htext : commaSeparated (itemChars (j :: k :: items)) =
          chars j ++ ',' :: commaSeparated (itemChars (k :: items)) := rfl
      rw [htext] at hfuel ⊢
      simp only [List.length_append, List.length_cons] at hfuel
      have hread := h j (.head _) fuel
        (',' :: (commaSeparated (itemChars (k :: items)) ++ ']' :: rest))
        (by omega) (closes_cons (by decide) _)
      have hrest : readItems fuel (commaSeparated (itemChars (k :: items)) ++ ']' :: rest) =
          some (k :: items, rest) :=
        ih (by simp) (fun i hi => h i (.tail _ hi)) (by omega)
      rw [List.append_assoc, List.cons_append]
      simp [readItems, hread, hrest, skipBlanks, isBlank]

theorem readFields_fields {fields : List (String × Json)} (hne : fields ≠ [])
    (h : ∀ f ∈ fields, f.2.ReadBack)
    (hfuel : (commaSeparated (fieldChars fields)).length + 1 < fuel) :
    readFields fuel (commaSeparated (fieldChars fields) ++ '\x7d' :: rest) =
      some (fields.map fun f => (some f.1, f.2), rest) := by
  induction fields generalizing fuel with
  | nil => exact absurd rfl hne
  | cons f fields ih =>
    obtain ⟨k, j⟩ := f
    obtain ⟨fuel, rfl⟩ : ∃ f, fuel = f + 1 := ⟨fuel - 1, by omega⟩
    -- whatever comes after the field, its name and its value are read
    have hfield (tail : List Char) (hlength : (chars j).length < fuel) (htail : Closes tail) :
        ∃ units, scanText (k.toList.flatMap escapeChar ++ '"' :: ':' :: (chars j ++ tail)) =
          some (units, ':' :: (chars j ++ tail)) ∧ joinUnits units = some k.toList ∧
          readValue fuel (chars j ++ tail) = some (j, tail) := by
      obtain ⟨units, hscan, hjoin⟩ := scanText_quote k.toList (':' :: (chars j ++ tail))
      exact ⟨units, hscan, hjoin, h (k, j) (.head _) fuel tail hlength htail⟩
    cases fields with
    | nil =>
      simp only [fieldChars, commaSeparated, quote, List.length_append, List.length_cons] at hfuel
      obtain ⟨units, hscan, hjoin, hread⟩ := hfield ('\x7d' :: rest) (by omega)
        (closes_cons (by decide) rest)
      simp [readFields, fieldChars, commaSeparated, quote, hscan, hjoin, hread, skipBlanks, isBlank]
    | cons g fields =>
      have htext : commaSeparated (fieldChars ((k, j) :: g :: fields)) =
          (quote k.toList ++ ':' :: chars j) ++
            ',' :: commaSeparated (fieldChars (g :: fields)) := rfl
      rw [htext] at hfuel ⊢
      simp only [quote, List.length_append, List.length_cons] at hfuel
      obtain ⟨units, hscan, hjoin, hread⟩ :=
        hfield (',' :: (commaSeparated (fieldChars (g :: fields)) ++ '\x7d' :: rest)) (by omega)
          (closes_cons (by decide) _)
      have hrest : readFields fuel (commaSeparated (fieldChars (g :: fields)) ++ '\x7d' :: rest) =
          some ((g :: fields).map fun f => (some f.1, f.2), rest) :=
        ih (by simp) (fun i hi => h i (.tail _ hi)) (by omega)
      simp [readFields, quote, hscan, hjoin, hread, hrest, skipBlanks, isBlank]

theorem objectOf_named (fields : List (String × Json)) :
    objectOf (fields.map fun f => (some f.1, f.2)) = .object fields := by
  have hnames : (fields.map fun f => ((some f.1 : Option String), f.2)).mapM
      (fun f => f.1.map (·, f.2)) = some fields := by
    have heach := mapM_eq_some (l := fields)
      (f := fun f => ((some f.1 : Option String).map (·, f.2))) (g := id) fun _ _ => rfl
    rw [List.mapM_map]
    exact heach.trans (by rw [List.map_id])
  simp [objectOf, hnames]

theorem skipBlanks_cons {c : Char} (h : isBlank c = false) (r : List Char) :
    skipBlanks (c :: r) = c :: r := by
  simp [skipBlanks, h]

theorem readBack_of_succ {j : Json} (h : ∀ fuel rest, (chars j).length ≤ fuel → Closes rest →
    readValue (fuel + 1) (chars j ++ rest) = some (j, rest)) : j.ReadBack := by
  intro fuel rest hfuel hrest
  cases fuel with
  | zero => cases hfuel
  | succ fuel => exact h fuel rest (Nat.le_of_lt_succ hfuel) hrest

/-- A text that starts like a number is read as one. -/
theorem readValue_number {c : Char} {r : List Char} (h : c.isDigit = true ∨ c = '-') :
    readValue (fuel + 1) (c :: r) = readNumber (c :: r) := by
  have hne (d : Char) (hd : d.isDigit = false) (hsign : d ≠ '-') : c ≠ d := by
    rcases h with h | rfl
    · exact ne_of_isDigit h hd
    · exact hsign.symm
  have hblank : isBlank c = false := by
    rcases h with h | rfl
    · exact isBlank_of_isDigit h
    · rfl
  rw [readValue, skipBlanks_cons hblank]
  split
  next heq => exact absurd (List.cons.inj heq).1 (hne _ rfl (by decide))
  next heq => exact absurd (List.cons.inj heq).1 (hne _ rfl (by decide))
  next heq => exact absurd (List.cons.inj heq).1 (hne _ rfl (by decide))
  next heq => exact absurd (List.cons.inj heq).1 (hne _ rfl (by decide))
  next heq => exact absurd (List.cons.inj heq).1 (hne _ rfl (by decide))
  next heq => exact absurd (List.cons.inj heq).1 (hne _ rfl (by decide))
  next => rfl

theorem readBack_int (n : Int) : (Json.int n).ReadBack := by
  refine readBack_of_succ fun fuel rest _ hrest => ?_
  have hread := readNumber_intText n hrest.noNumber
  have htext : chars (.int n) = intText n := rfl
  rw [htext]
  cases n with
  | ofNat n =>
    obtain ⟨c, r, hdigits, hc⟩ := digits_head n
    rw [intText, hdigits, List.cons_append] at hread ⊢
    rw [readValue_number (.inl hc), hread]
  | negSucc n =>
    rw [intText, List.cons_append] at hread ⊢
    rw [readValue_number (.inr rfl), hread]

theorem readBack_text (s : String) : (Json.text s).ReadBack := by
  refine readBack_of_succ fun fuel rest _ _ => ?_
  obtain ⟨units, hscan, hjoin⟩ := scanText_quote s.toList rest
  have htext : chars (.text s) = quote s.toList := rfl
  have hrest : quote s.toList ++ rest = '"' :: (s.toList.flatMap escapeChar ++ '"' :: rest) := by
    simp [quote]
  rw [htext, hrest, readValue, skipBlanks_cons (by decide)]
  simp [hscan, hjoin]

theorem commaSeparated_cons (p : List Char) (r : List (List Char)) :
    ∃ tail, commaSeparated (p :: r) = p ++ tail := by
  cases r with
  | nil => exact ⟨[], (List.append_nil p).symm⟩
  | cons q r => exact ⟨_, rfl⟩

theorem readBack_array {items : List Json} (h : ∀ j ∈ items, j.Whole)
    (ih : ∀ j ∈ items, j.ReadBack) : (Json.array items).ReadBack := by
  refine readBack_of_succ fun fuel rest hfuel _ => ?_
  cases items with
  | nil => rfl
  | cons j r =>
    have htext : chars (.array (j :: r)) =
        '[' :: commaSeparated (itemChars (j :: r)) ++ [']'] := rfl
    rw [htext] at hfuel ⊢
    simp only [List.length_append, List.length_cons, List.length_nil] at hfuel
    have hread : readItems fuel (commaSeparated (itemChars (j :: r)) ++ ']' :: rest) =
        some (j :: r, rest) := readItems_items nofun ih (by omega)
    -- the first item does not look like the end of an empty array
    obtain ⟨c, r', hhead, hblank, hend⟩ := chars_head (h j (.head _))
    obtain ⟨tail, htail⟩ := commaSeparated_cons (chars j) (itemChars r)
    have hstart : commaSeparated (itemChars (j :: r)) = c :: (r' ++ tail) := by
      rw [itemChars, htail, hhead]
      rfl
    rw [hstart] at hread ⊢
    simp only [List.cons_append, List.append_assoc, List.nil_append] at hread ⊢
    rw [readValue, skipBlanks_cons (by decide)]
    simp only [skipBlanks_cons hblank]
    split
    next heq => exact absurd (List.cons.inj heq).1 hend
    next => rw [hread]; rfl

theorem readBack_object {fields : List (String × Json)} (ih : ∀ f ∈ fields, f.2.ReadBack) :
    (Json.object fields).ReadBack := by
  refine readBack_of_succ fun fuel rest hfuel _ => ?_
  cases fields with
  | nil => rfl
  | cons f r =>
    obtain ⟨k, j⟩ := f
    have htext : chars (.object ((k, j) :: r)) =
        '\x7b' :: commaSeparated (fieldChars ((k, j) :: r)) ++ ['\x7d'] := rfl
    rw [htext] at hfuel ⊢
    simp only [List.length_append, List.length_cons, List.length_nil] at hfuel
    have hread : readFields fuel (commaSeparated (fieldChars ((k, j) :: r)) ++ '\x7d' :: rest) =
        some (((k, j) :: r).map fun f => (some f.1, f.2), rest) :=
      readFields_fields nofun ih (by omega)
    obtain ⟨tail, htail⟩ := commaSeparated_cons (quote k.toList ++ ':' :: chars j) (fieldChars r)
    obtain ⟨r', hstart⟩ : ∃ r', commaSeparated (fieldChars ((k, j) :: r)) = '"' :: r' :=
      ⟨_, htail⟩
    rw [hstart] at hread ⊢
    simp only [List.cons_append, List.append_assoc, List.nil_append] at hread ⊢
    rw [readValue, skipBlanks_cons (by decide)]
    have hquote : isBlank '"' = false := by decide
    simp only [skipBlanks_cons hquote]
    split
    next heq => cases heq
    next => rw [hread, Option.map_some, objectOf_named]

theorem readBack_of_whole {j : Json} (h : j.Whole) : j.ReadBack := by
  induction h with
  | null => exact readBack_of_succ fun _ _ _ _ => rfl
  | bool b => cases b <;> exact readBack_of_succ fun _ _ _ _ => rfl
  | int n => exact readBack_int n
  | text s => exact readBack_text s
  | array h ih => exact readBack_array h ih
  | object _ ih => exact readBack_object ih

theorem parse_render {j : Json} (h : j.Whole) : Json.parse j.render = some j := by
  have hread := readBack_of_whole h ((chars j).length + 1) [] (Nat.lt_succ_self _) closes_nil
  rw [List.append_nil] at hread
  rw [Json.parse, render, String.toList_ofList, ofChars, hread, Option.bind_eq_bind,
    Option.bind_some]
  rfl

end DataGrid.Json
