import DataGrid.Proofs.Text.Numeral

/-
Every address is read back from its text (`parse_text`), whichever zeros were
left out of it and whether or not its end was written in decimal; and it is
known by its bytes (`octets_injective`).

Colons and hexadecimal digits never look like a four byte address, since that
has a dot; so the reader of groups takes each group for what it is
(`readGroups_colons`) and stops at `::`, where the printer stopped.
-/

namespace DataGrid.Address

/-! ## Bytes -/

/-- A group is made of its two bytes. -/
theorem joinBytes_bytes (g : UInt16) : joinBytes (g >>> 8).toUInt8 g.toUInt8 = g := by
  apply UInt16.toNat.inj
  have hg := g.toNat_lt
  have hlow : g.toNat % 256 < 2 ^ 8 := Nat.mod_lt _ (by decide)
  have hhigh : g.toNat / 256 % 256 = g.toNat / 256 := Nat.mod_eq_of_lt (by omega)
  have hshift : (g.toNat / 256) <<< 8 % 65536 = (g.toNat / 256) <<< 8 :=
    Nat.mod_eq_of_lt (by omega)
  calc (joinBytes (g >>> 8).toUInt8 g.toUInt8).toNat
      = (g.toNat / 256) <<< 8 ||| g.toNat % 256 := by
        simp [joinBytes, Nat.shiftRight_eq_div_pow, hhigh, hshift]
    _ = (g.toNat / 256) <<< 8 + g.toNat % 256 := (Nat.shiftLeft_add_eq_or_of_lt hlow _).symm
    _ = g.toNat := by omega

theorem flatMap_groupBytes_injective {gs hs : List UInt16} (hlength : gs.length = hs.length)
    (h : gs.flatMap groupBytes = hs.flatMap groupBytes) : gs = hs := by
  induction gs generalizing hs with
  | nil => exact (List.length_eq_zero_iff.1 hlength.symm).symm
  | cons g gs ih =>
    cases hs with
    | nil => cases hlength
    | cons k hs =>
      simp only [List.flatMap_cons, groupBytes, List.cons_append, List.nil_append,
        List.cons.injEq] at h
      obtain ⟨hhigh, hlow, hrest⟩ := h
      have hg : g = k := by rw [← joinBytes_bytes g, ← joinBytes_bytes k, hhigh, hlow]
      rw [hg, ih (Nat.succ.inj hlength) hrest]

theorem length_flatMap_groupBytes (gs : List UInt16) :
    (gs.flatMap groupBytes).length = 2 * gs.length := by
  induction gs with
  | nil => rfl
  | cons g gs ih =>
    simp only [List.flatMap_cons, List.length_append, ih, List.length_cons, groupBytes]
    simp only [List.length_nil]
    omega

/-- An address is known by its bytes; their number tells which kind it is of. -/
theorem octets_injective {a b : Address} (h : a.octets = b.octets) : a = b := by
  have hlength := congrArg List.length h
  cases a with
  | v4 a₀ a₁ a₂ a₃ =>
    cases b with
    | v4 b₀ b₁ b₂ b₃ =>
      simp only [octets, List.cons.injEq, and_true] at h
      obtain ⟨rfl, rfl, rfl, rfl⟩ := h
      rfl
    | v6 k =>
      simp only [octets, length_flatMap_groupBytes, Vector.length_toList] at hlength
      cases hlength
  | v6 g =>
    cases b with
    | v4 b₀ b₁ b₂ b₃ =>
      simp only [octets, length_flatMap_groupBytes, Vector.length_toList] at hlength
      cases hlength
    | v6 k =>
      have hgroups : g.toList = k.toList := flatMap_groupBytes_injective (by simp) h
      rw [Vector.toList_inj.1 hgroups]

/-! ## Four bytes -/

theorem readByte_decimal (b : UInt8) {rest : List Char} (hrest : NoDigit 10 rest) :
    readByte (decimal b.toNat ++ rest) = some (b, rest) := by
  have hb : b.toNat < 256 := b.toNat_lt
  have hread : readNumber 10 3 (decimal b.toNat ++ rest) = some (b.toNat, rest) :=
    readNumber_toDigits (by decide) (by decide)
      ((Nat.length_toDigits_le_iff (by decide) (by decide)).2 (by omega)) hrest
  have hzero : ¬ ((decimal b.toNat ++ rest).head? = some '0' ∧
      (decimal b.toNat ++ rest).length ≠ rest.length + 1) := by
    rintro ⟨hhead, hlength⟩
    have hne : decimal b.toNat ≠ [] := Nat.toDigits_ne_nil
    have h0 : b.toNat = 0 := by
      refine head?_toDigits (show 1 < 10 by decide) ?_
      rwa [List.head?_append, Option.or_of_isSome (by simpa using hne)] at hhead
    rw [h0] at hlength
    exact hlength (by simp [decimal])
  have hle : ¬ 255 < b.toNat := by omega
  simp only [readByte, hread, Option.bind_eq_bind, Option.bind_some, hzero, hle, if_false]
  simp

theorem readDotted_dotted (a b c d : UInt8) :
    readDotted (dotted a b c d) = some ((a, b, c, d), []) := by
  have hdot (r : List Char) : NoDigit 10 ('.' :: r) := noDigit_cons (by decide)
  have hend := readByte_decimal d noDigit_nil
  rw [List.append_nil] at hend
  simp only [readDotted, dotted, List.append_assoc, List.cons_append,
    readByte_decimal _ (hdot _), readSign, hend, Option.bind_eq_bind, Option.bind_some, if_true]
  rfl

theorem readByte_suffix {cs rest : List Char} {b : UInt8} (h : readByte cs = some (b, rest)) :
    rest <:+ cs := by
  simp only [readByte, Option.bind_eq_bind, Option.bind_eq_some_iff] at h
  obtain ⟨⟨n, rest'⟩, hread, h⟩ := h
  have hrest : rest' = rest := by
    split at h
    · cases h
    · split at h
      · cases h
      · cases h
        rfl
  simp only [readNumber] at hread
  split at hread
  · cases hread
  · cases hread
    exact hrest ▸ List.drop_suffix _ _

/-- Without a dot there is no four byte address. -/
theorem readDotted_eq_none {cs : List Char} (hdot : '.' ∉ cs) : readDotted cs = none := by
  cases hbyte : readByte cs with
  | none => simp [readDotted, hbyte]
  | some p =>
    obtain ⟨b, rest⟩ := p
    have hsign : readSign '.' rest = none := by
      cases rest with
      | nil => rfl
      | cons c r =>
        have hc : c ≠ '.' := by
          rintro rfl
          exact hdot ((readByte_suffix hbyte).subset (.head _))
        simp only [readSign, hc, if_false]
    simp [readDotted, hbyte, hsign]

theorem readDotted_of_noDigit {cs : List Char} (h : NoDigit 10 cs) : readDotted cs = none := by
  simp [readDotted, readByte, readNumber_eq_none h]

/-! ## Groups -/

variable {room : Nat} {first : Bool} {rest : List Char} {gs : List UInt16}

/-- Groups with a colon before each. -/
def colons (gs : List UInt16) : List Char := gs.flatMap fun g => ':' :: hexadecimal g.toNat

theorem colons_cons (g : UInt16) (gs : List UInt16) :
    colons (g :: gs) = ':' :: (hexadecimal g.toNat ++ colons gs) := by
  simp [colons]

theorem colonSeparated_cons (g : UInt16) (gs : List UInt16) :
    colonSeparated (g :: gs) = hexadecimal g.toNat ++ colons gs := by
  induction gs generalizing g with
  | nil => simp [colonSeparated, colons]
  | cons k gs ih => rw [colonSeparated, ih, colons_cons]; exact nofun

theorem dot_not_mem_hexadecimal (n : Nat) : '.' ∉ hexadecimal n := by
  intro h
  have hdigit := isSome_digitIn (show 1 < 16 by decide) (by decide) h
  cases hdigit

theorem dot_not_mem_colons (gs : List UInt16) : '.' ∉ colons gs := by
  induction gs with
  | nil => exact nofun
  | cons g gs ih => simp [colons_cons, dot_not_mem_hexadecimal, ih]

theorem dot_not_mem_colonSeparated (gs : List UInt16) : '.' ∉ colonSeparated gs := by
  cases gs with
  | nil => exact nofun
  | cons g gs => simp [colonSeparated_cons, dot_not_mem_hexadecimal, dot_not_mem_colons]

theorem NoDigit.colons (h : NoDigit 16 rest) (gs : List UInt16) :
    NoDigit 16 (colons gs ++ rest) := by
  cases gs with
  | nil => exact h
  | cons g gs =>
    rw [colons_cons]
    exact noDigit_cons (by decide)

/-- Where a run of groups ends: the text does, or zeros were left out. -/
def Stops (rest : List Char) : Prop := rest = [] ∨ ∃ r, rest = ':' :: ':' :: r

theorem Stops.noDigit (h : Stops rest) : NoDigit 16 rest := by
  rcases h with rfl | ⟨r, rfl⟩
  · exact noDigit_nil
  · exact noDigit_cons (by decide)

theorem Stops.afterColon {cs : List Char} (h : Stops rest) (hcs : afterColon first rest = some cs) :
    NoDigit 10 cs ∧ NoDigit 16 cs := by
  have hcolon (r : List Char) : NoDigit 10 (':' :: r) ∧ NoDigit 16 (':' :: r) :=
    ⟨noDigit_cons (by decide), noDigit_cons (by decide)⟩
  rcases h with rfl | ⟨r, rfl⟩
  · cases first <;> cases hcs
    exact ⟨noDigit_nil, noDigit_nil⟩
  · cases first <;> cases hcs
    · exact hcolon r
    · exact hcolon (':' :: r)

theorem readGroups_stop (h : Stops rest) (room : Nat) (first : Bool) :
    readGroups room first rest = ([], false, rest) := by
  cases room with
  | zero => rfl
  | succ room =>
    cases hcs : Address.afterColon first rest with
    | none => simp [readGroups, hcs]
    | some cs =>
      obtain ⟨hdecimal, hhexadecimal⟩ := h.afterColon hcs
      simp [readGroups, hcs, readDotted_of_noDigit hdecimal, readNumber_eq_none hhexadecimal]

/-- One group is read, and then the others. -/
theorem readGroups_step {cs : List Char} {g : UInt16}
    (hcs : afterColon first cs = some (hexadecimal g.toNat ++ rest))
    (hnone : readDotted (hexadecimal g.toNat ++ rest) = none) (hrest : NoDigit 16 rest) :
    readGroups (room + 1) first cs =
      (g :: (readGroups room false rest).1, (readGroups room false rest).2) := by
  have hread : readNumber 16 4 (hexadecimal g.toNat ++ rest) = some (g.toNat, rest) :=
    readNumber_toDigits (by decide) (by decide)
      ((Nat.length_toDigits_le_iff (by decide) (by decide)).2 g.toNat_lt) hrest
  simp only [readGroups, hcs, Option.bind_some, hnone, hread, ite_self, UInt16.ofNat_toNat]

theorem readDotted_hexadecimal (g : UInt16) (gs : List UInt16) (hdot : '.' ∉ rest) :
    readDotted (hexadecimal g.toNat ++ (colons gs ++ rest)) = none :=
  readDotted_eq_none (by simp [dot_not_mem_hexadecimal, dot_not_mem_colons, hdot])

theorem readGroups_colons (hroom : gs.length ≤ room) (hstop : Stops rest) (hdot : '.' ∉ rest) :
    readGroups room false (colons gs ++ rest) = (gs, false, rest) := by
  induction gs generalizing room with
  | nil => exact readGroups_stop hstop room false
  | cons g gs ih =>
    obtain ⟨room, rfl⟩ : ∃ r, room = r + 1 := ⟨room - 1, by simp at hroom; omega⟩
    have hafter : afterColon false (colons (g :: gs) ++ rest) =
        some (hexadecimal g.toNat ++ (colons gs ++ rest)) := by
      simp [colons_cons, afterColon, readSign]
    rw [readGroups_step hafter (readDotted_hexadecimal g gs hdot) (hstop.noDigit.colons gs),
      ih (Nat.le_of_succ_le_succ hroom)]

theorem readGroups_separated (hroom : gs.length ≤ room) (hstop : Stops rest) (hdot : '.' ∉ rest) :
    readGroups room true (colonSeparated gs ++ rest) = (gs, false, rest) := by
  cases gs with
  | nil => exact readGroups_stop hstop room true
  | cons g gs =>
    obtain ⟨room, rfl⟩ : ∃ r, room = r + 1 := ⟨room - 1, by simp at hroom; omega⟩
    have hafter : afterColon true (colonSeparated (g :: gs) ++ rest) =
        some (hexadecimal g.toNat ++ (colons gs ++ rest)) := by
      simp [colonSeparated_cons, afterColon]
    rw [readGroups_step hafter (readDotted_hexadecimal g gs hdot) (hstop.noDigit.colons gs),
      readGroups_colons (Nat.le_of_succ_le_succ hroom) hstop hdot]

theorem readGroups_whole (hroom : gs.length ≤ room) :
    readGroups room true (colonSeparated gs) = (gs, false, []) := by
  have h := readGroups_separated hroom (.inl rfl) (List.not_mem_nil (a := '.'))
  rwa [List.append_nil] at h

/-! ## Eight groups -/

theorem ofGroups_toList (v : Vector UInt16 8) : ofGroups v.toList = some (.v6 v) := by
  simp [ofGroups, Vector.toList]

/-- All eight groups are written out. -/
theorem readV6_separated (v : Vector UInt16 8) :
    readV6 (colonSeparated v.toList) = some (.v6 v, []) := by
  have hread : readGroups 8 true (colonSeparated v.toList) = (v.toList, false, []) :=
    readGroups_whole (by simp)
  simp [readV6, hread, ofGroups_toList]

/-- At least two zeros between the groups are left out. -/
theorem readV6_compressed (v : Vector UInt16 8) {before after : List UInt16} {n : Nat}
    (hv : v.toList = before ++ List.replicate n 0 ++ after) (hn : 2 ≤ n) :
    readV6 (colonSeparated before ++ ':' :: ':' :: colonSeparated after) = some (.v6 v, []) := by
  have hlength : before.length + n + after.length = 8 := by
    have h := congrArg List.length hv
    simp only [Vector.length_toList, List.length_append, List.length_replicate] at h
    exact h.symm
  have hhead : readGroups 8 true (colonSeparated before ++ ':' :: ':' :: colonSeparated after) =
      (before, false, ':' :: ':' :: colonSeparated after) :=
    readGroups_separated (by omega) (.inr ⟨_, rfl⟩) (by simp [dot_not_mem_colonSeparated])
  have htail : readGroups (7 - before.length) true (colonSeparated after) = (after, false, []) :=
    readGroups_whole (by omega)
  have hzeros :
      before ++ List.replicate (8 - before.length - after.length) 0 ++ after = v.toList := by
    rw [hv, show 8 - before.length - after.length = n by omega]
  have hshort : before.length ≠ 8 := by omega
  simp only [readV6, hhead, hshort, if_false, readSign, if_true, htail, hzeros, ofGroups_toList,
    Option.bind_eq_bind, Option.bind_some]
  simp

/-- The last two groups are written as a four byte address. -/
theorem readV6_mapped (v : Vector UInt16 8) {g h : UInt16}
    (hv : v.toList = [0, 0, 0, 0, 0, 0xffff, g, h]) :
    readV6 ("::ffff:".toList ++ dotted (g >>> 8).toUInt8 g.toUInt8 (h >>> 8).toUInt8 h.toUInt8) =
      some (.v6 v, []) := by
  generalize hrest : dotted (g >>> 8).toUInt8 g.toUInt8 (h >>> 8).toUInt8 h.toUInt8 = rest
  have hhead (r : List Char) : readGroups 8 true (':' :: ':' :: r) = ([], false, ':' :: ':' :: r) :=
    readGroups_stop (.inr ⟨r, rfl⟩) 8 true
  have hffff : hexadecimal (0xffff : UInt16).toNat = "ffff".toList := by decide
  have hlast : readGroups 6 false (':' :: rest) = ([g, h], true, []) := by
    simp [readGroups, afterColon, readSign, ← hrest, readDotted_dotted, joinBytes_bytes]
  have htail : readGroups 7 true ("ffff".toList ++ ':' :: rest) = ([0xffff, g, h], true, []) := by
    have hafter : afterColon true ("ffff".toList ++ ':' :: rest) =
        some (hexadecimal (0xffff : UInt16).toNat ++ ':' :: rest) := by
      rw [hffff]
      rfl
    have hnone : readDotted (hexadecimal (0xffff : UInt16).toNat ++ ':' :: rest) = none := by
      rw [hffff]
      exact readDotted_of_noDigit (noDigit_cons (by decide))
    rw [readGroups_step hafter hnone (noDigit_cons (by decide)), hlast]
  have hgroups :
      ofGroups ([] ++ List.replicate (8 - 0 - 3) 0 ++ [0xffff, g, h]) = some (.v6 v) := by
    rw [← ofGroups_toList v, hv]
    rfl
  have htext : "::ffff:".toList ++ rest = ':' :: ':' :: ("ffff".toList ++ ':' :: rest) := rfl
  rw [htext]
  simp only [readV6, hhead, readSign, htail, List.length_nil, List.length_cons, hgroups, if_true,
    Option.bind_eq_bind, Option.bind_some]
  rfl

/-! ## Any address -/

/-- The zeros at the start are zeros. -/
theorem leadingZeros_spec (gs : List UInt16) :
    gs = List.replicate (leadingZeros gs) 0 ++ gs.drop (leadingZeros gs) := by
  induction gs with
  | nil => rfl
  | cons g gs ih =>
    by_cases h : g = 0
    · have hlength : leadingZeros (g :: gs) = leadingZeros gs + 1 := by simp [leadingZeros, h]
      rw [hlength, List.replicate_succ, List.cons_append, List.drop_succ_cons, ← ih, h]
    · simp [leadingZeros, h]

/-- The longest run of zeros is there. -/
theorem longestZeros_spec (place : Nat) (gs : List UInt16) :
    (longestZeros place gs).2 = 0 ∨ ∃ before after,
      gs = before ++ List.replicate (longestZeros place gs).2 0 ++ after ∧
        (longestZeros place gs).1 = place + before.length := by
  induction gs generalizing place with
  | nil => exact .inl rfl
  | cons g gs ih =>
    simp only [longestZeros]
    split
    next => exact .inr ⟨[], _, leadingZeros_spec (g :: gs), rfl⟩
    next =>
      rcases ih (place + 1) with h0 | ⟨before, after, hgs, hplace⟩
      · exact .inl h0
      · refine .inr ⟨g :: before, after, ?_, ?_⟩
        · rw [List.cons_append, List.cons_append, ← hgs]
        · rw [hplace, List.length_cons]
          omega

theorem read_eq_readV6 {cs : List Char} (h : readDotted cs = none) : read cs = readV6 cs := by
  rw [read, h]

theorem read_groupsText (v : Vector UInt16 8) :
    read (groupsText v.toList) = some (.v6 v, []) := by
  unfold groupsText
  split
  next g h hv =>
    have hcolon : digitIn 10 ':' = none := by decide
    exact (read_eq_readV6 (readDotted_of_noDigit (noDigit_cons hcolon))).trans (readV6_mapped v hv)
  next =>
    have hspec := longestZeros_spec 0 v.toList
    split
    next start n hlongest =>
    rw [hlongest] at hspec
    split
    next hn =>
      rcases hspec with h0 | ⟨before, after, hv, hstart⟩
      · exact absurd (h0 : n = 0) (by omega)
      · replace hstart : start = before.length := by simpa using hstart
        have hbefore : v.toList.take start = before := by
          rw [hv, hstart, List.append_assoc, List.take_left]
        have hafter : v.toList.drop (start + n) = after := by
          rw [hv, hstart]
          exact List.drop_left' (by simp)
        rw [hbefore, hafter, List.append_assoc,
          read_eq_readV6 (readDotted_eq_none (by simp [dot_not_mem_colonSeparated]))]
        exact readV6_compressed v hv hn
    next =>
      rw [read_eq_readV6 (readDotted_eq_none (dot_not_mem_colonSeparated _)), readV6_separated]

/-- An address is what its text stands for. -/
theorem parse_text (a : Address) : Address.parse a.text = some a := by
  cases a with
  | v4 a b c d => simp [parse, text, chars, read, readDotted_dotted]
  | v6 v => simp [parse, text, chars, read_groupsText]

example : (Address.v6 #v[1, 0, 0, 2, 0, 0, 0, 3]).text = "1:0:0:2::3" := by decide

end DataGrid.Address
