import Mathlib.Tactic.Common
import Reclass.Text.ModifiedUtf8

/-!
# Writing and reading modified UTF-8

Every text is read as it was written (`ModifiedUtf8.decode_encode`). The converse fails: reading
accepts overlong units and repairs surrogates without a partner, so what was read need not be
written back as it was. But each unit is written in its shortest form, and U+FFFD takes as many
bytes as the surrogate that it replaces: what was read from some bytes fits into as many
(`ModifiedUtf8.length_encode_le`).
-/

set_option autoImplicit false

namespace Reclass.Text

namespace Utf16

/-! ### Units and characters -/

theorem isHigh_iff (u : UInt16) : isHigh u = true ↔ 0xD800 ≤ u.toNat ∧ u.toNat ≤ 0xDBFF := by
  simp [isHigh, UInt16.le_iff_toNat_le]

theorem isLow_iff (u : UInt16) : isLow u = true ↔ 0xDC00 ≤ u.toNat ∧ u.toNat ≤ 0xDFFF := by
  simp [isLow, UInt16.le_iff_toNat_le]

/-- A character is no surrogate, and not too large. -/
theorem toNat_char (c : Char) : c.toNat < 0xD800 ∨ 0xDFFF < c.toNat ∧ c.toNat < 0x110000 := c.valid

/-- A unit that is no surrogate is a character of its own. -/
theorem ofChar_ofNat {u : UInt16} (hhigh : ¬ isHigh u = true) (hlow : ¬ isLow u = true) :
    ofChar (Char.ofNat u.toNat) = [u] := by
  have hu := u.toNat_lt
  have hvalid : u.toNat.isValidChar := by
    rw [isHigh_iff] at hhigh
    rw [isLow_iff] at hlow
    unfold Nat.isValidChar
    omega
  have hn : (Char.ofNat u.toNat).toNat = u.toNat := by
    rw [Char.ofNat, dif_pos hvalid]
    rfl
  unfold ofChar
  rw [hn, if_pos (by omega), UInt16.ofNat_toNat]

/-- A character is read from its units. -/
theorem toCharsFrom_ofChar (done : List Char) (c : Char) (rest : List UInt16) :
    toCharsFrom done (ofChar c ++ rest) = toCharsFrom (c :: done) rest := by
  have hc := toNat_char c
  unfold ofChar
  by_cases hbasic : c.toNat < 0x10000
  · have hn : (UInt16.ofNat c.toNat).toNat = c.toNat := by
      rw [UInt16.toNat_ofNat']
      omega
    have hhigh : ¬ isHigh (UInt16.ofNat c.toNat) = true := by
      rw [isHigh_iff, hn]
      omega
    have hlow : ¬ isLow (UInt16.ofNat c.toNat) = true := by
      rw [isLow_iff, hn]
      omega
    rw [if_pos hbasic, List.singleton_append, toCharsFrom.eq_def]
    simp only [hhigh, hlow, if_false, hn, Char.ofNat_toNat, Bool.false_eq_true]
  · have hn : (UInt16.ofNat (0xD800 + (c.toNat - 0x10000) / 0x400)).toNat =
        0xD800 + (c.toNat - 0x10000) / 0x400 := by
      rw [UInt16.toNat_ofNat']
      omega
    have hn' : (UInt16.ofNat (0xDC00 + (c.toNat - 0x10000) % 0x400)).toNat =
        0xDC00 + (c.toNat - 0x10000) % 0x400 := by
      rw [UInt16.toNat_ofNat']
      omega
    have hhigh : isHigh (UInt16.ofNat (0xD800 + (c.toNat - 0x10000) / 0x400)) = true := by
      rw [isHigh_iff, hn]
      omega
    have hlow : isLow (UInt16.ofNat (0xDC00 + (c.toNat - 0x10000) % 0x400)) = true := by
      rw [isLow_iff, hn']
      omega
    have hpair : ofPair (UInt16.ofNat (0xD800 + (c.toNat - 0x10000) / 0x400))
        (UInt16.ofNat (0xDC00 + (c.toNat - 0x10000) % 0x400)) = c := by
      have hcode : 0x10000 + (0xD800 + (c.toNat - 0x10000) / 0x400 - 0xD800) * 0x400 +
          (0xDC00 + (c.toNat - 0x10000) % 0x400 - 0xDC00) = c.toNat := by
        omega
      rw [ofPair, hn, hn', hcode, Char.ofNat_toNat]
    rw [if_neg hbasic]
    dsimp only
    rw [List.cons_append, List.singleton_append, toCharsFrom.eq_def]
    simp only [hhigh, hlow, hpair, if_true]

/-- The characters are read from their units. -/
theorem toChars_ofChars (cs : List Char) : toChars (ofChars cs) = cs := by
  have h : ∀ done : List Char, toCharsFrom done (cs.flatMap ofChar) = done.reverse ++ cs := by
    induction cs with
    | nil =>
      intro done
      rw [List.append_nil]
      rfl
    | cons c cs ih =>
      intro done
      rw [List.flatMap_cons, toCharsFrom_ofChar, ih, List.reverse_cons, List.append_assoc,
        List.singleton_append]
  exact h []

end Utf16

namespace ModifiedUtf8

/-! ### Reading what was written -/

theorem isSingle_iff (b : UInt8) : isSingle b = true ↔ 1 ≤ b.toNat ∧ b.toNat ≤ 0x7F := by
  simp [isSingle, UInt8.le_iff_toNat_le]

theorem isLead2_iff (b : UInt8) : isLead2 b = true ↔ 0xC0 ≤ b.toNat ∧ b.toNat ≤ 0xDF := by
  simp [isLead2, UInt8.le_iff_toNat_le]

theorem isLead3_iff (b : UInt8) : isLead3 b = true ↔ 0xE0 ≤ b.toNat ∧ b.toNat ≤ 0xEF := by
  simp [isLead3, UInt8.le_iff_toNat_le]

theorem isContinuation_iff (b : UInt8) :
    isContinuation b = true ↔ 0x80 ≤ b.toNat ∧ b.toNat ≤ 0xBF := by
  simp [isContinuation, UInt8.le_iff_toNat_le]

/-- A unit is read from its form. -/
theorem unitsFrom_ofUnit (done : List UInt16) (u : UInt16) (rest : Bytes) :
    unitsFrom done (ofUnit u ++ rest) = unitsFrom (u :: done) rest := by
  have hu := u.toNat_lt
  unfold ofUnit
  dsimp only
  by_cases hsingle : 0 < u.toNat ∧ u.toNat < 0x80
  · have hb := UInt8.toNat_ofNat_of_lt' (show u.toNat < 256 by omega)
    have hlead : isSingle (UInt8.ofNat u.toNat) = true := by
      rw [isSingle_iff, hb]
      omega
    rw [if_pos hsingle, List.singleton_append, unitsFrom.eq_def]
    simp only [hlead, if_true, hb, UInt16.ofNat_toNat]
  rw [if_neg hsingle]
  by_cases hpair : u.toNat < 0x800
  · have hb := UInt8.toNat_ofNat_of_lt' (show 0xC0 + u.toNat / 64 < 256 by omega)
    have hc := UInt8.toNat_ofNat_of_lt' (show 0x80 + u.toNat % 64 < 256 by omega)
    have hlead : ¬ isSingle (UInt8.ofNat (0xC0 + u.toNat / 64)) = true := by
      rw [isSingle_iff, hb]
      omega
    have hlead2 : isLead2 (UInt8.ofNat (0xC0 + u.toNat / 64)) = true := by
      rw [isLead2_iff, hb]
      omega
    have hcont : isContinuation (UInt8.ofNat (0x80 + u.toNat % 64)) = true := by
      rw [isContinuation_iff, hc]
      omega
    have hunit : unit2 (UInt8.ofNat (0xC0 + u.toNat / 64)) (UInt8.ofNat (0x80 + u.toNat % 64)) =
        u := by
      apply UInt16.toNat_inj.1
      rw [unit2, UInt16.toNat_ofNat', hb, hc]
      omega
    rw [if_pos hpair, List.cons_append, List.singleton_append, unitsFrom.eq_def]
    simp only [hlead, hlead2, hcont, hunit, if_true, Bool.false_eq_true, if_false]
  · have hb := UInt8.toNat_ofNat_of_lt' (show 0xE0 + u.toNat / 4096 < 256 by omega)
    have hc := UInt8.toNat_ofNat_of_lt' (show 0x80 + u.toNat / 64 % 64 < 256 by omega)
    have hd := UInt8.toNat_ofNat_of_lt' (show 0x80 + u.toNat % 64 < 256 by omega)
    have hlead : ¬ isSingle (UInt8.ofNat (0xE0 + u.toNat / 4096)) = true := by
      rw [isSingle_iff, hb]
      omega
    have hlead2 : ¬ isLead2 (UInt8.ofNat (0xE0 + u.toNat / 4096)) = true := by
      rw [isLead2_iff, hb]
      omega
    have hlead3 : isLead3 (UInt8.ofNat (0xE0 + u.toNat / 4096)) = true := by
      rw [isLead3_iff, hb]
      omega
    have hcont : isContinuation (UInt8.ofNat (0x80 + u.toNat / 64 % 64)) = true := by
      rw [isContinuation_iff, hc]
      omega
    have hcont' : isContinuation (UInt8.ofNat (0x80 + u.toNat % 64)) = true := by
      rw [isContinuation_iff, hd]
      omega
    have hunit : unit3 (UInt8.ofNat (0xE0 + u.toNat / 4096))
        (UInt8.ofNat (0x80 + u.toNat / 64 % 64)) (UInt8.ofNat (0x80 + u.toNat % 64)) = u := by
      apply UInt16.toNat_inj.1
      rw [unit3, UInt16.toNat_ofNat', hb, hc, hd]
      omega
    rw [if_neg hpair, List.cons_append, List.cons_append, List.singleton_append, unitsFrom.eq_def]
    simp only [hlead, hlead2, hlead3, hcont, hcont', hunit, if_true, Bool.false_eq_true, if_false,
      Bool.and_self]

/-- The units are read from their forms. -/
theorem unitsFrom_flatMap (done us : List UInt16) :
    unitsFrom done (us.flatMap ofUnit) = some (done.reverse ++ us) := by
  induction us generalizing done with
  | nil =>
    rw [List.append_nil]
    rfl
  | cons u us ih =>
    rw [List.flatMap_cons, unitsFrom_ofUnit, ih, List.reverse_cons, List.append_assoc,
      List.singleton_append]

/-- **Every text is read as it was written.** -/
theorem decode_encode (s : String) : decode (encode s) = some s := by
  rw [decode, encode, unitsFrom_flatMap, Option.map_some, List.reverse_nil, List.nil_append,
    Utf16.toChars_ofChars, String.ofList_toList]

/-! ### Lengths of units -/

theorem length_ofUnit (u : UInt16) : (ofUnit u).length =
    if 0 < u.toNat ∧ u.toNat < 0x80 then 1 else if u.toNat < 0x800 then 2 else 3 := by
  unfold ofUnit
  dsimp only
  split
  · rfl
  · split
    · rfl
    · rfl

theorem length_ofUnit_le (u : UInt16) : (ofUnit u).length ≤ 3 := by
  rw [length_ofUnit]
  split_ifs <;> omega

theorem length_ofUnit_single {b : UInt8} (h : isSingle b = true) :
    (ofUnit (UInt16.ofNat b.toNat)).length = 1 := by
  have hb := (isSingle_iff b).1 h
  have hn : (UInt16.ofNat b.toNat).toNat = b.toNat := by
    rw [UInt16.toNat_ofNat']
    omega
  rw [length_ofUnit, hn, if_pos (by omega)]

theorem length_ofUnit_unit2 (b c : UInt8) : (ofUnit (unit2 b c)).length ≤ 2 := by
  have hn : (unit2 b c).toNat < 2048 := by
    unfold unit2
    rw [UInt16.toNat_ofNat']
    omega
  rw [length_ofUnit, if_pos hn]
  split_ifs <;> omega

theorem length_ofUnit_surrogate {u : UInt16} (h : Utf16.isHigh u = true ∨ Utf16.isLow u = true) :
    (ofUnit u).length = 3 := by
  have hn : 2048 ≤ u.toNat := by
    rcases h with h | h
    · have hu := (Utf16.isHigh_iff u).1 h
      omega
    · have hu := (Utf16.isLow_iff u).1 h
      omega
  rw [length_ofUnit, if_neg (by omega), if_neg (by omega)]

/-- The units that bytes spell take no more bytes. -/
theorem length_of_unitsFrom {done us : List UInt16} {bs : Bytes} (h : unitsFrom done bs = some us) :
    (us.flatMap ofUnit).length ≤ (done.flatMap ofUnit).length + bs.length := by
  fun_induction unitsFrom done bs with
  | case1 done =>
    cases h
    simp
  | case2 done b rest hb ih =>
    have hrest := ih h
    have hunit := length_ofUnit_single hb
    simp only [List.flatMap_cons, List.length_append, List.length_cons] at hrest ⊢
    omega
  | case3 done b hb hlead c rest hc ih =>
    have hrest := ih h
    have hunit := length_ofUnit_unit2 b c
    simp only [List.flatMap_cons, List.length_append, List.length_cons] at hrest ⊢
    omega
  | case4 => cases h
  | case5 => cases h
  | case6 done b hb hlead2 hlead3 c d rest hc ih =>
    have hrest := ih h
    have hunit := length_ofUnit_le (unit3 b c d)
    simp only [List.flatMap_cons, List.length_append, List.length_cons] at hrest ⊢
    omega
  | case7 => cases h
  | case8 => cases h
  | case9 => cases h

/-! ### Lengths of characters -/

/-- The bytes of one character. -/
def ofChar (c : Char) : Bytes := (Utf16.ofChar c).flatMap ofUnit

theorem encode_ofList (cs : List Char) : encode (String.ofList cs) = cs.flatMap ofChar := by
  rw [encode, String.toList_ofList, Utf16.ofChars, List.flatMap_assoc]
  rfl

theorem length_ofChar_le (c : Char) : (ofChar c).length ≤ 6 := by
  unfold ofChar Utf16.ofChar
  split
  · have hunit := length_ofUnit_le (UInt16.ofNat c.toNat)
    simp only [List.flatMap_cons, List.flatMap_nil, List.append_nil]
    omega
  · dsimp only
    have hhigh := length_ofUnit_le (UInt16.ofNat (0xD800 + (c.toNat - 0x10000) / 0x400))
    have hlow := length_ofUnit_le (UInt16.ofNat (0xDC00 + (c.toNat - 0x10000) % 0x400))
    simp only [List.flatMap_cons, List.flatMap_nil, List.append_nil, List.length_append]
    omega

theorem length_ofChar_replacement : (ofChar '\uFFFD').length = 3 := by decide

/-- The form of a unit that is no surrogate is that of its character. -/
theorem ofChar_ofNat {u : UInt16} (hhigh : ¬ Utf16.isHigh u = true)
    (hlow : ¬ Utf16.isLow u = true) : ofChar (Char.ofNat u.toNat) = ofUnit u := by
  rw [ofChar, Utf16.ofChar_ofNat hhigh hlow, List.flatMap_singleton]

/-- The characters of units take no more bytes than the units. -/
theorem length_toCharsFrom (done : List Char) (us : List UInt16) :
    ((Utf16.toCharsFrom done us).flatMap ofChar).length ≤
      (done.flatMap ofChar).length + (us.flatMap ofUnit).length := by
  have hreplacement := length_ofChar_replacement
  fun_induction Utf16.toCharsFrom done us with
  | case1 done => simp
  | case2 done u hhigh =>
    have hu := length_ofUnit_surrogate (Or.inl hhigh)
    simp only [List.flatMap_cons, List.length_append, List.flatMap_nil, List.length_flatMap,
      List.map_reverse, List.sum_reverse, List.map_cons, List.sum_cons, List.length_nil]
    omega
  | case3 done u hhigh v rest hlow ih =>
    have hu := length_ofUnit_surrogate (Or.inl hhigh)
    have hv := length_ofUnit_surrogate (Or.inr hlow)
    have hpair := length_ofChar_le (Utf16.ofPair u v)
    simp only [List.flatMap_cons, List.length_append] at ih ⊢
    omega
  | case4 done u hhigh v rest hlow ih =>
    have hu := length_ofUnit_surrogate (Or.inl hhigh)
    simp only [List.flatMap_cons, List.length_append] at ih ⊢
    omega
  | case5 done u rest hhigh hlow ih =>
    have hu := length_ofUnit_surrogate (Or.inr hlow)
    simp only [List.flatMap_cons, List.length_append] at ih ⊢
    omega
  | case6 done u rest hhigh hlow ih =>
    simp only [List.flatMap_cons, List.length_append, ofChar_ofNat hhigh hlow] at ih ⊢
    omega

/-- **What was read is not longer when it is written.** -/
theorem length_encode_le {bs : Bytes} {s : String} (h : decode bs = some s) :
    (encode s).length ≤ bs.length := by
  obtain ⟨us, hunits, rfl⟩ := Option.map_eq_some_iff.1 h
  rw [encode_ofList, Utf16.toChars]
  have hchars := length_toCharsFrom [] us
  have hbytes := length_of_unitsFrom hunits
  simp only [List.flatMap_nil, List.length_nil] at hchars hbytes
  omega

end ModifiedUtf8

end Reclass.Text
