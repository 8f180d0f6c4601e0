import Reclass.Proofs.Text.ModifiedUtf8

/-!
# The byte strings that spell texts

A byte string is modified UTF-8 when it can be cut into pieces (`ModifiedUtf8.Piece`), each of which
spells one UTF-16 unit in one, two or three bytes. Reading takes the string apart in this way and
then puts surrogates together, writing goes the other way; so what was read from some bytes is
written as these bytes exactly when no piece could be shorter and no surrogate is without its
partner (`ModifiedUtf8.reads_and_writes`).

The two layers are dealt with one after the other. Both ways of spelling a sequence of units give
the units back (`unitsFrom_pieces`, `unitsFrom_flatMap`), so bytes that are written again tell that
the units are; and a sequence of units comes back from its characters exactly when all its
surrogates are in pairs (`Utf16.ofChars_toChars_iff`).
-/

set_option autoImplicit false

namespace Reclass.Text

namespace Utf16

/-! ### Surrogates in pairs -/

/-- Every surrogate belongs to a pair: behind a high one stands a low one, and before a low one a
high one. -/
structure Paired (us : List UInt16) : Prop where
  high : ∀ i u, us[i]? = some u → isHigh u = true → ∃ v, us[i + 1]? = some v ∧ isLow v = true
  low : ∀ i v, us[i]? = some v → isLow v = true →
    ∃ j u, i = j + 1 ∧ us[j]? = some u ∧ isHigh u = true

theorem not_isLow_of_isHigh {u : UInt16} (h : isHigh u = true) : ¬ isLow u = true := by
  rw [isHigh_iff] at h
  rw [isLow_iff]
  omega

theorem paired_nil : Paired [] where
  high _ _ h := nomatch h
  low _ _ h := nomatch h

theorem paired_single {u : UInt16} (hhigh : ¬ isHigh u = true) (hlow : ¬ isLow u = true) :
    Paired [u] where
  high i v hv h := by
    rw [List.getElem?_singleton] at hv
    split at hv
    · cases hv
      exact absurd h hhigh
    · cases hv
  low i v hv h := by
    rw [List.getElem?_singleton] at hv
    split at hv
    · cases hv
      exact absurd h hlow
    · cases hv

theorem paired_pair {u v : UInt16} (hu : isHigh u = true) (hv : isLow v = true) :
    Paired [u, v] where
  high i w hw h := by
    match i, hw with
    | 0, _ => exact ⟨v, rfl, hv⟩
    | 1, hw =>
      cases hw
      exact absurd hv (not_isLow_of_isHigh h)
  low i w hw h := by
    match i, hw with
    | 0, hw =>
      cases hw
      exact absurd h (not_isLow_of_isHigh hu)
    | 1, _ => exact ⟨0, u, rfl, rfl, hu⟩

/-- No pair reaches over the end of a sequence in which all surrogates are in pairs. -/
theorem paired_append_iff {ws us : List UInt16} (hws : Paired ws) :
    Paired (ws ++ us) ↔ Paired us := by
  constructor
  · intro h
    -- places in `us` are places in the whole sequence, further on by the length of `ws`
    refine ⟨fun i u hu hhigh => ?_, fun i v hv hlow => ?_⟩
    · have hu' : (ws ++ us)[ws.length + i]? = some u := by
        rw [List.getElem?_append_right (Nat.le_add_right _ _), Nat.add_sub_cancel_left, hu]
      obtain ⟨v, hv, hlow⟩ := h.high _ u hu' hhigh
      rw [Nat.add_assoc, List.getElem?_append_right (Nat.le_add_right _ _),
        Nat.add_sub_cancel_left] at hv
      exact ⟨v, hv, hlow⟩
    · have hv' : (ws ++ us)[ws.length + i]? = some v := by
        rw [List.getElem?_append_right (Nat.le_add_right _ _), Nat.add_sub_cancel_left, hv]
      obtain ⟨j, u, hj, hu, hhigh⟩ := h.low _ v hv' hlow
      by_cases hlt : j < ws.length
      · -- the high surrogate would be the last one of `ws`, without its partner there
        rw [List.getElem?_append_left hlt] at hu
        obtain ⟨w, hw, -⟩ := hws.high j u hu hhigh
        obtain ⟨hlt', -⟩ := List.getElem?_eq_some_iff.1 hw
        omega
      · rw [List.getElem?_append_right (Nat.not_lt.1 hlt)] at hu
        exact ⟨j - ws.length, u, by omega, hu, hhigh⟩
  · intro h
    -- a surrogate in either part has its partner in the same part
    refine ⟨fun i u hu hhigh => ?_, fun i v hv hlow => ?_⟩
    · by_cases hlt : i < ws.length
      · rw [List.getElem?_append_left hlt] at hu
        obtain ⟨v, hv, hlow⟩ := hws.high i u hu hhigh
        obtain ⟨hlt', -⟩ := List.getElem?_eq_some_iff.1 hv
        exact ⟨v, by rw [List.getElem?_append_left hlt', hv], hlow⟩
      · have hle := Nat.not_lt.1 hlt
        rw [List.getElem?_append_right hle] at hu
        obtain ⟨v, hv, hlow⟩ := h.high _ u hu hhigh
        refine ⟨v, ?_, hlow⟩
        rw [List.getElem?_append_right (Nat.le_succ_of_le hle), Nat.succ_sub hle]
        exact hv
    · by_cases hlt : i < ws.length
      · rw [List.getElem?_append_left hlt] at hv
        obtain ⟨j, u, hj, hu, hhigh⟩ := hws.low i v hv hlow
        exact ⟨j, u, hj, by rw [List.getElem?_append_left (by omega), hu], hhigh⟩
      · have hle := Nat.not_lt.1 hlt
        rw [List.getElem?_append_right hle] at hv
        obtain ⟨j, u, hj, hu, hhigh⟩ := h.low _ v hv hlow
        refine ⟨ws.length + j, u, by omega, ?_, hhigh⟩
        rw [List.getElem?_append_right (Nat.le_add_right _ _), Nat.add_sub_cancel_left, hu]

/-! ### Units and their characters -/

/-- A surrogate pair comes back from its character. -/
theorem ofChar_ofPair {u v : UInt16} (hu : isHigh u = true) (hv : isLow v = true) :
    ofChar (ofPair u v) = [u, v] := by
  rw [isHigh_iff] at hu
  rw [isLow_iff] at hv
  have hvalid : (0x10000 + (u.toNat - 0xD800) * 0x400 + (v.toNat - 0xDC00)).isValidChar := by
    unfold Nat.isValidChar
    omega
  have hn : (ofPair u v).toNat = 0x10000 + (u.toNat - 0xD800) * 0x400 + (v.toNat - 0xDC00) := by
    rw [ofPair, Char.ofNat, dif_pos hvalid]
    rfl
  -- the two halves of ten bits are taken apart as they were put together
  have hhigh : 0xD800 + ((ofPair u v).toNat - 0x10000) / 0x400 = u.toNat := by omega
  have hlow : 0xDC00 + ((ofPair u v).toNat - 0x10000) % 0x400 = v.toNat := by omega
  unfold ofChar
  rw [if_neg (by omega)]
  dsimp only
  rw [hhigh, hlow, UInt16.ofNat_toNat, UInt16.ofNat_toNat]

/-- The units of a character are one that is no surrogate, or a pair. -/
theorem paired_ofChar (c : Char) : Paired (ofChar c) := by
  have hc := toNat_char c
  unfold ofChar
  by_cases hbasic : c.toNat < 0x10000
  · have hn : (UInt16.ofNat c.toNat).toNat = c.toNat := by
      rw [UInt16.toNat_ofNat']
      omega
    rw [if_pos hbasic]
    apply paired_single
    · rw [isHigh_iff, hn]
      omega
    · rw [isLow_iff, hn]
      omega
  · rw [if_neg hbasic]
    apply paired_pair
    · rw [isHigh_iff, UInt16.toNat_ofNat']
      omega
    · rw [isLow_iff, UInt16.toNat_ofNat']
      omega

theorem paired_ofChars (cs : List Char) : Paired (ofChars cs) := by
  induction cs with
  | nil => exact paired_nil
  | cons c cs ih =>
    rw [ofChars, List.flatMap_cons]
    exact (paired_append_iff (paired_ofChar c)).2 ih

/-- Units come back behind those of the characters that were read before. -/
theorem flatMap_toCharsFrom (done : List Char) {us : List UInt16} (h : Paired us) :
    (toCharsFrom done us).flatMap ofChar = done.reverse.flatMap ofChar ++ us := by
  fun_induction toCharsFrom done us with
  | case1 done => rw [List.append_nil]
  | case2 done u hhigh =>
    -- a high surrogate at the end has no partner
    obtain ⟨v, hv, -⟩ := h.high 0 u rfl hhigh
    cases hv
  | case3 done u hhigh v rest hlow ih =>
    have hrest : Paired rest := (paired_append_iff (paired_pair hhigh hlow)).1 h
    rw [ih hrest, List.reverse_cons, List.flatMap_append, List.flatMap_singleton,
      ofChar_ofPair hhigh hlow, List.append_assoc]
    rfl
  | case4 done u hhigh v rest hlow ih =>
    -- and none has one before anything but a low one
    obtain ⟨w, hw, hlow'⟩ := h.high 0 u rfl hhigh
    cases hw
    exact absurd hlow' hlow
  | case5 done u rest hhigh hlow ih =>
    -- a low one in front was not taken up with a high one
    obtain ⟨j, w, hj, -⟩ := h.low 0 u rfl hlow
    cases hj
  | case6 done u rest hhigh hlow ih =>
    have hrest : Paired rest := (paired_append_iff (paired_single hhigh hlow)).1 h
    rw [ih hrest, List.reverse_cons, List.flatMap_append, List.flatMap_singleton,
      ofChar_ofNat hhigh hlow, List.append_assoc]
    rfl

/-- **Units come back from their characters exactly when all surrogates are in pairs.** -/
theorem ofChars_toChars_iff (us : List UInt16) : ofChars (toChars us) = us ↔ Paired us := by
  constructor
  · intro h
    rw [← h]
    exact paired_ofChars (toChars us)
  · intro h
    exact flatMap_toCharsFrom [] h

end Utf16

namespace ModifiedUtf8

/-! ### Pieces -/

/-- One unit as it may stand in a byte string: as a byte from 01 to 7F, as a byte from C0 to DF with
one byte from 80 to BF behind it, or as a byte from E0 to EF with two of them. -/
inductive Piece where
  | single (b : UInt8) (hb : 0x01 ≤ b.toNat ∧ b.toNat ≤ 0x7F)
  | pair (b c : UInt8) (hb : 0xC0 ≤ b.toNat ∧ b.toNat ≤ 0xDF) (hc : 0x80 ≤ c.toNat ∧ c.toNat ≤ 0xBF)
  | triple (b c d : UInt8) (hb : 0xE0 ≤ b.toNat ∧ b.toNat ≤ 0xEF)
    (hc : 0x80 ≤ c.toNat ∧ c.toNat ≤ 0xBF) (hd : 0x80 ≤ d.toNat ∧ d.toNat ≤ 0xBF)

namespace Piece

def bytes : Piece → Bytes
  | single b _ => [b]
  | pair b c _ _ => [b, c]
  | triple b c d _ _ _ => [b, c, d]

/-- The unit that the piece spells, by the bits that its bytes have to spare. -/
def unit : Piece → UInt16
  | single b _ => UInt16.ofNat b.toNat
  | pair b c _ _ => unit2 b c
  | triple b c d _ _ _ => unit3 b c d

/-- No piece spells the unit in fewer bytes. -/
def Shortest (p : Piece) : Prop := ∀ q : Piece, q.unit = p.unit → p.bytes.length ≤ q.bytes.length

/-- Pieces of one length that spell one unit are the same bytes. -/
theorem bytes_eq_of_length_eq {p q : Piece} (hunit : p.unit = q.unit)
    (hlength : p.bytes.length = q.bytes.length) : p.bytes = q.bytes := by
  have hn : p.unit.toNat = q.unit.toNat := congrArg UInt16.toNat hunit
  -- each byte has its own bits of the unit
  cases p with
  | single b hb =>
    cases q with
    | single b' hb' =>
      simp only [unit, UInt16.toNat_ofNat'] at hn
      have eb : b = b' := UInt8.toNat_inj.1 (by omega)
      rw [bytes, bytes, eb]
    | pair => cases hlength
    | triple => cases hlength
  | pair b c hb hc =>
    cases q with
    | single => cases hlength
    | pair b' c' hb' hc' =>
      simp only [unit, unit2, UInt16.toNat_ofNat'] at hn
      have eb : b = b' := UInt8.toNat_inj.1 (by omega)
      have ec : c = c' := UInt8.toNat_inj.1 (by omega)
      rw [bytes, bytes, eb, ec]
    | triple => cases hlength
  | triple b c d hb hc hd =>
    cases q with
    | single => cases hlength
    | pair => cases hlength
    | triple b' c' d' hb' hc' hd' =>
      simp only [unit, unit3, UInt16.toNat_ofNat'] at hn
      have eb : b = b' := UInt8.toNat_inj.1 (by omega)
      have ec : c = c' := UInt8.toNat_inj.1 (by omega)
      have ed : d = d' := UInt8.toNat_inj.1 (by omega)
      rw [bytes, bytes, eb, ec, ed]

/-- A unit is written in no more bytes than a piece of it has. -/
theorem length_ofUnit_le_bytes (p : Piece) : (ofUnit p.unit).length ≤ p.bytes.length := by
  cases p with
  | single b hb => exact Nat.le_of_eq (length_ofUnit_single ((isSingle_iff b).2 hb))
  | pair b c hb hc => exact length_ofUnit_unit2 b c
  | triple b c d hb hc hd => exact length_ofUnit_le (unit3 b c d)

end Piece

/-! ### Reading pieces -/

/-- A piece is read as its unit. -/
theorem unitsFrom_piece (done : List UInt16) (p : Piece) (rest : Bytes) :
    unitsFrom done (p.bytes ++ rest) = unitsFrom (p.unit :: done) rest := by
  cases p with
  | single b hb =>
    have hlead : isSingle b = true := (isSingle_iff b).2 hb
    rw [Piece.bytes, List.singleton_append, unitsFrom.eq_def]
    simp only [hlead, if_true, Piece.unit]
  | pair b c hb hc =>
    have hsingle : ¬ isSingle b = true := by
      rw [isSingle_iff]
      omega
    have hlead : isLead2 b = true := (isLead2_iff b).2 hb
    have hcont : isContinuation c = true := (isContinuation_iff c).2 hc
    rw [Piece.bytes, List.cons_append, List.singleton_append, unitsFrom.eq_def]
    simp only [hsingle, hlead, hcont, if_true, if_false, Bool.false_eq_true, Piece.unit]
  | triple b c d hb hc hd =>
    have hsingle : ¬ isSingle b = true := by
      rw [isSingle_iff]
      omega
    have hlead2 : ¬ isLead2 b = true := by
      rw [isLead2_iff]
      omega
    have hlead : isLead3 b = true := (isLead3_iff b).2 hb
    have hcont : isContinuation c = true := (isContinuation_iff c).2 hc
    have hcont' : isContinuation d = true := (isContinuation_iff d).2 hd
    rw [Piece.bytes, List.cons_append, List.cons_append, List.singleton_append, unitsFrom.eq_def]
    simp only [hsingle, hlead2, hlead, hcont, hcont', if_true, if_false, Bool.false_eq_true,
      Bool.and_self, Piece.unit]

/-- Pieces are read as their units. -/
theorem unitsFrom_pieces (done : List UInt16) (ps : List Piece) :
    unitsFrom done (ps.flatMap Piece.bytes) = some (done.reverse ++ ps.map Piece.unit) := by
  induction ps generalizing done with
  | nil =>
    rw [List.map_nil, List.append_nil]
    rfl
  | cons p ps ih =>
    rw [List.flatMap_cons, unitsFrom_piece, ih, List.reverse_cons, List.append_assoc,
      List.singleton_append, List.map_cons]

/-- What is read is in pieces. -/
theorem exists_pieces {done us : List UInt16} {bs : Bytes} (h : unitsFrom done bs = some us) :
    ∃ ps : List Piece, ps.flatMap Piece.bytes = bs := by
  fun_induction unitsFrom done bs with
  | case1 done => exact ⟨[], rfl⟩
  | case2 done b rest hb ih =>
    obtain ⟨ps, rfl⟩ := ih h
    exact ⟨.single b ((isSingle_iff b).1 hb) :: ps, rfl⟩
  | case3 done b hsingle hb c rest hc ih =>
    obtain ⟨ps, rfl⟩ := ih h
    exact ⟨.pair b c ((isLead2_iff b).1 hb) ((isContinuation_iff c).1 hc) :: ps, rfl⟩
  | case4 => cases h
  | case5 => cases h
  | case6 done b hsingle hlead2 hb c d rest hcd ih =>
    obtain ⟨ps, rfl⟩ := ih h
    obtain ⟨hc, hd⟩ := Bool.and_eq_true_iff.1 hcd
    exact ⟨.triple b c d ((isLead3_iff b).1 hb) ((isContinuation_iff c).1 hc)
      ((isContinuation_iff d).1 hd) :: ps, rfl⟩
  | case7 => cases h
  | case8 => cases h
  | case9 => cases h

theorem decode_pieces (ps : List Piece) : decode (ps.flatMap Piece.bytes) =
    some (String.ofList (Utf16.toChars (ps.map Piece.unit))) := by
  rw [decode, unitsFrom_pieces]
  rfl

/-- **The texts that can be read are those in pieces.** -/
theorem exists_decode_iff (bs : Bytes) :
    (∃ s, decode bs = some s) ↔ ∃ ps : List Piece, ps.flatMap Piece.bytes = bs := by
  constructor
  · rintro ⟨s, h⟩
    obtain ⟨us, hunits, -⟩ := Option.map_eq_some_iff.1 h
    exact exists_pieces hunits
  · rintro ⟨ps, rfl⟩
    exact ⟨_, decode_pieces ps⟩

/-! ### Shortest pieces -/

/-- The form in which a unit is written is a piece. -/
theorem exists_piece_ofUnit (u : UInt16) : ∃ p : Piece, p.bytes = ofUnit u ∧ p.unit = u := by
  have hread : unitsFrom [] (ofUnit u) = some [u] := by
    have h := unitsFrom_ofUnit [] u []
    rwa [List.append_nil] at h
  obtain ⟨ps, hps⟩ := exists_pieces hread
  -- all its bytes are one piece, since they spell one unit
  rw [← hps, unitsFrom_pieces, List.reverse_nil, List.nil_append, Option.some.injEq] at hread
  obtain ⟨p, rfl, hunit⟩ := List.map_eq_singleton_iff.1 hread
  exact ⟨p, by rw [← hps, List.flatMap_singleton], hunit⟩

/-- The shortest piece is the form in which its unit is written. -/
theorem Piece.shortest_iff (p : Piece) : p.Shortest ↔ ofUnit p.unit = p.bytes := by
  obtain ⟨q, hq, hunit⟩ := exists_piece_ofUnit p.unit
  constructor
  · intro h
    have hle := h q hunit
    have hge := p.length_ofUnit_le_bytes
    rw [← hq] at hge ⊢
    exact bytes_eq_of_length_eq hunit (Nat.le_antisymm hge hle)
  · intro h r hr
    rw [← h, ← hr]
    exact r.length_ofUnit_le_bytes

/-- NUL is written in two bytes. -/
example : ofUnit 0 = [0xC0, 0x80] := by decide

/-- What units take when they are written, and what their pieces take. -/
theorem length_flatMap_ofUnit_le (ps : List Piece) :
    ((ps.map Piece.unit).flatMap ofUnit).length ≤ (ps.flatMap Piece.bytes).length := by
  have h := length_of_unitsFrom (unitsFrom_pieces [] ps)
  rwa [List.flatMap_nil, List.length_nil, Nat.zero_add, List.reverse_nil, List.nil_append] at h

/-- Units are written as the pieces from which they were read, if each piece is the shortest. -/
theorem flatMap_ofUnit_eq_iff (ps : List Piece) :
    (ps.map Piece.unit).flatMap ofUnit = ps.flatMap Piece.bytes ↔ ∀ p ∈ ps, p.Shortest := by
  induction ps with
  | nil => exact iff_of_true rfl (fun _ h => absurd h List.not_mem_nil)
  | cons p ps ih =>
    rw [List.forall_mem_cons, ← ih, p.shortest_iff, List.map_cons, List.flatMap_cons,
      List.flatMap_cons]
    constructor
    · intro h
      -- no part has become longer, so none has become shorter either
      have hlength := congrArg List.length h
      rw [List.length_append, List.length_append] at hlength
      have hhead := p.length_ofUnit_le_bytes
      have htail := length_flatMap_ofUnit_le ps
      exact List.append_inj h (by omega)
    · rintro ⟨hp, hps⟩
      rw [hp, hps]

/-- What was read from pieces is written as these pieces when its units are. -/
theorem encode_eq_pieces_iff (ps : List Piece) :
    encode (String.ofList (Utf16.toChars (ps.map Piece.unit))) = ps.flatMap Piece.bytes ↔
      (∀ p ∈ ps, p.Shortest) ∧ Utf16.Paired (ps.map Piece.unit) := by
  rw [← flatMap_ofUnit_eq_iff, ← Utf16.ofChars_toChars_iff, encode, String.toList_ofList]
  constructor
  · intro h
    -- reading both sides shows that the units have come back
    have hunits := congrArg (unitsFrom []) h
    rw [unitsFrom_flatMap, unitsFrom_pieces, List.reverse_nil, List.nil_append, List.nil_append,
      Option.some.injEq] at hunits
    rw [hunits] at h
    exact ⟨h, hunits⟩
  · rintro ⟨hbytes, hunits⟩
    rw [hunits, hbytes]

/-- **Reading and writing modified UTF-8.** Every text is read as it was written. A text can be read
from the byte strings in pieces and from no others; it is never longer when it is written again, and
it is written as it stood exactly when each piece is the shortest for its unit and every surrogate
belongs to a pair. -/
theorem reads_and_writes :
    (∀ s, decode (encode s) = some s) ∧
      ∀ bs, ((∃ s, decode bs = some s) ↔ ∃ ps : List Piece, ps.flatMap Piece.bytes = bs) ∧
        ∀ s, decode bs = some s → (encode s).length ≤ bs.length ∧
          ∀ ps : List Piece, ps.flatMap Piece.bytes = bs →
            (encode s = bs ↔ (∀ p ∈ ps, p.Shortest) ∧ Utf16.Paired (ps.map Piece.unit)) := by
  refine ⟨decode_encode, fun bs => ⟨exists_decode_iff bs, fun s h => ⟨length_encode_le h, ?_⟩⟩⟩
  rintro ps rfl
  rw [decode_pieces, Option.some.injEq] at h
  rw [← h]
  exact encode_eq_pieces_iff ps

/-- An overlong letter and a high surrogate alone: a text is read, but it is written otherwise. -/
theorem reads_and_writes_repaired :
    let ps : List Piece := [.pair 0xC1 0x81 (by decide) (by decide),
      .triple 0xED 0xA0 0xBD (by decide) (by decide) (by decide)]
    let bs := ps.flatMap Piece.bytes
    decode bs = some "A\uFFFD" ∧ (encode "A\uFFFD").length ≤ bs.length ∧
      (encode "A\uFFFD" = bs ↔ (∀ p ∈ ps, p.Shortest) ∧ Utf16.Paired (ps.map Piece.unit)) := by
  intro ps bs
  have h : decode bs = some "A\uFFFD" := by decide +kernel
  obtain ⟨hle, hiff⟩ := (reads_and_writes.2 bs).2 _ h
  exact ⟨h, hle, hiff ps rfl⟩

end ModifiedUtf8

end Reclass.Text
