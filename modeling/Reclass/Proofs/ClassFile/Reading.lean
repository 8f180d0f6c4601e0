import Mathlib.Tactic.Common
import Reclass.ClassFile.Basic

/-!
# Readers and the written forms of values

A `Form α` relates the values of `α` to the byte strings that spell them. `Reader.Reads r F` says
that the reader `r` yields a value exactly when a form of it comes next, and then leaves the
cursor right behind that form; so it covers both what a reader accepts and what it makes of it.
The property is closed under sequencing (`Reads.bind`), and under repetition for values of one
form each (`reads_times`, `reads_table`).
-/

set_option autoImplicit false

namespace Reclass

namespace Bytes

/-- Two bytes are the written form of the word that they spell. -/
theorem ofUInt16_word (a b : UInt8) : ofUInt16 (UInt16.ofNat (word [a, b])) = [a, b] := by
  have ha := a.toNat_lt
  have hb := b.toNat_lt
  have hw : word [a, b] = a.toNat * 256 + b.toNat := by
    simp only [word, List.foldl_cons, List.foldl_nil]
    omega
  -- each byte is a digit of the word in base 256
  simp only [ofUInt16, hw, UInt16.toNat_ofNat']
  refine List.cons_eq_cons.2 ⟨?_, List.cons_eq_cons.2 ⟨?_, rfl⟩⟩
  · apply UInt8.toNat_inj.1
    rw [UInt8.toNat_ofNat']
    omega
  · apply UInt8.toNat_inj.1
    rw [UInt8.toNat_ofNat']
    omega

/-- Four bytes are the written form of the word that they spell. -/
theorem ofUInt32_word (a b c d : UInt8) :
    ofUInt32 (UInt32.ofNat (word [a, b, c, d])) = [a, b, c, d] := by
  have ha := a.toNat_lt
  have hb := b.toNat_lt
  have hc := c.toNat_lt
  have hd := d.toNat_lt
  have hw : word [a, b, c, d] =
      ((a.toNat * 256 + b.toNat) * 256 + c.toNat) * 256 + d.toNat := by
    simp only [word, List.foldl_cons, List.foldl_nil]
    omega
  simp only [ofUInt32, hw, UInt32.toNat_ofNat']
  refine List.cons_eq_cons.2 ⟨?_, List.cons_eq_cons.2 ⟨?_,
    List.cons_eq_cons.2 ⟨?_, List.cons_eq_cons.2 ⟨?_, rfl⟩⟩⟩⟩ <;>
  · apply UInt8.toNat_inj.1
    rw [UInt8.toNat_ofNat']
    omega

end Bytes

/-- Which byte strings spell a value. -/
abbrev Form (α : Type) : Type := α → Bytes → Prop

/-- The values that satisfy `fits`, each spelled in one way. -/
def Form.one {α : Type} (spell : α → Bytes) (fits : α → Prop) : Form α :=
  fun a bs => fits a ∧ bs = spell a

namespace Reader

variable {α β : Type}

/-- The reader yields a value exactly when a form of the value comes next. -/
def Reads (r : Reader α) (F : Form α) : Prop :=
  ∀ (c : Cursor) (a : α) (c' : Cursor), r c = .ok (a, c') ↔
    ∃ bs, F a bs ∧ c.rest = bs ++ c'.rest ∧ c'.offset = c.offset + bs.length

/-- Whatever comes next, the reader takes just these bytes, and yields the value. -/
def Spells (r : Reader α) (a : α) (bs : Bytes) : Prop :=
  ∀ offset rest, r ⟨offset, bs ++ rest⟩ = .ok (a, ⟨offset + bs.length, rest⟩)

theorem Reads.spells {r : Reader α} {F : Form α} (h : Reads r F) {a : α} {bs : Bytes}
    (hform : F a bs) : r.Spells a bs :=
  fun _ _ => (h _ _ _).2 ⟨bs, hform, rfl, rfl⟩

/-- A reading step that is followed by another succeeds when both do. -/
theorem bind_eq_ok_iff (r : Reader α) (f : α → Reader β) (c c' : Cursor) (b : β) :
    (r >>= f) c = .ok (b, c') ↔ ∃ a c₁, r c = .ok (a, c₁) ∧ f a c₁ = .ok (b, c') := by
  have e : (r >>= f) c = (r c).bind fun p => f p.1 p.2 := rfl
  rw [e]
  cases h : r c with
  | error fault => simp [Except.bind]
  | ok p =>
    constructor
    · intro hf
      exact ⟨p.1, p.2, rfl, hf⟩
    · rintro ⟨a, c₁, ha, hf⟩
      cases ha
      exact hf

theorem value_eq_ok_iff (r : Reader α) (bs : Bytes) (a : α) :
    r.value bs = .ok a ↔ ∃ c, r (start bs) = .ok (a, c) := by
  unfold value
  cases r (start bs) with
  | error fault => exact iff_of_false nofun nofun
  | ok out =>
    constructor
    · rintro ⟨⟩
      exact ⟨out.2, rfl⟩
    · rintro ⟨c, ⟨⟩⟩
      rfl

theorem value_eq_error_iff (r : Reader α) (bs : Bytes) (e : ClassFormatError) :
    r.value bs = .error e ↔ r (start bs) = .error e := by
  unfold value
  cases r (start bs) with
  | error fault =>
    rw [Except.map, Except.error.injEq, Except.error.injEq]
  | ok out => exact iff_of_false nofun nofun

/-- A fault of the first step ends the reading. -/
theorem bind_eq_error {r : Reader α} {c : Cursor} {e : ClassFormatError} (h : r c = .error e)
    (f : α → Reader β) : (r >>= f) c = .error e := by
  show (r c).bind (fun p => f p.1 p.2) = .error e
  rw [h]
  rfl

namespace Reads

/-- A reader that reads nothing yields its one value. -/
theorem pure (a : α) : Reads (Pure.pure a : Reader α) fun b bs => b = a ∧ bs = [] := by
  intro c b c'
  have e : (Pure.pure a : Reader α) c = .ok (a, c) := rfl
  rw [e]
  constructor
  · intro h
    cases h
    exact ⟨[], ⟨rfl, rfl⟩, rfl, rfl⟩
  · rintro ⟨bs, ⟨rfl, rfl⟩, hrest, hoff⟩
    cases c
    cases c'
    simp only [List.nil_append, List.length_nil, Nat.add_zero] at hrest hoff
    subst hrest hoff
    rfl

/-- A reader that always fails reads no form. -/
theorem throw (fault : ClassFormatError) :
    Reads (throwThe ClassFormatError fault : Reader α) fun _ _ => False := by
  intro c a c'
  constructor
  · intro h
    cases h
  · rintro ⟨-, h, -⟩
    exact h.elim

theorem congr {r : Reader α} {F G : Form α} (h : Reads r F) (e : ∀ a bs, F a bs ↔ G a bs) :
    Reads r G := by
  intro c a c'
  rw [h c a c']
  simp only [e]

/-- Two steps in a row read two forms in a row. -/
theorem bind {r : Reader α} {f : α → Reader β} {F : Form α} {G : α → Form β} (hr : Reads r F)
    (hf : ∀ a, Reads (f a) (G a)) :
    Reads (r >>= f) fun b bs => ∃ a as bs', F a as ∧ G a b bs' ∧ bs = as ++ bs' := by
  intro c b c'
  rw [bind_eq_ok_iff]
  constructor
  · rintro ⟨a, c₁, hra, hfa⟩
    obtain ⟨as, ha, hrest, hoff⟩ := (hr c a c₁).1 hra
    obtain ⟨bs', hb, hrest', hoff'⟩ := (hf a c₁ b c').1 hfa
    refine ⟨as ++ bs', ⟨a, as, bs', ha, hb, rfl⟩, ?_, ?_⟩
    · rw [hrest, hrest', List.append_assoc]
    · rw [hoff', hoff, List.length_append, Nat.add_assoc]
  · rintro ⟨-, ⟨a, as, bs', ha, hb, rfl⟩, hrest, hoff⟩
    -- the cursor between the two steps stands behind the first form
    refine ⟨a, ⟨c.offset + as.length, bs' ++ c'.rest⟩, (hr _ _ _).2 ⟨as, ha, ?_, rfl⟩,
      (hf a _ _ _).2 ⟨bs', hb, rfl, ?_⟩⟩
    · rw [hrest, List.append_assoc]
    · rw [hoff, List.length_append, Nat.add_assoc]

/-- A change of the value leaves its forms as they are. -/
theorem map {r : Reader α} {F : Form α} (f : α → β) (hr : Reads r F) :
    Reads (r >>= fun a => Pure.pure (f a)) fun b bs => ∃ a, F a bs ∧ b = f a := by
  refine (hr.bind fun a => Reads.pure (f a)).congr fun b bs => ?_
  constructor
  · rintro ⟨a, as, bs', ha, ⟨hb, rfl⟩, rfl⟩
    exact ⟨a, by rwa [List.append_nil], hb⟩
  · rintro ⟨a, ha, hb⟩
    exact ⟨a, bs, [], ha, ⟨hb, rfl⟩, (List.append_nil bs).symm⟩

end Reads

/-- Taking `n` bytes reads the strings of that length. -/
theorem reads_take (n : Nat) : Reads (take n) (.one (fun bs => bs) (·.length = n)) := by
  intro c bs c'
  have e : take n c = if n - (c.rest.take n).length = 0 then
      .ok (c.rest.take n, ⟨c.offset + n, c.rest.drop n⟩)
    else .error (.truncated c.offset (n - (c.rest.take n).length)) := by
    simp only [take, List.splitAt_eq]
  rw [e]
  split
  · next h =>
    have hlen : (c.rest.take n).length = n := by
      have := List.length_take_le n c.rest
      omega
    constructor
    · intro h'
      cases h'
      exact ⟨_, ⟨hlen, rfl⟩, (List.take_append_drop n c.rest).symm, by rw [hlen]⟩
    · rintro ⟨bs, ⟨rfl, rfl⟩, hrest, hoff⟩
      rw [hrest, List.take_left, List.drop_left, ← hoff]
  · next h =>
    -- something is missing, so no string of length `n` can come next
    constructor
    · intro h'
      cases h'
    · rintro ⟨bs, ⟨rfl, rfl⟩, hrest, -⟩
      rw [hrest, List.take_left] at h
      exact absurd (Nat.sub_self _) h

/-- Every byte is read as it is written. -/
theorem reads_u1 : Reads u1 (.one (fun b => [b]) fun _ => True) := by
  refine ((reads_take 1).map fun bs => UInt8.ofNat (Bytes.word bs)).congr fun b bs => ?_
  constructor
  · rintro ⟨as, ⟨hlen, hbs⟩, rfl⟩
    obtain ⟨a, rfl⟩ := List.length_eq_one_iff.1 hlen
    refine ⟨trivial, ?_⟩
    simp [hbs, Bytes.word]
  · rintro ⟨-, rfl⟩
    refine ⟨[b], ⟨rfl, rfl⟩, ?_⟩
    simp [Bytes.word]

/-- Every 16-bit word is read as it is written. -/
theorem reads_u2 : Reads u2 (.one Bytes.ofUInt16 fun _ => True) := by
  refine ((reads_take 2).map fun bs => UInt16.ofNat (Bytes.word bs)).congr fun v bs => ?_
  constructor
  · rintro ⟨as, ⟨hlen, hbs⟩, rfl⟩
    match as, hlen with
    | [a, b], _ => exact ⟨trivial, hbs.trans (Bytes.ofUInt16_word a b).symm⟩
  · rintro ⟨-, rfl⟩
    refine ⟨_, ⟨Bytes.length_ofUInt16 v, rfl⟩, ?_⟩
    rw [Bytes.word_ofUInt16, UInt16.ofNat_toNat]

/-- Every 32-bit word is read as it is written. -/
theorem reads_u4 : Reads u4 (.one Bytes.ofUInt32 fun _ => True) := by
  refine ((reads_take 4).map fun bs => UInt32.ofNat (Bytes.word bs)).congr fun v bs => ?_
  constructor
  · rintro ⟨as, ⟨hlen, hbs⟩, rfl⟩
    match as, hlen with
    | [a, b, c, d], _ => exact ⟨trivial, hbs.trans (Bytes.ofUInt32_word a b c d).symm⟩
  · rintro ⟨-, rfl⟩
    refine ⟨_, ⟨Bytes.length_ofUInt32 v, rfl⟩, ?_⟩
    rw [Bytes.word_ofUInt32, UInt32.ofNat_toNat]

section Tables

variable {item : Reader α} {spell : α → Bytes} {fits : α → Prop}

/-- What has been read before stands in front of what is still read. -/
theorem timesFrom_eq_ok_iff (n : Nat) (done xs : List α) (c c' : Cursor) :
    timesFrom item n done c = .ok (xs, c') ↔
      ∃ ys, xs = done.reverse ++ ys ∧ times n item c = .ok (ys, c') := by
  have step : ∀ (n : Nat) (done : List α),
      timesFrom item (n + 1) done = item >>= fun a => timesFrom item n (a :: done) :=
    fun _ _ => rfl
  induction n generalizing done xs c with
  | zero =>
    have e : ∀ done : List α, timesFrom item 0 done c = .ok (done.reverse, c) := fun _ => rfl
    rw [times, e, e]
    constructor
    · intro h
      cases h
      exact ⟨[], by simp, rfl⟩
    · rintro ⟨ys, rfl, h⟩
      cases h
      simp
  | succ n ih =>
    -- both sides read one item first; the left one puts it on what was read before
    rw [times, step, step, bind_eq_ok_iff]
    simp only [bind_eq_ok_iff, ih]
    constructor
    · rintro ⟨a, c₁, ha, ys, rfl, hys⟩
      exact ⟨a :: ys, by simp, a, c₁, ha, ys, by simp, hys⟩
    · rintro ⟨zs, rfl, a, c₁, ha, ys, rfl, hys⟩
      exact ⟨a, c₁, ha, ys, by simp, hys⟩

/-- One item, and then the others. -/
theorem times_succ_eq_ok_iff (n : Nat) (xs : List α) (c c' : Cursor) :
    times (n + 1) item c = .ok (xs, c') ↔
      ∃ a c₁ ys, item c = .ok (a, c₁) ∧ times n item c₁ = .ok (ys, c') ∧ xs = a :: ys := by
  have e : times (n + 1) item = item >>= fun a => timesFrom item n [a] := rfl
  rw [e, bind_eq_ok_iff]
  simp only [timesFrom_eq_ok_iff, List.reverse_singleton, List.singleton_append]
  constructor
  · rintro ⟨a, c₁, ha, ys, rfl, hys⟩
    exact ⟨a, c₁, ys, ha, hys, rfl⟩
  · rintro ⟨a, c₁, ys, ha, hys, rfl⟩
    exact ⟨a, c₁, ha, ys, rfl, hys⟩

/-- Repeating a reader `n` times reads the lists of `n` items. -/
theorem reads_times (h : Reads item (.one spell fits)) (n : Nat) :
    Reads (times n item)
      (.one (List.flatMap spell) fun xs => xs.length = n ∧ ∀ x ∈ xs, fits x) := by
  induction n with
  | zero =>
    refine (Reads.pure []).congr fun xs bs => ?_
    constructor
    · rintro ⟨rfl, rfl⟩
      exact ⟨⟨rfl, by simp⟩, rfl⟩
    · rintro ⟨⟨hlen, -⟩, rfl⟩
      have e := List.length_eq_zero_iff.1 hlen
      subst e
      exact ⟨rfl, rfl⟩
  | succ n ih =>
    intro c xs c'
    rw [times_succ_eq_ok_iff]
    constructor
    · rintro ⟨a, c₁, ys, hitem, hmore, rfl⟩
      obtain ⟨bs, ⟨ha, rfl⟩, hrest, hoff⟩ := (h c a c₁).1 hitem
      obtain ⟨bs', ⟨⟨hlen, hys⟩, rfl⟩, hrest', hoff'⟩ := (ih c₁ ys c').1 hmore
      refine ⟨(a :: ys).flatMap spell,
        ⟨⟨by rw [List.length_cons, hlen], List.forall_mem_cons.2 ⟨ha, hys⟩⟩, rfl⟩, ?_, ?_⟩
      · rw [hrest, hrest', List.flatMap_cons, List.append_assoc]
      · rw [hoff', hoff, List.flatMap_cons, List.length_append, Nat.add_assoc]
    · -- the form of the list is that of its head and then that of its tail
      rintro ⟨bs, ⟨⟨hlen, hxs⟩, rfl⟩, hrest, hoff⟩
      obtain ⟨a, ys, rfl⟩ := List.exists_cons_of_length_eq_add_one hlen
      obtain ⟨ha, hys⟩ := List.forall_mem_cons.1 hxs
      refine ⟨a, ⟨c.offset + (spell a).length, ys.flatMap spell ++ c'.rest⟩, ys,
        (h _ _ _).2 ⟨_, ⟨ha, rfl⟩, ?_, rfl⟩,
        (ih _ _ _).2 ⟨_, ⟨⟨Nat.succ.inj hlen, hys⟩, rfl⟩, rfl, ?_⟩, rfl⟩
      · rw [hrest, List.flatMap_cons, List.append_assoc]
      · rw [hoff, List.flatMap_cons, List.length_append, Nat.add_assoc]

/-- A table reads the lists whose length fits a 16-bit word. -/
theorem reads_table (h : Reads item (.one spell fits)) :
    Reads (table item)
      (.one (encodeTable spell) fun xs => xs.length ≤ 65535 ∧ ∀ x ∈ xs, fits x) := by
  refine (reads_u2.bind fun count => reads_times h count.toNat).congr fun xs bs => ?_
  constructor
  · rintro ⟨count, -, -, ⟨-, rfl⟩, ⟨⟨hlen, hxs⟩, rfl⟩, rfl⟩
    -- a count of 16 bits bounds the length, and is the count that is written
    have hcount := count.toNat_lt
    refine ⟨⟨by omega, hxs⟩, ?_⟩
    rw [encodeTable, hlen, UInt16.ofNat_toNat]
  · rintro ⟨⟨hlen, hxs⟩, rfl⟩
    refine ⟨UInt16.ofNat xs.length, _, _, ⟨trivial, rfl⟩, ⟨⟨?_, hxs⟩, rfl⟩, rfl⟩
    rw [UInt16.toNat_ofNat']
    omega

end Tables

end Reader

end Reclass
