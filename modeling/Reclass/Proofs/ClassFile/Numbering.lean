import Reclass.Proofs.Act
import Reclass.Proofs.ClassFile.Faults

/-!
# Slot numbers and positions that stay in bounds

A machine reads a pool in a loop over two numbers: the number of the next slot, in sixteen bits, and
the position of the next byte in a buffer. `PoolLoop` is that loop, with a check on each operation
that has bounds. It halts when a slot number would not fit, when a difference would be negative, and
when bytes are wanted from behind the end of the buffer.

None of these checks ever fails: on every buffer the loop does what `ConstantPool.read` does, and
halts at nothing but the faults that are reported (`PoolLoop.parse_eq`). One round either fills as
many slots as it adds to the slot number, or stumbles over the next constant
(`PoolLoop.round_cases`). So the slot number is the number of slots that have been filled, whenever
the loop looks at its condition (`PoolLoop.Rounds.invariant`), and the slot number in a fault is that
of the constant that has the fault (`PoolLoop.numbers_stay_in_bounds`).
-/

set_option autoImplicit false

namespace Reclass

namespace PoolLoop

/-! ### Operations with bounds -/

/-- Why a step of the loop is the last one. -/
inductive Halt where
  /-- The pool has a fault, which is reported. -/
  | fault (e : ClassFormatError)
  /-- A slot number does not fit sixteen bits. -/
  | overflow
  /-- A difference is negative, or a byte is not in the buffer. -/
  | outOfBuffer
  deriving DecidableEq

/-- A slot number further on. Adding without wrapping around, and adding up to a bound that is not
reached, come to the same. -/
def plus (index : UInt16) (k : Nat) : Except Halt UInt16 :=
  if index.toNat + k < UInt16.size then .ok (UInt16.ofNat (index.toNat + k)) else .error .overflow

/-- A difference of lengths. -/
def minus (m n : Nat) : Except Halt Nat :=
  if n ≤ m then .ok (m - n) else .error .outOfBuffer

/-- The bytes from one position up to another. -/
def slice (buf : Bytes) (first last : Nat) : Except Halt Bytes :=
  if first ≤ last ∧ last ≤ buf.length then .ok ((buf.drop first).take (last - first))
  else .error .outOfBuffer

/-- A step that moves the position. -/
abbrev Step (α : Type) : Type := StateT Nat (Except Halt) α

/-- One byte of several. -/
def byteAt (bs : Bytes) (i : Nat) : Step UInt8 :=
  match bs[i]? with
  | some b => pure b
  | none => throw .outOfBuffer

/-- The next `n` bytes. -/
def bytes (buf : Bytes) (n : Nat) : Step Bytes := fun pos => do
  let remaining ← minus buf.length pos
  if remaining < n then
    let needed ← minus n remaining
    throw (.fault (.truncated pos needed))
  else
    let found ← slice buf pos (pos + n)
    return (found, pos + n)

def u1 (buf : Bytes) : Step UInt8 := do
  let bs ← bytes buf 1
  byteAt bs 0

def u2 (buf : Bytes) : Step UInt16 := do
  let bs ← bytes buf 2
  let high ← byteAt bs 0
  let low ← byteAt bs 1
  return UInt16.ofNat (high.toNat * 256 + low.toNat)

/-- The constant of slot `index`. -/
def constant (buf : Bytes) (index : UInt16) : Step Constant := do
  let tag ← u1 buf
  if tag = Constant.utf8Tag then
    let len ← u2 buf
    return .utf8 (← bytes buf len.toNat)
  else if tag = Constant.classTag then
    return .classRef (← u2 buf)
  else match Constant.payloadSize? tag with
    | some size => return .other tag (← bytes buf size)
    | none => throw (.fault (.unknownConstant tag index))

/-! ### The loop -/

/-- What the loop keeps: the number of the next slot, the slots that are filled, and the position. -/
structure State where
  index : UInt16
  pool : ConstantPool
  pos : Nat

/-- The number of the slot behind a constant. -/
def behind (count index : UInt16) (found : Constant) : Except Halt UInt16 := do
  if found.isWide then
    let second ← plus index 1
    if count ≤ second then throw (.fault (.wideConstantAtEnd index)) else plus index 2
  else plus index 1

/-- One round reads a constant, fills its slots and goes on to the slot behind it. -/
def round (buf : Bytes) (count : UInt16) (s : State) : Except Halt State := do
  let (found, pos) ← constant buf s.index s.pos
  let index ← behind count s.index found
  return ⟨index, s.pool.append found, pos⟩

theorem plus_eq_ok {index next : UInt16} {k : Nat} (h : plus index k = .ok next) :
    next.toNat = index.toNat + k := by
  rw [plus] at h
  split at h
  · rename_i hfits
    cases h
    exact UInt16.toNat_ofNat_of_lt' hfits
  · cases h

theorem index_lt_of_behind {count index next : UInt16} {found : Constant}
    (h : behind count index found = .ok next) : index.toNat < next.toNat := by
  rw [behind] at h
  split at h
  · obtain ⟨second, -, h⟩ := (except_bind_eq_ok_iff _ _ _).1 h
    split at h
    · cases h
    · rw [plus_eq_ok h]
      omega
  · rw [plus_eq_ok h]
    omega

theorem index_lt_of_round {buf : Bytes} {count : UInt16} {s next : State}
    (h : round buf count s = .ok next) : s.index.toNat < next.index.toNat := by
  obtain ⟨⟨found, pos⟩, -, h⟩ := (except_bind_eq_ok_iff _ _ _).1 h
  obtain ⟨index, hindex, h⟩ := (except_bind_eq_ok_iff _ _ _).1 h
  cases h
  exact index_lt_of_behind hindex

/-- Rounds until the slot number has come to the count. -/
def loop (buf : Bytes) (count : UInt16) (s : State) : Except Halt State :=
  if hlt : s.index < count then
    match hround : round buf count s with
    | .ok next =>
      -- the slot number comes nearer to the count
      have := index_lt_of_round hround
      have := UInt16.lt_iff_toNat_lt.1 hlt
      loop buf count next
    | .error halt => .error halt
  else .ok s
termination_by count.toNat - s.index.toNat

/-- The count, and then the constants from slot 1 on. -/
def parse (buf : Bytes) (pos : Nat) : Except Halt (ConstantPool × Nat) := do
  let (count, start) ← u2 buf pos
  let s ← loop buf count ⟨1, .empty, start⟩
  return (s.pool, s.pos)

/-! ### Steps that follow a reader -/

section Follows

variable {α β : Type} {buf : Bytes} {m : Step α} {r : Reader α}

/-- From every position in the buffer, the step does what the reader does with the bytes from there
on: it finds the same value and leaves the position in the buffer, or it reports the same fault. -/
def Follows (buf : Bytes) (m : Step α) (r : Reader α) : Prop :=
  ∀ pos ≤ buf.length,
    (∃ a pos', m pos = .ok (a, pos') ∧
      r ⟨pos, buf.drop pos⟩ = .ok (a, ⟨pos', buf.drop pos'⟩) ∧ pos' ≤ buf.length) ∨
      ∃ e, m pos = .error (.fault e) ∧ r ⟨pos, buf.drop pos⟩ = .error e

theorem follows_pure (a : α) : Follows buf (pure a) (pure a) := by
  intro pos hpos
  exact Or.inl ⟨a, pos, rfl, rfl, hpos⟩

theorem follows_fault (e : ClassFormatError) :
    Follows buf (throw (.fault e) : Step α) (throw e : Reader α) := by
  intro pos hpos
  exact Or.inr ⟨e, rfl, rfl⟩

/-- Steps in a row follow readers in a row. The second ones have to agree for the values that the
first reader can find. -/
theorem Follows.bind {f : α → Step β} {g : α → Reader β} (h : Follows buf m r)
    (hf : ∀ a c c', r c = .ok (a, c') → Follows buf (f a) (g a)) :
    Follows buf (m >>= f) (r >>= g) := by
  intro pos hpos
  have hstep : (m >>= f) pos = (m pos).bind fun p => f p.1 p.2 := rfl
  rw [hstep]
  rcases h pos hpos with ⟨a, pos', hm, hr, hpos'⟩ | ⟨e, hm, hr⟩
  · rw [hm, Reader.bind_of_ok hr]
    exact hf a _ _ hr pos' hpos'
  · rw [hm, Reader.bind_eq_error hr]
    exact Or.inr ⟨e, rfl, rfl⟩

/-- Bytes are taken from the buffer only when they are all in it. -/
theorem follows_take (n : Nat) : Follows buf (bytes buf n) (Reader.take n) := by
  intro pos hpos
  have hremaining : minus buf.length pos = .ok (buf.length - pos) := if_pos hpos
  have htaken : ((buf.drop pos).take n).length = min n (buf.length - pos) := by
    rw [List.length_take, List.length_drop]
  simp only [bytes, Reader.take, List.splitAt_eq, htaken, hremaining]
  by_cases hless : buf.length - pos < n
  · -- too few bytes are left, by as many as the report says
    have hneeded : minus n (buf.length - pos) = .ok (n - (buf.length - pos)) :=
      if_pos (Nat.le_of_lt hless)
    right
    refine ⟨.truncated pos (n - (buf.length - pos)), ?_, ?_⟩
    · show (if buf.length - pos < n then _ else _) = _
      rw [if_pos hless, hneeded]
      rfl
    · rw [Nat.min_eq_right (Nat.le_of_lt hless), if_neg (by omega)]
  · have hslice : slice buf pos (pos + n) = .ok ((buf.drop pos).take n) := by
      rw [slice, if_pos ⟨by omega, by omega⟩, Nat.add_sub_cancel_left]
    left
    refine ⟨(buf.drop pos).take n, pos + n, ?_, ?_, by omega⟩
    · show (if buf.length - pos < n then _ else _) = _
      rw [if_neg hless, hslice]
      rfl
    · rw [Nat.min_eq_left (by omega), Nat.sub_self, if_pos rfl, List.drop_drop]

theorem length_of_take {n : Nat} {c c' : Cursor} {bs : Bytes}
    (h : Reader.take n c = .ok (bs, c')) : bs.length = n := by
  obtain ⟨_, ⟨hlength, rfl⟩, -, -⟩ := (Reader.reads_take n c bs c').1 h
  exact hlength

theorem follows_u1 : Follows buf (u1 buf) Reader.u1 := by
  apply (follows_take 1).bind
  intro bs c c' h
  obtain ⟨b, rfl⟩ := List.length_eq_one_iff.1 (length_of_take h)
  have hword : UInt8.ofNat (Bytes.word [b]) = b := by simp [Bytes.word]
  rw [hword]
  exact follows_pure b

theorem follows_u2 : Follows buf (u2 buf) Reader.u2 := by
  apply (follows_take 2).bind
  intro bs c c' h
  match bs, length_of_take h with
  | [high, low], _ =>
    have hword : Bytes.word [high, low] = high.toNat * 256 + low.toNat := by simp [Bytes.word]
    rw [hword]
    exact follows_pure _

theorem follows_constant (index : UInt16) :
    Follows buf (constant buf index) (Constant.read index) := by
  apply follows_u1.bind
  intro tag c c' _
  by_cases hutf8 : tag = Constant.utf8Tag
  · rw [if_pos hutf8, if_pos hutf8]
    apply follows_u2.bind
    intro len _ _ _
    exact (follows_take len.toNat).bind fun bs _ _ _ => follows_pure (Constant.utf8 bs)
  rw [if_neg hutf8, if_neg hutf8]
  by_cases hclass : tag = Constant.classTag
  · rw [if_pos hclass, if_pos hclass]
    exact follows_u2.bind fun nameIndex _ _ _ => follows_pure (Constant.classRef nameIndex)
  rw [if_neg hclass, if_neg hclass]
  cases Constant.payloadSize? tag with
  | some size => exact (follows_take size).bind fun bs _ _ _ => follows_pure (Constant.other tag bs)
  | none => exact follows_fault _

end Follows

/-! ### Rounds -/

variable {buf : Bytes} {count : UInt16} {s next : State} {bs : Bytes}

/-- A round has filled slots with the bytes `bs`, and has moved both numbers by what that takes. -/
structure Advances (buf : Bytes) (count : UInt16) (s next : State) (bs : Bytes) : Prop where
  fills : ConstantPool.Fills (next.index.toNat - s.index.toNat) s.pool next.pool bs
  index_lt : s.index.toNat < next.index.toNat
  index_le : next.index.toNat ≤ count.toNat
  ahead : buf.drop s.pos = bs ++ buf.drop next.pos
  pos_eq : next.pos = s.pos + bs.length
  pos_le : next.pos ≤ buf.length

theorem plus_of_lt {index : UInt16} {k : Nat} (h : index.toNat + k < UInt16.size) :
    ∃ next, plus index k = .ok next ∧ next.toNat = index.toNat + k :=
  ⟨_, if_pos h, UInt16.toNat_ofNat_of_lt' h⟩

/-- Behind a constant there is a slot number, up to the count, unless two slots are wanted of the
last one. -/
theorem behind_cases {index : UInt16} (found : Constant) (hlt : index < count) :
    (∃ next, behind count index found = .ok next ∧
        next.toNat = index.toNat + found.width ∧ next.toNat ≤ count.toNat) ∨
      found.isWide = true ∧ count.toNat - index.toNat = 1 ∧
        behind count index found = .error (.fault (.wideConstantAtEnd index)) := by
  rw [UInt16.lt_iff_toNat_lt] at hlt
  have hcount : count.toNat < UInt16.size := count.toNat_lt
  obtain ⟨second, hplus, hsecond⟩ := plus_of_lt (show index.toNat + 1 < UInt16.size by omega)
  by_cases hw : found.isWide = true
  · have hbehind : behind count index found =
        if count ≤ second then .error (.fault (.wideConstantAtEnd index)) else plus index 2 := by
      rw [behind, if_pos hw, hplus]
      rfl
    by_cases hroom : count ≤ second
    · rw [if_pos hroom] at hbehind
      rw [UInt16.le_iff_toNat_le] at hroom
      exact Or.inr ⟨hw, by omega, hbehind⟩
    · rw [if_neg hroom] at hbehind
      rw [UInt16.le_iff_toNat_le] at hroom
      obtain ⟨next, hplus', hnext⟩ := plus_of_lt (show index.toNat + 2 < UInt16.size by omega)
      rw [Constant.width_of_isWide hw]
      exact Or.inl ⟨next, hbehind.trans hplus', hnext, by omega⟩
  · rw [Constant.width_of_not_isWide hw]
    have hbehind : behind count index found = plus index 1 := by rw [behind, if_neg hw]
    exact Or.inl ⟨second, hbehind.trans hplus, hsecond, by omega⟩

/-- **What a round does.** It advances, or it stumbles over the constant in the slot that it has come
to; no number leaves its bounds. -/
theorem round_cases (hpos : s.pos ≤ buf.length) (hlt : s.index < count) :
    (∃ next bs, round buf count s = .ok next ∧ Advances buf count s next bs) ∨
      ∃ e, round buf count s = .error (.fault e) ∧
        ConstantPool.Stumbles (count.toNat - s.index.toNat) s.index ⟨s.pos, buf.drop s.pos⟩ e := by
  rcases follows_constant s.index s.pos hpos with ⟨found, pos, hm, hr, hpos'⟩ | ⟨e, hm, hr⟩
  · have hround : round buf count s = (behind count s.index found).bind fun index =>
        .ok ⟨index, s.pool.append found, pos⟩ := by
      rw [round, hm]
      rfl
    rcases behind_cases found hlt with ⟨index, hbehind, hindex, hle⟩ | ⟨hw, hleft, hbehind⟩
    · left
      refine ⟨⟨index, s.pool.append found, pos⟩, found.encode, ?_, ?_⟩
      · rw [hround, hbehind]
        rfl
      · -- the bytes that were read are those that the constant is written with
        obtain ⟨-, ⟨⟨hne, hfits⟩, rfl⟩, hahead, hoffset⟩ := (Constant.reads_read _ _ _ _).1 hr
        have hfills := ConstantPool.fills_append s.pool hne hfits
        rw [← Nat.add_sub_cancel_left s.index.toNat found.width, ← hindex] at hfills
        refine ⟨hfills, ?_, hle, hahead, hoffset, hpos'⟩
        show s.index.toNat < index.toNat
        rw [hindex]
        exact Nat.lt_add_of_pos_right found.width_pos
    · right
      refine ⟨.wideConstantAtEnd s.index, ?_, .noRoom hleft hw hr⟩
      rw [hround, hbehind]
      rfl
  · -- the constant itself cannot be read
    right
    refine ⟨e, ?_, .unread hr⟩
    rw [round, hm]
    rfl

/-! ### The loop and the reader -/

/-- What a reader comes to, in the terms of the loop: a reader knows no way to halt but a fault. -/
def outcome {α : Type} : Except ClassFormatError (α × Cursor) → Except Halt (α × Nat)
  | .ok (a, c) => .ok (a, c.offset)
  | .error e => .error (.fault e)

/-- From the slot that it has come to, the loop fills the slots that are left. -/
theorem loop_eq (hsize : s.pool.size = s.index.toNat) (hpos : s.pos ≤ buf.length) :
    (loop buf count s).map (fun last => (last.pool, last.pos)) =
      outcome (ConstantPool.readSlots (count.toNat - s.index.toNat) s.pool
        ⟨s.pos, buf.drop s.pos⟩) := by
  fun_induction loop buf count s with
  | case1 s hlt next hround _ _ ih =>
    rcases round_cases hpos hlt with ⟨next', bs, hround', hadvances⟩ | ⟨e, hround', -⟩
    · obtain rfl : next = next' := Except.ok.inj (hround.symm.trans hround')
      have hindex := hadvances.index_lt
      have hcount := hadvances.index_le
      have hleft : count.toNat - s.index.toNat =
          (next.index.toNat - s.index.toNat) + (count.toNat - next.index.toNat) := by omega
      have hsize' : next.pool.size = next.index.toNat := by
        rw [hadvances.fills.size_eq, hsize]
        omega
      rw [ih hsize' hadvances.pos_le, hleft, hadvances.ahead,
        ConstantPool.readSlots_of_fills hadvances.fills, ← hadvances.pos_eq]
    · cases hround.symm.trans hround'
  | case2 s hlt halt hround =>
    rcases round_cases hpos hlt with ⟨next, bs, hround', -⟩ | ⟨e, hround', hstumbles⟩
    · cases hround.symm.trans hround'
    · obtain rfl : halt = .fault e := Except.error.inj (hround.symm.trans hround')
      rw [UInt16.lt_iff_toNat_lt] at hlt
      obtain ⟨left, hleft⟩ := Nat.exists_eq_add_of_lt hlt
      have hslot : UInt16.ofNat s.pool.size = s.index := by rw [hsize, UInt16.ofNat_toNat]
      rw [show count.toNat - s.index.toNat = left + 1 by omega, ← hslot] at hstumbles
      rw [show count.toNat - s.index.toNat = left + 1 by omega, hstumbles.readSlots]
      rfl
  | case3 s hlt =>
    rw [UInt16.lt_iff_toNat_lt] at hlt
    rw [show count.toNat - s.index.toNat = 0 by omega]
    rfl

/-- The loop does what the reader does. -/
theorem parse_eq {pos : Nat} (hpos : pos ≤ buf.length) :
    parse buf pos = outcome (ConstantPool.read ⟨pos, buf.drop pos⟩) := by
  have hparse : parse buf pos = (u2 buf pos).bind fun p =>
      (loop buf p.1 ⟨1, .empty, p.2⟩).map fun last => (last.pool, last.pos) := rfl
  rw [hparse, ConstantPool.read]
  rcases follows_u2 pos hpos with ⟨count, start, hm, hr, hstart⟩ | ⟨e, hm, hr⟩
  · rw [hm, Reader.bind_of_ok hr]
    exact loop_eq rfl hstart
  · rw [hm, Reader.bind_eq_error hr]
    rfl

/-! ### All rounds -/

/-- The loop comes to the state after so many rounds. -/
inductive Rounds (buf : Bytes) (count : UInt16) (first : State) : Nat → State → Prop where
  | none : Rounds buf count first 0 first
  | next {rounds : Nat} {s next : State} (h : Rounds buf count first rounds s)
      (hlt : s.index < count) (hround : round buf count s = .ok next) :
      Rounds buf count first (rounds + 1) next

/-- What holds whenever the loop looks at its condition, in a pool that begins at `start`. -/
structure Invariant (buf : Bytes) (count : UInt16) (start rounds : Nat) (s : State) : Prop where
  /-- The next slot has the number of the slots that are filled. -/
  size_eq : s.pool.size = s.index.toNat
  index_le : s.index.toNat ≤ max count.toNat 1
  /-- There are fewer rounds than slots. -/
  rounds_lt : rounds < s.index.toNat
  pos_le : s.pos ≤ buf.length
  /-- What has been read are the constants in these slots, and nothing else. -/
  filled : ∃ bs, ConstantPool.Fills (s.index.toNat - 1) .empty s.pool bs ∧
    bs <+: buf.drop start ∧ s.pos = start + bs.length

variable {start rounds : Nat}

theorem invariant_first (hstart : start ≤ buf.length) :
    Invariant buf count start 0 ⟨1, .empty, start⟩ where
  size_eq := rfl
  index_le := Nat.le_max_right _ _
  rounds_lt := Nat.one_pos
  pos_le := hstart
  filled := ⟨[], ConstantPool.fills_zero_iff.2 ⟨rfl, rfl⟩, List.nil_prefix, rfl⟩

theorem Invariant.advance (h : Invariant buf count start rounds s)
    (hadvances : Advances buf count s next bs) :
    Invariant buf count start (rounds + 1) next := by
  have hindex := hadvances.index_lt
  have hcount := hadvances.index_le
  have hrounds := h.rounds_lt
  obtain ⟨as, hfills, ⟨rest, hrest⟩, hpos⟩ := h.filled
  refine ⟨?_, ?_, ?_, hadvances.pos_le, as ++ bs, ?_, ?_, ?_⟩
  · rw [hadvances.fills.size_eq, h.size_eq]
    omega
  · omega
  · omega
  · rw [show next.index.toNat - 1 =
      (s.index.toNat - 1) + (next.index.toNat - s.index.toNat) by omega]
    exact hfills.append hadvances.fills
  · -- the bytes of this round are the next ones behind those of the rounds before
    have hahead : rest = bs ++ buf.drop next.pos := by
      rw [← hadvances.ahead, hpos, ← List.drop_drop, ← hrest, List.drop_left]
    rw [← hrest, hahead, ← List.append_assoc]
    exact List.prefix_append _ _
  · rw [hadvances.pos_eq, hpos, List.length_append, Nat.add_assoc]

theorem Rounds.invariant (h : Rounds buf count ⟨1, .empty, start⟩ rounds s)
    (hstart : start ≤ buf.length) : Invariant buf count start rounds s := by
  induction h with
  | none => exact invariant_first hstart
  | next _ hlt hround ih =>
    rcases round_cases ih.pos_le hlt with ⟨next, bs, hround', hadvances⟩ | ⟨e, hround', -⟩
    · cases hround.symm.trans hround'
      exact ih.advance hadvances
    · cases hround.symm.trans hround'

/-- What is left for the loop to do after some rounds. -/
theorem Rounds.loop_eq {first : State} (h : Rounds buf count first rounds s) :
    loop buf count first = loop buf count s := by
  induction h with
  | none => rfl
  | next _ hlt hround ih =>
    rw [ih, loop, dif_pos hlt]
    split
    · rename_i hround'
      cases hround.symm.trans hround'
      rfl
    · rename_i hround'
      cases hround.symm.trans hround'

/-- **Slot numbers and positions stay in bounds.** The loop halts only as the reader does: all of its
checks are passed. Whenever it looks at its condition the invariant holds, and the round that follows
is finished or has a fault to report. A pool that has been read has as many slots as its count says,
slot 0 always among them; and a fault names the slot of the constant that has it. -/
theorem numbers_stay_in_bounds (buf : Bytes) {pos : Nat} (hpos : pos ≤ buf.length) :
    parse buf pos = outcome (ConstantPool.read ⟨pos, buf.drop pos⟩) ∧
      ∀ count start, u2 buf pos = .ok (count, start) →
        (∀ rounds s, Rounds buf count ⟨1, .empty, start⟩ rounds s →
          loop buf count ⟨1, .empty, start⟩ = loop buf count s ∧
            Invariant buf count start rounds s ∧
            (s.index < count → ∀ halt, round buf count s = .error halt →
              ∃ e, halt = .fault e)) ∧
        (∀ p c, ConstantPool.read ⟨pos, buf.drop pos⟩ = .ok (p, c) →
          p.size = max count.toNat 1 ∧ c.offset ≤ buf.length) ∧
        (∀ tag index,
          ConstantPool.read ⟨pos, buf.drop pos⟩ = .error (.unknownConstant tag index) ↔
            index < count ∧ ∃ place, ConstantPool.Begins buf start index.toNat place ∧
              buf[place]? = some tag ∧ Constant.Unknown tag) ∧
        ∀ index, ConstantPool.read ⟨pos, buf.drop pos⟩ = .error (.wideConstantAtEnd index) ↔
          index.toNat + 1 = count.toNat ∧
            ∃ place, ConstantPool.Begins buf start index.toNat place ∧
              ∃ found : Constant, found.isWide = true ∧ found.Storable ∧
                found.encode <+: buf.drop place := by
  refine ⟨parse_eq hpos, ?_⟩
  intro count start hu2
  obtain ⟨hr, hstart⟩ : Reader.u2 ⟨pos, buf.drop pos⟩ = .ok (count, ⟨start, buf.drop start⟩) ∧
      start ≤ buf.length := by
    rcases follows_u2 pos hpos with ⟨_, _, hm, hr, hstart⟩ | ⟨e, hm, -⟩
    · cases hm.symm.trans hu2
      exact ⟨hr, hstart⟩
    · cases hm.symm.trans hu2
  have hread : ConstantPool.read ⟨pos, buf.drop pos⟩ =
      ConstantPool.readSlots (count.toNat - 1) .empty ⟨start, buf.drop start⟩ :=
    Reader.bind_of_ok hr _
  refine ⟨?rounds, ?slots, ?unknown, ?wide⟩
  case rounds =>
    intro rounds s h
    have hinvariant := h.invariant hstart
    refine ⟨h.loop_eq, hinvariant, ?_⟩
    intro hlt halt hround
    rcases round_cases hinvariant.pos_le hlt with ⟨_, _, hround', -⟩ | ⟨e, hround', -⟩
    · cases hround.symm.trans hround'
    · exact ⟨e, Except.error.inj (hround.symm.trans hround')⟩
  case slots =>
    intro p c h
    rw [hread] at h
    obtain ⟨bs, hfills, hrest, hoffset⟩ := (ConstantPool.reads_slots _ _ _ _ _).1 h
    have hlength := congrArg List.length hrest
    rw [List.length_drop, List.length_append] at hlength
    dsimp only at hoffset
    refine ⟨?_, by omega⟩
    rw [hfills.size_eq, show ConstantPool.empty.size = 1 from rfl]
    omega
  case unknown =>
    intro tag index
    rw [hread]
    exact ConstantPool.readSlots_unknown_iff
  case wide =>
    intro index
    rw [hread]
    exact ConstantPool.readSlots_wide_iff

/-- The number 7 as a long. -/
def long : Constant := .other Constant.longTag [0, 0, 0, 0, 0, 0, 0, 7]

/-- The number 3 as a double. -/
def double : Constant := .other Constant.doubleTag [64, 8, 0, 0, 0, 0, 0, 0]

/-- A pool of four slots behind the eight bytes that a class file begins with: the long takes slots 1
and 2, and only slot 3 is left for the double. -/
def wideAtEnd : Bytes :=
  [0xCA, 0xFE, 0xBA, 0xBE, 0, 0, 0, 52, 0, 4] ++ (long.encode ++ double.encode)

theorem numbers_stay_in_bounds_wideAtEnd :
    8 ≤ wideAtEnd.length ∧ u2 wideAtEnd 8 = .ok (4, 10) ∧
      (∃ s, Rounds wideAtEnd 4 ⟨1, .empty, 10⟩ 1 s ∧ Invariant wideAtEnd 4 10 1 s) ∧
      ConstantPool.read ⟨8, wideAtEnd.drop 8⟩ = .error (.wideConstantAtEnd 3) ∧
      parse wideAtEnd 8 = .error (.fault (.wideConstantAtEnd 3)) := by
  have hpos : 8 ≤ wideAtEnd.length := by decide
  have hcount : u2 wideAtEnd 8 = .ok (4, 10) := rfl
  obtain ⟨hparse, h⟩ := numbers_stay_in_bounds wideAtEnd hpos
  obtain ⟨hrounds, -, -, hwide⟩ := h 4 10 hcount
  have hround : Rounds wideAtEnd 4 ⟨1, .empty, 10⟩ 1 ⟨3, .append .empty long, 19⟩ :=
    .next .none (by decide) rfl
  have hfills : ConstantPool.Fills 2 .empty (.append .empty long) long.encode :=
    ConstantPool.fills_append .empty (by decide) rfl
  have hbegins : ConstantPool.Begins wideAtEnd 10 3 19 :=
    ⟨2, _, _, rfl, hfills, ⟨double.encode, rfl⟩, rfl⟩
  have hread := (hwide 3).2 ⟨rfl, 19, hbegins, double, rfl, rfl, ⟨[], rfl⟩⟩
  refine ⟨hpos, hcount, ⟨_, hround, (hrounds _ _ hround).2.1⟩, hread, ?_⟩
  rw [hparse, hread]
  rfl

end PoolLoop

end Reclass
