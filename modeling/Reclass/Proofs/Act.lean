import Mathlib.Tactic.Common
import Reclass.Act

/-!
# What a step ensures

`x.Ensures s Q` says that the step `x`, run from the state `s`, ends with a value and a state that
satisfy `Q`; the events are left aside. For an attempt the value is a result or a failure. Each
way of building a step has one rule here that tells what the step ensures from what its parts
ensure, so a component is reasoned about without running it. Two steps over different states are
compared in the same way: `x.Alike x' R Q` says that from states related by `R` they end in one
value, and in states related by `Q`. A step whose value is written down (`Act.noted`) is the step
itself to whoever does not look at the notes.
-/

set_option autoImplicit false

namespace Reclass

theorem except_bind_eq_ok_iff {ε α β : Type} (x : Except ε α) (f : α → Except ε β) (b : β) :
    x >>= f = .ok b ↔ ∃ a, x = .ok a ∧ f a = .ok b := by
  cases x with
  | error e =>
    constructor
    · rintro ⟨⟩
    · rintro ⟨_, ⟨⟩, -⟩
  | ok a =>
    constructor
    · intro h
      exact ⟨a, rfl, h⟩
    · rintro ⟨_, ⟨⟩, h⟩
      exact h

theorem except_bind_eq_error_iff {ε α β : Type} (x : Except ε α) (f : α → Except ε β) (e : ε) :
    x >>= f = .error e ↔ x = .error e ∨ ∃ a, x = .ok a ∧ f a = .error e := by
  cases x with
  | error e' =>
    constructor
    · intro h
      cases h
      exact Or.inl rfl
    · rintro (h | ⟨_, h, -⟩)
      · cases h
        rfl
      · cases h
  | ok a =>
    constructor
    · intro h
      exact Or.inr ⟨a, rfl, h⟩
    · rintro (h | ⟨_, ⟨⟩, h⟩)
      · cases h
      · exact h

theorem except_map_eq_ok_iff {ε α β : Type} (f : α → β) (x : Except ε α) (b : β) :
    x.map f = .ok b ↔ ∃ a, x = .ok a ∧ f a = b := by
  cases x with
  | error e => exact iff_of_false nofun nofun
  | ok a =>
    rw [Except.map, Except.ok.injEq]
    constructor
    · intro h
      exact ⟨a, rfl, h⟩
    · rintro ⟨_, ⟨⟩, h⟩
      exact h

theorem except_map_eq_error_iff {ε α β : Type} (f : α → β) (x : Except ε α) (e : ε) :
    x.map f = .error e ↔ x = .error e := by
  cases x with
  | error e' => rw [Except.map, Except.error.injEq, Except.error.injEq]
  | ok a => exact iff_of_false nofun nofun

/-- Steps that all succeed yield the list of their results. -/
theorem except_mapM_eq_ok {ε α β : Type} {f : α → Except ε β} {g : α → β} {as : List α}
    (h : ∀ a ∈ as, f a = .ok (g a)) : as.mapM f = .ok (as.map g) := by
  induction as with
  | nil => rfl
  | cons a as ih =>
    rw [List.mapM_cons, h a List.mem_cons_self, ih fun a' ha' => h a' (List.mem_cons_of_mem a ha')]
    rfl

/-- A list of steps yields the list of their results, when they all succeed. -/
theorem except_mapM_eq_ok_iff {ε α β : Type} (f : α → Except ε β) (as : List α) (bs : List β) :
    as.mapM f = .ok bs ↔ as.map f = bs.map .ok := by
  induction as generalizing bs with
  | nil =>
    cases bs with
    | nil => exact iff_of_true rfl rfl
    | cons b bs => exact iff_of_false nofun nofun
  | cons a as ih =>
    rw [List.mapM_cons, except_bind_eq_ok_iff]
    simp only [except_bind_eq_ok_iff, ih]
    constructor
    · rintro ⟨b, hb, bs', hbs', ⟨⟩⟩
      rw [List.map_cons, List.map_cons, hb, hbs']
    · intro h
      cases bs with
      | nil => cases h
      | cons b bs =>
        obtain ⟨hb, hbs⟩ := List.cons.inj h
        exact ⟨b, hb, bs, hbs, rfl⟩

/-- A value is among the results when one of the steps yields it. -/
theorem except_mem_iff_of_mapM_eq_ok {ε α β : Type} {f : α → Except ε β} {as : List α}
    {bs : List β} (h : as.mapM f = .ok bs) (b : β) : b ∈ bs ↔ ∃ a ∈ as, f a = .ok b := by
  have hmap := (except_mapM_eq_ok_iff f as bs).1 h
  constructor
  · intro hb
    have hmem : Except.ok b ∈ as.map f := by
      rw [hmap]
      exact List.mem_map_of_mem hb
    exact List.mem_map.1 hmem
  · rintro ⟨a, ha, hb⟩
    have hmem : (.ok b : Except ε β) ∈ bs.map .ok := by
      rw [← hmap, ← hb]
      exact List.mem_map_of_mem ha
    obtain ⟨_, hb, ⟨⟩⟩ := List.mem_map.1 hmem
    exact hb

theorem except_exists_mapM_eq_ok_iff {ε α β : Type} (f : α → Except ε β) (as : List α) :
    (∃ bs, as.mapM f = .ok bs) ↔ ∀ a ∈ as, ∃ b, f a = .ok b := by
  induction as with
  | nil => exact iff_of_true ⟨[], rfl⟩ nofun
  | cons a as ih =>
    rw [List.forall_mem_cons, ← ih, List.mapM_cons]
    simp only [except_bind_eq_ok_iff]
    constructor
    · rintro ⟨-, b, hb, bs, hbs, -⟩
      exact ⟨⟨b, hb⟩, bs, hbs⟩
    · rintro ⟨⟨b, hb⟩, bs, hbs⟩
      exact ⟨b :: bs, b, hb, bs, hbs, rfl⟩

/-- It fails with the first step that fails. -/
theorem except_mapM_eq_error_iff {ε α β : Type} (f : α → Except ε β) (as : List α) (e : ε) :
    as.mapM f = .error e ↔ ∃ before a after, as = before ++ a :: after ∧
      (∀ b ∈ before, ∃ v, f b = .ok v) ∧ f a = .error e := by
  induction as with
  | nil => exact iff_of_false nofun (by simp)
  | cons a as ih =>
    rw [List.mapM_cons, except_bind_eq_error_iff]
    constructor
    · rintro (ha | ⟨v, hv, h⟩)
      · exact ⟨[], a, as, rfl, by simp, ha⟩
      · rcases (except_bind_eq_error_iff _ _ _).1 h with h | ⟨vs, -, h⟩
        · obtain ⟨before, a', after, rfl, hbefore, ha'⟩ := ih.1 h
          exact ⟨a :: before, a', after, rfl, List.forall_mem_cons.2 ⟨⟨v, hv⟩, hbefore⟩, ha'⟩
        · cases h
    · rintro ⟨before, a', after, has, hbefore, ha'⟩
      cases before with
      | nil =>
        obtain ⟨rfl, rfl⟩ := List.cons.inj has
        exact Or.inl ha'
      | cons b before =>
        obtain ⟨rfl, rfl⟩ := List.cons.inj has
        obtain ⟨⟨v, hv⟩, hbefore⟩ := List.forall_mem_cons.1 hbefore
        refine Or.inr ⟨v, hv, (except_bind_eq_error_iff _ _ _).2 (Or.inl ?_)⟩
        exact ih.2 ⟨before, a', after, rfl, hbefore, ha'⟩

namespace Act

variable {σ τ α β : Type}

/-- From the state `s` the step ends in a value and a state that satisfy `Q`. -/
def Ensures (x : Act σ α) (s : σ) (Q : α → σ → Prop) : Prop := Q (x.run s).value (x.run s).state

/-- The step never changes what `view` shows of the state. -/
def Keeps {ν : Type} (x : Act σ α) (view : σ → ν) : Prop := ∀ s, view (x.run s).state = view s

theorem Ensures.imp {x : Act σ α} {s : σ} {Q R : α → σ → Prop} (h : x.Ensures s Q)
    (hQR : ∀ a s', Q a s' → R a s') : x.Ensures s R :=
  hQR _ _ h

theorem Ensures.and {x : Act σ α} {s : σ} {Q R : α → σ → Prop} (h : x.Ensures s Q)
    (h' : x.Ensures s R) : x.Ensures s fun a s' => Q a s' ∧ R a s' :=
  ⟨h, h'⟩

theorem Ensures.of_forall {x : Act σ α} {s : σ} {Q : α → σ → Prop} (h : ∀ a s', Q a s') :
    x.Ensures s Q :=
  h _ _

@[simp] theorem ensures_pure (a : α) (s : σ) (Q : α → σ → Prop) :
    (pure a : Act σ α).Ensures s Q ↔ Q a s := Iff.rfl

@[simp] theorem ensures_bind (x : Act σ α) (f : α → Act σ β) (s : σ) (Q : β → σ → Prop) :
    (x >>= f).Ensures s Q ↔ x.Ensures s fun a s' => (f a).Ensures s' Q := Iff.rfl

@[simp] theorem ensures_gets (f : σ → α) (s : σ) (Q : α → σ → Prop) :
    (gets f).Ensures s Q ↔ Q (f s) s := Iff.rfl

@[simp] theorem ensures_modify (f : σ → σ) (s : σ) (Q : Unit → σ → Prop) :
    (modify f).Ensures s Q ↔ Q () (f s) := Iff.rfl

@[simp] theorem ensures_modifyGet (f : σ → α × σ) (s : σ) (Q : α → σ → Prop) :
    (modifyGet f).Ensures s Q ↔ Q (f s).1 (f s).2 := Iff.rfl

@[simp] theorem ensures_report (topic : Topic) (level : Level) (text : String) (s : σ)
    (Q : Unit → σ → Prop) : (report topic level text : Act σ Unit).Ensures s Q ↔ Q () s := Iff.rfl

@[simp] theorem ensures_within (span : Span) (x : Act σ α) (s : σ) (Q : α → σ → Prop) :
    (within span x).Ensures s Q ↔ x.Ensures s Q := Iff.rfl

@[simp] theorem ensures_zoom (l : Lens σ τ) (x : Act τ α) (s : σ) (Q : α → σ → Prop) :
    (zoom l x).Ensures s Q ↔ x.Ensures (l.get s) fun a t => Q a (l.set t s) := Iff.rfl

/-- A step taken for each element of a list yields the list of values that `g` foretells, when it
does so for each element and keeps an invariant. -/
theorem ensures_mapM {I : σ → Prop} {f : α → Act σ β} {g : α → β} {as : List α}
    (h : ∀ a ∈ as, ∀ s, I s → (f a).Ensures s fun b s' => b = g a ∧ I s') {s : σ} (hs : I s) :
    (as.mapM f).Ensures s fun bs s' => bs = as.map g ∧ I s' := by
  induction as generalizing s with
  | nil =>
    rw [List.mapM_nil, ensures_pure]
    exact ⟨rfl, hs⟩
  | cons a as ih =>
    rw [List.mapM_cons, ensures_bind]
    refine (h a List.mem_cons_self s hs).imp fun b s' hb => ?_
    rw [ensures_bind]
    refine (ih (fun a' ha' => h a' (List.mem_cons_of_mem _ ha')) hb.2).imp fun bs s'' hbs => ?_
    rw [ensures_pure, hb.1, hbs.1]
    exact ⟨rfl, hbs.2⟩

/-- A fold of steps goes from an invariant of the empty list to that of the whole list, when each
step goes from the invariant of the elements before it to the invariant with its own. -/
theorem ensures_foldlM {I : List α → β → σ → Prop} {f : β → α → Act σ β} {done as : List α}
    (h : ∀ a ∈ as, ∀ done b s, I done b s → (f b a).Ensures s (I (done ++ [a]))) {b : β} {s : σ}
    (hs : I done b s) : (as.foldlM f b).Ensures s (I (done ++ as)) := by
  induction as generalizing done b s with
  | nil =>
    rw [List.append_nil]
    exact hs
  | cons a as ih =>
    rw [List.foldlM_cons, ensures_bind]
    refine (h a List.mem_cons_self done b s hs).imp fun b' s' hb' => ?_
    have hrest := ih (fun a' ha' => h a' (List.mem_cons_of_mem a ha')) hb'
    rw [List.append_assoc] at hrest
    exact hrest

/-- A fold of steps keeps what each step keeps. -/
theorem ensures_foldlM_of_step {I : β → σ → Prop} {f : β → α → Act σ β} {as : List α}
    (h : ∀ a ∈ as, ∀ b s, I b s → (f b a).Ensures s I) {b : β} {s : σ} (hs : I b s) :
    (as.foldlM f b).Ensures s I := by
  induction as generalizing b s with
  | nil => exact hs
  | cons a as ih =>
    rw [List.foldlM_cons, ensures_bind]
    exact (h a List.mem_cons_self b s hs).imp fun b' s' hb' =>
      ih (fun a' ha' => h a' (List.mem_cons_of_mem a ha')) hb'

/-- From every state with the property the step ends in one that has it too. -/
def Preserves (x : Act σ α) (P : σ → Prop) : Prop := ∀ s, P s → x.Ensures s fun _ s' => P s'

theorem preserves_pure (a : α) (P : σ → Prop) : (pure a : Act σ α).Preserves P :=
  fun _ hs => hs

theorem preserves_gets (f : σ → α) (P : σ → Prop) : (gets f).Preserves P := fun _ hs => hs

theorem Preserves.bind {P : σ → Prop} {x : Act σ α} {f : α → Act σ β} (hx : x.Preserves P)
    (hf : ∀ a, (f a).Preserves P) : (x >>= f).Preserves P := by
  intro s hs
  rw [ensures_bind]
  exact (hx s hs).imp fun a s' hs' => hf a s' hs'

/-- A step keeps what it keeps when its result is left aside. -/
theorem Preserves.discard {P : σ → Prop} {x : Act σ α} (hx : x.Preserves P) :
    (x >>= fun _ => pure ()).Preserves P :=
  hx.bind fun _ => preserves_pure () P

theorem preserves_mapM {P : σ → Prop} {f : α → Act σ β} (hf : ∀ a, (f a).Preserves P)
    (as : List α) : (as.mapM f).Preserves P := by
  induction as with
  | nil => exact preserves_pure [] P
  | cons a as ih =>
    rw [List.mapM_cons]
    exact (hf a).bind fun b => ih.bind fun bs => preserves_pure (b :: bs) P

end Act

namespace Attempt

variable {σ τ ε α β : Type}

/-- From the state `s` the attempt ends in a result or a failure, and a state, that satisfy `Q`. -/
def Ensures (x : Attempt σ ε α) (s : σ) (Q : Except ε α → σ → Prop) : Prop := x.result.Ensures s Q

theorem Ensures.imp {x : Attempt σ ε α} {s : σ} {Q R : Except ε α → σ → Prop} (h : x.Ensures s Q)
    (hQR : ∀ r s', Q r s' → R r s') : x.Ensures s R :=
  hQR _ _ h

theorem Ensures.and {x : Attempt σ ε α} {s : σ} {Q R : Except ε α → σ → Prop} (h : x.Ensures s Q)
    (h' : x.Ensures s R) : x.Ensures s fun r s' => Q r s' ∧ R r s' :=
  ⟨h, h'⟩

@[simp] theorem ensures_result (x : Attempt σ ε α) (s : σ) (Q : Except ε α → σ → Prop) :
    Act.Ensures x.result s Q ↔ x.Ensures s Q := Iff.rfl

@[simp] theorem ensures_pure (a : α) (s : σ) (Q : Except ε α → σ → Prop) :
    (pure a : Attempt σ ε α).Ensures s Q ↔ Q (.ok a) s := Iff.rfl

@[simp] theorem ensures_throw (e : ε) (s : σ) (Q : Except ε α → σ → Prop) :
    (throw e : Attempt σ ε α).Ensures s Q ↔ Q (.error e) s := Iff.rfl

@[simp] theorem ensures_act (x : Act σ α) (s : σ) (Q : Except ε α → σ → Prop) :
    (act x : Attempt σ ε α).Ensures s Q ↔ x.Ensures s fun a s' => Q (.ok a) s' := Iff.rfl

@[simp] theorem ensures_of (x : Act σ (Except ε α)) (s : σ) (Q : Except ε α → σ → Prop) :
    (of x).Ensures s Q ↔ x.Ensures s Q := Iff.rfl

/-- After a failure nothing more is done. -/
@[simp] theorem ensures_bind (x : Attempt σ ε α) (f : α → Attempt σ ε β) (s : σ)
    (Q : Except ε β → σ → Prop) :
    (x >>= f).Ensures s Q ↔ x.Ensures s fun r s' => match r with
      | .ok a => (f a).Ensures s' Q
      | .error e => Q (.error e) s' := by
  have e : (x >>= f).result = x.result >>= fun r => match r with
      | .ok a => (f a).result
      | .error e => pure (.error e) := rfl
  unfold Ensures
  rw [e, Act.ensures_bind]
  unfold Act.Ensures
  cases (x.result.run s).value with
  | ok a => exact Iff.rfl
  | error e => exact Iff.rfl

@[simp] theorem ensures_mapError {ε' : Type} (f : ε → ε') (x : Attempt σ ε α) (s : σ)
    (Q : Except ε' α → σ → Prop) :
    (mapError f x).Ensures s Q ↔ x.Ensures s fun r s' => Q (r.mapError f) s' := by
  rw [mapError, ensures_of, Act.ensures_bind]
  unfold Ensures Act.Ensures
  cases (x.result.run s).value with
  | ok a => exact Iff.rfl
  | error e => exact Iff.rfl

/-- From every state with the property the attempt ends, for good or bad, in one that has it. -/
def Preserves (x : Attempt σ ε α) (P : σ → Prop) : Prop := ∀ s, P s → x.Ensures s fun _ s' => P s'

theorem preserves_pure (a : α) (P : σ → Prop) : (pure a : Attempt σ ε α).Preserves P :=
  fun _ hs => hs

theorem preserves_throw (e : ε) (P : σ → Prop) : (throw e : Attempt σ ε α).Preserves P :=
  fun _ hs => hs

theorem Preserves.result {P : σ → Prop} {x : Attempt σ ε α} (hx : x.Preserves P) :
    Act.Preserves x.result P :=
  hx

theorem preserves_act {P : σ → Prop} {x : Act σ α} (hx : x.Preserves P) :
    (act x : Attempt σ ε α).Preserves P := by
  intro s hs
  rw [ensures_act]
  exact hx s hs

theorem Preserves.bind {P : σ → Prop} {x : Attempt σ ε α} {f : α → Attempt σ ε β}
    (hx : x.Preserves P) (hf : ∀ a, (f a).Preserves P) : (x >>= f).Preserves P := by
  intro s hs
  rw [ensures_bind]
  refine (hx s hs).imp fun r s' hs' => ?_
  cases r with
  | ok a => exact hf a s' hs'
  | error e => exact hs'

theorem preserves_mapM {P : σ → Prop} {f : α → Attempt σ ε β} (hf : ∀ a, (f a).Preserves P)
    (as : List α) : (as.mapM f).Preserves P := by
  induction as with
  | nil => exact preserves_pure [] P
  | cons a as ih =>
    rw [List.mapM_cons]
    exact (hf a).bind fun b => ih.bind fun bs => preserves_pure (b :: bs) P

/-- What would come after a failure does not matter. -/
theorem throw_bind (e : ε) (f : α → Attempt σ ε β) : (throw e >>= f : Attempt σ ε β) = throw e :=
  rfl

end Attempt

/-! ### Two steps side by side -/

namespace Act

variable {σ σ' α β : Type} {R : σ → σ' → Prop} {P : α → σ → σ' → Prop} {Q : β → σ → σ' → Prop}

/-- From states related by `R` the two steps end in one value, and in states that `Q` relates for
that value. -/
def Alike (x : Act σ α) (x' : Act σ' α) (R : σ → σ' → Prop) (Q : α → σ → σ' → Prop) : Prop :=
  ∀ s s', R s s' → x.Ensures s fun a t => x'.Ensures s' fun a' t' => a' = a ∧ Q a t t'

theorem alike_pure (a : α) (hP : ∀ s s', R s s' → P a s s') :
    (pure a : Act σ α).Alike (pure a) R P :=
  fun s s' hs => ⟨rfl, hP s s' hs⟩

theorem Alike.bind {x : Act σ α} {x' : Act σ' α} {f : α → Act σ β} {f' : α → Act σ' β}
    (hx : x.Alike x' R P) (hf : ∀ a, (f a).Alike (f' a) (P a) Q) :
    (x >>= f).Alike (x' >>= f') R Q := by
  intro s s' hs
  -- the two are taken side by side, first through `x` and then through `f`
  show x.Ensures s fun a t => x'.Ensures s' fun a' t' =>
    (f a).Ensures t fun b u => (f' a').Ensures t' fun b' u' => b' = b ∧ Q b u u'
  refine (hx s s' hs).imp fun a t ht => ht.imp fun a' t' ht' => ?_
  obtain ⟨rfl, hP⟩ := ht'
  exact hf a' t t' hP

theorem alike_mapM {f : α → Act σ β} {f' : α → Act σ' β} (hf : ∀ a, (f a).Alike (f' a) R fun _ => R)
    (as : List α) : (as.mapM f).Alike (as.mapM f') R fun _ => R := by
  induction as with
  | nil => exact alike_pure [] fun _ _ hs => hs
  | cons a as ih =>
    rw [List.mapM_cons, List.mapM_cons]
    exact (hf a).bind fun b => ih.bind fun bs => alike_pure (b :: bs) fun _ _ hs => hs

theorem alike_foldlM {f : β → α → Act σ β} {f' : β → α → Act σ' β}
    (hf : ∀ b a, (f b a).Alike (f' b a) R fun _ => R) (as : List α) (b : β) :
    (as.foldlM f b).Alike (as.foldlM f' b) R fun _ => R := by
  induction as generalizing b with
  | nil => exact alike_pure b fun _ _ hs => hs
  | cons a as ih =>
    rw [List.foldlM_cons, List.foldlM_cons]
    exact (hf b a).bind fun b' => ih b'

/-- A report changes nothing. -/
theorem report_alike (topic : Topic) (level : Level) (text : String) :
    (report topic level text : Act σ Unit).Alike (report topic level text) R fun _ => R :=
  fun _ _ hs => ⟨rfl, hs⟩

theorem report_bind_alike (topic : Topic) (level : Level) (text : String)
    {f : Unit → Act σ β} {f' : Unit → Act σ' β} (hf : (f ()).Alike (f' ()) R Q) :
    (report topic level text >>= f).Alike (report topic level text >>= f') R Q :=
  hf

theorem Alike.within {x : Act σ α} {x' : Act σ' α} (span : Span) (hx : x.Alike x' R P) :
    (within span x).Alike (within span x') R P :=
  hx

end Act

/-! ### Values that are written down -/

namespace Act

variable {σ α δ : Type}

/-- A step over the first part of the state, whose value is written down behind those before it. -/
def noted (x : Act σ α) (note : α → δ) : Act (σ × List δ) α := do
  let a ← zoom .fst x
  zoom .snd (modify fun notes => notes ++ [note a])
  return a

@[simp] theorem ensures_noted (x : Act σ α) (note : α → δ) (w : σ × List δ)
    (Q : α → σ × List δ → Prop) :
    (x.noted note).Ensures w Q ↔ x.Ensures w.1 fun a s => Q a (s, w.2 ++ [note a]) := Iff.rfl

/-- Writing down changes nothing else. -/
theorem noted_alike (x : Act σ α) (note : α → δ) :
    (x.noted note).Alike x (fun w s => s = w.1) fun _ w s => s = w.1 := by
  rintro w _ rfl
  exact ⟨rfl, rfl⟩

end Act

namespace Attempt

variable {σ σ' ε α β : Type} {R : σ → σ' → Prop} {P : Except ε α → σ → σ' → Prop}
  {Q : Except ε β → σ → σ' → Prop}

/-- After a failure on both sides nothing more is done. -/
theorem alike_bind {x : Attempt σ ε α} {x' : Attempt σ' ε α} {f : α → Attempt σ ε β}
    {f' : α → Attempt σ' ε β} (hx : Act.Alike x.result x'.result R P)
    (hf : ∀ a, Act.Alike (f a).result (f' a).result (P (.ok a)) Q)
    (he : ∀ e s s', P (.error e) s s' → Q (.error e) s s') :
    Act.Alike (x >>= f).result (x' >>= f').result R Q := by
  have hcases : ∀ r : Except ε α, Act.Alike
      (match r with | .ok a => (f a).result | .error e => pure (.error e))
      (match r with | .ok a => (f' a).result | .error e => pure (.error e)) (P r) Q := by
    intro r
    cases r with
    | ok a => exact hf a
    | error e => exact Act.alike_pure _ (he e)
  exact Act.Alike.bind hx hcases

theorem alike_mapError {ε' : Type} (g : ε → ε') {x : Attempt σ ε α} {x' : Attempt σ' ε α}
    {P' : Except ε' α → σ → σ' → Prop}
    (hx : Act.Alike x.result x'.result R fun r => P' (r.mapError g)) :
    Act.Alike (x.mapError g).result (x'.mapError g).result R P' := by
  refine Act.Alike.bind (P := fun r => P' (r.mapError g)) hx fun r => ?_
  cases r with
  | ok a => exact Act.alike_pure _ fun _ _ hs => hs
  | error e => exact Act.alike_pure _ fun _ _ hs => hs

variable {E : σ → σ' → Prop}

/-- From states related by `R` the two attempts succeed with one result, in states that `R` relates
again, or fail with one failure, in states that `E` relates. -/
def InStep (x : Attempt σ ε α) (x' : Attempt σ' ε α) (R E : σ → σ' → Prop) : Prop :=
  Act.Alike x.result x'.result R fun r => match r with
    | .ok _ => R
    | .error _ => E

/-- However the two end, they end alike. -/
theorem InStep.ends {x : Attempt σ ε α} {x' : Attempt σ' ε α} (hx : x.InStep x' R E)
    (hE : ∀ s s', R s s' → E s s') :
    Act.Alike x.result x'.result R fun _ => E := by
  intro s s' hs
  obtain ⟨hvalue, h⟩ := hx s s' hs
  refine ⟨hvalue, ?_⟩
  cases hr : (x.result.run s).value with
  | ok a =>
    rw [hr] at h
    exact hE _ _ h
  | error e =>
    rw [hr] at h
    exact h

theorem inStep_pure (a : α) : (pure a : Attempt σ ε α).InStep (pure a) R E :=
  Act.alike_pure _ fun _ _ hs => hs

theorem inStep_throw (e : ε) (hE : ∀ s s', R s s' → E s s') :
    (throw e : Attempt σ ε α).InStep (throw e) R E :=
  Act.alike_pure _ hE

theorem inStep_act {x : Act σ α} {x' : Act σ' α} (hx : x.Alike x' R fun _ => R) :
    (act x : Attempt σ ε α).InStep (act x') R E :=
  Act.Alike.bind hx fun a => Act.alike_pure (Except.ok a) fun _ _ hs => hs

theorem InStep.bind {x : Attempt σ ε α} {x' : Attempt σ' ε α} {f : α → Attempt σ ε β}
    {f' : α → Attempt σ' ε β} (hx : x.InStep x' R E) (hf : ∀ a, (f a).InStep (f' a) R E) :
    (x >>= f).InStep (x' >>= f') R E :=
  alike_bind hx hf fun _ _ _ hs => hs

theorem inStep_mapM {f : α → Attempt σ ε β} {f' : α → Attempt σ' ε β}
    (hf : ∀ a, (f a).InStep (f' a) R E) (as : List α) : (as.mapM f).InStep (as.mapM f') R E := by
  induction as with
  | nil => exact inStep_pure []
  | cons a as ih =>
    rw [List.mapM_cons, List.mapM_cons]
    exact (hf a).bind fun b => ih.bind fun bs => inStep_pure (b :: bs)

end Attempt

end Reclass
