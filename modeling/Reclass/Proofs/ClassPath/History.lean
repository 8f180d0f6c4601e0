import Mathlib.Data.List.Nodup
import Reclass.Proofs.ClassPath.Host

/-!
# Loaded classes over time

A name stands for one class to all loaders that see a class of that name, for each of them asks the
outermost root first (`ClassPath.definition?`). So a host that files its classes under name and
loader has one class for a name. Whatever is done to the host, and whether it succeeds or not, the
loaded classes are filed rightly (`ClassPathHost.Filed`), those that are there stay
(`Universe.Extends`), and a name that has been loaded once is that class for good
(`ClassPathHost.loaded_of_history`).
-/

set_option autoImplicit false

namespace Reclass

namespace ClassPath

variable {cp : ClassPath} {name : String} {loader loader' : LoaderId} {found found' : LoaderId × Bytes}

/-- What a name stands for to every loader that sees a class of that name: the loader that defines
the class, and its bytes. -/
def definition? (cp : ClassPath) (name : String) : Option (LoaderId × Bytes) :=
  match platformStub name with
  | some bytes => some (.bootstrap, bytes)
  | none => firstDefining name 0 cp.roots

/-- A class that the first roots of a list define is the one that the list defines. -/
theorem firstDefining_of_take {position n : Nat} {rs : List ClassPathRoot}
    (h : firstDefining name position (rs.take n) = some found) :
    firstDefining name position rs = some found := by
  induction rs generalizing position n with
  | nil =>
    rw [List.take_nil] at h
    exact h
  | cons r rs ih =>
    cases n with
    | zero => cases h
    | succ n =>
      rw [List.take_succ_cons, firstDefining] at h
      rw [firstDefining]
      cases hr : r.resources.get? name with
      | some own =>
        rw [hr] at h
        exact h
      | none =>
        rw [hr] at h
        exact ih h

/-- **Loaders that see a class of a name see the same one.** -/
theorem definition?_of_find (h : cp.find name loader = .ok (some found)) :
    cp.definition? name = some found := by
  unfold find at h
  unfold definition?
  cases hs : platformStub name with
  | some stub =>
    simp only [hs] at h
    exact Except.ok.inj h
  | none =>
    simp only [hs] at h
    by_cases hb : loader = .bootstrap
    · rw [if_pos hb] at h
      cases h
    · rw [if_neg hb] at h
      by_cases hl : cp.roots.length < loader.number
      · rw [if_pos hl] at h
        cases h
      · rw [if_neg hl] at h
        exact firstDefining_of_take (Except.ok.inj h)

end ClassPath

namespace Universe

variable {u u' u'' : Universe} {name : String} {loader : LoaderId} {bytes : Bytes} {i : Nat}

/-- A class at a position, by name and loader. -/
def Holds (u : Universe) (i : Nat) (name : String) (loader : LoaderId) : Prop :=
  ∃ d, u.classes[i]? = some d ∧ d.loaded.name = name ∧ d.loaded.loader = loader

/-- Classes are filed under name and loader, each by its position. -/
def Indexed (u : Universe) : Prop :=
  ∀ name loader i, u.index.lookup (name, loader) = some i ↔ u.Holds i name loader

/-- Every loaded class of the first universe is in its place in the second one, with its identity,
its name and its loader. -/
def Extends (u u' : Universe) : Prop :=
  ∀ (i : Nat) (d : Defined), u.classes[i]? = some d →
    ∃ d', u'.classes[i]? = some d' ∧ d'.loaded = d.loaded

theorem Extends.refl (u : Universe) : u.Extends u := fun _ d hd => ⟨d, hd, rfl⟩

theorem Extends.trans (h : u.Extends u') (h' : u'.Extends u'') : u.Extends u'' := by
  intro i d hd
  obtain ⟨d', hd', hloaded⟩ := h i d hd
  obtain ⟨d'', hd'', hloaded'⟩ := h' i d' hd'
  exact ⟨d'', hd'', hloaded'.trans hloaded⟩

theorem indexed_empty : empty.Indexed := by
  intro name loader i
  constructor
  · rintro ⟨⟩
  · rintro ⟨d, ⟨⟩, -⟩

/-- What is filed is what can be looked up. -/
theorem Indexed.get?_eq_some_iff (hu : u.Indexed) {c : LoadedClass} :
    u.get? name loader = some c ↔
      ∃ (i : Nat) (d : Defined),
        u.classes[i]? = some d ∧ d.loaded = c ∧ c.name = name ∧ c.loader = loader := by
  unfold get?
  constructor
  · intro h
    cases hi : u.index.lookup (name, loader) with
    | none =>
      rw [hi] at h
      cases h
    | some i =>
      rw [hi] at h
      obtain ⟨d, hd, hname, hloader⟩ := (hu name loader i).1 hi
      obtain ⟨d', hd', rfl⟩ := Option.map_eq_some_iff.1 h
      rw [hd] at hd'
      cases hd'
      exact ⟨i, d, hd, rfl, hname, hloader⟩
  · rintro ⟨i, d, hd, rfl, hname, hloader⟩
    have hi : u.index.lookup (name, loader) = some i := (hu name loader i).2 ⟨d, hd, hname, hloader⟩
    rw [hi]
    exact Option.map_eq_some_iff.2 ⟨d, hd, rfl⟩

/-- A name and a loader that nothing is filed under are those of no class. -/
theorem Indexed.not_holds (hu : u.Indexed) (h : u.get? name loader = none) (i : Nat) :
    ¬ u.Holds i name loader := by
  rintro ⟨d, hd, hname, hloader⟩
  have hsome := hu.get?_eq_some_iff.2 ⟨i, d, hd, rfl, hname, hloader⟩
  rw [h] at hsome
  cases hsome

theorem define_of_get?_eq_some {c : LoadedClass} (h : u.get? name loader = some c) :
    u.define name loader bytes = (c, u) := by
  rw [define, h]

theorem define_of_get?_eq_none (h : u.get? name loader = none) :
    u.define name loader bytes = (⟨u.classes.size, name, loader⟩,
      ⟨u.classes.push ⟨⟨u.classes.size, name, loader⟩, bytes, 0⟩,
        u.index ++ [((name, loader), u.classes.size)]⟩) := by
  rw [define, h]

theorem extends_define (u : Universe) (name : String) (loader : LoaderId) (bytes : Bytes) :
    u.Extends (u.define name loader bytes).2 := by
  cases h : u.get? name loader with
  | some c =>
    rw [define_of_get?_eq_some h]
    exact Extends.refl u
  | none =>
    rw [define_of_get?_eq_none h]
    intro i d hd
    obtain ⟨hlt, -⟩ := Array.getElem?_eq_some_iff.1 hd
    refine ⟨d, ?_, rfl⟩
    rw [Array.getElem?_push, if_neg (Nat.ne_of_lt hlt)]
    exact hd

theorem Indexed.define (hu : u.Indexed) : (u.define name loader bytes).2.Indexed := by
  cases h : u.get? name loader with
  | some c =>
    rw [define_of_get?_eq_some h]
    exact hu
  | none =>
    rw [define_of_get?_eq_none h]
    intro n l i
    rw [List.lookup_append, Holds]
    simp only [Array.getElem?_push]
    by_cases hkey : (n, l) = (name, loader)
    · -- the new class, which is the only one of its name and loader
      obtain ⟨rfl, rfl⟩ := Prod.mk.inj hkey
      have hnone : u.index.lookup (n, l) = none := by
        cases hi : u.index.lookup (n, l) with
        | none => rfl
        | some i => exact absurd ((hu n l i).1 hi) (hu.not_holds h i)
      rw [hnone, Option.none_or, List.lookup_cons_self]
      constructor
      · intro hi
        cases hi
        exact ⟨_, if_pos rfl, rfl, rfl⟩
      · rintro ⟨d, hd, hname, hloader⟩
        by_cases hi : i = u.classes.size
        · rw [hi]
        · rw [if_neg hi] at hd
          exact absurd ⟨d, hd, hname, hloader⟩ (hu.not_holds h i)
    · have hne : ((n, l) == (name, loader)) = false := beq_eq_false_iff_ne.2 hkey
      rw [List.lookup_cons, hne, List.lookup_nil, Option.or_none, hu n l i]
      constructor
      · rintro ⟨d, hd, hname, hloader⟩
        obtain ⟨hlt, -⟩ := Array.getElem?_eq_some_iff.1 hd
        exact ⟨d, by rw [if_neg (Nat.ne_of_lt hlt)]; exact hd, hname, hloader⟩
      · rintro ⟨d, hd, hname, hloader⟩
        by_cases hi : i = u.classes.size
        · rw [if_pos hi] at hd
          cases hd
          exact absurd (Prod.ext hname.symm hloader.symm) hkey
        · rw [if_neg hi] at hd
          exact ⟨d, hd, hname, hloader⟩

/-- What a load yields is in its place afterwards, under its name. -/
theorem Indexed.loaded_define (hu : u.Indexed) (name : String) (loader : LoaderId)
    (bytes : Bytes) :
    ∃ (i : Nat) (d : Defined), (u.define name loader bytes).2.classes[i]? = some d ∧
      d.loaded = (u.define name loader bytes).1 ∧ d.loaded.name = name := by
  cases h : u.get? name loader with
  | some c =>
    rw [define_of_get?_eq_some h]
    obtain ⟨i, d, hd, rfl, hname, -⟩ := hu.get?_eq_some_iff.1 h
    exact ⟨i, d, hd, rfl, hname⟩
  | none =>
    rw [define_of_get?_eq_none h]
    refine ⟨u.classes.size, ⟨⟨u.classes.size, name, loader⟩, bytes, 0⟩, ?_, rfl, rfl⟩
    rw [Array.getElem?_push, if_pos rfl]

/-- Classes stay in their places when each place has the class that it had. -/
theorem extends_of_loaded
    (h : ∀ i : Nat, u'.classes[i]?.map Defined.loaded = u.classes[i]?.map Defined.loaded) :
    u.Extends u' := by
  intro i d hd
  have hi := h i
  rw [hd, Option.map_some] at hi
  exact Option.map_eq_some_iff.1 hi

theorem Indexed.of_loaded (hu : u.Indexed)
    (h : ∀ i : Nat, u'.classes[i]?.map Defined.loaded = u.classes[i]?.map Defined.loaded)
    (hindex : u'.index = u.index) : u'.Indexed := by
  intro name loader i
  rw [hindex, hu name loader i]
  constructor
  · rintro ⟨d, hd, hname, hloader⟩
    obtain ⟨d', hd', hloaded⟩ := extends_of_loaded h i d hd
    exact ⟨d', hd', hloaded ▸ hname, hloaded ▸ hloader⟩
  · rintro ⟨d', hd', hname, hloader⟩
    obtain ⟨d, hd, hloaded⟩ := extends_of_loaded (fun i => (h i).symm) i d' hd'
    exact ⟨d, hd, hloaded ▸ hname, hloaded ▸ hloader⟩

end Universe

namespace ClassPathHost

variable {ρ : Type} {path : ClassPath} {host : ClassPathHost ρ} {u : Universe}
  {s : ClassPathHost ρ × ρ} {name : String} {loader : LoaderId}

/-- The classes of the host are loaded from the class path and filed under name and loader. -/
structure Filed (path : ClassPath) (host : ClassPathHost ρ) : Prop where
  path_eq : host.path = path
  numbered : host.loaded.Numbered
  indexed : host.loaded.Indexed
  placed : ∀ (i : Nat) (d : Defined), host.loaded.classes[i]? = some d →
    ∃ bytes, path.definition? d.loaded.name = some (d.loaded.loader, bytes)

/-- A host that files its classes, and has every class that was loaded before. -/
structure Keeps (path : ClassPath) (u : Universe) (s : ClassPathHost ρ × ρ) : Prop where
  filed : s.1.Filed path
  later : u.Extends s.1.loaded

theorem filed_new (path : ClassPath) : (new path : ClassPathHost ρ).Filed path where
  path_eq := rfl
  numbered := Universe.numbered_empty
  indexed := Universe.indexed_empty
  placed i d hd := by cases hd

namespace Filed

/-- Classes of one name have one loader, and so one place. -/
theorem eq_of_name_eq (hf : host.Filed path) {i j : Nat} {d d' : Defined}
    (hd : host.loaded.classes[i]? = some d) (hd' : host.loaded.classes[j]? = some d')
    (hname : d.loaded.name = d'.loaded.name) : i = j := by
  obtain ⟨bytes, hplaced⟩ := hf.placed i d hd
  obtain ⟨bytes', hplaced'⟩ := hf.placed j d' hd'
  rw [hname, hplaced'] at hplaced
  obtain ⟨hloader, -⟩ := Prod.mk.inj (Option.some.inj hplaced)
  have hi : host.loaded.index.lookup (d.loaded.name, d.loaded.loader) = some i :=
    (hf.indexed _ _ i).2 ⟨d, hd, rfl, rfl⟩
  have hj : host.loaded.index.lookup (d.loaded.name, d.loaded.loader) = some j :=
    (hf.indexed _ _ j).2 ⟨d', hd', hname.symm, hloader⟩
  rw [hi] at hj
  exact Option.some.inj hj

theorem nodup_names (hf : host.Filed path) :
    (host.loaded.loadedClasses.map LoadedClass.name).Nodup := by
  rw [Universe.loadedClasses, List.map_map]
  refine List.nodup_iff_injective_getElem.2 ?_
  rintro ⟨i, hi⟩ ⟨j, hj⟩ hij
  rw [List.length_map, Array.length_toList] at hi hj
  simp only [List.getElem_map, Function.comp_apply, Array.getElem_toList] at hij
  exact Fin.ext (hf.eq_of_name_eq (Array.getElem?_eq_getElem hi) (Array.getElem?_eq_getElem hj) hij)

/-- What a loader finds is loaded once, into the place of its name. -/
theorem define (hf : host.Filed path) {defining : LoaderId} {found : Bytes}
    (hfind : path.find name loader = .ok (some (defining, found))) (bytes : Bytes) :
    Filed path { host with loaded := (host.loaded.define name defining bytes).2 } := by
  cases h : host.loaded.get? name defining with
  | some c =>
    rw [Universe.define_of_get?_eq_some h]
    exact hf
  | none =>
    refine ⟨hf.path_eq, hf.numbered.define h, hf.indexed.define, ?_⟩
    intro i d hd
    rw [Universe.classes_define h, Array.getElem?_push] at hd
    by_cases hi : i = host.loaded.classes.size
    · rw [if_pos hi] at hd
      cases hd
      exact ⟨found, ClassPath.definition?_of_find hfind⟩
    · rw [if_neg hi] at hd
      exact hf.placed i d hd

/-- Bytes may be replaced. -/
theorem of_loaded (hf : host.Filed path)
    (h : ∀ i : Nat, u.classes[i]?.map Defined.loaded = host.loaded.classes[i]?.map Defined.loaded)
    (hindex : u.index = host.loaded.index) : Filed path { host with loaded := u } := by
  -- a class that is in a place was there before
  have earlier := Universe.extends_of_loaded fun i => (h i).symm
  refine ⟨hf.path_eq, ?_, hf.indexed.of_loaded h hindex, ?_⟩
  · intro i d hd
    obtain ⟨d₀, hd₀, hloaded⟩ := earlier i d hd
    rw [← hloaded]
    exact hf.numbered i d₀ hd₀
  · intro i d hd
    obtain ⟨d₀, hd₀, hloaded⟩ := earlier i d hd
    rw [← hloaded]
    exact hf.placed i d₀ hd₀

end Filed

/-- A load that finds the class yields the class in its place; one that does not find it changes
nothing. -/
theorem loadClass_defines (host : ClassPathHost ρ) (name : String) (loader : LoaderId) (r : ρ) :
    (loadClass name loader).Ensures (host, r) fun res s' =>
      ((∀ c, res ≠ .ok c) ∧ s'.1 = host) ∨
      ∃ defining found bytes, host.path.find name loader = .ok (some (defining, found)) ∧
        res = .ok (host.loaded.define name defining bytes).1 ∧
        s'.1 = { host with loaded := (host.loaded.define name defining bytes).2 } := by
  rw [loadClass]
  simp only [Attempt.ensures_bind, Attempt.ensures_act, Act.ensures_gets]
  cases hfind : host.path.find name loader with
  | error cause =>
    refine Or.inl ⟨fun c hc => ?_, rfl⟩
    cases hc
  | ok found =>
    cases found with
    | none =>
      refine Or.inl ⟨fun c hc => ?_, rfl⟩
      cases hc
    | some found =>
      obtain ⟨defining, bytes⟩ := found
      cases hget : host.loaded.get? name defining with
      | some c =>
        -- loaded already, and left as it is
        simp only [hget, Attempt.ensures_pure]
        refine Or.inr ⟨defining, bytes, bytes, rfl, ?_, ?_⟩
        · rw [Universe.define_of_get?_eq_some hget]
        · rw [Universe.define_of_get?_eq_some hget]
      | none =>
        simp only [hget, Attempt.ensures_bind, Attempt.ensures_act, Act.ensures_zoom]
        exact Act.Ensures.of_forall fun bytes' r' => Or.inr ⟨defining, bytes, bytes', rfl, rfl, rfl⟩

theorem loadClass_keeps (path : ClassPath) (u : Universe) (name : String) (loader : LoaderId) :
    (loadClass name loader).Preserves (Keeps (ρ := ρ) path u) := by
  rintro ⟨host, r⟩ hs
  refine (loadClass_defines host name loader r).imp fun res s' h => ?_
  obtain rfl : host.path = path := hs.filed.path_eq
  rcases h with ⟨-, hhost⟩ | ⟨defining, found, bytes, hfind, -, hhost⟩
  · exact ⟨hhost ▸ hs.filed, hhost ▸ hs.later⟩
  · refine ⟨?_, ?_⟩
    · rw [hhost]
      exact hs.filed.define hfind bytes
    · rw [hhost]
      exact hs.later.trans (Universe.extends_define host.loaded name defining bytes)

/-- What each load preserves, a list of loads preserves. -/
theorem loadEach_preserves {P : ClassPathHost ρ × ρ → Prop}
    (hload : ∀ name loader, (loadClass name loader).Preserves P)
    (list : List (String × LoaderId)) : (loadEach list).Preserves P := by
  induction list with
  | nil => exact Attempt.preserves_pure 0 _
  | cons entry list ih =>
    obtain ⟨name, loader⟩ := entry
    rw [loadEach]
    refine (hload name loader).bind fun _ => ?_
    exact ih.bind fun count => Attempt.preserves_pure (count + 1) _

theorem loadAll_preserves {P : ClassPathHost ρ × ρ → Prop}
    (hload : ∀ name loader, (loadClass name loader).Preserves P) (skip : String → Bool) :
    (loadAll skip).Preserves P := by
  rw [loadAll]
  refine (Attempt.preserves_act (Act.preserves_gets _ _)).bind fun host => ?_
  refine (loadEach_preserves hload _).bind fun count => ?_
  exact (Attempt.preserves_act fun _ hs => hs).bind fun _ => Attempt.preserves_pure count _

theorem redefine_keeps (path : ClassPath) (u : Universe) (ds : List ClassDefinition) :
    (Act.zoom .fst (redefine ds)).Preserves (Keeps (ρ := ρ) path u) := by
  rintro ⟨host, r⟩ hs
  rw [Act.ensures_zoom, redefine, Act.ensures_modifyGet]
  show Keeps path u (_, r)
  cases hred : host.loaded.redefine ds with
  | error e =>
    simp only [Lens.fst, hred]
    exact hs
  | ok loaded =>
    simp only [Lens.fst, hred]
    obtain ⟨-, rfl⟩ := Universe.redefine_eq_ok hred
    have hloaded := Universe.loaded_foldl_replace host.loaded ds
    exact ⟨hs.filed.of_loaded hloaded (Universe.index_foldl_replace host.loaded ds),
      hs.later.trans (Universe.extends_of_loaded hloaded)⟩

/-- What can be asked of a host. -/
inductive Operation (ρ : Type) where
  | loadClass (name : String) (loader : LoaderId)
  | loadAll (skip : String → Bool)
  | redefine (ds : List ClassDefinition)
  | addTransformer (t : Transformer ρ)

namespace Operation

/-- Does what is asked for; the answer is left aside. -/
def perform : Operation ρ → Act (ClassPathHost ρ × ρ) Unit
  | loadClass name loader => do let _ ← (ClassPathHost.loadClass name loader).result
  | loadAll skip => do let _ ← (ClassPathHost.loadAll skip).result
  | redefine ds => do let _ ← Act.zoom .fst (ClassPathHost.redefine ds)
  | addTransformer t => Act.zoom .fst (ClassPathHost.addTransformer t)

/-- The state after a list of operations. -/
def after (ops : List (Operation ρ)) (s : ClassPathHost ρ × ρ) : ClassPathHost ρ × ρ :=
  ops.foldl (fun s op => (op.perform.run s).state) s

/-- **What the parts of the operations preserve, every history preserves**, whether its operations
succeed or not. -/
theorem after_preserves {P : ClassPathHost ρ × ρ → Prop}
    (hload : ∀ name loader, (ClassPathHost.loadClass name loader).Preserves P)
    (hredefine : ∀ ds, (Act.zoom .fst (ClassPathHost.redefine ds)).Preserves P)
    (hadd : ∀ t, (Act.zoom .fst (ClassPathHost.addTransformer t)).Preserves P)
    (ops : List (Operation ρ)) (hs : P s) : P (after ops s) := by
  have hperform : ∀ op : Operation ρ, op.perform.Preserves P := by
    intro op
    cases op with
    | loadClass name loader => exact (hload name loader).result.discard
    | loadAll skip => exact (loadAll_preserves hload skip).result.discard
    | redefine ds => exact (hredefine ds).discard
    | addTransformer t => exact hadd t
  induction ops generalizing s with
  | nil => exact hs
  | cons op ops ih => exact ih (hperform op s hs)

/-- **No operation breaks the order of the classes.** -/
theorem after_keeps (ops : List (Operation ρ)) (hs : Keeps path u s) :
    Keeps path u (after ops s) :=
  after_preserves (loadClass_keeps path u) (redefine_keeps path u)
    (fun _ _ hs => ⟨⟨hs.filed.path_eq, hs.filed.numbered, hs.filed.indexed, hs.filed.placed⟩,
      hs.later⟩) ops hs

end Operation

/-- Whatever has been done to a new host, its classes are filed. -/
theorem filed_after (path : ClassPath) (start : ρ) (ops : List (Operation ρ)) :
    (Operation.after ops (new path, start)).1.Filed path :=
  (Operation.after_keeps ops ⟨filed_new path, Universe.Extends.refl _⟩).filed

/-- A load from the state `s` yields the class and leaves `s'`. -/
def Yields (name : String) (loader : LoaderId) (c : LoadedClass) (s s' : ClassPathHost ρ × ρ) :
    Prop :=
  (loadClass name loader).Ensures s fun res s₁ => res = .ok c ∧ s₁ = s'

theorem Yields.getElem? {c : LoadedClass} {s' : ClassPathHost ρ × ρ}
    (h : Yields name loader c s s') (hf : s.1.Filed path) :
    ∃ (i : Nat) (d : Defined), s'.1.loaded.classes[i]? = some d ∧ d.loaded = c ∧ c.name = name := by
  obtain ⟨host, r⟩ := s
  have hdefines := loadClass_defines host name loader r
  unfold Yields at h
  unfold Attempt.Ensures Act.Ensures at h hdefines
  obtain ⟨hok, rfl⟩ := h
  rcases hdefines with ⟨hnot, -⟩ | ⟨defining, found, bytes, -, hres, hhost⟩
  · exact absurd hok (hnot c)
  · rw [hok] at hres
    cases hres
    obtain ⟨i, d, hd, hloaded, hname⟩ := hf.indexed.loaded_define name defining bytes
    refine ⟨i, d, ?_, hloaded, hloaded ▸ hname⟩
    rw [hhost]
    exact hd

theorem Yields.keeps {c : LoadedClass} {s' : ClassPathHost ρ × ρ} (h : Yields name loader c s s')
    (hs : Keeps path u s) : Keeps path u s' := by
  have hkeeps := loadClass_keeps path u name loader s hs
  unfold Yields at h
  unfold Attempt.Ensures Act.Ensures at h hkeeps
  obtain ⟨-, rfl⟩ := h
  exact hkeeps

/-- **The universe of a host is in order after every history.**

After `before`, every class has its place as its identity, the index has the place of each name and
loader of a loaded class and no other, and no two classes have the same name. All classes stay in
their places under whatever comes later, and a name that has been loaded is that class from then
on, for every loader that a load succeeds from. -/
theorem universe_of_history (path : ClassPath) (start : ρ) (before : List (Operation ρ)) :
    let s := Operation.after before (new path, start)
    s.1.loaded.Numbered ∧ s.1.loaded.Indexed ∧
      (s.1.loaded.loadedClasses.map LoadedClass.name).Nodup ∧
      ∀ later : List (Operation ρ),
        s.1.loaded.Extends (Operation.after later s).1.loaded ∧
        ∀ name loader c s₁, Yields name loader c s s₁ →
          ∀ loader' c' s₂, Yields name loader' c' (Operation.after later s₁) s₂ → c' = c := by
  intro s
  have hs : Keeps path s.1.loaded s := by
    have hstart : Keeps path .empty ((new path : ClassPathHost ρ), start) :=
      ⟨filed_new path, Universe.Extends.refl _⟩
    exact ⟨(Operation.after_keeps before hstart).filed, Universe.Extends.refl _⟩
  refine ⟨hs.filed.numbered, hs.filed.indexed, hs.filed.nodup_names, fun later => ⟨?_, ?_⟩⟩
  · exact (Operation.after_keeps later hs).later
  · intro name loader c s₁ hc loader' c' s₂ hc'
    -- both classes are in their places in the end
    have hs₁ : Keeps path s₁.1.loaded s₁ := ⟨(hc.keeps hs).filed, Universe.Extends.refl _⟩
    have hbetween : Keeps path s₁.1.loaded (Operation.after later s₁) :=
      Operation.after_keeps later hs₁
    have hs₂ : Keeps path s₁.1.loaded s₂ := hc'.keeps hbetween
    obtain ⟨i, d, hd, rfl, hname⟩ := hc.getElem? hs.filed
    obtain ⟨d₂, hd₂, hloaded⟩ := hs₂.later i d hd
    obtain ⟨j, d', hd', rfl, hname'⟩ := hc'.getElem? hbetween.filed
    -- and their name has one place
    have hij : j = i := hs₂.filed.eq_of_name_eq hd' hd₂ (by rw [hloaded, hname, hname'])
    subst hij
    rw [hd₂] at hd'
    cases hd'
    exact hloaded

/-- A class that two roots define is loaded once, although an unknown loader is asked for it first
and the inner loader before the outer one. -/
theorem universe_of_history_shadowed_class :
    let own : ClassSketch := ClassSketch.new "p/A"
    let path : ClassPath := ⟨[⟨"a", .ofList [("p/A", own.encode)]⟩,
      ⟨"b", .ofList [("p/A", (own.withMethod "m" "()V").encode), ("p/B", [])]⟩]⟩
    let s := Operation.after [.loadClass "p/A" ⟨3⟩, .loadClass "p/B" ⟨1⟩]
      ((new path : ClassPathHost Unit), ())
    let first := (loadClass "p/A" ⟨2⟩).result.run s
    let second := (loadClass "p/A" ⟨1⟩).result.run (Operation.after [.loadAll fun _ => false]
      first.state)
    let c : LoadedClass := ⟨0, "p/A", ⟨1⟩⟩
    first.value = .ok c ∧ ∃ c', second.value = .ok c' ∧ c' = c ∧
      second.state.1.loaded.loadedClasses = [c, ⟨1, "p/B", ⟨2⟩⟩] := by
  intro own path s first second c
  have hfirst : first.value = .ok c := by decide +kernel
  have hsecond : second.value = .ok ⟨0, "p/A", ⟨1⟩⟩ := by decide +kernel
  have hhistory := (universe_of_history path () [.loadClass "p/A" ⟨3⟩, .loadClass "p/B" ⟨1⟩]).2.2.2
    [.loadAll fun _ => false]
  refine ⟨hfirst, ⟨0, "p/A", ⟨1⟩⟩, hsecond, ?_, by decide +kernel⟩
  exact hhistory.2 "p/A" ⟨2⟩ c first.state ⟨hfirst, rfl⟩ ⟨1⟩ _ second.state ⟨hsecond, rfl⟩

end ClassPathHost

end Reclass
