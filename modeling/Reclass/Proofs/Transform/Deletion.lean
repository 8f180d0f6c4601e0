import Reclass.ClassFile.Builder
import Reclass.Proofs.ClassFile.Methods
import Reclass.Transform.Deleter

/-!
# What deleting methods does to the bytes of a class

From a class that it applies to, the edit cuts out the ranges of the methods of one name and
lowers their number; every other byte stays in its place. It fails when the bytes are no class file
or some method name cannot be decoded, and leaves a class alone that has no method of the name
(`MethodDeleter.edit_splices`). So a second edit finds nothing to do.
-/

set_option autoImplicit false

namespace Reclass.MethodDeleter

variable {σ : Type} {method : String} {bytes : Bytes} {cf : ClassFile}

/-! ### What is deleted -/

theorem delete_of_names {names : List String} (hparse : ClassFile.parse bytes = .ok cf)
    (hnames : cf.methodNames = .ok names) : delete method bytes =
      .ok (if cf.timesCalled method = 0 then none
        else some ((cf.without method).encode, cf.timesCalled method)) := by
  rw [delete, hparse]
  simp only [bind, Except.bind, ClassFile.removeMethods_of_names hnames]
  by_cases hnone : cf.timesCalled method = 0
  · rw [if_pos hnone, if_pos hnone]
    rfl
  · rw [if_neg hnone, if_neg hnone]
    rfl

theorem delete_eq_error_iff {fault : ClassFormatError} : delete method bytes = .error fault ↔
    ClassFile.parse bytes = .error fault ∨
      ∃ cf, ClassFile.parse bytes = .ok cf ∧ cf.methodNames = .error fault := by
  cases hparse : ClassFile.parse bytes with
  | error fault' =>
    rw [delete, hparse]
    simp [bind, Except.bind]
  | ok cf =>
    cases hnames : cf.methodNames with
    | error fault' =>
      rw [delete, hparse]
      simp [bind, Except.bind, ClassFile.removeMethods, hnames]
    | ok names => simp [delete_of_names hparse hnames, hnames]

theorem delete_eq_none_iff : delete method bytes = .ok none ↔
    ∃ cf, ClassFile.parse bytes = .ok cf ∧
      ∀ m ∈ cf.methods, ∃ name, cf.pool.text m.nameIndex = .ok name ∧ name ≠ method := by
  cases hparse : ClassFile.parse bytes with
  | error fault =>
    rw [delete_eq_error_iff.2 (Or.inl hparse)]
    exact iff_of_false nofun (by rintro ⟨cf, ⟨⟩, -⟩)
  | ok cf =>
    cases hnames : cf.methodNames with
    | error fault =>
      rw [delete_eq_error_iff.2 (Or.inr ⟨cf, hparse, hnames⟩)]
      refine iff_of_false nofun ?_
      rintro ⟨_, ⟨⟩, hall⟩
      obtain ⟨names, hnames'⟩ :=
        cf.exists_methodNames_iff.2 fun m hm => (hall m hm).imp fun _ h => h.1
      rw [hnames] at hnames'
      cases hnames'
    | ok names =>
      have hdecode := cf.exists_methodNames_iff.1 ⟨names, hnames⟩
      rw [delete_of_names hparse hnames, Except.ok.injEq]
      by_cases hnone : cf.timesCalled method = 0
      · rw [if_pos hnone]
        refine iff_of_true rfl ⟨cf, rfl, fun m hm => ?_⟩
        obtain ⟨name, hname⟩ := hdecode m hm
        refine ⟨name, hname, ?_⟩
        rintro rfl
        exact ClassFile.timesCalled_eq_zero_iff.1 hnone m hm hname
      · rw [if_neg hnone]
        refine iff_of_false nofun ?_
        rintro ⟨_, ⟨⟩, hall⟩
        refine hnone (ClassFile.timesCalled_eq_zero_iff.2 fun m hm hcalled => ?_)
        obtain ⟨name, hname, hne⟩ := hall m hm
        exact hne (Except.ok.inj (hname.symm.trans hcalled))

theorem delete_of_declares (hparse : ClassFile.parse bytes = .ok cf) (h : cf.Declares method) :
    ∃ removed, delete method bytes = .ok (some ((cf.without method).encode, removed)) := by
  obtain ⟨names, hnames, -⟩ := id h
  have hcalled : cf.timesCalled method ≠ 0 :=
    Nat.pos_iff_ne_zero.1 (ClassFile.timesCalled_pos_iff.2 ((cf.declares_iff method).1 h).2)
  rw [delete_of_names hparse hnames, if_neg hcalled]
  exact ⟨_, rfl⟩

theorem delete_of_not_declares (h : ∀ cf, ClassFile.parse bytes = .ok cf → ¬ cf.Declares method) :
    (∃ fault, delete method bytes = .error fault) ∨ delete method bytes = .ok none := by
  cases hparse : ClassFile.parse bytes with
  | error fault => exact Or.inl ⟨fault, delete_eq_error_iff.2 (Or.inl hparse)⟩
  | ok cf =>
    cases hnames : cf.methodNames with
    | error fault => exact Or.inl ⟨fault, delete_eq_error_iff.2 (Or.inr ⟨cf, hparse, hnames⟩)⟩
    | ok names =>
      have hnone : cf.timesCalled method = 0 := by
        by_contra hne
        exact h cf hparse ((cf.declares_iff method).2
          ⟨(except_exists_mapM_eq_ok_iff _ _).1 ⟨names, hnames⟩,
            ClassFile.timesCalled_pos_iff.1 (Nat.pos_of_ne_zero hne)⟩)
      rw [delete_of_names hparse hnames, if_pos hnone]
      exact Or.inr rfl

/-- What becomes of a class without the methods of a name. -/
def outcome (method : String) (_ : String) (bytes : Bytes) : EditOutcome :=
  match delete method bytes with
  | .error fault => .failed (.malformed fault)
  | .ok none => .done none
  | .ok (some (edited, _)) => .done (some edited)

/-- A class that the edit applies to loses the methods, whatever its name. -/
theorem edit_ensures {d : MethodDeleter σ} {K : σ → Prop} {r : TransformRequest} {s : σ}
    (h : (d.accepts r.className r.loader).Ensures s fun accepted s' => accepted = true ∧ K s') :
    (d.edit r).Ensures s fun o s' =>
      o = outcome d.method (ClassName.qualified r.className) r.bytes ∧ K s' := by
  rw [edit, Act.ensures_bind]
  refine h.imp fun accepted s' h => ?_
  obtain ⟨rfl, hs'⟩ := h
  rw [Bool.not_true, if_neg Bool.false_ne_true, outcome]
  cases hdelete : delete d.method r.bytes with
  | error fault => exact ⟨rfl, hs'⟩
  | ok found =>
    cases found with
    | none => exact ⟨rfl, hs'⟩
    | some edited => exact ⟨rfl, hs'⟩

/-! ### The splice -/

theorem outcome_failed_iff (name : String) :
    (∃ cause, outcome method name bytes = .failed cause) ↔
      (∃ fault, ClassFile.parse bytes = .error fault) ∨
        ∃ cf, ClassFile.parse bytes = .ok cf ∧
          ∃ m ∈ cf.methods, ∃ fault, cf.pool.text m.nameIndex = .error fault := by
  have hdelete : (∃ cause, outcome method name bytes = .failed cause) ↔
      ∃ fault, delete method bytes = .error fault := by
    rw [outcome]
    cases delete method bytes with
    | error fault => exact iff_of_true ⟨_, rfl⟩ ⟨fault, rfl⟩
    | ok found =>
      cases found with
      | none => exact iff_of_false nofun nofun
      | some edited => exact iff_of_false nofun nofun
  simp only [hdelete, delete_eq_error_iff, exists_or]
  refine or_congr_right ?_
  constructor
  · rintro ⟨fault, cf, hparse, hnames⟩
    obtain ⟨before, m, after, hmethods, -, hfault⟩ := (except_mapM_eq_error_iff _ _ _).1 hnames
    have hm : m ∈ cf.methods := by
      rw [hmethods]
      exact List.mem_append_right _ List.mem_cons_self
    exact ⟨cf, hparse, m, hm, fault, hfault⟩
  · rintro ⟨cf, hparse, m, hm, fault, hfault⟩
    cases hnames : cf.methodNames with
    | error fault' => exact ⟨fault', cf, hparse, hnames⟩
    | ok names =>
      obtain ⟨name, hname⟩ := cf.exists_methodNames_iff.1 ⟨names, hnames⟩ m hm
      rw [hfault] at hname
      cases hname

theorem outcome_none_iff (name : String) : outcome method name bytes = .done none ↔
    ∃ cf, ClassFile.parse bytes = .ok cf ∧
      ∀ m ∈ cf.methods, ∃ name, cf.pool.text m.nameIndex = .ok name ∧ name ≠ method := by
  rw [← delete_eq_none_iff, outcome]
  cases delete method bytes with
  | error fault => exact iff_of_false nofun nofun
  | ok found =>
    cases found with
    | none => exact iff_of_true rfl rfl
    | some edited => exact iff_of_false nofun nofun

/-- Without methods to delete there is nothing to do, whether or not the edit applies. -/
theorem edit_ensures_none {d : MethodDeleter σ} {r : TransformRequest}
    (h : ∀ name, outcome d.method name r.bytes = .done none) (s : σ) :
    (d.edit r).Ensures s fun o _ => o = .done none := by
  cases haccepts : ((d.accepts r.className r.loader).run s).value with
  | false =>
    rw [edit, Act.ensures_bind, Act.Ensures, haccepts]
    exact rfl
  | true =>
    have hedit := edit_ensures (d := d) (K := fun _ => True) (r := r) (s := s) ⟨haccepts, trivial⟩
    exact hedit.imp fun o _ ho => ho.1.trans (h _)

/-- **Deleting methods is a splice.** An edit that applies to a class fails exactly when the bytes
are no class file or some method name cannot be decoded, and does nothing exactly when all method
names can be decoded and none of them is the name to delete. From any other class file it cuts out
the ranges of the methods of that name, of which there are some; what is left is the class file
without them, and a second edit does nothing to it. -/
theorem edit_splices {d : MethodDeleter σ} {r : TransformRequest} {s : σ}
    (h : (d.accepts r.className r.loader).Ensures s fun accepted _ => accepted = true) :
    (d.edit r).Ensures s fun result _ =>
      ((∃ cause, result = .failed cause) ↔
        (∃ fault, ClassFile.parse r.bytes = .error fault) ∨
          ∃ cf, ClassFile.parse r.bytes = .ok cf ∧
            ∃ m ∈ cf.methods, ∃ fault, cf.pool.text m.nameIndex = .error fault) ∧
      (result = .done none ↔ ∃ cf, ClassFile.parse r.bytes = .ok cf ∧
        ∀ m ∈ cf.methods, ∃ name, cf.pool.text m.nameIndex = .ok name ∧ name ≠ d.method) ∧
      ∀ cf, ClassFile.parse r.bytes = .ok cf →
        (∀ m ∈ cf.methods, ∃ name, cf.pool.text m.nameIndex = .ok name) →
        (∃ m ∈ cf.methods, cf.pool.text m.nameIndex = .ok d.method) →
        ∃ out, result = .done (some out) ∧ 0 < cf.timesCalled d.method ∧
          cf.Spliced d.method r.bytes out ∧ ClassFile.parse out = .ok (cf.without d.method) ∧
          ∀ s', (d.edit { r with bytes := out }).Ensures s' fun again _ => again = .done none := by
  have hedit := edit_ensures (d := d) (K := fun _ => True) (r := r) (s := s)
    (h.imp fun _ _ haccepted => ⟨haccepted, trivial⟩)
  refine hedit.imp fun result _ hresult => ?_
  obtain ⟨rfl, -⟩ := hresult
  refine ⟨outcome_failed_iff _, outcome_none_iff _, fun cf hparse hdecode hcalled => ?_⟩
  obtain ⟨m, hm, htext⟩ := id hcalled
  have hrep := ((ClassFile.parse_eq_ok_iff _ _).1 hparse).1
  have hparse' : ClassFile.parse (cf.without d.method).encode = .ok (cf.without d.method) :=
    ClassFile.parse_encode (hrep.without d.method)
  refine ⟨(cf.without d.method).encode, ?_, ClassFile.timesCalled_pos_iff.2 hcalled, ?_, hparse',
    edit_ensures_none fun name => ?_⟩
  · obtain ⟨removed, hdelete⟩ :=
      delete_of_declares hparse ((cf.declares_iff d.method).2 ⟨hdecode, hcalled⟩)
    rw [outcome, hdelete]
  · have hspliced := ClassFile.spliced_without hrep d.method
    rwa [ClassFile.encode_of_text hparse htext] at hspliced
  · refine (outcome_none_iff name).2 ⟨cf.without d.method, hparse', fun m' hm' => ?_⟩
    obtain ⟨hm', hne⟩ := ClassFile.mem_without.1 hm'
    obtain ⟨name', hname'⟩ := hdecode m' hm'
    refine ⟨name', hname', ?_⟩
    rintro rfl
    exact hne hname'

/-- A class that has the method `m` twice, with another one between them. -/
def overloaded : ClassSketch :=
  (((ClassSketch.new "p.A").withMethod "m" "()V").withMethod "n" "()V").withMethod "m" "()I"

/-- The edit that deletes `m` from the class. -/
def deleteM : MethodDeleter Unit := ⟨"p/A", "m", none⟩

theorem edit_splices_overloaded :
    (deleteM.edit ⟨.bootstrap, "p/A", none, overloaded.encode⟩).Ensures () fun result _ =>
      ∃ out, result = .done (some out) ∧ overloaded.classFile.timesCalled "m" = 2 ∧
        overloaded.classFile.Spliced "m" overloaded.encode out ∧
        ClassFile.parse out = .ok (overloaded.classFile.without "m") := by
  have hfile : ClassFile.parse overloaded.encode = .ok overloaded.classFile := by decide +kernel
  have haccepts : (deleteM.accepts "p/A" .bootstrap).Ensures () fun accepted _ =>
      accepted = true := rfl
  have hnames : overloaded.classFile.methodNames = .ok ["m", "n", "m"] := by decide +kernel
  have hdeclares := (overloaded.classFile.declares_iff "m").1 ⟨_, hnames, by simp⟩
  refine (edit_splices haccepts).imp fun result _ h => ?_
  obtain ⟨out, hresult, -, hspliced, hparse, -⟩ := h.2.2 _ hfile hdeclares.1 hdeclares.2
  exact ⟨out, hresult, by decide +kernel, hspliced, hparse⟩

end Reclass.MethodDeleter
