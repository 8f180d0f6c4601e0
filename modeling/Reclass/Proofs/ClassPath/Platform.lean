import Reclass.Proofs.ClassPath.Delegation
import Reclass.Proofs.ClassPath.Loaders

/-!
# Ancestors on the platform

Every name that begins with `java/` has a class, made up when it is asked for. It is written with
that name in a constant and read back, which goes wrong for a name that no constant has room for.
A name that stands in a class file is none of these: it was decoded from a constant, and encoding it
takes no more bytes than it was decoded from (`ClassHeader.length_encode_of_mem_names`), whatever
they are. So no search for ancestors ends at a platform class that does not resolve
(`ClassPath.platform_ancestors_resolve`).
-/

set_option autoImplicit false

namespace Reclass.ClassPath

open Hierarchy (Stands ResolvesTo isAssignableFrom)

variable {cp : ClassPath} {n : String}

/-- A platform class resolves when a constant has room for its name. -/
theorem typeFacts_of_platform (cp : ClassPath) (loader : LoaderId)
    (hlength : (Text.ModifiedUtf8.encode n).length ≤ 65535) (hinternal : ClassName.internal n = n)
    (hplatform : Text.startsWith n "java/" = true) :
    ∃ header, typeFacts cp.answer loader n = .ok header ∧ header.interfaces = [] ∧
      (n = objectName ∧ header.superName = none ∨
        n ≠ objectName ∧ header.superName = some objectName) := by
  by_cases hroot : n = objectName
  · obtain ⟨root, hfact, hsuper, hinterfaces⟩ := cp.typeFacts_root loader
    exact ⟨root, hroot ▸ hfact, hinterfaces, Or.inl ⟨hroot, hsuper⟩⟩
  · have hstub : platformStub n = some (ClassSketch.new n).encode := by
      rw [platformStub, if_neg hroot, if_pos hplatform]
    refine ⟨⟨0, ClassSketch.majorVersion, .union .isPublic .isSuper, ClassName.internal n,
      some objectName, []⟩, ?_, rfl, Or.inr ⟨hroot, rfl⟩⟩
    rw [typeFacts, answer_of_platformStub hstub, ClassHeader.ofAnswer,
      ClassSketch.parse_new hlength]
    exact if_neg (not_not.2 hinternal)

/-- It is assignable to the root type. -/
theorem assignable_of_platform (cp : ClassPath) (loader : LoaderId)
    (hlength : (Text.ModifiedUtf8.encode n).length ≤ 65535) (hinternal : ClassName.internal n = n)
    (hplatform : Text.startsWith n "java/" = true) :
    cp.assignable objectName n loader = .ok true := by
  rw [assignable, hinternal, show ClassName.internal objectName = objectName by decide]
  by_cases hroot : objectName = n
  · exact if_pos hroot
  · obtain ⟨header, hfact, hends⟩ := cp.typeFacts_of_platform loader hlength hinternal hplatform
    obtain ⟨root, hrootFact, hrootEnds⟩ := cp.typeFacts_root loader
    simp only [if_neg hroot, hfact]
    refine (TypeFacts.assignable_of_platform hfact hrootFact hrootEnds hends _).trans ?_
    rw [decide_eq_true (Or.inr rfl)]

/-- **Ancestors on the platform always resolve.** Let some bytes have a header, and let one of the
names in it be that of a platform class. Whatever the class path, the loader and what has happened
to the resolver, the name resolves to a type of that name, which can be assigned to the root
type. -/
theorem platform_ancestors_resolve {σ : Type} (cp : ClassPath) (loader : LoaderId) {bs : Bytes}
    {header : ClassHeader} (hparse : ClassHeader.parse bs = .ok header) {name : String}
    (hname : name ∈ header.names)
    (hplatform : Text.startsWith (ClassName.internal name) "java/" = true) (start : σ)
    (history : List (Happening σ)) :
    let s := Happening.after cp.source history (.empty, start)
    let n := ClassName.internal name
    (∃ d, ResolvesTo cp.source s n loader d ∧ d.internalName = n) ∧
      (isAssignableFrom cp.source "java/lang/Object" n loader).Ensures s fun v _ =>
        v = .ok true := by
  intro s n
  have hs : Stands (Told cp.answer) (fun _ => True) .empty s := cp.stands_after history start
  have hinternal : ClassName.internal n = n := ClassName.internal_internal name
  have hlength : (Text.ModifiedUtf8.encode n).length ≤ 65535 := by
    rw [ClassSketch.length_encode_internal]
    exact ClassHeader.length_encode_of_mem_names hparse hname
  constructor
  · obtain ⟨stub, hfact, -⟩ := cp.typeFacts_of_platform loader hlength hinternal hplatform
    rw [← hinternal] at hfact
    obtain ⟨d, hd, hdname, -⟩ := Hierarchy.resolvesTo_of_typeFacts (cp.source_tells _) hs hfact
    exact ⟨d, hd, hdname.trans hinternal⟩
  · refine (cp.isAssignableFrom_ensures hs objectName n loader).imp fun v _ h => h.1.trans ?_
    exact cp.assignable_of_platform loader hlength hinternal hplatform

/-- The front of a class file, with an interface whose name stands in the pool with dots, with a
letter in two bytes instead of one, and with half of a pair of surrogates. -/
def oddlySpelt : ClassPreamble where
  minorVersion := 0
  majorVersion := 52
  pool := ⟨#[.unusable, .utf8 (Text.ModifiedUtf8.encode "p/A"), .classRef 1,
    .utf8 (Text.ModifiedUtf8.encode "java.x." ++ [0xC1, 0x81, 0xED, 0xA0, 0x80]), .classRef 3]⟩
  access := .isPublic
  thisClass := 2
  superClass := 0
  interfaces := [4]

theorem platform_ancestors_resolve_oddlySpelt :
    ClassHeader.parse oddlySpelt.encode =
      .ok ⟨0, 52, .isPublic, "p/A", none, ["java.x.A\uFFFD"]⟩ ∧
    (∃ d, ResolvesTo (⟨[]⟩ : ClassPath).source (.empty, ()) "java/x/A\uFFFD" ⟨7⟩ d ∧
      d.internalName = "java/x/A\uFFFD") ∧
    (isAssignableFrom (⟨[]⟩ : ClassPath).source "java/lang/Object" "java/x/A\uFFFD" ⟨7⟩).Ensures
      (.empty, ()) fun v _ => v = .ok true := by
  have hparse : ClassHeader.parse oddlySpelt.encode =
      .ok ⟨0, 52, .isPublic, "p/A", none, ["java.x.A\uFFFD"]⟩ := by decide +kernel
  have hinternal : ClassName.internal "java.x.A\uFFFD" = "java/x/A\uFFFD" := by decide
  have hname : "java.x.A\uFFFD" ∈ ClassHeader.names
      ⟨0, 52, .isPublic, "p/A", none, ["java.x.A\uFFFD"]⟩ := by decide
  have hplatform : Text.startsWith (ClassName.internal "java.x.A\uFFFD") "java/" = true := by
    decide
  have hresolve := platform_ancestors_resolve ⟨[]⟩ ⟨7⟩ hparse hname hplatform () []
  rw [hinternal] at hresolve
  exact ⟨hparse, hresolve⟩

end Reclass.ClassPath
