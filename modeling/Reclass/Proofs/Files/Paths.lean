import Mathlib.Tactic.Common
import Reclass.Proofs.Files.Places

/-!
# Paths as texts

The parent of a path is a beginning of its text, and has the steps of the path without the last one
that says something (`Path.parent_eq_some`). So what the file system accepts of a path it accepts of
its parents, and of the base of a joined path (`Path.Accepted.parent`, `Path.Accepted.of_join`).
-/

set_option autoImplicit false

namespace Reclass

namespace Text

theorem notMem_of_mem_splitOn {sep : Char} {cs part : List Char} (h : part ∈ splitOn sep cs) :
    sep ∉ part := by
  induction cs generalizing part with
  | nil =>
    rw [splitOn, List.mem_singleton] at h
    rw [h]
    exact List.not_mem_nil
  | cons c cs ih =>
    rw [splitOn] at h
    by_cases hc : c = sep
    · rw [if_pos hc] at h
      rcases List.mem_cons.1 h with rfl | h
      · exact List.not_mem_nil
      · exact ih h
    · rw [if_neg hc] at h
      cases hs : splitOn sep cs with
      | nil => exact absurd hs (splitOn_ne_nil sep cs)
      | cons first parts =>
        rw [hs] at h ih
        rcases List.mem_cons.1 h with rfl | h
        · rw [List.mem_cons, not_or]
          exact ⟨Ne.symm hc, ih List.mem_cons_self⟩
        · exact ih (List.mem_cons_of_mem _ h)

theorem joinWith_cons_cons (sep : Char) (part next : List Char) (parts : List (List Char)) :
    joinWith sep (part :: next :: parts) = part ++ sep :: joinWith sep (next :: parts) := rfl

theorem joinWith_append {sep : Char} {xs ys : List (List Char)} (hxs : xs ≠ []) (hys : ys ≠ []) :
    joinWith sep (xs ++ ys) = joinWith sep xs ++ sep :: joinWith sep ys := by
  induction xs with
  | nil => exact absurd rfl hxs
  | cons x xs ih =>
    cases xs with
    | nil =>
      obtain ⟨y, ys, rfl⟩ := List.exists_cons_of_ne_nil hys
      rfl
    | cons x' xs =>
      rw [List.cons_append, List.cons_append, joinWith_cons_cons, ← List.cons_append,
        ih (List.cons_ne_nil x' xs), joinWith_cons_cons, List.append_assoc, List.cons_append]

/-- Cutting gives back the parts that were put together. -/
theorem splitOn_joinWith {sep : Char} {parts : List (List Char)} (hne : parts ≠ [])
    (h : ∀ part ∈ parts, sep ∉ part) : splitOn sep (joinWith sep parts) = parts := by
  induction parts with
  | nil => exact absurd rfl hne
  | cons part parts ih =>
    have hpart := splitOn_of_notMem (h part List.mem_cons_self)
    cases parts with
    | nil => exact hpart
    | cons next parts =>
      have hrest := ih (List.cons_ne_nil next parts) fun p hp => h p (List.mem_cons_of_mem part hp)
      rw [joinWith_cons_cons, splitOn_append_sep, hpart, hrest, List.singleton_append]

theorem splitOnce_eq_some {sep : Char} {cs before after : List Char}
    (h : splitOnce sep cs = some (before, after)) : cs = before ++ sep :: after := by
  induction cs generalizing before with
  | nil => cases h
  | cons c cs ih =>
    rw [splitOnce] at h
    by_cases hc : c = sep
    · rw [if_pos hc] at h
      cases h
      rw [hc, List.nil_append]
    · rw [if_neg hc] at h
      obtain ⟨⟨first, rest⟩, hrest, hcons⟩ := Option.map_eq_some_iff.1 h
      cases hcons
      rw [ih hrest, List.cons_append]

theorem splitOnce_append {sep : Char} {before : List Char} (h : sep ∉ before)
    (after : List Char) : splitOnce sep (before ++ sep :: after) = some (before, after) := by
  induction before with
  | nil => exact if_pos rfl
  | cons c before ih =>
    rw [List.mem_cons, not_or] at h
    rw [List.cons_append, splitOnce, if_neg (Ne.symm h.1), ih h.2]
    rfl

end Text

namespace Path

variable {p q base leaf : Path}

/-! ### Parents -/

theorem steps_eq_filter (p : Path) : p.steps = p.parts.filter (· ≠ "") := rfl

theorem parts_ne_nil (p : Path) : p.parts ≠ [] := by
  rw [parts, Ne, List.map_eq_nil_iff]
  exact Text.splitOn_ne_nil '/' p.toList

theorem slash_notMem_part {part : String} (h : part ∈ p.parts) : '/' ∉ part.toList := by
  obtain ⟨cs, hcs, rfl⟩ := List.mem_map.1 h
  rw [String.toList_ofList]
  exact Text.notMem_of_mem_splitOn hcs

theorem map_toList_parts (p : Path) : p.parts.map String.toList = Text.splitOn '/' p.toList := by
  rw [parts, List.map_map]
  refine (List.map_congr_left fun cs _ => ?_).trans (List.map_id _)
  exact String.toList_ofList

theorem toList_eq_joinWith (p : Path) :
    p.toList = Text.joinWith '/' (p.parts.map String.toList) := by
  rw [map_toList_parts, Text.joinWith_splitOn]

theorem joinWith_eq_intercalate (parts : List (List Char)) :
    Text.joinWith '/' parts = ['/'].intercalate parts := by
  induction parts with
  | nil => rfl
  | cons part parts ih =>
    cases parts with
    | nil => simp [Text.joinWith, List.intercalate]
    | cons next parts =>
      rw [Text.joinWith_cons_cons, List.intercalate_cons_cons, ih, List.append_assoc,
        List.singleton_append]

/-- A text that is put together from parts has these parts. -/
theorem parts_of_toList_eq {kept : List String} (hne : kept ≠ [])
    (hslash : ∀ part ∈ kept, '/' ∉ part.toList)
    (h : q.toList = Text.joinWith '/' (kept.map String.toList)) : q.parts = kept := by
  have hmap : ∀ part ∈ kept.map String.toList, '/' ∉ part := by
    intro part hpart
    obtain ⟨s, hs, rfl⟩ := List.mem_map.1 hpart
    exact hslash s hs
  rw [parts, h, Text.splitOn_joinWith (fun e => hne (List.map_eq_nil_iff.1 e)) hmap, List.map_map]
  refine (List.map_congr_left fun s _ => ?_).trans (List.map_id _)
  exact String.ofList_toList

theorem dropVoid_cons_cons (part next : String) (rest : List String) :
    dropVoid (part :: next :: rest) =
      if part = "" ∨ part = "." then dropVoid (next :: rest) else part :: next :: rest := rfl

/-- Parts that say nothing are dropped. -/
theorem dropVoid_spec (l : List String) :
    ∃ void, l = void ++ dropVoid l ∧ ∀ s ∈ void, s = "" ∨ s = "." := by
  induction l with
  | nil => exact ⟨[], rfl, fun s hs => absurd hs List.not_mem_nil⟩
  | cons part rest ih =>
    cases rest with
    | nil => exact ⟨[], rfl, fun s hs => absurd hs List.not_mem_nil⟩
    | cons next rest =>
      rw [dropVoid_cons_cons]
      by_cases hpart : part = "" ∨ part = "."
      · obtain ⟨void, hvoid, hall⟩ := ih
        rw [if_pos hpart]
        refine ⟨part :: void, ?_, fun s hs => ?_⟩
        · rw [List.cons_append, ← hvoid]
        · rcases List.mem_cons.1 hs with rfl | hs
          · exact hpart
          · exact hall s hs
      · rw [if_neg hpart]
        exact ⟨[], rfl, fun s hs => absurd hs List.not_mem_nil⟩

/-- What remains begins with a part that says something, unless it is the front part alone. -/
theorem dropVoid_eq_cons {l rest : List String} {part : String} (h : dropVoid l = part :: rest) :
    rest = [] ∨ part ≠ "" ∧ part ≠ "." := by
  induction l with
  | nil => cases h
  | cons first l ih =>
    cases l with
    | nil =>
      cases h
      exact Or.inl rfl
    | cons next l =>
      rw [dropVoid_cons_cons] at h
      by_cases hfirst : first = "" ∨ first = "."
      · rw [if_pos hfirst] at h
        exact ih h
      · rw [if_neg hfirst] at h
        cases h
        exact Or.inr (not_or.1 hfirst)

/-- The front part always stays. -/
theorem dropVoid_ne_nil {l : List String} (h : l ≠ []) : dropVoid l ≠ [] := by
  induction l with
  | nil => exact absurd rfl h
  | cons first l ih =>
    cases l with
    | nil => exact List.cons_ne_nil first []
    | cons next l =>
      rw [dropVoid_cons_cons]
      by_cases hfirst : first = "" ∨ first = "."
      · rw [if_pos hfirst]
        exact ih (List.cons_ne_nil next l)
      · rw [if_neg hfirst]
        exact List.cons_ne_nil first (next :: l)

theorem filter_void {void : List String} (h : ∀ s ∈ void, s = "" ∨ s = ".") :
    ∀ s ∈ void.filter (· ≠ ""), s = "." := by
  intro s hs
  obtain ⟨hmem, hne⟩ := List.mem_filter.1 hs
  exact (h s hmem).resolve_left (of_decide_eq_true hne)

/-- The text that `parent` makes of the parts it has kept. -/
theorem spelled {kept left : List String}
    (hq : (match kept with
      | [] => some ""
      | [""] => some "/"
      | parts => some (String.intercalate "/" parts)) = some q)
    (hparts : p.parts = kept ++ left) (hleft : left ≠ []) :
    q.steps = kept.filter (· ≠ "") ∧ q.toList <+: p.toList ∧ (kept = [] → q = "") ∧
      (kept ≠ [] → q ≠ "") := by
  by_cases hnil : kept = []
  · subst hnil
    cases hq
    exact ⟨rfl, List.nil_prefix, fun _ => rfl, fun h => absurd rfl h⟩
  · -- the text of the path is that of the kept parts, a slash, and that of the others
    have htext : p.toList = Text.joinWith '/' (kept.map String.toList) ++
        '/' :: Text.joinWith '/' (left.map String.toList) := by
      rw [toList_eq_joinWith, hparts, List.map_append, Text.joinWith_append]
      · exact fun h => hnil (List.map_eq_nil_iff.1 h)
      · exact fun h => hleft (List.map_eq_nil_iff.1 h)
    by_cases hroot : kept = [""]
    · subst hroot
      cases hq
      refine ⟨rfl, ?_, fun h => absurd h hnil, fun _ => by decide⟩
      rw [htext]
      exact List.prefix_append ['/'] _
    · have hspell : String.intercalate "/" kept = q := by
        split at hq
        · exact absurd rfl hnil
        · exact absurd rfl hroot
        · exact Option.some.inj hq
      have hqtext : q.toList = Text.joinWith '/' (kept.map String.toList) := by
        rw [← hspell, String.toList_intercalate, joinWith_eq_intercalate]
        rfl
      have hslash : ∀ part ∈ kept, '/' ∉ part.toList := fun part hpart =>
        slash_notMem_part (hparts ▸ List.mem_append_left left hpart)
      have hqparts : q.parts = kept := parts_of_toList_eq hnil hslash hqtext
      refine ⟨?_, ?_, fun h => absurd h hnil, fun _ hempty => ?_⟩
      · rw [steps_eq_filter, hqparts]
      · rw [htext, hqtext]
        exact List.prefix_append _ _
      · rw [hempty] at hqparts
        exact hroot hqparts.symm

/-- A path whose parts say nothing behind an empty front part has no component. -/
theorem components_of_void {void : List String} (hparts : p.parts = "" :: void)
    (hvoid : ∀ s ∈ void, s = "" ∨ s = ".") : p.components = [] := by
  have hdots : ∀ s ∈ p.steps, s = "." := by
    rw [steps_eq_filter, hparts]
    refine filter_void fun s hs => ?_
    rcases List.mem_cons.1 hs with rfl | hs
    · exact Or.inl rfl
    · exact hvoid s hs
  rw [components]
  cases hsteps : p.steps with
  | nil => rfl
  | cons first rest =>
    rw [hsteps] at hdots
    -- there is a step, so a slash stands behind the empty front part
    have habsolute : p.isAbsolute = true := by
      have htext := toList_eq_joinWith p
      rw [hparts] at htext
      cases void with
      | nil =>
        rw [steps_eq_filter, hparts] at hsteps
        cases hsteps
      | cons next void =>
        rw [isAbsolute, htext]
        rfl
    have hrest : rest.filter (· ≠ ".") = [] := by
      refine List.filter_eq_nil_iff.2 fun s hs => ?_
      rw [hdots s (List.mem_cons_of_mem first hs)]
      decide
    show (if first = "." ∧ p.isAbsolute = true then rest.filter (· ≠ ".") else
      first :: rest.filter (· ≠ ".")) = []
    rw [if_pos ⟨hdots first List.mem_cons_self, habsolute⟩, hrest]

/-- Texts that begin alike start in one place. -/
theorem isAbsolute_of_prefix (hq : q ≠ "") (h : q.toList <+: p.toList) :
    q.isAbsolute = p.isAbsolute := by
  obtain ⟨tail, htail⟩ := h
  obtain ⟨c, cs, hcs⟩ := List.exists_cons_of_ne_nil fun e => hq (String.toList_eq_nil_iff.1 e)
  rw [isAbsolute, isAbsolute, ← htail, hcs]
  rfl

theorem not_absolute_of_parts {first : String} {rest : List String}
    (hparts : p.parts = first :: rest) (hfirst : first ≠ "") : p.isAbsolute = false := by
  have hslash : '/' ∉ first.toList := slash_notMem_part (hparts ▸ List.mem_cons_self)
  obtain ⟨c, cs, hcs⟩ := List.exists_cons_of_ne_nil fun e => hfirst (String.toList_eq_nil_iff.1 e)
  rw [isAbsolute, decide_eq_false_iff_not, toList_eq_joinWith, hparts, List.map_cons, hcs]
  intro hhead
  have hc : c = '/' := by
    cases rest with
    | nil => exact Option.some.inj hhead
    | cons next rest => exact Option.some.inj hhead
  rw [hcs, hc] at hslash
  exact hslash List.mem_cons_self

/-- The path does not end with a step `.`, unless that is all there is of it. -/
def Tidy (p : Path) : Prop := p.steps.getLast? = some "." → p.steps = ["."]

theorem tidy_of_kept {rest : List String} (h : q.steps = (dropVoid rest).reverse.filter (· ≠ "")) :
    q.Tidy := by
  intro hlast
  rw [h] at hlast ⊢
  cases hkept : dropVoid rest with
  | nil =>
    rw [hkept] at hlast
    cases hlast
  | cons part others =>
    rw [hkept, List.reverse_cons, List.filter_append] at hlast
    rcases dropVoid_eq_cons hkept with rfl | hpart
    · by_cases hempty : part = ""
      · subst hempty
        cases hlast
      · have hone : ([part] : List String).filter (· ≠ "") = [part] := by
          rw [List.filter_cons, if_pos (decide_eq_true hempty)]
          rfl
        rw [List.reverse_nil, List.filter_nil, List.nil_append, hone] at hlast
        obtain rfl : part = "." := Option.some.inj hlast
        rw [List.reverse_singleton, hone]
    · rw [List.filter_cons, if_pos (decide_eq_true hpart.1), List.getLast?_append] at hlast
      exact absurd (Option.some.inj hlast) hpart.2

/-- **The steps of the parent are those of the path without the last one that says something.** The
parts `.` around that one are left out with it. -/
theorem parent_eq_some (h : p.parent = some q) :
    ∃ between last after, p.steps = q.steps ++ (between ++ last :: after) ∧
      (∀ s ∈ between, s = ".") ∧ (∀ s ∈ after, s = ".") ∧ q.toList <+: p.toList ∧
      q.isAbsolute = p.isAbsolute ∧ q.Tidy := by
  unfold parent at h
  by_cases hcomponents : p.components.isEmpty = true
  · rw [if_pos hcomponents] at h
    cases h
  · rw [if_neg hcomponents] at h
    obtain ⟨after, hafter, hafterVoid⟩ := dropVoid_spec p.parts.reverse
    cases hdrop : dropVoid p.parts.reverse with
    | nil =>
      exact absurd hdrop (dropVoid_ne_nil fun e => parts_ne_nil p (List.reverse_eq_nil_iff.1 e))
    | cons last rest =>
      rw [hdrop] at hafter h
      obtain ⟨between, hbetween, hbetweenVoid⟩ := dropVoid_spec rest
      have hparts : p.parts =
          (dropVoid rest).reverse ++ (between.reverse ++ last :: after.reverse) := by
        have hrest : rest.reverse = (dropVoid rest).reverse ++ between.reverse := by
          rw [← List.reverse_append, ← hbetween]
        rw [List.reverse_eq_iff.1 hafter, List.reverse_append, List.reverse_cons, hrest]
        simp only [List.append_assoc, List.singleton_append]
      have hafter' : ∀ s ∈ after.reverse, s = "" ∨ s = "." := fun s hs =>
        hafterVoid s (List.mem_reverse.1 hs)
      have hbetween' : ∀ s ∈ between.reverse, s = "" ∨ s = "." := fun s hs =>
        hbetweenVoid s (List.mem_reverse.1 hs)
      have hlast : last ≠ "" := by
        rintro rfl
        rcases dropVoid_eq_cons hdrop with rfl | hne
        · -- the whole path would say nothing
          obtain rfl : between = [] := List.append_eq_nil_iff.1 hbetween.symm |>.1
          exact hcomponents (List.isEmpty_iff.2 (components_of_void hparts hafter'))
        · exact hne.1 rfl
      obtain ⟨hsteps, hbegins, hempty, hne⟩ := spelled h hparts
        (List.append_ne_nil_of_right_ne_nil _ (List.cons_ne_nil last _))
      refine ⟨between.reverse.filter (· ≠ ""), last, after.reverse.filter (· ≠ ""), ?_,
        filter_void hbetween', filter_void hafter', hbegins, ?_, tidy_of_kept hsteps⟩
      · rw [steps_eq_filter, hparts, List.filter_append, List.filter_append, ← hsteps,
          List.filter_cons, if_pos (decide_eq_true hlast)]
      · by_cases hkept : (dropVoid rest).reverse = []
        · -- the path is a single step, in front of which there is nothing
          have hrest : rest = [] := by
            by_contra hne
            exact dropVoid_ne_nil hne (List.reverse_eq_nil_iff.1 hkept)
          subst hrest
          obtain rfl : between = [] := (List.append_eq_nil_iff.1 hbetween.symm).1
          rw [hempty hkept, not_absolute_of_parts hparts hlast]
          rfl
        · exact isAbsolute_of_prefix (hne hkept) hbegins

/-- The parent of a tidy path has all its steps but the last, up to parts `.` between. -/
theorem Tidy.parent (hp : p.Tidy) (h : p.parent = some q) :
    ∃ between last, p.steps = q.steps ++ (between ++ [last]) ∧ (∀ s ∈ between, s = ".") := by
  obtain ⟨between, last, after, hsteps, hbetween, hafter, -⟩ := parent_eq_some h
  cases hlast : after.getLast? with
  | none =>
    rw [List.getLast?_eq_none_iff.1 hlast] at hsteps
    exact ⟨between, last, hsteps, hbetween⟩
  | some dot =>
    -- a part `.` at the end would be the whole path
    obtain ⟨others, rfl⟩ := List.getLast?_eq_some_iff.1 hlast
    obtain rfl : dot = "." := hafter dot (List.mem_append_right others List.mem_cons_self)
    have hend : p.steps = (q.steps ++ (between ++ last :: others)) ++ ["."] := by
      rw [hsteps]
      simp only [List.append_assoc, List.cons_append]
    have hone := hp (by rw [hend, List.getLast?_append]; rfl)
    have hlength := congrArg List.length (hend.symm.trans hone)
    simp only [List.length_append, List.length_cons] at hlength
    omega

/-- A path without a parent leads nowhere from where it starts. -/
theorem parent_eq_none (h : p.parent = none) :
    p.steps = [] ∨ p.isAbsolute = true ∧ ∀ s ∈ p.steps, s = "." := by
  have hcomponents : p.components = [] := by
    unfold parent at h
    by_cases hempty : p.components.isEmpty = true
    · exact List.isEmpty_iff.1 hempty
    · rw [if_neg hempty] at h
      dsimp only at h
      split at h <;> cases h
  unfold components at hcomponents
  cases hsteps : p.steps with
  | nil => exact Or.inl rfl
  | cons first rest =>
    rw [hsteps] at hcomponents
    have hif : (if first = "." ∧ p.isAbsolute = true then rest.filter (· ≠ ".") else
        first :: rest.filter (· ≠ ".")) = [] := hcomponents
    by_cases hdot : first = "." ∧ p.isAbsolute = true
    · rw [if_pos hdot] at hif
      refine Or.inr ⟨hdot.2, fun s hs => ?_⟩
      rcases List.mem_cons.1 hs with rfl | hs
      · exact hdot.1
      · exact of_not_not fun hne => List.filter_eq_nil_iff.1 hif s hs (decide_eq_true hne)
    · rw [if_neg hdot] at hif
      cases hif

/-! ### Joined paths -/

theorem tidy_join (h : leaf.Plain) : (join base leaf).Tidy := by
  intro hlast
  rw [steps_join h.not_absolute, h.steps_eq, List.getLast?_append] at hlast
  exact absurd (Option.some.inj hlast) h.ne_self

theorem prefix_join (h : leaf.isAbsolute = false) : base.toList <+: (join base leaf).toList := by
  rw [join, h, if_neg Bool.false_ne_true]
  by_cases hbase : base = "" ∨ base.toList.getLast? = some '/'
  · rw [if_pos hbase, String.toList_append]
    exact List.prefix_append _ _
  · rw [if_neg hbase, String.append_assoc, String.toList_append]
    exact List.prefix_append _ _

theorem suffix_join (base leaf : Path) : leaf.toList <:+ (join base leaf).toList := by
  by_cases habsolute : leaf.isAbsolute = true
  · have hjoined : join base leaf = leaf := if_pos habsolute
    exact (congrArg String.toList hjoined).symm ▸ List.suffix_rfl
  · rw [join, if_neg habsolute]
    by_cases hbase : base = "" ∨ base.toList.getLast? = some '/'
    · rw [if_pos hbase, String.toList_append]
      exact List.suffix_append _ _
    · rw [if_neg hbase, String.toList_append]
      exact List.suffix_append _ _

theorem exists_last_slash {xs : List Char} (h : '/' ∈ xs) :
    ∃ outer inner, xs = outer ++ '/' :: inner ∧ '/' ∉ inner := by
  obtain ⟨inner, outer, hxs, hinner⟩ := List.eq_append_cons_of_mem (List.mem_reverse.2 h)
  refine ⟨outer.reverse, inner.reverse, ?_, fun hmem => hinner (List.mem_reverse.1 hmem)⟩
  rw [← List.reverse_reverse xs, hxs]
  simp

/-- A path that ends in something without slashes has that at the end of its last step. -/
theorem steps_of_suffix {xs ys : List Char} (h : p.toList = xs ++ ys) (hslash : '/' ∉ ys)
    (hne : ys ≠ []) :
    ∃ before stem, p.steps = before ++ [String.ofList (stem ++ ys)] := by
  -- what follows the last slash is one step
  have hstep : ∀ stem, '/' ∉ stem →
      steps (String.ofList (stem ++ ys)) = [String.ofList (stem ++ ys)] := by
    intro stem hstem
    have hnot : '/' ∉ (String.ofList (stem ++ ys)).toList := by
      simp [hstem, hslash]
    rw [steps, parts, Text.splitOn_of_notMem hnot]
    simp [hne]
  by_cases hmem : '/' ∈ xs
  · obtain ⟨outer, stem, rfl, hstem⟩ := exists_last_slash hmem
    refine ⟨steps (String.ofList outer), stem, ?_⟩
    rw [steps_of_toList_eq (by rw [h, List.append_assoc, List.cons_append]), hstep stem hstem]
  · refine ⟨[], xs, ?_⟩
    rw [← hstep xs hmem, ← h, String.ofList_toList]
    rfl

theorem getLast?_join (h : leaf.Plain) :
    (join base leaf).toList.getLast? = leaf.toList.getLast? := by
  have hne : leaf.toList ≠ [] := fun e => h.ne_empty (String.toList_eq_nil_iff.1 e)
  have hc : leaf.toList.getLast? = some (leaf.toList.getLast hne) :=
    List.getLast?_eq_some_getLast hne
  rw [join, h.not_absolute, if_neg Bool.false_ne_true]
  by_cases hbase : base = "" ∨ base.toList.getLast? = some '/'
  · rw [if_pos hbase, String.toList_append, List.getLast?_append, hc]
    rfl
  · rw [if_neg hbase, String.toList_append, List.getLast?_append, hc]
    rfl

/-- No slash follows a plain leaf. -/
theorem getLast?_join_ne_slash (h : leaf.Plain) : (join base leaf).toList.getLast? ≠ some '/' := by
  rw [getLast?_join h]
  exact fun hlast => h.noSlash (List.mem_of_getLast? hlast)

/-- The last step of a path is its file name, if it leads to something of its own name. -/
theorem fileName_of_steps {before : List String} (hsteps : p.steps = before ++ [leaf])
    (h : leaf.Plain) : p.fileName = some leaf := by
  have hlast : p.components.getLast? = some leaf := by
    unfold components
    rw [hsteps]
    cases before with
    | nil =>
      dsimp only [List.nil_append]
      rw [if_neg fun hdot => h.ne_self hdot.1]
      rfl
    | cons first rest =>
      have hkept : (rest ++ [leaf]).filter (· ≠ ".") = rest.filter (· ≠ ".") ++ [leaf] := by
        rw [List.filter_append, List.filter_cons, if_pos (decide_eq_true h.ne_self)]
        rfl
      dsimp only [List.cons_append]
      rw [hkept]
      by_cases hdot : first = "." ∧ p.isAbsolute = true
      · rw [if_pos hdot, List.getLast?_append]
        rfl
      · rw [if_neg hdot, ← List.cons_append, List.getLast?_append]
        rfl
  rw [fileName, hlast]
  exact if_neg (not_or.2 ⟨h.ne_up, h.ne_self⟩)

theorem fileName_join (h : leaf.Plain) : (join base leaf).fileName = some leaf := by
  have hsteps : (join base leaf).steps = base.steps ++ [leaf] := by
    rw [steps_join h.not_absolute, h.steps_eq]
  exact fileName_of_steps hsteps h

/-! ### Extensions -/

theorem extension_eq_class_iff {name : String} (h : p.fileName = some name) :
    p.extension = some "class" ↔ ∃ stem, stem ≠ "" ∧ name = stem ++ ".class" := by
  rw [extension, h]
  dsimp only
  constructor
  · intro hextension
    rcases hsplit : Text.splitOnce '.' name.toList.reverse with _ | ⟨ext, before⟩
    · simp [hsplit] at hextension
    · simp only [hsplit, Option.ite_none_left_eq_some, Option.some.injEq] at hextension
      obtain ⟨hne, hclass⟩ := hextension
      have hext : ext.reverse = "class".toList := by
        rw [← hclass, String.toList_ofList]
      have hname : name.toList = before.reverse ++ '.' :: ext.reverse := by
        have htext := Text.splitOnce_eq_some hsplit
        rw [← List.reverse_reverse name.toList, htext]
        simp
      refine ⟨String.ofList before.reverse, ?_, ?_⟩
      · intro hempty
        rw [← String.toList_inj, String.toList_ofList] at hempty
        simp_all
      · rw [← String.toList_inj, hname, hext]
        simp [String.toList_append]
  · rintro ⟨stem, hne, rfl⟩
    have htext : (stem ++ ".class").toList.reverse =
        "ssalc".toList ++ '.' :: stem.toList.reverse := by
      simp [String.toList_append]
    rw [htext, Text.splitOnce_append (by decide)]
    have hstem : stem.toList.reverse.isEmpty = false := by
      simpa [String.toList_eq_nil_iff] using hne
    simp [hstem]

/-! ### Paths that are accepted -/

/-- A name without a slash that is longer than the dots is a plain step. -/
theorem plain_of_length {leaf : Path} (hslash : '/' ∉ leaf.toList)
    (hlength : 2 < leaf.length) : leaf.Plain where
  noSlash := hslash
  ne_empty := by
    rintro rfl
    exact absurd hlength (by decide)
  ne_self := by
    rintro rfl
    exact absurd hlength (by decide)
  ne_up := by
    rintro rfl
    exact absurd hlength (by decide)

instance (leaf : Path) : Decidable leaf.Plain :=
  decidable_of_iff ('/' ∉ leaf.toList ∧ leaf ≠ "" ∧ leaf ≠ "." ∧ leaf ≠ "..")
    ⟨fun h => ⟨h.1, h.2.1, h.2.2.1, h.2.2.2⟩, fun h => ⟨h.noSlash, h.ne_empty, h.ne_self, h.ne_up⟩⟩

/-- The file system takes the path: it has no NUL character, and neither it nor one of its steps is
too long. -/
structure Accepted (p : Path) : Prop where
  noNul : '\x00' ∉ p.toList
  short : p.utf8ByteSize ≤ FileSystem.maxPath
  names : ∀ s ∈ p.steps, s.utf8ByteSize ≤ FileSystem.maxName

instance (p : Path) : Decidable p.Accepted :=
  decidable_of_iff ('\x00' ∉ p.toList ∧ p.utf8ByteSize ≤ FileSystem.maxPath ∧
      ∀ s ∈ p.steps, s.utf8ByteSize ≤ FileSystem.maxName)
    ⟨fun h => ⟨h.1, h.2.1, h.2.2⟩, fun h => ⟨h.noNul, h.short, h.names⟩⟩

theorem Accepted.of_prefix (h : p.Accepted) (hbegins : q.toList <+: p.toList) {more : List String}
    (hsteps : p.steps = q.steps ++ more) : q.Accepted where
  noNul := fun hnul => h.noNul (hbegins.subset hnul)
  short := by
    obtain ⟨tail, htail⟩ := hbegins
    have hp : p = q ++ String.ofList tail := by
      rw [← String.toList_inj, String.toList_append, String.toList_ofList, htail]
    have hsize : p.utf8ByteSize = q.utf8ByteSize + (String.ofList tail).utf8ByteSize := by
      rw [hp, String.utf8ByteSize_append]
    exact Nat.le_trans (by omega) h.short
  names := fun s hs => h.names s (hsteps ▸ List.mem_append_left more hs)

theorem Accepted.parent (h : p.Accepted) (hparent : p.parent = some q) : q.Accepted := by
  obtain ⟨between, last, after, hsteps, -, -, hbegins, -, -⟩ := parent_eq_some hparent
  exact h.of_prefix hbegins hsteps

theorem Accepted.of_join (h : (join base leaf).Accepted) (hleaf : leaf.isAbsolute = false) :
    base.Accepted :=
  h.of_prefix (prefix_join hleaf) (steps_join hleaf)

end Path

end Reclass
