import Reclass.Proofs.Files.Paths
import Reclass.Proofs.SortedMap
import Reclass.Settings.Arguments

/-!
# Argument strings and the maps that they stand for

An entry of a map of arguments can be written in several ways: as a key and a value with any white
space around them, or as a key alone when the value is `true` (`AgentArguments.Writes`). A map is
written as parts between commas, which write its entries in some order, with blank parts among them
(`AgentArguments.Lists`). However that is done, reading gives the map back, and an argument string
behind another overrides it (`AgentArguments.reads_back_and_composes`).

White space is cut off twice, around the whole part and around key and value. The first cut may take
away what the key or the value has on its inner side too, when the key or the value is empty; so it
is only known up to white space what the first cut leaves (`Text.exists_trim_around`).
-/

set_option autoImplicit false

namespace Reclass

namespace Text

variable {sep : Char} {cs front back xs ys : List Char}

/-! ### White space -/

/-- Nothing but white space. -/
def Blank (cs : List Char) : Prop := ∀ c ∈ cs, isBlank c = true

/-- No white space at the ends. -/
structure Trimmed (cs : List Char) : Prop where
  first : ∀ c ∈ cs.head?, isBlank c = false
  last : ∀ c ∈ cs.getLast?, isBlank c = false

instance (cs : List Char) : Decidable (Blank cs) :=
  decidable_of_iff (cs.all isBlank = true) List.all_eq_true

instance (cs : List Char) : Decidable (Trimmed cs) :=
  decidable_of_iff
    (cs.head?.all (!isBlank ·) = true ∧ cs.getLast?.all (!isBlank ·) = true) <| by
      simp only [Option.all_eq_true, Bool.not_eq_true']
      exact ⟨fun h => ⟨h.1, h.2⟩, fun h => ⟨h.first, h.last⟩⟩

theorem blank_nil : Blank [] := nofun

theorem Blank.reverse (h : Blank cs) : Blank cs.reverse := fun c hc => h c (List.mem_reverse.1 hc)

theorem Blank.append (h : Blank xs) (h' : Blank ys) : Blank (xs ++ ys) := fun c hc =>
  (List.mem_append.1 hc).elim (h c) (h' c)

theorem Blank.notMem {c : Char} (h : Blank cs) (hc : isBlank c = false) : c ∉ cs := by
  intro hmem
  rw [h c hmem] at hc
  cases hc

theorem Trimmed.reverse (h : Trimmed cs) : Trimmed cs.reverse where
  first := by
    rw [List.head?_reverse]
    exact h.last
  last := by
    rw [List.getLast?_reverse]
    exact h.first

/-- White space in front is dropped, up to what is none. -/
theorem dropWhile_blank (hfront : Blank front) (h : ∀ c ∈ cs.head?, isBlank c = false) :
    (front ++ cs).dropWhile isBlank = cs := by
  rw [List.dropWhile_append_of_pos hfront]
  cases cs with
  | nil => rfl
  | cons c cs =>
    apply List.dropWhile_cons_of_neg
    rw [h c rfl]
    exact Bool.false_ne_true

/-- **Trimming takes away what was put around a trimmed text.** -/
theorem trim_padded (hfront : Blank front) (h : Trimmed cs) (hback : Blank back) :
    trim (front ++ cs ++ back) = cs := by
  cases cs with
  | nil =>
    -- all of it is white space
    have hdrop : (front ++ back ++ []).dropWhile isBlank = [] :=
      dropWhile_blank (hfront.append hback) nofun
    rw [List.append_nil] at hdrop
    rw [trim, List.append_nil, hdrop]
    rfl
  | cons c cs =>
    have hfirst : (front ++ (c :: cs ++ back)).dropWhile isBlank = c :: cs ++ back :=
      dropWhile_blank hfront h.first
    have hlast : (back.reverse ++ (c :: cs).reverse).dropWhile isBlank = (c :: cs).reverse :=
      dropWhile_blank hback.reverse h.reverse.first
    rw [trim, List.append_assoc, hfirst, List.reverse_append, hlast, List.reverse_reverse]

theorem trim_blank (h : Blank cs) : trim cs = [] := by
  have hnothing : Trimmed [] := by decide
  exact trim_padded blank_nil hnothing h

/-- In front of a separator, white space goes away before a text, and maybe behind it, too. -/
theorem exists_dropWhile_before (hsep : isBlank sep = false) (hfront : Blank front)
    (h : Trimmed xs) (hback : Blank back) (ys : List Char) :
    ∃ pad, Blank pad ∧
      (front ++ xs ++ back ++ sep :: ys).dropWhile isBlank = xs ++ pad ++ sep :: ys := by
  cases xs with
  | nil =>
    -- the separator is the first character that stays
    refine ⟨[], blank_nil, ?_⟩
    rw [List.append_nil]
    apply dropWhile_blank (hfront.append hback)
    rintro c ⟨⟩
    exact hsep
  | cons x xs =>
    refine ⟨back, hback, ?_⟩
    rw [List.append_assoc, List.append_assoc, List.append_assoc]
    exact dropWhile_blank hfront h.first

/-- Trimming two texts around a separator leaves white space between them and the separator only. -/
theorem exists_trim_around {front' back' : List Char} (hsep : isBlank sep = false)
    (hfront : Blank front) (hxs : Trimmed xs) (hback : Blank back) (hfront' : Blank front')
    (hys : Trimmed ys) (hback' : Blank back') :
    ∃ pad pad', Blank pad ∧ Blank pad' ∧
      trim (front ++ xs ++ back ++ sep :: (front' ++ ys ++ back')) =
        xs ++ pad ++ sep :: (pad' ++ ys) := by
  obtain ⟨pad, hpad, hbefore⟩ :=
    exists_dropWhile_before hsep hfront hxs hback (front' ++ ys ++ back')
  -- seen from behind, the second text stands in front of the separator
  obtain ⟨pad', hpad', hbehind⟩ :=
    exists_dropWhile_before hsep hback'.reverse hys.reverse hfront'.reverse (xs ++ pad).reverse
  refine ⟨pad, pad'.reverse, hpad, hpad'.reverse, ?_⟩
  have hturned : (xs ++ pad ++ sep :: (front' ++ ys ++ back')).reverse =
      back'.reverse ++ ys.reverse ++ front'.reverse ++ sep :: (xs ++ pad).reverse := by
    simp only [List.reverse_append, List.reverse_cons, List.append_assoc, List.cons_append,
      List.nil_append]
  rw [trim, hbefore, hturned, hbehind]
  simp only [List.reverse_append, List.reverse_cons, List.reverse_reverse, List.append_assoc,
    List.cons_append, List.nil_append]

theorem splitOnce_of_notMem (h : sep ∉ cs) : splitOnce sep cs = none := by
  induction cs with
  | nil => rfl
  | cons c cs ih =>
    rw [List.mem_cons, not_or] at h
    rw [splitOnce, if_neg (Ne.symm h.1), ih h.2]
    rfl

end Text

namespace AgentArguments

open Text (Blank Trimmed)

variable {e : String × String} {es : List (String × String)} {part : List Char}
  {parts : List (List Char)}

/-! ### Ways to write a map -/

/-- An entry that can be told in an argument string. -/
structure Tellable (e : String × String) : Prop where
  key_comma : ',' ∉ e.1.toList
  key_equals : '=' ∉ e.1.toList
  key_trimmed : Trimmed e.1.toList
  value_comma : ',' ∉ e.2.toList
  value_trimmed : Trimmed e.2.toList

instance (e : String × String) : Decidable (Tellable e) :=
  decidable_of_iff (',' ∉ e.1.toList ∧ '=' ∉ e.1.toList ∧ Trimmed e.1.toList ∧
      ',' ∉ e.2.toList ∧ Trimmed e.2.toList)
    ⟨fun h => ⟨h.1, h.2.1, h.2.2.1, h.2.2.2.1, h.2.2.2.2⟩,
      fun h => ⟨h.key_comma, h.key_equals, h.key_trimmed, h.value_comma, h.value_trimmed⟩⟩

/-- The part writes the entry: as key and value, or as the key alone when it is not empty and the
value is `true`. -/
inductive Writes : String × String → List Char → Prop where
  | pair (key value : String) {a b c d : List Char} (ha : Blank a) (hb : Blank b) (hc : Blank c)
    (hd : Blank d) : Writes (key, value) (a ++ key.toList ++ b ++ '=' :: (c ++ value.toList ++ d))
  | bare (key : String) {a b : List Char} (hkey : key ≠ "") (ha : Blank a) (hb : Blank b) :
    Writes (key, "true") (a ++ key.toList ++ b)

/-- The parts write the entries in their order, and the other parts are blank. -/
inductive Lists : List (String × String) → List (List Char) → Prop where
  | nil : Lists [] []
  | blank {es : List (String × String)} {part : List Char} {parts : List (List Char)}
    (hpart : Blank part) (hrest : Lists es parts) : Lists es (part :: parts)
  | entry {e : String × String} {es : List (String × String)} {part : List Char}
    {parts : List (List Char)} (hpart : Writes e part) (hrest : Lists es parts) :
    Lists (e :: es) (part :: parts)

/-! ### Reading it -/

/-- The entries that parts between commas stand for. -/
def ofParts (parts : List (List Char)) : List (String × String) :=
  ((parts.map Text.trim).filter fun part => !part.isEmpty).map entry

theorem ofParts_cons_of_blank (h : Text.trim part = []) (parts : List (List Char)) :
    ofParts (part :: parts) = ofParts parts := by
  simp [ofParts, h]

theorem ofParts_cons_of_ne_nil (h : Text.trim part ≠ []) (parts : List (List Char)) :
    ofParts (part :: parts) = entry (Text.trim part) :: ofParts parts := by
  simp [ofParts, h]

/-- However an entry is written, it is read as that entry. -/
theorem Writes.entry_trim (h : Writes e part) (he : Tellable e) :
    Text.trim part ≠ [] ∧ entry (Text.trim part) = e := by
  cases h with
  | pair key value ha hb hc hd =>
    obtain ⟨pad, pad', hpad, hpad', htrim⟩ := Text.exists_trim_around
      (show Text.isBlank '=' = false by decide) ha he.key_trimmed hb hc he.value_trimmed hd
    -- the first `=` is the one behind the key
    have hequals : '=' ∉ key.toList ++ pad := by
      rw [List.mem_append, not_or]
      exact ⟨he.key_equals, hpad.notMem (by decide)⟩
    have hkey : Text.trim (key.toList ++ pad) = key.toList :=
      Text.trim_padded Text.blank_nil he.key_trimmed hpad
    have hvalue : Text.trim (pad' ++ value.toList) = value.toList := by
      have hpadded := Text.trim_padded hpad' he.value_trimmed Text.blank_nil
      rwa [List.append_nil] at hpadded
    rw [htrim]
    refine ⟨by simp, ?_⟩
    rw [entry, Text.splitOnce_append hequals]
    dsimp only
    rw [hkey, hvalue, String.ofList_toList, String.ofList_toList]
  | bare key hkey ha hb =>
    rw [Text.trim_padded ha he.key_trimmed hb]
    refine ⟨fun hempty => hkey (String.toList_eq_nil_iff.1 hempty), ?_⟩
    rw [entry, Text.splitOnce_of_notMem he.key_equals]
    dsimp only
    rw [String.ofList_toList]

/-- No part reaches over a comma. -/
theorem Writes.comma_notMem (h : Writes e part) (he : Tellable e) : ',' ∉ part := by
  have hblank : ∀ {cs : List Char}, Blank cs → ',' ∉ cs := fun hcs => hcs.notMem (by decide)
  cases h with
  | pair key value ha hb hc hd =>
    have hkey := he.key_comma
    have hvalue := he.value_comma
    simp only [List.mem_append, List.mem_cons, not_or]
    exact ⟨⟨⟨hblank ha, hkey⟩, hblank hb⟩, by decide, ⟨hblank hc, hvalue⟩, hblank hd⟩
  | bare key hkey ha hb =>
    simp only [List.mem_append, not_or]
    exact ⟨⟨hblank ha, he.key_comma⟩, hblank hb⟩

/-- Parts are read as the entries that they write. -/
theorem Lists.ofParts_eq (h : Lists es parts) (hes : ∀ e ∈ es, Tellable e) :
    ofParts parts = es ∧ ∀ part ∈ parts, ',' ∉ part := by
  induction h with
  | nil => exact ⟨rfl, nofun⟩
  | blank hpart hrest ih =>
    obtain ⟨hread, hcomma⟩ := ih hes
    refine ⟨?_, List.forall_mem_cons.2 ⟨hpart.notMem (by decide), hcomma⟩⟩
    rw [ofParts_cons_of_blank (Text.trim_blank hpart), hread]
  | entry hpart hrest ih =>
    rw [List.forall_mem_cons] at hes
    obtain ⟨hread, hcomma⟩ := ih hes.2
    obtain ⟨hne, hentry⟩ := hpart.entry_trim hes.1
    refine ⟨?_, List.forall_mem_cons.2 ⟨hpart.comma_notMem hes.1, hcomma⟩⟩
    rw [ofParts_cons_of_ne_nil hne, hentry, hread]

theorem Lists.entries_joinWith (h : Lists es parts) (hes : ∀ e ∈ es, Tellable e) :
    entries (Text.joinWith ',' parts) = es := by
  obtain ⟨hread, hcomma⟩ := h.ofParts_eq hes
  cases h with
  | nil => decide
  | blank hpart hrest =>
    rw [entries, Text.splitOn_joinWith (List.cons_ne_nil _ _) hcomma]
    exact hread
  | entry hpart hrest =>
    rw [entries, Text.splitOn_joinWith (List.cons_ne_nil _ _) hcomma]
    exact hread

/-- A comma separates the entries in front of it from those behind it. -/
theorem entries_append (cs ds : List Char) : entries (cs ++ ',' :: ds) = entries cs ++ entries ds := by
  simp only [entries, Text.splitOn_append_sep, List.map_append, List.filter_append]

/-- **Arguments are read as they are written, and later ones override earlier ones.**

Take a map whose keys have no comma and no `=` in them and whose values have no comma, all of them
without white space at the ends. Put its entries in any order, write each of them in one of its ways,
and put blank parts anywhere between them: what is read is the map. And reading two argument strings
with a comma between them gives the map of the first one, overridden by the map of the second, so
that each key has the value which the second string gives it, or else that of the first. -/
theorem reads_back_and_composes :
    (∀ (m : SortedMap String) (es : List (String × String)) (parts : List (List Char)),
      SortedMap.Ascending m.entries → (∀ e ∈ m.entries, Tellable e) → es.Perm m.entries →
        Lists es parts → parse (String.ofList (Text.joinWith ',' parts)) = m) ∧
      ∀ a b : String, parse (a ++ "," ++ b) = (parse a).override (parse b) ∧
        ∀ key, (parse (a ++ "," ++ b)).get? key =
          ((parse b).get? key).or ((parse a).get? key) := by
  constructor
  · intro m es parts hm htellable hperm hlists
    have hread : entries (Text.joinWith ',' parts) = es := by
      apply hlists.entries_joinWith
      intro e he
      exact htellable e (hperm.mem_iff.1 he)
    -- the order in which the entries come does not matter, since no key comes twice
    have hfunctional : SortedMap.Functional es := by
      intro e he e' he'
      exact hm.functional e (hperm.mem_iff.1 he) e' (hperm.mem_iff.1 he')
    rw [parse, String.toList_ofList, hread,
      SortedMap.ofList_eq_ofList hfunctional fun e => hperm.mem_iff, SortedMap.ofList_entries hm]
  · intro a b
    have hcomposed : parse (a ++ "," ++ b) = (parse a).override (parse b) := by
      have htext : (a ++ "," ++ b).toList = a.toList ++ ',' :: b.toList := by
        rw [String.toList_append, String.toList_append, List.append_assoc]
        rfl
      rw [parse, htext, entries_append, SortedMap.ofList_append]
      rfl
    refine ⟨hcomposed, fun key => ?_⟩
    rw [hcomposed]
    exact SortedMap.get?_override (SortedMap.ascending_ofList _) (SortedMap.ascending_ofList _) key

/-- An empty key, a value with `=` in it and a bare word, out of order and with a blank part. -/
theorem reads_back_and_composes_outOfOrder :
    parse " z = a=b ,,\t= ,subtypes " = ⟨[("", ""), ("subtypes", "true"), ("z", "a=b")]⟩ := by
  have hz : Writes ("z", "a=b") " z = a=b ".toList :=
    .pair "z" "a=b" (a := [' ']) (b := [' ']) (c := [' ']) (d := [' ']) (by decide) (by decide)
      (by decide) (by decide)
  have hempty : Writes ("", "") "\t= ".toList :=
    .pair "" "" (a := ['\t']) (b := []) (c := [' ']) (d := []) (by decide) (by decide) (by decide)
      (by decide)
  have hbare : Writes ("subtypes", "true") "subtypes ".toList :=
    .bare "subtypes" (a := []) (b := [' ']) (by decide) (by decide) (by decide)
  refine reads_back_and_composes.1 ⟨[("", ""), ("subtypes", "true"), ("z", "a=b")]⟩
    [("z", "a=b"), ("", ""), ("subtypes", "true")]
    [" z = a=b ".toList, [], "\t= ".toList, "subtypes ".toList] ?_ (by decide) (by decide) ?_
  · show List.Pairwise _ _
    decide
  · exact .entry hz (.blank (by decide) (.entry hempty (.entry hbare .nil)))

end AgentArguments

end Reclass
