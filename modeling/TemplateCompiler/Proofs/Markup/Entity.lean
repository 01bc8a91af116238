import Mathlib.Data.List.Basic
import TemplateCompiler.Markup.Entity
import TemplateCompiler.Proofs.Text.Occurrence

/-! # Entities are decoded in one scan

`scan` goes over a text once and puts its character for every entity of a table that it meets. A
pass that decodes one more entity may follow, if the characters put so far neither begin that entity
nor stand in its name: then the text has no occurrence of it but those of the beginning. So the
passes together are one scan, in which nothing is decoded twice. It gives back an escaped value, but
for its apostrophes, whose entity is not decoded.
-/
namespace TemplateCompiler.Markup
open Text

def apostropheEntity : Char → List Char
  | '\'' => "&apos;".toList
  | c => [c]

def escapeApostrophes (text : String) :
    String := String.ofList (text.toList.flatMap apostropheEntity)

def decoded : List Char := ['<', '>', '"', '&']

def namedCharacters :
    List (String × Char) := [("lt;", '<'), ("gt;", '>'), ("quot;", '"'), ("amp;", '&')]

/-- The character of the entity whose ampersand stands before the text, and what is behind that
entity. -/
def named? (table : List (String × Char)) (text : List Char) : Option (Char × List Char) :=
  table.findSome? fun entity => (dropPrefix? entity.1.toList text).map fun rest => (entity.2, rest)

section Scan

variable {table : List (String × Char)} {name : String} {c d : Char} {text rest : List Char}

theorem named?_eq_some (h : named? table text = some (c, rest)) :
    ∃ entity ∈ table, entity.2 = c ∧ text = entity.1.toList ++ rest := by
  obtain ⟨entity, hm, hfound⟩ := List.exists_of_findSome?_eq_some h
  obtain ⟨behind, hdrop, hpair⟩ := Option.map_eq_some_iff.1 hfound
  cases hpair
  exact ⟨entity, hm, rfl, dropPrefix?_eq_some_iff.1 hdrop⟩

theorem length_named? (h : named? table text = some (c, rest)) : rest.length ≤ text.length := by
  obtain ⟨entity, -, -, rfl⟩ := named?_eq_some h
  rw [List.length_append]
  omega

/-- The text with its character for every entity of the table met from left to right. -/
def scan (table : List (String × Char)) : List Char → List Char
  | [] => []
  | c :: text =>
    if c = '&' then
      match h : named? table text with
      | some (d, rest) =>
        have := length_named? h
        d :: scan table rest
      | none => '&' :: scan table text
    else c :: scan table text
termination_by text => text.length

theorem scan_nil (table : List (String × Char)) : scan table [] = [] := by rw [scan]

theorem scan_named (h : named? table text = some (c, rest)) :
    scan table ('&' :: text) = c :: scan table rest := by
  rw [scan, if_pos rfl]
  split
  · next h' =>
    rw [h] at h'
    cases h'
    rfl
  · next h' =>
    rw [h] at h'
    cases h'

theorem scan_ampersand (h : named? table text = none) :
    scan table ('&' :: text) = '&' :: scan table text := by
  rw [scan, if_pos rfl]
  split
  · next h' =>
    rw [h] at h'
    cases h'
  · rfl

theorem scan_plain (hc : c ≠ '&') : scan table (c :: text) = c :: scan table text := by
  rw [scan, if_neg hc]

theorem scan_plains {front : List Char} (h : '&' ∉ front) :
    scan table (front ++ text) = front ++ scan table text := by
  induction front with
  | nil => rfl
  | cons c front ih =>
    rw [List.mem_cons, not_or] at h
    rw [List.cons_append, scan_plain (Ne.symm h.1), ih h.2, List.cons_append]

theorem scan_empty (text : List Char) : scan [] text = text := by
  induction text with
  | nil => exact scan_nil []
  | cons c text ih =>
    by_cases hc : c = '&'
    · rw [hc, scan_ampersand rfl, ih]
    · rw [scan_plain hc, ih]

/-- No character of the table begins an entity or stands in the name, and the name has no
ampersand. -/
structure Apart (table : List (String × Char)) (name : List Char) : Prop where
  plain : '&' ∉ name
  ampersand : ∀ entity ∈ table, entity.2 ≠ '&'
  character : ∀ entity ∈ table, entity.2 ∉ name

/-- The name of an entity does not arise in the scan. -/
theorem prefix_of_prefix_scan {name : List Char} (h : Apart table name)
    (hp : name <+: scan table text) :
    name <+: text := by
  induction name generalizing text with
  | nil => exact List.nil_prefix
  | cons n name ih =>
    have htail : Apart table name :=
      ⟨fun hm => h.plain (List.mem_cons_of_mem n hm), h.ampersand,
        fun entity he hm => h.character entity he (List.mem_cons_of_mem n hm)⟩
    cases text with
    | nil =>
      rw [scan_nil] at hp
      exact hp
    | cons c text =>
      by_cases hc : c = '&'
      · subst hc
        cases hnamed : named? table text with
        | none =>
          rw [scan_ampersand hnamed, List.cons_prefix_cons] at hp
          exact absurd (hp.1 ▸ List.mem_cons_self) h.plain
        | some found =>
          obtain ⟨entity, he, hchar, -⟩ := named?_eq_some hnamed
          rw [scan_named hnamed, List.cons_prefix_cons] at hp
          exact absurd (hchar ▸ hp.1 ▸ List.mem_cons_self) (h.character entity he)
      · rw [scan_plain hc, List.cons_prefix_cons] at hp
        exact List.cons_prefix_cons.2 ⟨hp.1, ih htail hp.2⟩

theorem named?_append (table : List (String × Char)) (name : String) (c : Char) (text : List Char) :
    named? (table ++ [(name, c)]) text =
      (named? table text).or ((dropPrefix? name.toList text).map fun rest => (c, rest)) := by
  rw [named?, List.findSome?_append, List.findSome?_singleton]
  rfl

theorem replaceAll_plain {name new : List Char} (hc : c ≠ '&') :
    replaceAll ('&' :: name) new (c :: rest) = c :: replaceAll ('&' :: name) new rest :=
  replaceAll_cons new (by simp [dropPrefix?, hc.symm])

/-- A pass for one more entity behind a scan is a scan for it as well. -/
theorem replaceAll_scan (h : Apart table name.toList) (c : Char) (text : List Char) :
    replaceAll ('&' :: name.toList) [c] (scan table text) = scan (table ++ [(name, c)]) text := by
  fun_induction scan (table ++ [(name, c)]) text with
  | case1 => rw [scan_nil, replaceAll_nil]
  | case2 text d rest hnamed _ ih =>
    rw [named?_append, Option.or_eq_some_iff] at hnamed
    rcases hnamed with hnamed | ⟨hnone, hpass⟩
    · obtain ⟨entity, he, rfl, -⟩ := named?_eq_some hnamed
      rw [scan_named hnamed, replaceAll_plain (h.ampersand entity he), ih]
    · obtain ⟨behind, hdrop, hpair⟩ := Option.map_eq_some_iff.1 hpass
      cases hpair
      obtain rfl := dropPrefix?_eq_some_iff.1 hdrop
      rw [scan_ampersand hnone, scan_plains h.plain, ← List.cons_append,
        replaceAll_append (List.cons_ne_nil _ _), ih]
      rfl
  | case3 text hnamed ih =>
    rw [named?_append, Option.or_eq_none_iff, Option.map_eq_none_iff] at hnamed
    have hpass : dropPrefix? ('&' :: name.toList) ('&' :: scan table text) = none := by
      rw [Option.eq_none_iff_forall_ne_some]
      intro rest hrest
      have hscanned : name.toList <+: scan table text :=
        ⟨rest, (List.cons.inj (dropPrefix?_eq_some_iff.1 hrest)).2.symm⟩
      obtain ⟨behind, hbehind⟩ := prefix_of_prefix_scan h hscanned
      rw [dropPrefix?_eq_some_iff.2 hbehind.symm] at hnamed
      cases hnamed.2
    rw [scan_ampersand hnamed.1, replaceAll_cons [c] hpass, ih]
  | case4 d text hd ih => rw [scan_plain hd, replaceAll_plain hd, ih]

theorem scan_flatMap {block out : Char → List Char}
    (h : ∀ c rest, scan table (block c ++ rest) = out c ++ scan table rest) (text : List Char) :
    scan table (text.flatMap block) = text.flatMap out := by
  induction text with
  | nil => exact scan_nil table
  | cons c text ih => rw [List.flatMap_cons, List.flatMap_cons, h, ih]

end Scan

/-! ## The passes -/

theorem decodeEntities_scan (value : List Char) :
    decodeEntities value = scan namedCharacters value := by
  have hpasses : decodeEntities value =
      replaceAll ('&' :: "amp;".toList) ['&'] (replaceAll ('&' :: "quot;".toList) ['"']
        (replaceAll ('&' :: "gt;".toList) ['>'] (replaceAll ('&' :: "lt;".toList) ['<']
          (scan [] value)))) := by
    rw [scan_empty]
    rfl
  rw [hpasses, replaceAll_scan ⟨by decide, by decide, by decide⟩,
    replaceAll_scan ⟨by decide, by decide, by decide⟩,
    replaceAll_scan ⟨by decide, by decide, by decide⟩,
    replaceAll_scan ⟨by decide, by decide, by decide⟩]
  rfl

theorem scan_entity {name : String} {c : Char} (h : (name, c) ∈ namedCharacters)
    (rest : List Char) :
    scan namedCharacters ('&' :: name.toList ++ rest) = c :: scan namedCharacters rest := by
  refine scan_named ?_
  simp only [namedCharacters, List.mem_cons, List.not_mem_nil, or_false, Prod.mk.injEq] at h
  rcases h with ⟨rfl, rfl⟩ | ⟨rfl, rfl⟩ | ⟨rfl, rfl⟩ | ⟨rfl, rfl⟩
  · rfl
  · rfl
  · rfl
  · rfl

theorem scan_textEntity (c : Char) (rest : List Char) :
    scan namedCharacters (textEntity c ++ rest) = [c] ++ scan namedCharacters rest := by
  have hamp : ("amp;", '&') ∈ namedCharacters := by decide
  have hlt : ("lt;", '<') ∈ namedCharacters := by decide
  have hgt : ("gt;", '>') ∈ namedCharacters := by decide
  unfold textEntity
  split
  · exact scan_entity hamp rest
  · exact scan_entity hlt rest
  · exact scan_entity hgt rest
  · next hc _ _ => exact scan_plain hc

theorem scan_propertyEntity (c : Char) (rest : List Char) :
    scan namedCharacters (propertyEntity c ++ rest) = apostropheEntity c ++
      scan namedCharacters rest := by
  have hquot : ("quot;", '"') ∈ namedCharacters := by decide
  have hplain : '&' ∉ "apos;".toList := by decide
  unfold propertyEntity
  split
  · exact scan_entity hquot rest
  · have hnone : named? namedCharacters ("apos;".toList ++ rest) = none := rfl
    exact (scan_ampersand hnone).trans (congrArg ('&' :: ·) (scan_plains hplain))
  · next hc =>
    rw [scan_textEntity]
    unfold apostropheEntity
    split
    · exact absurd rfl hc
    · rfl

/-- Decoding gives back an escaped value, but for its apostrophes. -/
theorem decodeEntities_propertyEntity (text : List Char) :
    decodeEntities (text.flatMap propertyEntity) = text.flatMap apostropheEntity := by
  rw [decodeEntities_scan, scan_flatMap scan_propertyEntity]

theorem decodeEntities_textEntity (text : List Char) :
    decodeEntities (text.flatMap textEntity) = text := by
  rw [decodeEntities_scan, scan_flatMap scan_textEntity, List.flatMap_singleton']

theorem decodeEntities_plain {value : List Char} (h : '&' ∉ value) :
    decodeEntities value = value := by
  have hscan : scan namedCharacters (value ++ []) = value ++ scan namedCharacters [] :=
    scan_plains h
  rwa [scan_nil, List.append_nil, ← decodeEntities_scan] at hscan

/-- The passes decode what one scan decodes, whether or not they are left out of a value without an
ampersand, and they give back what has been escaped. -/
theorem decodeEntities_eq_scan (value : List Char) (text : String) :
    decodeEntities value = scan namedCharacters value ∧
      (if '&' ∈ value then decodeEntities value else value) = scan namedCharacters value ∧
      String.ofList (decodeEntities (escapeText text).toList) = text ∧
      String.ofList (decodeEntities (escapeProperty text).toList) = escapeApostrophes text := by
  refine ⟨decodeEntities_scan value, ?_, ?_, ?_⟩
  · split
    · exact decodeEntities_scan value
    · next hplain => rw [← decodeEntities_scan, decodeEntities_plain hplain]
  · rw [escapeText, String.toList_ofList, decodeEntities_textEntity, String.ofList_toList]
  · rw [escapeProperty, String.toList_ofList, decodeEntities_propertyEntity, escapeApostrophes]

/-- An escaped ampersand before a name is not decoded a second time. -/
example : decodeEntities "&amp;amp;lt; &ampamp; &&lt;".toList = "&amp;lt; &ampamp; &<".toList := by
  with_unfolding_all rfl

/-! ## Escaped values -/

theorem escapeApostrophes_eq_self {text : String} (h : '\'' ∉ text.toList) :
    escapeApostrophes text = text := by
  have hself : ∀ c ∈ text.toList, apostropheEntity c = [c] := by
    intro c hc
    unfold apostropheEntity
    split
    · exact absurd hc h
    · rfl
  rw [escapeApostrophes, List.flatMap_congr hself, List.flatMap_singleton', String.ofList_toList]

theorem quote_notMem_propertyEntity (text : List Char) : '"' ∉ text.flatMap propertyEntity := by
  intro h
  obtain ⟨c, -, hc⟩ := List.mem_flatMap.1 h
  unfold propertyEntity textEntity at hc
  split at hc
  · exact absurd hc (by decide)
  · exact absurd hc (by decide)
  · next hquote _ =>
    split at hc
    · exact absurd hc (by decide)
    · exact absurd hc (by decide)
    · exact absurd hc (by decide)
    · exact hquote (List.mem_singleton.1 hc).symm

end TemplateCompiler.Markup
