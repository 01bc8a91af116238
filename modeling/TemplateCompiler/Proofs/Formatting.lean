import TemplateCompiler.Compile
import TemplateCompiler.Proofs.Directive.Unplaced
import TemplateCompiler.Proofs.Markup.Gap

/-! # Formatting between constructs does not change the code

Documents that differ in a gap are read alike, alike documents stand for templates that differ in
places only, and places have no part in the code of a function that is generated.
-/
namespace TemplateCompiler
open Markup Directive Code

namespace Code.Writer

/-- Whether a property can be written does not depend on what would be blamed. -/
theorem property_eq_ok_iff {options : Options} {indent : Nat} {faultAt faultAt' : Cause → Fault}
    {p : String × Value} {w v : Writer} :
    w.property options indent faultAt p = .ok v ↔ w.property options indent faultAt' p = .ok v := by
  obtain ⟨name, value⟩ := p
  cases value with
  | null => rfl
  | text content => rfl
  | flag =>
    simp only [property]
    by_cases hs : name = spreadProperty
    · simp [hs]
    · simp [hs]

theorem properties_eq_ok_iff {options : Options} {indent : Nat} {faultAt faultAt' : Cause → Fault}
    {properties : List (String × Value)} {w v : Writer} :
    properties.foldlM (fun w p => w.property options indent faultAt p) w = .ok v ↔
      properties.foldlM (fun w p => w.property options indent faultAt' p) w = .ok v := by
  induction properties generalizing w with
  | nil => rfl
  | cons p rest ih =>
    simp only [List.foldlM_cons, bind_eq_ok, ih]
    constructor
    · rintro ⟨u, hu, h⟩
      exact ⟨u, property_eq_ok_iff.1 hu, h⟩
    · rintro ⟨u, hu, h⟩
      exact ⟨u, property_eq_ok_iff.1 hu, h⟩

mutual
theorem entry_unplaced {options : Options} (e : Entry) (w v : Writer) (indent : Nat) :
    w.entry options indent e.unplaced = .ok v ↔ w.entry options indent e = .ok v := by
  cases e with
  | text content | raw content | slot slot => rfl
  | when condition children | elseWhen condition children | otherwise children
  | forEach head children =>
    simp only [Entry.unplaced, entry, bind_eq_ok, entries_unplaced children]
  | inclusion file arguments children =>
    have hempty : (unplacedAll children).isEmpty = children.isEmpty := by cases children <;> rfl
    simp only [Entry.unplaced, entry, hempty]
    split
    · rfl
    · simp only [bind_eq_ok, entries_unplaced children]
  | element tag properties children position =>
    have hempty : (unplacedAll children).isEmpty = children.isEmpty := by cases children <;> rfl
    simp only [Entry.unplaced, entry, hempty]
    split
    · simp
    · simp only [bind_eq_ok]
      refine exists_congr fun u => and_congr properties_eq_ok_iff ?_
      split
      · rfl
      · simp only [bind_eq_ok, entries_unplaced children]

theorem entries_unplaced {options : Options} (es : List Entry) (w v : Writer) (indent : Nat) :
    w.entries options indent (unplacedAll es) = .ok v ↔ w.entries options indent es = .ok v := by
  cases es with
  | nil => rfl
  | cons e rest => simp only [unplacedAll, entries, bind_eq_ok, entry_unplaced e,
    entries_unplaced rest]
end

end Code.Writer

theorem Code.renderFunction_alike {t t' : Template} (h : t.Alike t') {options : Options}
    {code : String} :
    renderFunction t options = .ok code ↔ renderFunction t' options = .ok code := by
  have hpreamble : preamble t = preamble t' := by simp only [preamble, h.uses]
  simp only [renderFunction, bind_eq_ok, hpreamble, h.doctype]
  refine exists_congr fun w => and_congr_left fun _ => ?_
  rw [← Writer.entries_unplaced t.body, h.body, Writer.entries_unplaced]

theorem compile_eq_ok_iff {source : String} {options : Options} {code : String} :
    compile source options = .ok code ↔
      ∃ nodes t, parse source = .ok nodes ∧ Template.ofNodes nodes = .ok t ∧
        renderFunction t options = .ok code := by
  simp only [compile, template, bind_eq_ok]
  constructor
  · rintro ⟨t, ⟨nodes, hn, ht⟩, hc⟩
    exact ⟨nodes, t, hn, ht, hc⟩
  · rintro ⟨nodes, t, hn, ht, hc⟩
    exact ⟨t, ⟨nodes, hn, ht⟩, hc⟩

/-- The code of a source does not change with the layout and the comments of a gap, as long as the
gap keeps layout if it has any and gets none if it has none. -/
theorem compile_gap {source : String} {before gap gap' behind : List Char} {spaced : Bool}
    (h : HasGap source before gap behind spaced) (hg' : Filler spaced gap') (options : Options)
    (code : String) :
    compile source options = .ok code ↔
      compile (String.ofList (before ++ (gap' ++ behind))) options = .ok code := by
  obtain ⟨hto, hfrom⟩ := parse_gap h hg'
  rw [compile_eq_ok_iff, compile_eq_ok_iff]
  constructor
  · rintro ⟨nodes, t, hn, ht, hc⟩
    obtain ⟨nodes', hn', halike⟩ := hto nodes hn
    obtain ⟨t', ht', htt⟩ := ofNodes_alike halike ht
    exact ⟨nodes', t', hn', ht', (renderFunction_alike htt).1 hc⟩
  · rintro ⟨nodes', t', hn', ht', hc⟩
    obtain ⟨nodes, hn, halike⟩ := hfrom nodes' hn'
    obtain ⟨t, ht, htt⟩ := ofNodes_alike halike.symm ht'
    exact ⟨nodes, t, hn, ht, (renderFunction_alike htt).1 hc⟩

/-- A line break instead of a space and a comment behind `<p>`. -/
theorem compile_gap_paragraph :
    HasGap "<p> <!--a-->x</p>" "<p>".toList " <!--a-->".toList "x</p>".toList true ∧
      Filler true "\n".toList ∧
      ∀ code, compile "<p> <!--a-->x</p>" {} = .ok code ↔ compile "<p>\nx</p>" {} = .ok code := by
  have hcomment : Text.FirstAt ['-', '-', '>'] ['a'] := by
    refine Text.firstAt_cons (Text.firstAt_nil _) fun rest => ?_
    simp
  have hgap : HasGap "<p> <!--a-->x</p>" "<p>".toList " <!--a-->".toList "x</p>".toList true := by
    refine ⟨rfl, ⟨⟨⟨" <!--a-->x</p>".toList, ⟨3, 1, 4⟩⟩, [], [⟨"p", .empty, .start, []⟩]⟩,
      .inr ⟨Reader.ofSource "<p> <!--a-->x</p>", .refl _, rfl, ?_⟩, rfl⟩,
      .layout rfl (.comment hcomment .nil), ?_⟩
    · with_unfolding_all rfl
    · intro c hc
      cases hc
      rfl
  exact ⟨hgap, .layout rfl .nil, compile_gap hgap (.layout rfl .nil) {}⟩

end TemplateCompiler
