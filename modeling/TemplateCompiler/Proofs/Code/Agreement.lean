import TemplateCompiler.Diagnostic.Report
import TemplateCompiler.Proofs.Directive.Origin

/-! # What a compilation depends on

The options are asked about properties without a value only, and only about those of elements, which
are those of their tags. So options that agree on these give the same code. The name of the file
stands in reports only.
-/
namespace TemplateCompiler.Code
open Markup Directive

def AgreeOn (options options' : Options) (properties : Properties) : Prop :=
  ∀ name, (name, .flag) ∈ properties.toList →
    options.isBooleanAttribute name = options'.isBooleanAttribute name

/-- The options agree on the properties of every element among the entries, at any depth. -/
def Agree (options options' : Options) (entries : List Entry) : Prop :=
  ∀ tag properties children position,
    .element tag properties children position ∈ entriesInOrder entries →
    AgreeOn options options' properties

variable {options options' : Options} {entries more : List Entry}

theorem Agree.anti (h : Agree options options' more)
    (hs : entriesInOrder entries ⊆ entriesInOrder more) :
    Agree options options' entries := by
  intro tag properties children position he
  exact h tag properties children position (hs he)

namespace Writer

theorem property_congr {p : String × Value}
    (h : p.2 = .flag → options.isBooleanAttribute p.1 = options'.isBooleanAttribute p.1)
    (w : Writer) (indent : Nat) (faultAt : Cause → Fault) :
    w.property options indent faultAt p = w.property options' indent faultAt p := by
  obtain ⟨name, value⟩ := p
  cases value with
  | null => rfl
  | text content => rfl
  | flag => simp only [property, h rfl]

theorem properties_congr {pairs : List (String × Value)}
    (h : ∀ name, (name, .flag) ∈ pairs → options.isBooleanAttribute name =
      options'.isBooleanAttribute name)
    (w : Writer) (indent : Nat) (faultAt : Cause → Fault) :
    pairs.foldlM (fun w p => w.property options indent faultAt p) w =
      pairs.foldlM (fun w p => w.property options' indent faultAt p) w := by
  induction pairs generalizing w with
  | nil => rfl
  | cons p rest ih =>
    have hp : p.2 = .flag → options.isBooleanAttribute p.1 = options'.isBooleanAttribute p.1 := by
      intro hflag
      exact h p.1 (hflag ▸ List.mem_cons_self)
    have hrest := ih fun name hname => h name (List.mem_cons_of_mem p hname)
    simp only [List.foldlM_cons, property_congr hp, hrest]

mutual
theorem entry_congr (e : Entry) (h : Agree options options' [e]) (w : Writer) (indent : Nat) :
    w.entry options indent e = w.entry options' indent e := by
  have hinside : Agree options options' e.children :=
    h.anti (by simp [entriesInOrder, Entry.inOrder_eq])
  cases e with
  | text | raw | slot => rfl
  | when _ children | elseWhen _ children =>
    simp only [entry, entries_congr children hinside]
  | otherwise children => simp only [entry, entries_congr children hinside]
  | forEach _ children | inclusion _ _ children => simp only [entry, entries_congr children hinside]
  | element tag properties children position =>
    have hproperties : AgreeOn options options' properties :=
      h tag properties children position (by simp [entriesInOrder, Entry.inOrder])
    simp only [entry, properties_congr hproperties, entries_congr children hinside]

theorem entries_congr (es : List Entry) (h : Agree options options' es) (w : Writer)
    (indent : Nat) :
    w.entries options indent es = w.entries options' indent es := by
  cases es with
  | nil => rfl
  | cons e rest =>
    have he : Agree options options' [e] := h.anti (by simp [entriesInOrder])
    have hrest : Agree options options' rest := h.anti (by simp [entriesInOrder])
    simp only [entries, entry_congr e he, entries_congr rest hrest]
end

end Writer

theorem renderFunction_congr {template : Template} (h : Agree options options' template.body) :
    renderFunction template options = renderFunction template options' := by
  simp only [renderFunction, Writer.entries_congr template.body h]

end TemplateCompiler.Code

namespace TemplateCompiler
open Markup Directive Code Diagnostic

variable {source : String} {options options' : Options}

theorem compile_congr
    (h : ∀ nodes, parse source = .ok nodes → ∀ name properties children position,
      name ≠ directiveTag →
      .tag name properties children position ∈ allNodes nodes →
      AgreeOn options options' properties) :
    compile source options = compile source options' := by
  cases ht : template source with
  | error fault => simp only [compile, ht, bind, Except.bind]
  | ok t =>
    obtain ⟨nodes, hn, hnodes⟩ := bind_eq_ok.1 ht
    have hagree : Agree options options' t.body := by
      intro tag properties children position he
      obtain ⟨hne, kids, hkids, -⟩ := stem_of_ofNodes hnodes _ he
      exact h nodes hn tag properties kids position hne hkids
    simp only [compile, ht, bind, Except.bind, renderFunction_congr hagree]

/-- Neither the name of the file nor options that agree on the properties without a value of the
ordinary tags make a difference: the code is the same, or there are reports that differ in the file
alone. -/
theorem ofResult_compile_congr
    (h : ∀ nodes, parse source = .ok nodes → ∀ name properties children position,
      name ≠ directiveTag →
      .tag name properties children position ∈ allNodes nodes → AgreeOn options options' properties)
    (file file' : String) :
    (∃ code, Report.ofResult file (compile source options) = .ok code ∧
      Report.ofResult file' (compile source options') = .ok code) ∨
    ∃ report, Report.ofResult file (compile source options) = .error report ∧ report.file = file ∧
      Report.ofResult file' (compile source options') = .error { report with file := file' } := by
  rw [← compile_congr h]
  cases compile source options with
  | ok code => exact .inl ⟨code, rfl, rfl⟩
  | error fault => exact .inr ⟨.ofFault file fault, rfl, rfl, rfl⟩

def spreadsNothing : String := "<z hidden/><p disabled z-extract/>"

def hiddenToo : Options := ⟨["disabled", "hidden"]⟩

/-- Options that disagree on a directive without a value only, where the spread property has none
either. -/
theorem ofResult_compile_congr_spread :
    Options.isBooleanAttribute {} "hidden" ≠ hiddenToo.isBooleanAttribute "hidden" ∧
      parse spreadsNothing = .ok
        [.tag "z" (.ofList [("hidden", .flag)]) [] .start,
          .tag "p" (.ofList [("disabled", .flag), ("z-extract", .flag)]) [] ⟨11, 1, 12⟩] ∧
      ∃ report, Report.ofResult "a.html" (compile spreadsNothing {}) = .error report ∧
      report.file = "a.html" ∧
        Report.ofResult "b.html" (compile spreadsNothing hiddenToo) =
          .error { report with file := "b.html" } := by
  have hn : parse spreadsNothing = .ok
      [.tag "z" (.ofList [("hidden", .flag)]) [] .start,
        .tag "p" (.ofList [("disabled", .flag), ("z-extract", .flag)]) [] ⟨11, 1, 12⟩] := by
    with_unfolding_all rfl
  have hfault : compile spreadsNothing {} =
      .error ⟨.propertyWithoutValue "z-extract", ⟨11, 1, 12⟩, "<p disabled z-extract>"⟩ := by
    rw [compile, template, hn]
    with_unfolding_all rfl
  refine ⟨by decide, hn, ?_⟩
  have hagree : ∀ nodes, parse spreadsNothing = .ok nodes → ∀ name properties children position,
      name ≠ directiveTag → .tag name properties children position ∈ allNodes nodes →
        AgreeOn {} hiddenToo properties := by
    intro nodes hnodes name properties children position hne hmem
    rw [hn] at hnodes
    cases hnodes
    simp only [allNodes_tag, allNodes_nil, List.nil_append, List.mem_cons, Node.tag.injEq,
      List.not_mem_nil, or_false] at hmem
    rcases hmem with ⟨rfl, -⟩ | ⟨-, rfl, -⟩
    · exact absurd rfl hne
    · intro property hproperty
      have hproperty : (property, .flag) ∈ [("disabled", Value.flag), ("z-extract", .flag)] :=
        hproperty
      simp only [List.mem_cons, Prod.mk.injEq, and_true, List.not_mem_nil, or_false] at hproperty
      rcases hproperty with rfl | rfl
      · decide
      · decide
  rcases ofResult_compile_congr hagree "a.html" "b.html" with ⟨code, hok, -⟩ | hreport
  · rw [hfault] at hok
    cases hok
  · exact hreport

end TemplateCompiler
